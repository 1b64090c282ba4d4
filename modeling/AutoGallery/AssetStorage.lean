import AutoGallery.AssetReconciliation
import Mathlib.Logic.Function.Basic

/-!
# The storage effects of a merge

A merge only writes rows.  For every other member than the representative it leaves an
event in the outbox: the file of an exact copy is to be replaced by a hard link to the
representative's, the file of a variant is to be moved to the quarantine directory and,
after a time, to be removed from there.

A worker takes one event at a time.  The files are no part of its transactions: every look
at a file, every operation on one and every transaction is a step of its own, the steps of
other workers and of the reconciliation come in between, and a worker may stop for good
before any of its steps.  The event of a worker that has stopped is delivered again after
a quarter of an hour, and so is the event of a worker that takes longer than that.

No step writes into a file.  A file system is what inode each path leads to.
-/

namespace AssetStorage

open AssetReconciliation PyText Function

/-- What the workers find and never change: the assets, the contents of the inodes, and the
functions of other modules. -/
structure Host (Content : Type) where
  library : Library
  /-- the content of an inode -/
  data : Nat → Content
  /-- `st_dev` of an inode -/
  device : Nat → Nat
  /-- `st_size` -/
  size : Content → Nat
  sha256 : Content → Text
  /-- `versioned_phash_distance` of the columns of both assets -/
  versionedPhashDistance : Asset → Asset → Option Nat
  structuralSimilarity : Content → Content → Rat

inductive StorageError
  | ownSubject
  | subjectMissing
  | groupChanged
  | notMembers
  | outsideScope (reason : DedupError)
  | servedByChanged
  | hardlinkMissing
  | hashChanged
  | otherFilesystem
  | representativeMissing
  | candidateMissing
  | candidateChanged
  | representativeChanged
  | phashGate
  | ssimGate
  | purgeRepresentativeMissing
  | purgeRepresentativeChanged
  | notQuarantined
  | retention
  | quarantineMissing
  | noVerificationHash
  | quarantineChanged
  | rowMissing
  /-- what the operating system or the database raises -/
  | unavailable
  deriving DecidableEq

/-- The text that the exception is raised with. -/
def StorageError.message : StorageError → Text
  | ownSubject => "Representative cannot be its own storage subject".toList
  | subjectMissing => "Asset storage subject no longer exists".toList
  | groupChanged => "Visual group or representative changed; refusing storage action".toList
  | notMembers => "Storage subjects are no longer members of the visual group".toList
  | outsideScope reason => reason.message
  | servedByChanged => "Asset storage representative changed; refusing storage action".toList
  | hardlinkMissing => "Hardlink source or representative is missing".toList
  | hashChanged => "SHA-256 changed before hardlink replacement".toList
  | otherFilesystem => "Assets are on different filesystems; hardlink skipped".toList
  | representativeMissing => "Representative file is missing".toList
  | candidateMissing => "Candidate file is missing from source and quarantine".toList
  | candidateChanged => "Candidate bytes changed before quarantine".toList
  | representativeChanged => "Representative bytes changed before quarantine".toList
  | phashGate => "pHash no longer passes the visual gate".toList
  | ssimGate => "SSIM no longer passes the visual gate".toList
  | purgeRepresentativeMissing => "Representative file is missing; refusing purge".toList
  | purgeRepresentativeChanged => "Representative bytes changed; refusing purge".toList
  | notQuarantined => "Asset is not safely quarantined".toList
  | retention => "Quarantine retention has not elapsed".toList
  | quarantineMissing => "Quarantined candidate is missing; refusing purge".toList
  | noVerificationHash => "Quarantined candidate has no verification hash".toList
  | quarantineChanged => "Quarantined candidate bytes changed; refusing purge".toList
  | rowMissing => "No row was found when one was required".toList
  | unavailable => []

/-! ### Paths -/

/-- The quarantine directory, the id and the file name of the asset. -/
def quarantinePath (L : Library) (asset : Asset) : Text :=
  ".dedup-quarantine/".toList ++ L.idText asset.id ++ "/".toList ++ asset.fileName

/-- `source_path.with_name(f".{source_path.name}.dedup-{event['id']}")`. -/
def temporaryPath (L : Library) (asset : Asset) (event : Nat) : Text :=
  asset.filePath.rdropWhile (· ≠ '/') ++ ".".toList ++ asset.filePath.rtakeWhile (· ≠ '/') ++
    ".dedup-".toList ++ L.idText event

/-- `os.replace`.  It does nothing if both paths lead to the same inode. -/
def replace (files : Text → Option Nat) (source target : Text) : Text → Option Nat :=
  if files source = files target then files
  else update (update files target (files source)) source none

/-! ### Deliveries -/

/-- What `_claim_outbox_event` returns. -/
structure Delivery where
  id : Nat
  eventType : EventType
  payload : EventPayload
  attempts : Nat
  deriving DecidableEq

/-- The limits that the evidence was found with. -/
structure Thresholds where
  phashMaxDistance : Nat
  ssimMinScore : Rat
  quarantineDays : Nat
  deriving DecidableEq

def Thresholds.default : Thresholds := ⟨4, 98 / 100, 30⟩

def thresholds (db : Database) (evidence : Nat) : Thresholds :=
  match db.evidence.find? (·.id = evidence) with
  | none => .default
  | some row =>
    ⟨row.facts.phashMaxDistance, row.facts.ssimMinScore, row.facts.quarantineDays⟩

/-- The step that comes next, with what was found before it. -/
inductive Point
  -- `_run_hardlink`
  | linkSource
  | linkRepresentative (sourceHash : Text)
  | linkStat
  | linkTemporary (reclaimed : Nat)
  | link (reclaimed : Nat)
  | linkReplace (reclaimed : Nat)
  | linkCommit (reclaimed : Nat)
  -- `_run_quarantine`
  | visualRepresentative
  | visualCandidate (limits : Thresholds)
  | visualHash (limits : Thresholds) (fromSource : Bool)
  | visualGate (limits : Thresholds) (fromSource : Bool) (candidateHash : Text)
  | visualMove (quarantineDays : Nat) (candidateHash : Text)
  | visualCommit (quarantineDays : Nat) (candidateHash : Text)
  -- `_run_purge`
  | purgeRepresentative
  | purgeRow
  | purgeFile (row : Storage) (path : Text)
  | purgeUnlink (row : Storage) (path : Text) (reclaimed : Nat)
  | purgeCommit (row : Storage) (reclaimed : Nat)
  deriving DecidableEq

/-- What a worker is at. -/
inductive Job
  | claimed (delivery : Delivery)
  | running (delivery : Delivery) (asset representative : Asset) (point : Point)
  | ended (delivery : Delivery) (error : Option StorageError)
  deriving DecidableEq

/-- Where the work on an event begins. -/
def firstPoint : EventType → Point
  | .hardlink => .linkSource
  | .quarantine => .visualRepresentative
  | .purge => .purgeRepresentative

structure State where
  db : Database
  files : Text → Option Nat
  workers : Nat → Option Job

/-! ### The transactions on the outbox -/

/-- An event that is due, or whose worker was not heard of for a quarter of an hour. -/
def Claimable (now : Nat) (event : Event) : Prop :=
  (event.state = .pending ∨ event.state = .failed) ∧ event.availableAt ≤ now ∨
    event.state = .processing ∧ event.updatedAt + 900 ≤ now

instance (now : Nat) (event : Event) : Decidable (Claimable now event) :=
  inferInstanceAs (Decidable (_ ∧ _ ∨ _ ∧ _))

def claimEvent (db : Database) (event : Event) (now : Nat) : Database :=
  { db with
    outbox := db.outbox.map fun row =>
      if row.id = event.id then
        { row with state := .processing, attempts := row.attempts + 1, updatedAt := now }
      else row }

/-- `_finish_event`, or `_fail_event` with an error. -/
def endEvent (db : Database) (delivery : Delivery) (error : Option StorageError) (now : Nat) :
    Database :=
  { db with
    outbox := db.outbox.map fun row =>
      if row.id = delivery.id ∧ row.state = .processing ∧ row.attempts = delivery.attempts then
        match error with
        | none => { row with state := .complete, updatedAt := now }
        | some _ =>
          { row with
            state := .failed
            availableAt := now + min 3600 (30 * 2 ^ min delivery.attempts 7)
            updatedAt := now }
      else row }

/-! ### The work on one event -/

def setStorage (db : Database) (asset : Nat) (row : Storage) : Database :=
  { db with storage := update db.storage asset (some row) }

/-- `_load_storage_subjects`. -/
def loadStorageSubjects (L : Library) (db : Database) (payload : EventPayload) :
    Except StorageError (Database × Asset × Asset) :=
  if payload.asset = payload.representative then .error .ownSubject
  else
    match L.assets.find? (·.id = payload.asset), L.assets.find? (·.id = payload.representative) with
    | some asset, some representative =>
      match db.groups.find? (·.id = payload.group) with
      | none => .error .groupChanged
      | some group =>
        if group.representative ≠ payload.representative then .error .groupChanged
        else if payload.asset ∉ db.memberIds payload.group ∨
            payload.representative ∉ db.memberIds payload.group then .error .notMembers
        else
          match L.groupScope (db.memberIds payload.group) with
          | .error reason => .error (.outsideScope reason)
          | .ok () =>
            match db.storage payload.asset with
            | none =>
              let row := { Storage.inserted with servedBy := some payload.representative }
              .ok (setStorage db payload.asset row, asset, representative)
            | some row =>
              if row.servedBy ≠ some payload.representative then .error .servedByChanged
              else .ok (db, asset, representative)
    | _, _ => .error .subjectMissing

/-- `recorded and hash != recorded`. -/
def Differs (recorded : Option Text) (hash : Text) : Prop :=
  recorded.getD [] ≠ [] ∧ recorded ≠ some hash

instance (recorded : Option Text) (hash : Text) : Decidable (Differs recorded hash) :=
  inferInstanceAs (Decidable (_ ∧ _))

/-- `file_size or st_size`. -/
def fileSizeOr (asset : Asset) (size : Nat) : Nat :=
  if asset.fileSize.getD 0 = 0 then size else asset.fileSize.getD 0

/-- The row of an asset that is now a hard link. -/
def hardlinkedRow (row : Storage) (representative : Asset) (reclaimed : Nat) : Storage :=
  { row with
    storageState := .hardlinked
    dedupKind := some .exactSha256
    servedBy := some representative.id
    bytesReclaimed := max row.bytesReclaimed reclaimed }

/-- The row of an asset that is now in quarantine. -/
def quarantinedRow (L : Library) (row : Storage) (asset representative : Asset) (days now : Nat)
    (hash : Text) : Storage :=
  let quarantinedAt := row.quarantinedAt.getD now
  { row with
    storageState := .quarantined
    dedupKind := some .visual
    servedBy := some representative.id
    quarantinePath := some (quarantinePath L asset)
    quarantineSha256 := some hash
    quarantinedAt := some quarantinedAt
    purgeAfter := some (row.purgeAfter.getD (quarantinedAt + days * 86400)) }

/-- The purge event of a quarantined asset, if there is none yet. -/
def purgeEvents (db : Database) (payload : EventPayload) (asset representative : Asset)
    (purgeAfter : Option Nat) (now : Nat) : List Event :=
  if ∃ event ∈ db.outbox, event.key = .purge asset.id representative.id then []
  else
    [{ id := db.nextId
       key := .purge asset.id representative.id
       eventType := .purge
       payload
       state := .pending
       attempts := 0
       availableAt := purgeAfter.getD now
       updatedAt := now }]

/-- The row of an asset that is purged.  The reclaimed bytes were computed from the row as it
was read. -/
def purgedRow (row read : Storage) (reclaimed : Nat) : Storage :=
  { row with storageState := .purged, bytesReclaimed := max read.bytesReclaimed reclaimed }

/-- The transaction at the end of `_run_quarantine`. -/
def quarantineCommit (L : Library) (db : Database) (payload : EventPayload) (row : Storage)
    (asset representative : Asset) (days now : Nat) (hash : Text) : Database :=
  let row' := quarantinedRow L row asset representative days now hash
  let events := purgeEvents db payload asset representative row'.purgeAfter now
  { setStorage db asset.id row' with
    outbox := db.outbox ++ events
    nextId := db.nextId + events.length }

section Work

variable {Content : Type} (host : Host Content)

/-- The hash of an inode. -/
def Host.hash (inode : Nat) : Text := host.sha256 (host.data inode)

/-- The path of the file that is to be quarantined. -/
def candidatePath (asset : Asset) (fromSource : Bool) : Text :=
  if fromSource then asset.filePath else quarantinePath host.library asset

/-- One step of `_run_hardlink`, `_run_quarantine` or `_run_purge`. -/
def advance (db : Database) (files : Text → Option Nat) (d : Delivery)
    (asset representative : Asset) (now : Nat) : Point → Database × (Text → Option Nat) × Job
  | .linkSource =>
    match files asset.filePath with
    | none => (db, files, .ended d (some .hardlinkMissing))
    | some inode =>
      (db, files, .running d asset representative (.linkRepresentative (host.hash inode)))
  | .linkRepresentative sourceHash =>
    match files representative.filePath with
    | none => (db, files, .ended d (some .hardlinkMissing))
    | some inode =>
      if sourceHash ≠ host.hash inode then (db, files, .ended d (some .hashChanged))
      else (db, files, .running d asset representative .linkStat)
  | .linkStat =>
    match files asset.filePath, files representative.filePath with
    | some source, some target =>
      if source = target then (db, files, .running d asset representative (.linkCommit 0))
      else if host.device source ≠ host.device target then
        (db, files, .ended d (some .otherFilesystem))
      else
        (db, files, .running d asset representative
          (.linkTemporary (fileSizeOr asset (host.size (host.data source)))))
    | _, _ => (db, files, .ended d (some .unavailable))
  | .linkTemporary reclaimed =>
    (db, update files (temporaryPath host.library asset d.id) none,
      .running d asset representative (.link reclaimed))
  | .link reclaimed =>
    match files representative.filePath, files (temporaryPath host.library asset d.id) with
    | some inode, none =>
      (db, update files (temporaryPath host.library asset d.id) (some inode),
        .running d asset representative (.linkReplace reclaimed))
    | _, _ => (db, files, .ended d (some .unavailable))
  | .linkReplace reclaimed =>
    match files (temporaryPath host.library asset d.id) with
    | none => (db, files, .ended d (some .unavailable))
    | some _ =>
      (db, replace files (temporaryPath host.library asset d.id) asset.filePath,
        .running d asset representative (.linkCommit reclaimed))
  | .linkCommit reclaimed =>
    match db.storage asset.id with
    | none => (db, files, .ended d (some .rowMissing))
    | some row =>
      (setStorage db asset.id (hardlinkedRow row representative reclaimed), files,
        .ended d none)
  | .visualRepresentative =>
    match files representative.filePath with
    | none => (db, files, .ended d (some .representativeMissing))
    | some _ =>
      (db, files, .running d asset representative
        (.visualCandidate (thresholds db d.payload.evidence)))
  | .visualCandidate limits =>
    let fromSource := (files asset.filePath).isSome
    match files (candidatePath host asset fromSource) with
    | none => (db, files, .ended d (some .candidateMissing))
    | some _ => (db, files, .running d asset representative (.visualHash limits fromSource))
  | .visualHash limits fromSource =>
    match files (candidatePath host asset fromSource) with
    | none => (db, files, .ended d (some .unavailable))
    | some inode =>
      if Differs asset.sha256 (host.hash inode) then
        (db, files, .ended d (some .candidateChanged))
      else
        (db, files, .running d asset representative
          (.visualGate limits fromSource (host.hash inode)))
  | .visualGate limits fromSource candidateHash =>
    match files (candidatePath host asset fromSource), files representative.filePath with
    | some candidate, some target =>
      if Differs representative.sha256 (host.hash target) then
        (db, files, .ended d (some .representativeChanged))
      else if ∀ distance ∈ host.versionedPhashDistance asset representative,
          limits.phashMaxDistance < distance then
        (db, files, .ended d (some .phashGate))
      else if host.structuralSimilarity (host.data candidate) (host.data target) <
          limits.ssimMinScore then
        (db, files, .ended d (some .ssimGate))
      else if fromSource then
        (db, files, .running d asset representative
          (.visualMove limits.quarantineDays candidateHash))
      else
        (db, files, .running d asset representative
          (.visualCommit limits.quarantineDays candidateHash))
    | _, _ => (db, files, .ended d (some .unavailable))
  | .visualMove days candidateHash =>
    match files asset.filePath with
    | none => (db, files, .ended d (some .unavailable))
    | some _ =>
      (db, replace files asset.filePath (quarantinePath host.library asset),
        .running d asset representative (.visualCommit days candidateHash))
  | .visualCommit days candidateHash =>
    match db.storage asset.id with
    | none => (db, files, .ended d (some .rowMissing))
    | some row =>
      (quarantineCommit host.library db d.payload row asset representative days now
        candidateHash, files, .ended d none)
  | .purgeRepresentative =>
    match files representative.filePath with
    | none => (db, files, .ended d (some .purgeRepresentativeMissing))
    | some inode =>
      if Differs representative.sha256 (host.hash inode) then
        (db, files, .ended d (some .purgeRepresentativeChanged))
      else (db, files, .running d asset representative .purgeRow)
  | .purgeRow =>
    match db.storage asset.id with
    | none => (db, files, .ended d (some .rowMissing))
    | some row =>
      if row.storageState = .purged then (db, files, .ended d none)
      else if row.storageState ≠ .quarantined ∨ row.quarantinePath.getD [] = [] then
        (db, files, .ended d (some .notQuarantined))
      else if ∃ purgeAfter ∈ row.purgeAfter, now < purgeAfter then
        (db, files, .ended d (some .retention))
      else
        (db, files, .running d asset representative
          (.purgeFile row (row.quarantinePath.getD [])))
  | .purgeFile row path =>
    match files path with
    | none => (db, files, .ended d (some .quarantineMissing))
    | some inode =>
      let expected :=
        if row.quarantineSha256.getD [] = [] then asset.sha256.getD []
        else row.quarantineSha256.getD []
      if expected = [] then (db, files, .ended d (some .noVerificationHash))
      else if host.hash inode ≠ expected then (db, files, .ended d (some .quarantineChanged))
      else
        (db, files, .running d asset representative
          (.purgeUnlink row path (fileSizeOr asset (host.size (host.data inode)))))
  | .purgeUnlink row path reclaimed =>
    match files path with
    | none => (db, files, .ended d (some .unavailable))
    | some _ =>
      (db, update files path none,
        .running d asset representative (.purgeCommit row reclaimed))
  | .purgeCommit row reclaimed =>
    match db.storage asset.id with
    | none => (db, files, .ended d (some .unavailable))
    | some current =>
      (setStorage db asset.id (purgedRow current row reclaimed), files, .ended d none)

/-- The step of a worker that does not fail. -/
def work (s : State) (worker now : Nat) : Job → State
  | .claimed d =>
    match loadStorageSubjects host.library s.db d.payload with
    | .error e => { s with workers := update s.workers worker (some (.ended d (some e))) }
    | .ok (db, asset, representative) =>
      { s with
        db
        workers := update s.workers worker
          (some (.running d asset representative (firstPoint d.eventType))) }
  | .running d asset representative point =>
    let result := advance host s.db s.files d asset representative now point
    { db := result.1
      files := result.2.1
      workers := update s.workers worker (some result.2.2) }
  | .ended d error =>
    { s with
      db := endEvent s.db d error now
      workers := update s.workers worker none }

/-- A step that fails: the event is recorded as failed next, unless that is what failed. -/
def fail (s : State) (worker : Nat) : Job → State
  | .claimed d | .running d _ _ _ =>
    { s with
      workers := update s.workers worker (some (.ended d (some .unavailable))) }
  | .ended _ _ => { s with workers := update s.workers worker none }

inductive Action
  /-- a call of the reconciliation -/
  | reconcile (action : AssetReconciliation.Action)
  /-- `_claim_outbox_event`, with the event that it finds -/
  | claim (worker event now : Nat)
  /-- the next step of a worker, and whether the system refuses it -/
  | work (worker now : Nat) (fails : Bool)
  /-- the process of a worker stops -/
  | crash (worker : Nat)

def step (s : State) : Action → State
  | .reconcile action => { s with db := AssetReconciliation.step host.library s.db action }
  | .claim worker id now =>
    match s.workers worker, s.db.outbox.find? (·.id = id) with
    | none, some event =>
      if Claimable now event then
        { s with
          db := claimEvent s.db event now
          workers := update s.workers worker
            (some (.claimed ⟨event.id, event.eventType, event.payload, event.attempts + 1⟩)) }
      else s
    | _, _ => s
  | .work worker now fails =>
    match s.workers worker with
    | none => s
    | some job => if fails then fail s worker job else work host s worker now job
  | .crash worker => { s with workers := update s.workers worker none }

end Work

end AssetStorage
