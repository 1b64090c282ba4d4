import AutoGallery.Interleaving
import AutoGallery.Keyset
import AutoGallery.PyText
import AutoGallery.ReadCommitted

/-!
# The artifact ledger

The ledger holds a row for every file below the managed roots.  The executions of import
jobs lease the works of a download from it: the rows of a work carry the token of the
execution and the time at which the lease ends.

Every call runs in a transaction at read committed.  A statement takes a snapshot, and
goes through the rows it has found there one by one: an UPDATE waits for the lock of a
row and checks its condition again on the newest version, a SELECT with SKIP LOCKED
passes over a row that is locked.  Its subqueries are answered from the snapshot and are
not asked again.
-/

namespace ArtifactLedger

open Interleaving PyText ReadCommitted Program

abbrev Uuid := Nat

/-- A point of time; leases are counted in seconds. -/
abbrev Time := Int

inductive StorageRoot
  | downloads
  | library
  deriving DecidableEq, Repr

inductive ArtifactType
  | metadataJson
  | image
  | video
  | archive
  | unknown
  deriving DecidableEq, Repr

inductive ArtifactState
  | new
  | importing
  | done
  | failed
  deriving DecidableEq, Repr

inductive JobStatus
  | queued
  | running
  | finished
  deriving DecidableEq, Repr

/-- A row of `storage_artifacts`. -/
structure Artifact where
  id : Uuid
  storageRoot : StorageRoot
  filePath : Text
  source : Text
  sourceWorkId : Text
  artifactType : ArtifactType
  mtimeNs : Option Nat
  createdAt : Time
  downloadJobId : Option Uuid
  importJobId : Option Uuid
  state : ArtifactState
  leaseToken : Option Uuid
  leaseExpiresAt : Option Time
  deriving DecidableEq, Repr

structure ImportJob where
  id : Uuid
  executionToken : Option Uuid
  status : JobStatus
  deriving DecidableEq, Repr

/-- The file of a row; `uq_storage_artifacts_root_path` makes it the row's key. -/
abbrev File := StorageRoot × Text

def Artifact.file (row : Artifact) : File :=
  (row.storageRoot, row.filePath)

/-- What the calls share: the ledger's table, the tables they look into, and the clock.
`τ` are the transactions. -/
structure Ledger (τ : Type) where
  clock : Time
  table : Table τ File Artifact
  importJobs : List ImportJob
  /-- source and work id of the rows of `work_sources` -/
  workSources : List (Text × Text)

/-- `values[offset : offset + size]` for every offset. -/
def chunked {α : Type} (size : Nat) (values : List α) : List (List α) :=
  (List.range ((values.length + size - 1) / size)).map fun i => (values.drop (i * size)).take size

section Statements

variable {τ : Type} [DecidableEq τ]

abbrev Ledger.view (s : Ledger τ) (k : τ) : List Artifact :=
  s.table.view Artifact.file k

def Ledger.write (s : Ledger τ) (k : τ) (row : Artifact) : Ledger τ :=
  { s with table := s.table.write Artifact.file k row }

/-- An UPDATE at one of the rows it has found. -/
def updateRow (k : τ) (qual : Artifact → Bool) (set : Artifact → Artifact) (file : File) :
    Program Unit (Ledger τ) (Option Artifact) :=
  .atomic fun _ s =>
    if s.table.Blocked k file then none
    else
      match s.table.current Artifact.file k file with
      | none => some (none, s)
      | some row => if qual row then some (some (set row), s.write k (set row)) else some (none, s)

/-- `UPDATE storage_artifacts SET ... WHERE ... RETURNING ...`. -/
def updateRows (k : τ) (qual : Ledger τ → Artifact → Bool) (set : Artifact → Artifact) :
    Program Unit (Ledger τ) (List Artifact) :=
  look (fun s => s) >>= fun snapshot =>
  each (updateRow k (qual snapshot) set)
    (((snapshot.view k).filter (qual snapshot)).map Artifact.file) >>= fun changed =>
  .done (changed.filterMap fun row => row)

/-- `FOR UPDATE SKIP LOCKED LIMIT ...` over the rows that the select has found: the
`source_work_id` of the rows it could lock, in their newest version. -/
def lockRows (k : τ) : Nat → List Artifact → Program Unit (Ledger τ) (List Text)
  | _, [] => .done []
  | 0, _ => .done []
  | limit + 1, row :: rest =>
    atomic (fun _ s =>
      if s.table.Blocked k row.file then some (none, s)
      else
        some ((s.table.current Artifact.file k row.file).map (·.sourceWorkId),
          { s with table := s.table.lockRow k row.file })) >>= fun locked =>
    match locked with
    | none => lockRows k (limit + 1) rest
    | some workId => lockRows k limit rest >>= fun others => .done (workId :: others)

end Statements

/-- The state admits a claim: a new row, or one whose lease has run out. -/
def eligible (now : Time) (row : Artifact) : Bool :=
  row.state == .new || (row.state == .importing && row.leaseExpiresAt.all (· < now))

/-- The row is leased, and the lease has not run out. -/
def activeLease (now : Time) (row : Artifact) : Bool :=
  row.state == .importing && row.leaseExpiresAt.any (now < ·)

/-- The execution with this token is the one that runs the import job. -/
def executionIsActive (jobs : List ImportJob) (importJobId leaseToken : Uuid) : Bool :=
  jobs.any fun job =>
    job.id == importJobId && job.executionToken == some leaseToken && job.status == .running

structure ClaimArgs where
  downloadJobId : Uuid
  importJobId : Uuid
  leaseToken : Uuid
  source : Option Text := none
  sourceWorkIds : Option (List Text) := none
  limit : Int := 25
  leaseSeconds : Int := 900
  deriving DecidableEq

structure WorkClaimBatch where
  claimed : List Text := []
  contended : List Text := []
  existing : List Text := []
  deriving DecidableEq

structure RenewArgs where
  sourceWorkIds : List Text
  expectedImportJobId : Uuid
  expectedLeaseToken : Uuid
  leaseSeconds : Int := 900
  deriving DecidableEq

structure MarkArgs where
  downloadJobId : Uuid
  sourceWorkIds : List Text
  state : ArtifactState
  chunkSize : Nat := 1000
  expectedImportJobId : Option Uuid := none
  expectedLeaseToken : Option Uuid := none
  source : Option Text := none
  preserveActiveLeases : Bool := false
  deriving DecidableEq

structure ResultArgs where
  downloadJobId : Uuid
  results : List (Text × ArtifactState)
  expectedImportJobId : Option Uuid := none
  expectedLeaseToken : Option Uuid := none
  deriving DecidableEq

/-- A row as `artifact_row` and `managed_artifact_row` build it; the database stamps its
`createdAt`. -/
structure NewArtifact where
  id : Uuid
  storageRoot : StorageRoot
  filePath : Text
  source : Text
  sourceWorkId : Text
  artifactType : ArtifactType
  mtimeNs : Option Nat
  createdAt : Time
  downloadJobId : Option Uuid
  state : ArtifactState
  deriving DecidableEq

section Calls

variable {τ : Type} [DecidableEq τ]

/-- The owner that `mark_works` and `mark_work_results` are given: its import job and its
token, and that this execution runs. -/
def ownedBy (jobs : List ImportJob) (expectedImportJobId expectedLeaseToken : Option Uuid)
    (row : Artifact) : Bool :=
  (expectedImportJobId.all fun job => row.importJobId == some job) &&
    expectedLeaseToken.all fun token => row.leaseToken == some token &&
      expectedImportJobId.all fun job => executionIsActive jobs job token

/-- The row after `mark_work`, `mark_works` and `mark_work_results`. -/
def Artifact.marked (row : Artifact) (state : ArtifactState) : Artifact :=
  { row with state := state, leaseToken := none, leaseExpiresAt := none }

section

variable (k : τ)

def markWork (downloadJobId : Uuid) (sourceWorkId : Text) (state : ArtifactState) :
    Program Unit (Ledger τ) (List Artifact) :=
  updateRows k (fun _ row => row.storageRoot == .downloads &&
    row.downloadJobId == some downloadJobId && row.sourceWorkId == sourceWorkId)
    fun row => row.marked state

/-- One of the bulk updates of `mark_works`; it reads the clock for itself. -/
def markChunk (args : MarkArgs) (workIds : List Text) :
    Program Unit (Ledger τ) (List Artifact) :=
  look (fun s => s.clock) >>= fun now =>
  updateRows k (fun s row => row.storageRoot == .downloads && workIds.contains row.sourceWorkId &&
      (args.expectedLeaseToken.isSome ||
        args.source.elim (row.downloadJobId == some args.downloadJobId) (row.source == ·)) &&
      ownedBy s.importJobs args.expectedImportJobId args.expectedLeaseToken row &&
      !(args.preserveActiveLeases && activeLease now row))
    fun row => row.marked args.state

def markWorks (args : MarkArgs) : Program Unit (Ledger τ) Nat :=
  each (markChunk k args) (chunked args.chunkSize args.sourceWorkIds.eraseDups) >>=
    fun changed => .done (changed.map List.length).sum

/-- One of the bulk updates of `mark_work_results`. -/
def markResults (args : ResultArgs) (batch : List (Text × ArtifactState)) :
    Program Unit (Ledger τ) (List Artifact) :=
  updateRows k (fun s row => row.storageRoot == .downloads &&
      (batch.map (·.1)).contains row.sourceWorkId &&
      (args.expectedLeaseToken.isSome || row.downloadJobId == some args.downloadJobId) &&
      ownedBy s.importJobs args.expectedImportJobId args.expectedLeaseToken row)
    fun row => row.marked ((batch.lookup row.sourceWorkId).getD row.state)

def markWorkResults (args : ResultArgs) : Program Unit (Ledger τ) (List Text) :=
  each (markResults k args) (chunked 500 args.results) >>= fun changed =>
  .done (changed.flatten.map (·.sourceWorkId)).eraseDups

def renewWorkLeases (args : RenewArgs) : Program Unit (Ledger τ) (List Text) :=
  if args.sourceWorkIds = [] then .done []
  else
    look (fun s => s.clock) >>= fun now =>
    updateRows k (fun s row => row.storageRoot == .downloads &&
        args.sourceWorkIds.contains row.sourceWorkId && row.artifactType == .metadataJson &&
        row.state == .importing && row.importJobId == some args.expectedImportJobId &&
        row.leaseToken == some args.expectedLeaseToken &&
        executionIsActive s.importJobs args.expectedImportJobId args.expectedLeaseToken &&
        row.leaseExpiresAt.any (now < ·))
      (fun row => { row with leaseExpiresAt := some (now + args.leaseSeconds) }) >>= fun renewed =>
    .done (renewed.map (·.sourceWorkId)).eraseDups

def releaseOwnedLeases (importJobId leaseToken : Uuid) :
    Program Unit (Ledger τ) (List Text) :=
  updateRows k (fun _ row => row.storageRoot == .downloads &&
      row.importJobId == some importJobId && row.leaseToken == some leaseToken &&
      row.state == .importing)
    (fun row => row.marked .new) >>= fun released =>
  .done (released.map (·.sourceWorkId)).eraseDups

/-- `now` is the caller's, or the clock's. -/
def resetRetryAssignment (downloadJobId importJobId : Uuid) (now : Option Time) :
    Program Unit (Ledger τ) Nat :=
  look (fun s => now.getD s.clock) >>= fun checkedAt =>
  updateRows k (fun _ row => row.storageRoot == .downloads &&
      row.downloadJobId == some downloadJobId && row.importJobId == some importJobId &&
      (row.state == .failed ||
        (row.state == .importing && row.leaseExpiresAt.all (· ≤ checkedAt))))
    (fun row => row.marked .new) >>= fun rows =>
  .done rows.length

/-- The row that an upsert inserts. -/
def NewArtifact.inserted (new : NewArtifact) : Artifact where
  id := new.id
  storageRoot := new.storageRoot
  filePath := new.filePath
  source := new.source
  sourceWorkId := new.sourceWorkId
  artifactType := new.artifactType
  mtimeNs := new.mtimeNs
  createdAt := new.createdAt
  downloadJobId := new.downloadJobId
  importJobId := none
  state := new.state
  leaseToken := none
  leaseExpiresAt := none

/-- The row of a file that an upsert finds registered: a file that has changed starts
again, as one whose import has failed does; any other one keeps its owner and lease. -/
def Artifact.refreshed (row : Artifact) (new : NewArtifact) : Artifact :=
  let shouldRefresh := row.mtimeNs != new.mtimeNs || row.state == .failed
  { row with
    source := new.source
    sourceWorkId := new.sourceWorkId
    artifactType := new.artifactType
    mtimeNs := new.mtimeNs
    downloadJobId := if shouldRefresh then new.downloadJobId else row.downloadJobId
    state := if shouldRefresh then .new else row.state
    importJobId := if shouldRefresh then none else row.importJobId
    leaseToken := if shouldRefresh then none else row.leaseToken
    leaseExpiresAt := if shouldRefresh then none else row.leaseExpiresAt }

/-- One row of `INSERT ... ON CONFLICT DO UPDATE`.  It waits while another transaction
holds the file's row, or is about to insert one. -/
def upsertRow (new : NewArtifact) : Program Unit (Ledger τ) Unit :=
  .atomic fun _ s =>
    if s.table.Blocked k new.inserted.file then none
    else
      match s.table.current Artifact.file k new.inserted.file with
      | some row => some ((), s.write k (row.refreshed new))
      | none => some ((), s.write k new.inserted)

def upsertMany (rows : List NewArtifact) (chunkSize : Nat) :
    Program Unit (Ledger τ) Nat :=
  let rows := rows.filter (·.artifactType != .unknown)
  each (each (upsertRow k)) (chunked chunkSize rows) >>= fun _ => .done rows.length

section

variable (args : ClaimArgs)

/-- The rows of `source`, or of the download when no source is named, with one of the
candidates' work ids. -/
def identityScope (candidates : Option (List Text)) (row : Artifact) : Bool :=
  args.source.elim (row.downloadJobId == some args.downloadJobId) (row.source == ·) &&
    candidates.all (·.contains row.sourceWorkId)

/-- The metadata rows that a claim may start from. -/
def claimable (candidates : Option (List Text)) (now : Time)
    (s : Ledger τ) (row : Artifact) : Bool :=
  row.storageRoot == .downloads && identityScope args candidates row &&
    row.artifactType == .metadataJson && eligible now row &&
    executionIsActive s.importJobs args.importJobId args.leaseToken &&
    !((s.view k).any fun other => other.storageRoot == .downloads && other.source == row.source &&
      other.sourceWorkId == row.sourceWorkId && other.artifactType == .metadataJson &&
      activeLease now other) &&
    !(args.source.any fun source => s.workSources.contains (source, row.sourceWorkId))

/-- The first row of each work, in order. -/
def representatives (rows : List Artifact) : List Artifact :=
  Keyset.arranged (fun row => toLex (row.createdAt, row.id)) (rows.filter fun row =>
    rows.all fun other => !(other.source == row.source && other.sourceWorkId == row.sourceWorkId &&
      decide (toLex (other.createdAt, other.id) < toLex (row.createdAt, row.id))))

/-- The statement that leases every artifact of the claimed works. -/
def leaseClaimed (now : Time) (claimed : List Text) :
    Program Unit (Ledger τ) (List Artifact) :=
  if claimed = [] then .done []
  else
    updateRows k (fun _ row => row.storageRoot == .downloads &&
        args.source.elim (row.downloadJobId == some args.downloadJobId) (row.source == ·) &&
        claimed.contains row.sourceWorkId && eligible now row)
      fun row => { row with
        state := .importing
        importJobId := some args.importJobId
        leaseToken := some args.leaseToken
        leaseExpiresAt := some (now + args.leaseSeconds) }

/-- The works of the candidates that have been imported by now: their rows are done. -/
def settleExisting (contended : List Text) :
    Program Unit (Ledger τ) (List Text) :=
  match args.source with
  | none => .done []
  | some source =>
    if contended = [] then .done []
    else
      look (fun s => contended.filter fun workId =>
        s.workSources.contains (source, workId)) >>= fun existing =>
      if existing = [] then .done []
      else
        markWorks k { downloadJobId := args.downloadJobId, sourceWorkIds := existing,
                      state := .done, source := some source,
                      preserveActiveLeases := true } >>= fun _ =>
        .done existing

def claimWorkBatch : Program Unit (Ledger τ) WorkClaimBatch :=
  look (fun s => s.clock) >>= fun now =>
  let limit := (max 1 (min args.limit 25)).toNat
  let candidates := args.sourceWorkIds.map fun ids => ids.eraseDups.take limit
  if candidates = some [] then .done {}
  else
    look (fun s => representatives
      ((s.view k).filter (claimable k args candidates now s))) >>= fun ranked =>
    lockRows k limit ranked >>= fun locked =>
    let claimed := locked.eraseDups
    leaseClaimed k args now claimed >>= fun _ =>
    let contended := (candidates.getD []).filter fun workId => !claimed.contains workId
    settleExisting k args contended >>= fun existing =>
    .done { claimed := candidates.elim claimed fun ids => ids.filter claimed.contains
            contended := contended.filter fun workId => !existing.contains workId
            existing := existing }

end

end

end Calls

/-- A call of the ledger. -/
inductive Call
  | claimWorkBatch (args : ClaimArgs)
  | renewWorkLeases (args : RenewArgs)
  | markWork (downloadJobId : Uuid) (sourceWorkId : Text) (state : ArtifactState)
  | markWorks (args : MarkArgs)
  | markWorkResults (args : ResultArgs)
  | releaseOwnedLeases (importJobId leaseToken : Uuid)
  | resetRetryAssignment (downloadJobId importJobId : Uuid) (now : Option Time)
  | upsertMany (rows : List NewArtifact) (chunkSize : Nat)
  deriving DecidableEq

/-- A transaction: a number, and the calls it makes before it commits. -/
abbrev Seat := Nat × List Call

section Transactions

variable {τ : Type} [DecidableEq τ]

def run (k : τ) : Call → Program Unit (Ledger τ) Unit
  | .claimWorkBatch args => claimWorkBatch k args >>= fun _ => .done ()
  | .renewWorkLeases args => renewWorkLeases k args >>= fun _ => .done ()
  | .markWork download workId state => markWork k download workId state >>= fun _ => .done ()
  | .markWorks args => markWorks k args >>= fun _ => .done ()
  | .markWorkResults args => markWorkResults k args >>= fun _ => .done ()
  | .releaseOwnedLeases job token => releaseOwnedLeases k job token >>= fun _ => .done ()
  | .resetRetryAssignment download job now =>
    resetRetryAssignment k download job now >>= fun _ => .done ()
  | .upsertMany rows chunkSize => upsertMany k rows chunkSize >>= fun _ => .done ()

def commit (k : τ) : Program Unit (Ledger τ) Unit :=
  .change fun s => { s with table := s.table.commit Artifact.file k }

/-- The database drops what a lost session has written. -/
def rollback (k : τ) : Program Unit (Ledger τ) Unit :=
  .change fun s => { s with table := s.table.rollback k }

def transaction (k : τ) (calls : List Call) : Program Unit (Ledger τ) Unit :=
  each (run k) calls >>= fun _ => commit k

end Transactions

/-- The transactions that are running. -/
abbrev Sessions := Pool Seat Unit (Ledger Seat) Unit

/-- A transaction starts with no writes and no locks; that of a session which was lost is
rolled back. -/
def starts (sessions : Sessions) (k : Seat) (p : Program Unit (Ledger Seat) Unit) : Prop :=
  (p = transaction k k.2 ∧ sessions.shared.table.pending k = [] ∧
    ∀ file, sessions.shared.table.lock file ≠ some k) ∨
  p = rollback k

/-- The clock goes on, and import jobs and works change. -/
def surroundings (s t : Ledger Seat) : Prop :=
  s.clock ≤ t.clock ∧ t.table = s.table

end ArtifactLedger
