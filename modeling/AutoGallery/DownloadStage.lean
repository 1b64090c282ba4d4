import AutoGallery.PyText
import AutoGallery.Stoppable
import Mathlib.Data.List.AList
import Mathlib.Data.List.Sort

/-!
# The stage of a download

A job downloads into its stage, a tree of its own.  Then `promote` links the completed files
into the canonical tree, where nothing is overwritten but meta data by a newer version of
the same.  What it is about to do stands in a manifest before it is done, so that another
call can go on after a stop.  A file that is there already with other content is a conflict,
and somebody has to decide with `resolveConflicts` which of the two wins; the other one goes
to a quarantine.

The trees have names that refer to files, as hard links do.  The identity of a file (device,
inode, size and time of modification) stands for its content: a file that is downloaded once
more is another one.  The path of a staged file is relative to the stage, and the path of its
target is the same, relative to the canonical root; the two trees are apart.  The folders
themselves, and the calls that only make them durable, are not modelled.  An error of the
operating system is a stop.
-/

namespace DownloadStage

open PyText Stoppable

abbrev Path := Text

/-- A `dict` with paths as keys. -/
abbrev Dict (α : Type) := AList fun _ : Path => α

/-- `sorted(d)`. -/
def sortedKeys {α : Type} (d : Dict α) : List Path :=
  d.keys.insertionSort (· ≤ ·)

/-- What a name refers to. -/
inductive Node
  | file (identity : Nat)
  | symlink
  | other
  deriving DecidableEq

/-! ### Names of files -/

def fileName (path : Path) : Text := (path.reverse.takeWhile (· ≠ '/')).reverse

/-- `Path.suffix`. -/
def suffix (path : Path) : Text :=
  let name := fileName path
  let tail := (name.reverse.takeWhile (· ≠ '.')).reverse
  if tail.length + 1 < name.length ∧ tail ≠ [] then '.' :: tail else []

/-- `str.lower`, as far as letters of the suffixes below are concerned. -/
def lower (t : Text) : Text := t.map Char.toLower

def incompleteSuffixes : List Text :=
  [".part".toList, ".part-frag".toList, ".tmp".toList, ".temp".toList, ".ytdl".toList,
    ".download".toList]

/-- `_is_incomplete`. -/
def isIncomplete (path : Path) : Bool :=
  let lowered := lower (fileName path)
  incompleteSuffixes.any (fun suffix => decide (suffix <:+ lowered)) ||
    decide (".part-frag".toList <:+: lowered)

/-! ### The manifest -/

section Manifest

variable (Digest : Type)

/-- The record of a safe metadata update. -/
structure Update where
  sourceWorkId : Text
  sourceCreatorId : Text
  previousSha : Digest
  replacementSha : Digest
  applied : Bool
  deriving DecidableEq

inductive Action
  | link
  | acceptExisting
  | recoveredLink
  | replaceMetadata
  | recoveredMetadata
  deriving DecidableEq

def Action.isMetadata : Action → Bool
  | replaceMetadata | recoveredMetadata => true
  | link | acceptExisting | recoveredLink => false

/-- An entry of a batch. -/
structure Entry where
  plannedIdentity : Nat
  action : Action
  targetIdentity : Option Nat
  /-- the entry has a retained path, which is that of the file in the folder of retained
  copies -/
  retains : Bool
  replacementSha : Option Digest
  deriving DecidableEq

/-- A batch is prepared or promoted. -/
structure Batch where
  promoted : Bool
  entries : Dict (Entry Digest)

structure Detail where
  relativePath : Path
  stagedSha : Option Digest
  canonicalSha : Option Digest
  deriving DecidableEq

inductive Winner
  | canonical
  | staged
  deriving DecidableEq

structure ResolutionEntry where
  relativePath : Path
  winner : Winner
  winnerSha : Digest
  loserSha : Digest
  quarantinePath : Path
  deriving DecidableEq

/-- A resolution is prepared or applied. -/
structure Resolution where
  resolutionId : Text
  applied : Bool
  entries : List (ResolutionEntry Digest)
  expiresAt : Nat
  deriving DecidableEq

structure Manifest where
  planned : Dict Nat
  promoted : Dict Nat
  metadataUpdates : Dict (Update Digest)
  conflicts : List Path
  conflictDetails : List (Detail Digest)
  promotionBatch : Option (Batch Digest)
  resolution : Option (Resolution Digest)

/-- The manifest of a new stage. -/
def Manifest.initial : Manifest Digest where
  planned := ∅
  promoted := ∅
  metadataUpdates := ∅
  conflicts := []
  conflictDetails := []
  promotionBatch := none
  resolution := none

/-- The stage, with its folder of retained copies, the canonical tree, and the manifest. -/
structure Disk where
  staged : Dict Node
  retained : Path → Option Node
  canonical : Path → Option Node
  manifest : Option (Manifest Digest)

/-- What a call raises. -/
inductive StageError
  | notRegular (label : Text) (name : Path)
  | missingFromBoth (relative : Path)
  | targetUnavailable (relative : Path)
  | replacementMissing (relative : Path)
  | changedAfterPlanning (relative : Path)
  | recoveryPlanMissing (relative : Path)
  | retainedCopyChanged
  | conflict (conflicts : List Path) (details : List (Detail Digest))
  | invalidResolutionId
  | decisionsDoNotMatch
  | noConflicts
  | oneDecisionPerConflict
  | conflictSymlink (label : Text)
  | conflictMissing (label : Text)
  | conflictNotRegular (label : Text)
  | stagedChanged (relative : Path)
  | canonicalChanged (relative : Path)
  | changedWhileResuming (relative : Path)
  | quarantineChanged (relative : Path)
  | notDurable (relative : Path)
  deriving DecidableEq

variable {Digest}

/-- The names of at most five conflicts. -/
def preview (conflicts : List Path) : Text :=
  List.intercalate ", ".toList (conflicts.take 5) ++
    if 5 < conflicts.length then
      " (+".toList ++ (toString (conflicts.length - 5)).toList ++ " more)".toList
    else []

/-- The text that the exception is raised with. -/
def StageError.message : StageError Digest → Text
  | notRegular label name => label ++ " path is not a regular file: ".toList ++ fileName name
  | missingFromBoth relative =>
    "planned staged file is missing from both trees: ".toList ++ relative
  | targetUnavailable relative => "promoted target is unavailable: ".toList ++ relative
  | replacementMissing relative =>
    "metadata replacement is missing from both trees: ".toList ++ relative
  | changedAfterPlanning relative =>
    "staged file changed after promotion planning: ".toList ++ relative
  | recoveryPlanMissing relative => "metadata recovery plan is missing: ".toList ++ relative
  | retainedCopyChanged => "retained metadata recovery copy changed".toList
  | conflict conflicts _ => "download staging conflict: ".toList ++ preview conflicts
  | invalidResolutionId => "invalid conflict resolution id".toList
  | decisionsDoNotMatch =>
    "conflict resolution decisions do not match the prepared batch".toList
  | noConflicts => "stage has no unresolved conflicts".toList
  | oneDecisionPerConflict =>
    "conflict resolution requires exactly one decision per conflict".toList
  | conflictSymlink label => label ++ " path cannot be a symlink".toList
  | conflictMissing label => label ++ " file is missing".toList
  | conflictNotRegular label => label ++ " path is not a regular file".toList
  | stagedChanged relative => "staged conflict changed before resolution: ".toList ++ relative
  | canonicalChanged relative =>
    "canonical conflict changed before resolution: ".toList ++ relative
  | changedWhileResuming relative =>
    "conflict files changed while resuming resolution: ".toList ++ relative
  | quarantineChanged relative => "conflict quarantine changed: ".toList ++ relative
  | notDurable relative =>
    "conflict resolution did not reach a durable state: ".toList ++ relative

end Manifest

/-! ### Files -/

/-- The files of the host.  No two contents have the same digest. -/
structure Host (Bytes Digest : Type) where
  bytes : Nat → Bytes
  size : Bytes → Nat
  sha256 : Bytes → Digest
  sha256_injective : Function.Injective sha256
  /-- the first half of the digest of a resolution id -/
  quarantineNamespace : Text → Text

/-- `_sha256`. -/
def Host.sha {Bytes Digest : Type} (host : Host Bytes Digest) (identity : Nat) : Digest :=
  host.sha256 (host.bytes identity)

/-- The provider of a source: its name, and the ids of the work and the creator, if the file
is a JSON object that it can parse. -/
structure Provider (Bytes : Type) where
  sourceName : Text
  parseWorkSource : Bytes → Option (Text × Text)

section Calls

variable {Bytes Digest : Type} [DecidableEq Bytes] [DecidableEq Digest]

/-- `_files_equal`. -/
def FilesEqual (host : Host Bytes Digest) (first second : Nat) : Prop :=
  host.bytes first = host.bytes second

instance (host : Host Bytes Digest) (first second : Nat) :
    Decidable (FilesEqual host first second) :=
  inferInstanceAs (Decidable (host.bytes first = host.bytes second))

def maxSafeMetadataBytes : Nat := 8 * 1024 * 1024

/-- `_safe_metadata_update`. -/
def safeMetadataUpdate (host : Host Bytes Digest) (expectedSource : Option Text)
    (provider : Option (Provider Bytes)) (relative : Path) (staged target : Nat) :
    Option (Update Digest) := do
  let provider ← provider
  if lower (suffix relative) ≠ ".json".toList then none
  else if expectedSource.getD [] ≠ [] ∧ expectedSource ≠ some provider.sourceName then none
  else if maxSafeMetadataBytes < host.size (host.bytes staged) ∨
      maxSafeMetadataBytes < host.size (host.bytes target) then none
  else
    let (previousWorkId, previousCreatorId) ← provider.parseWorkSource (host.bytes target)
    let (replacementWorkId, replacementCreatorId) ← provider.parseWorkSource (host.bytes staged)
    if previousWorkId = [] ∨ previousWorkId ≠ replacementWorkId ∨ previousCreatorId = [] ∨
        previousCreatorId ≠ replacementCreatorId then none
    else
      some {
        sourceWorkId := previousWorkId
        sourceCreatorId := previousCreatorId
        previousSha := host.sha target
        replacementSha := host.sha staged
        applied := false }

variable (host : Host Bytes Digest) (source : Option Text)

def nodeSha : Option Node → Option Digest
  | some (.file identity) => some (host.sha identity)
  | _ => none

/-- `_conflict_detail`. -/
def conflictDetail (relative : Path) (staged target : Option Node) : Detail Digest where
  relativePath := relative
  stagedSha := nodeSha host staged
  canonicalSha := nodeSha host target

/-- `_write_manifest`. -/
def writeManifest (m : Manifest Digest) : Call (Disk Digest) (StageError Digest) Unit :=
  .write fun d => { d with manifest := some m }

/-- `_load_or_initialize`. -/
def loadOrInitialize : Call (Disk Digest) (StageError Digest) (Manifest Digest) := do
  match (← .get).manifest with
  | some m => pure m
  | none =>
    writeManifest (.initial Digest)
    pure (.initial Digest)

/-- `_validate_regular_file`. -/
def validateRegularFile (label : Text) (relative : Path) : Node → Except (StageError Digest) Nat
  | .file identity => .ok identity
  | _ => .error (.notRegular label relative)

/-- `_runtime_conflict`. -/
def runtimeConflict {α : Type} (m : Manifest Digest) (relative : Path)
    (staged target : Option Node) : Call (Disk Digest) (StageError Digest) α := do
  let detail := conflictDetail host relative staged target
  writeManifest
    { m with
      conflicts := if relative ∈ m.conflicts then m.conflicts else m.conflicts ++ [relative]
      conflictDetails := m.conflictDetails ++ [detail] }
  .raise (.conflict [relative] [detail])

/-! ### Preparing a batch -/

/-- `_completed_staged_files`. -/
def completedStagedFiles (staged : Dict Node) : Except (StageError Digest) (List Path) :=
  (staged.entries.filter fun file => !isIncomplete file.1).mapM fun file =>
    (validateRegularFile "staged".toList file.1 file.2).map fun _ => file.1

/-- The identities of the files, on top of what was planned before. -/
def plannedWith (staged : Dict Node) (completed : List Path) (planned : Dict Nat) : Dict Nat :=
  completed.foldl
    (fun planned relative =>
      match staged.lookup relative with
      | some (.file identity) => planned.insert relative identity
      | _ => planned)
    planned

/-- What is to be done with one path. -/
inductive Plan (Digest : Type)
  | entry (entry : Entry Digest) (update : Option (Update Digest))
  | conflict (detail : Detail Digest)
  | error (e : StageError Digest)

/-- The body of the loop in `_prepare_promotion_batch`. -/
def planPath (provider : Option (Provider Bytes)) (d : Disk Digest) (m : Manifest Digest)
    (relative : Path) (plannedIdentity : Nat) : Plan Digest :=
  let target := d.canonical relative
  match d.staged.lookup relative with
  | some stagedNode =>
    match validateRegularFile "staged".toList relative stagedNode with
    | .error e => .error e
    | .ok staged =>
      match target with
      | none => .entry ⟨plannedIdentity, .link, none, false, none⟩ none
      | some (.file targetIdentity) =>
        if FilesEqual host staged targetIdentity then
          let action :=
            if plannedIdentity = targetIdentity then .recoveredLink else .acceptExisting
          .entry ⟨plannedIdentity, action, some targetIdentity, false, none⟩ none
        else
          match safeMetadataUpdate host source provider relative staged targetIdentity with
          | none => .conflict (conflictDetail host relative (some stagedNode) target)
          | some update =>
            .entry ⟨plannedIdentity, .replaceMetadata, none, true,
              some update.replacementSha⟩ (some update)
      | some _ => .conflict (conflictDetail host relative (some stagedNode) target)
  | none =>
    match target with
    | none => .error (.missingFromBoth relative)
    | some (.file targetIdentity) =>
      match m.metadataUpdates.lookup relative with
      | some update =>
        if update.replacementSha = host.sha targetIdentity then
          .entry ⟨plannedIdentity, .recoveredMetadata, some targetIdentity, false,
            some update.replacementSha⟩ none
        else if plannedIdentity = targetIdentity ∨
            m.promoted.lookup relative = some targetIdentity then
          .entry ⟨plannedIdentity, .recoveredLink, some targetIdentity, false, none⟩ none
        else .conflict (conflictDetail host relative none target)
      | none =>
        if plannedIdentity = targetIdentity ∨
            m.promoted.lookup relative = some targetIdentity then
          .entry ⟨plannedIdentity, .recoveredLink, some targetIdentity, false, none⟩ none
        else .conflict (conflictDetail host relative none target)
    | some _ => .conflict (conflictDetail host relative none target)

/-- What the loop has collected. -/
structure Planning (Digest : Type) where
  entries : Dict (Entry Digest)
  metadataUpdates : Dict (Update Digest)
  conflictDetails : List (Detail Digest)

def Planning.add (planning : Planning Digest) (relative : Path) :
    Plan Digest → Except (StageError Digest) (Planning Digest)
  | .entry entry update =>
    .ok { planning with
      entries := planning.entries.insert relative entry
      metadataUpdates :=
        match update with
        | none => planning.metadataUpdates
        | some update => planning.metadataUpdates.insert relative update }
  | .conflict detail =>
    .ok { planning with conflictDetails := planning.conflictDetails ++ [detail] }
  | .error e => .error e

/-- The loop in `_prepare_promotion_batch`. -/
def planBatch (provider : Option (Provider Bytes)) (d : Disk Digest) (m : Manifest Digest)
    (planned : Dict Nat) : Except (StageError Digest) (Planning Digest) :=
  (sortedKeys planned).foldlM
    (fun planning relative =>
      planning.add relative
        (planPath host source provider d m relative ((planned.lookup relative).getD 0)))
    ⟨∅, m.metadataUpdates, []⟩

/-- `_prepare_promotion_batch`.  It returns the manifest that it has written and the batch. -/
def preparePromotionBatch (provider : Option (Provider Bytes)) (m : Manifest Digest)
    (completed : List Path) :
    Call (Disk Digest) (StageError Digest) (Manifest Digest × Batch Digest) := do
  let d ← .get
  let planned := plannedWith d.staged completed m.planned
  let planning ← .lift (planBatch host source provider d m planned)
  let conflicts := planning.conflictDetails.map Detail.relativePath
  let batch : Batch Digest := ⟨false, planning.entries⟩
  if conflicts ≠ [] then
    writeManifest
      { m with
        planned
        metadataUpdates := planning.metadataUpdates
        conflicts
        conflictDetails := planning.conflictDetails }
    .raise (.conflict conflicts planning.conflictDetails)
  else
    let prepared : Manifest Digest :=
      { m with
        planned
        metadataUpdates := planning.metadataUpdates
        conflicts := []
        conflictDetails := []
        promotionBatch := some batch }
    writeManifest prepared
    pure (prepared, batch)

/-! ### Executing a batch -/

section

variable (d : Disk Digest)

def Disk.linkCanonical (relative : Path) (identity : Nat) : Disk Digest :=
  { d with canonical := Function.update d.canonical relative (some (.file identity)) }

def Disk.linkRetained (relative : Path) (identity : Nat) : Disk Digest :=
  { d with retained := Function.update d.retained relative (some (.file identity)) }

def Disk.linkStaged (relative : Path) (identity : Nat) : Disk Digest :=
  { d with staged := d.staged.insert relative (.file identity) }

/-- `os.replace` of a staged file to a canonical path.  If both names refer to the same file
then nothing happens. -/
def Disk.replaceStaged (relative path : Path) : Disk Digest :=
  match d.staged.lookup relative with
  | none => d
  | some node =>
    if d.canonical path = some node then d
    else
      { d with
        staged := d.staged.erase relative
        canonical := Function.update d.canonical path (some node) }

def Disk.unlinkStaged (relative : Path) : Disk Digest :=
  { d with staged := d.staged.erase relative }

def Disk.unlinkRetained (relative : Path) : Disk Digest :=
  { d with retained := Function.update d.retained relative none }

end

/-- `_target_has_recorded_identity`. -/
def TargetHasRecordedIdentity (m : Manifest Digest) (relative : Path) (entry : Entry Digest)
    (target : Option Node) : Prop :=
  ∃ identity ∈ [entry.targetIdentity, some entry.plannedIdentity, m.planned.lookup relative,
    m.promoted.lookup relative].reduceOption, target = some (.file identity)

instance (m : Manifest Digest) (relative : Path) (entry : Entry Digest) (target : Option Node) :
    Decidable (TargetHasRecordedIdentity m relative entry target) :=
  inferInstanceAs (Decidable (∃ identity ∈ List.reduceOption _, _))

/-- `_apply_file_promotion`. -/
def applyFilePromotion (m : Manifest Digest) (relative : Path) (entry : Entry Digest) :
    Call (Disk Digest) (StageError Digest) Unit := do
  let d ← .get
  let target := d.canonical relative
  match d.staged.lookup relative with
  | none =>
    if TargetHasRecordedIdentity m relative entry target then pure ()
    else if entry.action = .recoveredLink then runtimeConflict host m relative none target
    else .raise (.missingFromBoth relative)
  | some node =>
    let staged ← .lift (validateRegularFile "staged".toList relative node)
    if staged ≠ entry.plannedIdentity then .raise (.changedAfterPlanning relative)
    else
      match target with
      | none => .write fun d => d.linkCanonical relative staged
      | some (.file identity) =>
        if FilesEqual host staged identity then pure ()
        else runtimeConflict host m relative (some node) target
      | some _ => runtimeConflict host m relative (some node) target

/-- `_ensure_retained_copy`. -/
def ensureRetainedCopy (relative : Path) (copied : Nat) :
    Call (Disk Digest) (StageError Digest) Unit := do
  match (← .get).retained relative with
  | none => .write fun d => d.linkRetained relative copied
  | some node =>
    let retained ← .lift (validateRegularFile "retained staged".toList relative node)
    if FilesEqual host copied retained then pure () else .raise .retainedCopyChanged

/-- The staged file, or else its retained copy. -/
def recoverySource (d : Disk Digest) (relative : Path) : Option Node :=
  (d.staged.lookup relative).or (d.retained relative)

/-- A copy that is recovered gets its staged name back. -/
def linkBack (relative : Path) (copied : Nat) : Call (Disk Digest) (StageError Digest) Unit := do
  match (← .get).staged.lookup relative with
  | none => .write fun d => d.linkStaged relative copied
  | some _ => pure ()

/-- The part of `_apply_metadata_promotion` where the old version is replaced. -/
def replaceTarget (relative : Path) (copied : Nat) :
    Call (Disk Digest) (StageError Digest) Unit := do
  ensureRetainedCopy host relative copied
  linkBack relative copied
  .write fun d => d.replaceStaged relative relative

section

variable (provider : Option (Provider Bytes))

section

variable (m : Manifest Digest)

/-- `_apply_metadata_promotion`. -/
def applyMetadataPromotion (relative : Path) : Call (Disk Digest) (StageError Digest) Unit := do
  let d ← .get
  let recovery := recoverySource d relative
  let target := d.canonical relative
  match m.metadataUpdates.lookup relative with
  | none => .raise (.recoveryPlanMissing relative)
  | some expected =>
    let copied ← .lift
      (match recovery with
      | none => .ok none
      | some node => (validateRegularFile "staged recovery".toList relative node).map some)
    if copied.any fun identity => host.sha identity ≠ expected.replacementSha then
      runtimeConflict host m relative recovery target
    else
      match target with
      | some (.file identity) =>
        if host.sha identity = expected.replacementSha then pure ()
        else
          match copied with
          | none => runtimeConflict host m relative recovery target
          | some copied =>
            if host.sha identity ≠ expected.previousSha then
              runtimeConflict host m relative recovery target
            else
              match safeMetadataUpdate host source provider relative copied identity with
              | none => runtimeConflict host m relative recovery target
              | some _ => replaceTarget host relative copied
      | some _ => runtimeConflict host m relative recovery target
      | none =>
        match copied with
        | none => .raise (.replacementMissing relative)
        | some copied =>
          ensureRetainedCopy host relative copied
          .write fun d => d.linkCanonical relative copied

section

variable (entries : Dict (Entry Digest))

section

variable (relative : Path)

/-- The first loop of `_execute_promotion_batch`: every replacement has a second name before
the first one is consumed. -/
def retainCopy :
    Call (Disk Digest) (StageError Digest) Unit := do
  match entries.lookup relative with
  | none => pure ()
  | some entry =>
    if entry.action.isMetadata = false then pure ()
    else
      let d ← .get
      let recovery := recoverySource d relative
      match recovery with
      | none => pure ()
      | some node =>
        let copied ← .lift (validateRegularFile "metadata recovery".toList relative node)
        if entry.replacementSha ≠ some (host.sha copied) then
          runtimeConflict host m relative recovery (d.canonical relative)
        else ensureRetainedCopy host relative copied

/-- What the second loop has collected: the manifest in memory, whose updates are marked as
applied one by one, and the identities of the targets. -/
structure Progress (Digest : Type) where
  manifest : Manifest Digest
  promoted : Dict Nat

/-- The manifest that covers every canonical change of the batch. -/
def Progress.checkpoint (progress : Progress Digest) (batch : Batch Digest) : Manifest Digest :=
  { progress.manifest with
    promoted := progress.promoted
    promotionBatch := some { batch with promoted := true } }

def applyPromotion (entry : Entry Digest) : Call (Disk Digest) (StageError Digest) Unit :=
  if entry.action.isMetadata then applyMetadataPromotion host source provider m relative
  else applyFilePromotion host m relative entry

/-- `update["state"] = "applied"`. -/
def markApplied (entry : Entry Digest) :
    Manifest Digest :=
  match m.metadataUpdates.lookup relative with
  | some update =>
    if entry.action.isMetadata then
      { m with
        metadataUpdates := m.metadataUpdates.insert relative { update with applied := true } }
    else m
  | none => m

/-- A file that is still staged is compared with its target once more. -/
def differs (staged : Option Node) (entry : Entry Digest) (identity : Nat) : Bool :=
  match staged with
  | some (.file staged) => !entry.action.isMetadata && !decide (FilesEqual host staged identity)
  | _ => false

/-- The target that a promotion has brought about. -/
def recordTarget (entry : Entry Digest) :
    Call (Disk Digest) (StageError Digest) Nat := do
  let d ← .get
  match d.canonical relative with
  | some (.file identity) =>
    if differs host (d.staged.lookup relative) entry identity then
      runtimeConflict host m relative (d.staged.lookup relative) (d.canonical relative)
    else pure identity
  | _ => .raise (.targetUnavailable relative)

/-- The second loop of `_execute_promotion_batch`. -/
def applyEntry (progress : Progress Digest) (relative : Path) :
    Call (Disk Digest) (StageError Digest) (Progress Digest) := do
  match entries.lookup relative with
  | none => pure progress
  | some entry =>
    applyPromotion host source provider progress.manifest relative entry
    let identity ← recordTarget host (markApplied progress.manifest relative entry) relative entry
    pure ⟨markApplied progress.manifest relative entry,
      progress.promoted.insert relative identity⟩

/-- The target is the file that was promoted. -/
def checkPromoted (promoted : Dict Nat) (relative : Path) :
    Call (Disk Digest) (StageError Digest) Unit := do
  let d ← .get
  match d.canonical relative, promoted.lookup relative with
  | some (.file identity), some expected =>
    if expected = identity then pure ()
    else runtimeConflict host m relative (d.staged.lookup relative) (d.canonical relative)
  | _, _ => runtimeConflict host m relative (d.staged.lookup relative) (d.canonical relative)

def cleanupStaged : Call (Disk Digest) (StageError Digest) Unit := do
  match (← .get).staged.lookup relative with
  | none => pure ()
  | some node =>
    let _ ← .lift (validateRegularFile "staged cleanup".toList relative node)
    .write fun d => d.unlinkStaged relative

def cleanupRetained : Call (Disk Digest) (StageError Digest) Unit := do
  match (← .get).retained relative with
  | none => pure ()
  | some node =>
    let _ ← .lift (validateRegularFile "retained staged cleanup".toList relative node)
    .write fun d => d.unlinkRetained relative

/-- One file of `_cleanup_promoted_sources`. -/
def cleanupSource :
    Call (Disk Digest) (StageError Digest) Unit := do
  cleanupStaged relative
  if (entries.lookup relative).any Entry.retains then cleanupRetained relative else pure ()

end

/-- `_cleanup_promoted_sources`. -/
def cleanupPromotedSources (preserve : List Path) :
    Call (Disk Digest) (StageError Digest) Unit :=
  .each (cleanupSource entries) ((sortedKeys entries).filter fun relative => relative ∉ preserve)

end

/-- `StagePromotion`. -/
structure StagePromotion (Digest : Type) where
  paths : List Path
  metadataUpdates : List (Update Digest)

/-- `_promotion_result`. -/
def promotionResult (paths : List Path) (updates : Dict (Update Digest)) : StagePromotion Digest where
  paths
  metadataUpdates :=
    ((sortedKeys updates).filterMap fun relative => updates.lookup relative).filter Update.applied

/-- `_execute_promotion_batch`. -/
def executePromotionBatch
    (batch : Batch Digest) : Call (Disk Digest) (StageError Digest) (StagePromotion Digest) := do
  let entries := batch.entries
  .each (retainCopy host m entries) (sortedKeys entries)
  let progress ← .fold (applyEntry host source provider entries) (sortedKeys entries)
    ⟨m, m.promoted⟩
  .each (checkPromoted host progress.manifest progress.promoted) (sortedKeys entries)
  writeManifest (progress.checkpoint batch)
  cleanupPromotedSources entries []
  pure (promotionResult (sortedKeys entries) progress.manifest.metadataUpdates)

/-- `_validate_promoted_batch`. -/
def validatePromotedBatch (batch : Batch Digest) :
    Call (Disk Digest) (StageError Digest) Unit :=
  .each (checkPromoted host m m.promoted) (sortedKeys batch.entries)

/-- `_finish_promoted_batch`. -/
def finishPromotedBatch (batch : Batch Digest) :
    Call (Disk Digest) (StageError Digest) (StagePromotion Digest) := do
  validatePromotedBatch host m batch
  cleanupPromotedSources batch.entries []
  pure (promotionResult (sortedKeys batch.entries) m.metadataUpdates)

end

/-- `_new_paths_after_promoted_batch`. -/
def newPathsAfterPromotedBatch (batch : Batch Digest) (d : Disk Digest) (completed : List Path) :
    List Path :=
  completed.filter fun relative =>
    (batch.entries.lookup relative).all fun entry =>
      d.staged.lookup relative ≠ some (.file entry.plannedIdentity)

/-- `promote`. -/
def promote :
    Call (Disk Digest) (StageError Digest) (StagePromotion Digest) := do
  let m ← loadOrInitialize
  let d ← .get
  let completed ← .lift (completedStagedFiles d.staged)
  match m.promotionBatch with
  | none =>
    let (m, batch) ← preparePromotionBatch host source provider m completed
    executePromotionBatch host source provider m batch
  | some batch =>
    if batch.promoted = false then executePromotionBatch host source provider m batch
    else
      let newPaths := newPathsAfterPromotedBatch batch d completed
      if newPaths = [] then finishPromotedBatch host m batch
      else
        validatePromotedBatch host m batch
        cleanupPromotedSources batch.entries newPaths
        let completed ← .lift (completedStagedFiles (← .get).staged)
        let (m, batch) ← preparePromotionBatch host source provider
          { m with promotionBatch := none } completed
        executePromotionBatch host source provider m batch

end

end Calls

end DownloadStage
