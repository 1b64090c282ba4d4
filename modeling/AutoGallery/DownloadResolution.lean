import AutoGallery.DownloadStage

/-!
# Resolving the conflicts of a stage

`resolveConflicts` takes one decision for every conflict that the manifest lists.  It writes
what it is about to do into the manifest, with the digests of the winner and the loser of
each conflict, and then brings the files into place one conflict after the other.  Another
call with the same decisions goes on where a stopped one has left off.

A history of a stage is a sequence of downloads into it and of calls, each of which may be
stopped.
-/

namespace DownloadStage

open PyText Stoppable

section Resolution

variable {Bytes Digest : Type} [DecidableEq Bytes] [DecidableEq Digest]

def resolutionIdChars : Text :=
  "abcdefghijklmnopqrstuvwxyzABCDEFGHIJKLMNOPQRSTUVWXYZ0123456789-_.".toList

/-- The id of a resolution is a name without separators. -/
def ValidResolutionId (id : Text) : Prop :=
  id ≠ [] ∧ ∀ c ∈ id, c ∈ resolutionIdChars

instance (id : Text) : Decidable (ValidResolutionId id) :=
  inferInstanceAs (Decidable (_ ∧ _))

/-- Two dicts are equal. -/
def SameDict {α : Type} (d e : Dict α) : Prop :=
  ∀ path ∈ d.keys ++ e.keys, d.lookup path = e.lookup path

instance {α : Type} [DecidableEq α] (d e : Dict α) : Decidable (SameDict d e) :=
  inferInstanceAs (Decidable (∀ path ∈ _, _))

def Winner.text : Winner → Text
  | canonical => "canonical".toList
  | staged => "staged".toList

/-- The side that does not win. -/
def Winner.loser : Winner → Winner
  | canonical => staged
  | staged => canonical

variable (host : Host Bytes Digest)

/-- The folder that a resolution moves its losers to. -/
def quarantineFolder (resolutionId : Text) : Path :=
  ".conflict-quarantine/".toList ++ host.quarantineNamespace resolutionId ++ "/".toList

/-- Where a resolution moves the loser of a conflict. -/
def quarantinePath (resolutionId : Text) (winner : Winner) (relative : Path) : Path :=
  quarantineFolder host resolutionId ++ winner.loser.text ++ "/".toList ++ relative

/-- `_conflict_file_hash` with `allow_missing`. -/
def conflictFileHash (label : Text) : Option Node → Except (StageError Digest) (Option Digest)
  | some .symlink => .error (.conflictSymlink label)
  | some .other => .error (.conflictNotRegular label)
  | some (.file identity) => .ok (some (host.sha identity))
  | none => .ok none

/-- `_conflict_file_hash` of a file that has to be there. -/
def presentFileHash (label : Text) (node : Option Node) : Except (StageError Digest) Digest := do
  match ← conflictFileHash host label node with
  | some sha => .ok sha
  | none => .error (.conflictMissing label)

/-- The last detail that was recorded for a path. -/
def detailOf (m : Manifest Digest) (relative : Path) : Option (Detail Digest) :=
  m.conflictDetails.reverse.find? fun detail => detail.relativePath = relative

/-- The decisions of a plan. -/
def recordedDecisions (entries : List (ResolutionEntry Digest)) : Dict Winner :=
  entries.foldl (fun decisions entry => decisions.insert entry.relativePath entry.winner) ∅

/-- What is to be done with one conflict. -/
def planConflict (d : Disk Digest) (m : Manifest Digest) (resolutionId : Text) (winner : Winner)
    (relative : Path) : Except (StageError Digest) (ResolutionEntry Digest) := do
  let stagedSha ← presentFileHash host "staged conflict".toList (d.staged.lookup relative)
  let canonicalSha ← presentFileHash host "canonical conflict".toList (d.canonical relative)
  let detail := detailOf m relative
  if (detail.bind Detail.stagedSha).any (· ≠ stagedSha) then .error (.stagedChanged relative)
  else if (detail.bind Detail.canonicalSha).any (· ≠ canonicalSha) then
    .error (.canonicalChanged relative)
  else
    .ok {
      relativePath := relative
      winner
      winnerSha := if winner = .staged then stagedSha else canonicalSha
      loserSha := if winner = .staged then canonicalSha else stagedSha
      quarantinePath := quarantinePath host resolutionId winner relative }

/-- The plan of a new resolution. -/
def planResolution (d : Disk Digest) (m : Manifest Digest) (decisions : Dict Winner)
    (resolutionId : Text) : Except (StageError Digest) (List (ResolutionEntry Digest)) :=
  if m.conflicts = [] then .error .noConflicts
  else if (∀ path ∈ decisions.keys, path ∈ m.conflicts) ∧
      ∀ path ∈ m.conflicts, path ∈ decisions.keys then
    m.conflicts.mapM fun relative =>
      planConflict host d m resolutionId ((decisions.lookup relative).getD .canonical) relative
  else .error .oneDecisionPerConflict

/-- A hard link to a canonical file under another canonical name. -/
def Disk.linkQuarantine (d : Disk Digest) (relative path : Path) : Disk Digest :=
  { d with canonical := Function.update d.canonical path (d.canonical relative) }

/-- The canonical file gets its second name, unless it has it. -/
def keepLoser (entry : ResolutionEntry Digest) (quarantineSha : Option Digest) :
    Call (Disk Digest) (StageError Digest) Unit :=
  match quarantineSha with
  | none => .write fun d => d.linkQuarantine entry.relativePath entry.quarantinePath
  | some sha =>
    if sha = entry.loserSha then pure () else .raise (.quarantineChanged entry.relativePath)

/-- The last check of `_resume_conflict_resolution_entry`. -/
def checkResolved (entry : ResolutionEntry Digest) :
    Call (Disk Digest) (StageError Digest) Unit := do
  let d ← .get
  let target ← .lift
    (presentFileHash host "resolved canonical conflict".toList (d.canonical entry.relativePath))
  let quarantine ← .lift
    (presentFileHash host "resolved conflict quarantine".toList (d.canonical entry.quarantinePath))
  let staged ← .lift
    (conflictFileHash host "resolved staged conflict".toList (d.staged.lookup entry.relativePath))
  if target ≠ entry.winnerSha ∨ quarantine ≠ entry.loserSha ∨ staged ≠ none then
    .raise (.notDurable entry.relativePath)
  else pure ()

/-- `_resume_conflict_resolution_entry`. -/
def resumeConflictResolutionEntry (entry : ResolutionEntry Digest) :
    Call (Disk Digest) (StageError Digest) Unit := do
  let d ← .get
  let relative := entry.relativePath
  let staged ← .lift (conflictFileHash host "staged conflict".toList (d.staged.lookup relative))
  let target ← .lift (presentFileHash host "canonical conflict".toList (d.canonical relative))
  let quarantine ← .lift
    (conflictFileHash host "conflict quarantine".toList (d.canonical entry.quarantinePath))
  if target = entry.winnerSha ∧ quarantine = some entry.loserSha ∧ staged = none then pure ()
  else
    match entry.winner with
    | .staged =>
      if target ≠ entry.loserSha ∨ staged ≠ some entry.winnerSha then
        .raise (.changedWhileResuming relative)
      else
        keepLoser entry quarantine
        .write fun d => d.replaceStaged relative relative
        checkResolved host entry
    | .canonical =>
      if target ≠ entry.winnerSha ∨ staged ≠ some entry.loserSha ∨ quarantine ≠ none then
        .raise (.changedWhileResuming relative)
      else
        .write fun d => d.replaceStaged relative entry.quarantinePath
        checkResolved host entry

/-- One conflict: bring the files into place, and record the identity of the target. -/
def resolveEntry (m : Manifest Digest) (entry : ResolutionEntry Digest) :
    Call (Disk Digest) (StageError Digest) (Manifest Digest) := do
  resumeConflictResolutionEntry host entry
  let m :=
    match (← .get).canonical entry.relativePath with
    | some (.file identity) =>
      { m with
        planned := m.planned.insert entry.relativePath identity
        promoted := m.promoted.insert entry.relativePath identity }
    | _ => m
  writeManifest m
  pure m

/-- The plan of the call: that of an earlier one, or a new one. -/
def loadResolution (m : Manifest Digest) (decisions : Dict Winner) (resolutionId : Text)
    (expiresAt : Nat) : Call (Disk Digest) (StageError Digest) (Resolution Digest) := do
  match m.resolution with
  | some existing =>
    if SameDict decisions (recordedDecisions existing.entries) then pure existing
    else .raise .decisionsDoNotMatch
  | none =>
    let entries ← .lift (planResolution host (← .get) m decisions resolutionId)
    let resolution : Resolution Digest := ⟨resolutionId, false, entries, expiresAt⟩
    writeManifest { m with resolution := some resolution }
    pure resolution

/-- `resolve_conflicts`. -/
def resolveConflicts (decisions : Dict Winner) (resolutionId : Text) (expiresAt : Nat) :
    Call (Disk Digest) (StageError Digest) (Resolution Digest) := do
  let m ← loadOrInitialize
  if ValidResolutionId resolutionId then
    let resolution ← loadResolution host m decisions resolutionId expiresAt
    if resolution.applied then pure resolution
    else
      let m ← .fold (resolveEntry host) resolution.entries { m with resolution := some resolution }
      writeManifest
        { m with
          conflicts := []
          conflictDetails := []
          resolution := some { resolution with applied := true } }
      pure { resolution with applied := true }
  else .raise .invalidResolutionId

/-! ### Histories -/

/-- What happens to a stage.  A call may be stopped after so many writes. -/
inductive Event (Bytes : Type)
  | download (relative : Path) (identity : Nat)
  | promote (provider : Option (Provider Bytes)) (stop : Option Nat)
  | resolve (decisions : Dict Winner) (resolutionId : Text) (expiresAt : Nat) (stop : Option Nat)

/-- The state that a call leaves behind. -/
def leaves {σ ε α : Type} (call : Call σ ε α) (s : σ) : Option Nat → σ
  | none => (call s).state
  | some writes => call.stopped writes s

def Event.apply (source : Option Text) (d : Disk Digest) : Event Bytes → Disk Digest
  | .download relative identity => d.linkStaged relative identity
  | .promote provider stop => leaves (DownloadStage.promote host source provider) d stop
  | .resolve decisions resolutionId expiresAt stop =>
    leaves (resolveConflicts host decisions resolutionId expiresAt) d stop

/-- The stage after a history. -/
def after (source : Option Text) (d : Disk Digest) (history : List (Event Bytes)) : Disk Digest :=
  history.foldl (fun d event => event.apply host source d) d

end Resolution

end DownloadStage
