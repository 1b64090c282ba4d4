import AutoGallery.SegmentFrames

/-!
# The repository directory and `append`

The store is the directory as the module sees it: the configuration file, the
manifest and the segment files by digest.  A `Process` is a running writer
together with the number of file replacements it may still make; when that
number is used up, the process stops before the next replacement, so that
every crash point of a writer is a run with some `budget`.

`append` follows the source: gather the frames of all pending commits, checking
each commit's parent; pack the frames into segments by number of commits and
by encoded size, writing each segment when the next frame no longer fits;
finally replace the manifest.
-/

namespace Gitllery

/-- A JSON file: absent, present but not parseable, or holding a value. -/
inductive File (α : Type)
  | missing
  | unreadable
  | json (value : α)

structure Store (Bytes Digest : Type) where
  config : File Config
  manifest : File (Manifest Digest)
  files : Finmap fun _ : Digest => Bytes

/-- A directory with nothing in it. -/
def emptyStore {Bytes Digest : Type} : Store Bytes Digest :=
  ⟨.missing, .missing, ∅⟩

/-- A writer at work; `none` is a process that is not interrupted. -/
structure Process (Bytes Digest : Type) where
  store : Store Bytes Digest
  budget : Option Nat

/-- How a call ends without a result. -/
inductive Halt (Digest : Type)
  | raised (error : FormatError Digest)
  | stopped

variable {Value Bytes Digest : Type}

/-- One atomic file replacement; `none` when the process stops before it. -/
def Process.replace (p : Process Bytes Digest) (change : Store Bytes Digest → Store Bytes Digest) :
    Option (Process Bytes Digest) :=
  match p.budget with
  | none => some ⟨change p.store, none⟩
  | some 0 => none
  | some (n + 1) => some ⟨change p.store, some n⟩

/-- A replacement applies its change and nothing else. -/
theorem replace_store {p p' : Process Bytes Digest}
    {change : Store Bytes Digest → Store Bytes Digest} (h : p.replace change = some p') :
    p'.store = change p.store := by
  unfold Process.replace at h
  split at h <;> simp_all <;> rw [← h]

/-- `initialise`.  An existing manifest is only checked. -/
def initialise (repositoryId : String) (source creatorDir generation : Option String)
    (now : String) (σ : Store Bytes Digest) : Store Bytes Digest :=
  match σ.manifest with
  | .missing =>
    { σ with
      config := .json ⟨currentHeader, repositoryId, source, creatorDir⟩
      manifest := .json
        { header := currentHeader
          repositoryId := repositoryId
          -- `generation or _now()`: an empty text counts as absent
          generation := match generation with
            | none => now
            | some g => if g = "" then now else g
          headSegment := none
          lastCompleteCommitId := none
          lastCompletePosition := none
          segmentCount := 0
          commitCount := 0
          changeCount := 0
          updatedAt := now } }
  | _ => σ

/-- `read_manifest`. -/
def readManifest (σ : Store Bytes Digest) : Except (FormatError Digest) (Manifest Digest) :=
  match σ.manifest with
  | .json m => (validateHeader m.header .manifest).map fun _ => m
  | _ => .error .cannotReadManifest

section Writer

variable [DecidableEq Digest] (C : Codec Value Bytes Digest)

/-- `read_segment`. -/
def readSegment (σ : Store Bytes Digest) (digest : Digest) :
    Except (FormatError Digest) (Segment Value Digest) :=
  if C.validDigest digest = false then .error .invalidSegmentDigest
  else
    match (σ.files.lookup digest).bind C.decompress with
    | none => .error (.cannotReadSegment digest)
    | some raw =>
      match C.loads raw with
      | none => .error (.cannotReadSegment digest)
      | some segment =>
        if C.digestBytes raw ≠ digest then .error (.segmentHashMismatch digest)
        else (validateHeader segment.header .segment).map fun _ => segment

/-- `_write_segment`. -/
def writeSegment (segment : Segment Value Digest) (p : Process Bytes Digest) :
    Except (Halt Digest) Digest × Process Bytes Digest :=
  let raw := C.canonicalBytes (.segment segment)
  if C.len raw > maxSegmentBytes then (.error (.raised .segmentExceedsLimit), p)
  else
    let digest := C.digestBytes raw
    if C.validDigest digest = false then (.error (.raised .invalidSegmentDigest), p)
    else if digest ∈ p.store.files then
      match readSegment C p.store digest with
      | .error e => (.error (.raised e), p)
      | .ok _ => (.ok digest, p)
    else
      match p.replace fun σ => { σ with files := σ.files.insert digest (C.compress raw) } with
      | none => (.error .stopped, p)
      | some p' => (.ok digest, p')

/-- The accumulators of the first loop of `append`. -/
structure Gathered (Value : Type) where
  frames : List (Frame Value)
  previousCommit : Option String
  commitCount : Nat
  changeCount : Nat

/-- The first loop of `append`: parent check and frames of each commit. -/
def gatherFrames : List (Commit Value) → Gathered Value →
    Except (FormatError Digest) (Gathered Value)
  | [], g => .ok g
  | commit :: rest, g =>
    let commitId := commit.commitId C
    if commitId = "" then .error .commitIdRequired
    else
      -- `previous_commit is not None and str(parent) != str(previous_commit)`
      match g.previousCommit.filter (commit.parentId C ≠ ·) with
      | some previous => .error (.doesNotFollow commitId previous)
      | none =>
        match framesForCommit C commit with
        | .error e => .error e
        | .ok frames =>
          gatherFrames rest
            { frames := g.frames ++ frames
              previousCommit := some commitId
              commitCount := g.commitCount + 1
              changeCount := g.changeCount + commit.changeList.length }

/-- The accumulators of the second loop of `append`: the frames of the open
segment with their commit ids, and the last published segment. -/
structure Packing (Value Digest : Type) where
  frames : List (Frame Value)
  segmentCommitIds : Finset String
  previousSegment : Option Digest
  segmentCount : Nat

/-- The segment that would be written for `frames` at this point. -/
def Packing.segment (w : Packing Value Digest) (repositoryId : String)
    (frames : List (Frame Value)) : Segment Value Digest where
  header := currentHeader
  repositoryId := repositoryId
  sequence := w.segmentCount + 1
  previousSegment := w.previousSegment
  frames := frames

/-- `publish_segment`. -/
def publishSegment (repositoryId : String) (w : Packing Value Digest)
    (p : Process Bytes Digest) :
    Except (Halt Digest) (Packing Value Digest) × Process Bytes Digest :=
  if w.frames = [] then (.ok w, p)
  else
    match writeSegment C (w.segment repositoryId w.frames) p with
    | (.error h, p') => (.error h, p')
    | (.ok digest, p') => (.ok ⟨[], ∅, some digest, w.segmentCount + 1⟩, p')

/-- The id under which the packer counts a frame's commit. -/
def packingId (frame : Frame Value) : String :=
  C.strGet (frame.header.lookup "commit_id")

/-- Publish the open segment when `frame` no longer fits into it. -/
def makeRoom (repositoryId : String) (frame : Frame Value) (w : Packing Value Digest)
    (p : Process Bytes Digest) :
    Except (Halt Digest) (Packing Value Digest) × Process Bytes Digest :=
  let candidateIds := insert (packingId C frame) w.segmentCommitIds
  let candidate := w.segment repositoryId (w.frames ++ [frame])
  if w.frames ≠ [] ∧ (candidateIds.card > maxCommitsPerSegment ∨
      C.len (C.canonicalBytes (.segment candidate)) > maxSegmentBytes) then
    publishSegment C repositoryId w p
  else (.ok w, p)

/-- One turn of the second loop of `append`. -/
def packFrame (repositoryId : String) (frame : Frame Value) (w : Packing Value Digest)
    (p : Process Bytes Digest) :
    Except (Halt Digest) (Packing Value Digest) × Process Bytes Digest :=
  match makeRoom C repositoryId frame w p with
  | (.error h, p') => (.error h, p')
  | (.ok w', p') =>
    let candidate := w'.segment repositoryId (w'.frames ++ [frame])
    if C.len (C.canonicalBytes (.segment candidate)) > maxSegmentBytes then
      (.error (.raised .frameExceedsSegmentLimit), p')
    else
      (.ok { w' with
             frames := w'.frames ++ [frame]
             segmentCommitIds := insert (packingId C frame) w'.segmentCommitIds }, p')

/-- The second loop of `append` with the final `publish_segment`. -/
def packFrames (repositoryId : String) : List (Frame Value) → Packing Value Digest →
    Process Bytes Digest → Except (Halt Digest) (Packing Value Digest) × Process Bytes Digest
  | [], w, p => publishSegment C repositoryId w p
  | frame :: rest, w, p =>
    match packFrame C repositoryId frame w p with
    | (.error h, p') => (.error h, p')
    | (.ok w', p') => packFrames repositoryId rest w' p'

/-- `str(manifest.get("last_complete_commit_id"))`. -/
def watermarkText : Option String → String
  | none => "None"
  | some commitId => commitId

/-- The test with which `append` recognises a commit it has published already:
a single pending commit whose id reads like the watermark. -/
def isRepeat (watermark : Option String) : List (Commit Value) → Bool
  | [commit] => C.strGet (commit.header.lookup "commit_id") = watermarkText watermark
  | _ => false

/-- The manifest `append` publishes after its two loops. -/
def Manifest.advanced (m : Manifest Digest) (g : Gathered Value) (w : Packing Value Digest)
    (now : String) : Manifest Digest :=
  { m with
    headSegment := w.previousSegment
    lastCompleteCommitId := g.previousCommit
    lastCompletePosition := some (w.previousSegment, w.segmentCount)
    segmentCount := w.segmentCount
    commitCount := g.commitCount
    changeCount := g.changeCount
    updatedAt := now }

/-- `append`. -/
def append (now : String) (commits : List (Commit Value)) (p : Process Bytes Digest) :
    Except (Halt Digest) (Manifest Digest) × Process Bytes Digest :=
  match readManifest p.store with
  | .error e => (.error (.raised e), p)
  | .ok manifest =>
    if commits.isEmpty then (.ok manifest, p)
    else if isRepeat C manifest.lastCompleteCommitId commits then (.ok manifest, p)
    else
      match gatherFrames C commits
          ⟨[], manifest.lastCompleteCommitId, manifest.commitCount, manifest.changeCount⟩ with
      | .error e => (.error (.raised e), p)
      | .ok g =>
        match packFrames C manifest.repositoryId g.frames
            ⟨[], ∅, manifest.headSegment, manifest.segmentCount⟩ p with
        | (.error h, p') => (.error h, p')
        | (.ok w, p') =>
          let updated := manifest.advanced g w now
          match p'.replace fun σ => { σ with manifest := .json updated } with
          | none => (.error .stopped, p')
          | some p'' => (.ok updated, p'')

/-- **What a successful call did.**  Either nothing, because there was nothing
to do or the call read as a repetition; or it gathered the frames, packed them
and replaced the manifest. -/
theorem append_ok_cases {now : String} {batch : List (Commit Value)}
    {p p' : Process Bytes Digest} {m m' : Manifest Digest}
    (hread : readManifest p.store = .ok m) (h : append C now batch p = (.ok m', p')) :
    ((batch = [] ∨ isRepeat C m.lastCompleteCommitId batch = true) ∧ m' = m ∧ p' = p) ∨
    (isRepeat C m.lastCompleteCommitId batch = false ∧ ∃ g w q,
      gatherFrames C batch ⟨[], m.lastCompleteCommitId, m.commitCount, m.changeCount⟩ = .ok g ∧
      packFrames C m.repositoryId g.frames ⟨[], ∅, m.headSegment, m.segmentCount⟩ p = (.ok w, q) ∧
      m' = m.advanced g w now ∧ p'.store = { q.store with manifest := .json m' }) := by
  unfold append at h
  simp only [hread] at h
  split at h
  next hempty =>
    cases h
    exact .inl ⟨.inl (by simpa using hempty), rfl, rfl⟩
  split at h
  next hrepeat =>
    cases h
    exact .inl ⟨.inr hrepeat, rfl, rfl⟩
  next hrepeat =>
    split at h
    · cases h
    rename_i g hgather
    split at h
    · cases h
    rename_i w q hpack
    split at h
    · cases h
    · rename_i p'' hreplace
      have hstore := replace_store hreplace
      cases h
      exact .inr ⟨by simpa using hrepeat, g, w, q, hgather, hpack, rfl, hstore⟩

end Writer

end Gitllery
