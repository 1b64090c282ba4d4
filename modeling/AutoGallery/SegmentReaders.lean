import AutoGallery.SegmentStore

/-!
# The readers: `iter_segments`, `iter_commits`, `verify`

The source's readers are generators.  `Yield` is what a caller that consumes
one to the end sees: the items produced, and the exception that ended it, if
any.  Walking the chain newest first yields each segment as soon as it is read;
oldest first, the whole chain is walked before the first segment is yielded.
-/

namespace Gitllery

/-- The items a generator produced and the exception that ended it. -/
structure Yield (Digest α : Type) where
  items : List α
  error : Option (FormatError Digest)

/-- Yield one item, then continue. -/
def Yield.item {Digest α : Type} (x : α) (y : Yield Digest α) : Yield Digest α :=
  ⟨x :: y.items, y.error⟩

variable {Value Bytes Digest : Type} [DecidableEq Digest] (C : Codec Value Bytes Digest)

/-- A segment that can be read has a file. -/
theorem mem_files_of_readSegment {σ : Store Bytes Digest} {digest : Digest}
    {segment : Segment Value Digest} (h : readSegment C σ digest = .ok segment) :
    digest ∈ σ.files := by
  by_contra hmem
  have hnone : σ.files.lookup digest = none := Finmap.lookup_eq_none.mpr hmem
  unfold readSegment at h
  split at h
  · cases h
  · simp [hnone] at h

/-- The `while` loop of `iter_segments`, newest segment first.  Every turn reads
a file that was not seen before, so the loop ends. -/
def followChain (σ : Store Bytes Digest) (digest : Option Digest) (seen : Finset Digest) :
    Yield Digest (Digest × Segment Value Digest) :=
  match digest with
  | none => ⟨[], none⟩
  | some d =>
    if _hseen : d ∈ seen then ⟨[], some .chainContainsCycle⟩
    else
      match _hread : readSegment C σ d with
      | .error e => ⟨[], some e⟩
      | .ok segment =>
        (followChain σ segment.previousSegment (insert d seen)).item (d, segment)
termination_by (σ.files.keys \ seen).card
decreasing_by
  have hfile : d ∈ σ.files := mem_files_of_readSegment C _hread
  apply Finset.card_lt_card
  refine ⟨Finset.sdiff_subset_sdiff Finset.Subset.rfl (Finset.subset_insert _ _), ?_⟩
  intro hsub
  have hd : d ∈ σ.files.keys \ insert d seen :=
    hsub (Finset.mem_sdiff.mpr ⟨Finmap.mem_keys.mpr hfile, _hseen⟩)
  exact (Finset.mem_sdiff.mp hd).2 (Finset.mem_insert_self _ _)

/-- `iter_segments`. -/
def iterSegments (newestFirst : Bool) (σ : Store Bytes Digest) :
    Yield Digest (Digest × Segment Value Digest) :=
  match readManifest σ with
  | .error e => ⟨[], some e⟩
  | .ok manifest =>
    let chain := followChain C σ manifest.headSegment ∅
    if newestFirst then chain
    else
      match chain.error with
      | some e => ⟨[], some e⟩
      | none => ⟨chain.items.reverse, none⟩

/-- The grouping loop of `iter_commits` over the frames that arrive, with the
exception `upstream` that ends their arrival, if any. -/
def regroup (upstream : Option (FormatError Digest)) :
    Option String → List (Frame Value) → List (Frame Value) → Yield Digest (Commit Value)
  | _, frames, [] =>
    match upstream with
    | some e => ⟨[], some e⟩
    | none =>
      if frames.isEmpty then ⟨[], none⟩
      else
        match assemble C frames with
        | .error e => ⟨[], some e⟩
        | .ok commit => ⟨[commit], none⟩
  | currentId, frames, frame :: rest =>
    let commitId := frame.commitId C
    if commitId = "" then ⟨[], some .frameHasNoCommitId⟩
    else if currentId ≠ none ∧ currentId ≠ some commitId then
      match assemble C frames with
      | .error e => ⟨[], some e⟩
      | .ok commit => (regroup upstream (some commitId) [frame] rest).item commit
    else regroup upstream (some commitId) (frames ++ [frame]) rest

/-- The frames in the order in which `iter_commits` looks at them. -/
def arrivingFrames (newestFirst : Bool) (segments : List (Digest × Segment Value Digest)) :
    List (Frame Value) :=
  segments.flatMap fun s => if newestFirst then s.2.frames.reverse else s.2.frames

/-- `iter_commits`. -/
def iterCommits (newestFirst : Bool) (σ : Store Bytes Digest) : Yield Digest (Commit Value) :=
  let segments := iterSegments C newestFirst σ
  regroup C segments.error none [] (arrivingFrames newestFirst segments.items)

/-- The entries of `VerifyResult.errors`. -/
inductive Problem (Digest : Type)
  | configRepositoryMismatch
  | cannotReadConfig
  | cannotVerifyConfig (error : FormatError Digest)
  | segmentParent (digest : Digest)
  | segmentSequence (digest : Digest)
  | segmentRepository (digest : Digest)
  | commitParent (commitId : String)
  | manifestHead
  | manifestWatermark
  | segmentCount
  | commitCount
  | changeCount
  | raised (error : FormatError Digest)

/-- The text of an entry; an unreadable configuration is reported with the
system's own message, given as `reason`. -/
def Problem.text (hex : Digest → String) (reason : String) : Problem Digest → String
  | .configRepositoryMismatch => "config repository does not match manifest"
  | .cannotReadConfig => "cannot verify Gitllery config: " ++ reason
  | .cannotVerifyConfig e => "cannot verify Gitllery config: " ++ e.text hex
  | .segmentParent d => "segment " ++ hex d ++ " has a broken parent"
  | .segmentSequence d => "segment " ++ hex d ++ " has an invalid sequence"
  | .segmentRepository d => "segment " ++ hex d ++ " belongs to another repository"
  | .commitParent commitId => "commit " ++ commitId ++ " has a broken parent"
  | .manifestHead => "manifest head does not match segment chain"
  | .manifestWatermark => "manifest commit watermark does not match history"
  | .segmentCount => "manifest segment count is incorrect"
  | .commitCount => "manifest commit count is incorrect"
  | .changeCount => "manifest change count is incorrect"
  | .raised e => e.text hex

structure VerifyResult (Digest : Type) where
  ok : Bool
  segments : Nat
  commits : Nat
  changes : Nat
  errors : List (Problem Digest)

/-- The configuration check of `verify`. -/
def configProblems (σ : Store Bytes Digest) (manifest : Manifest Digest) : List (Problem Digest) :=
  match σ.config with
  | .json config =>
    match validateHeader config.header .config with
    | .error e => [.cannotVerifyConfig e]
    | .ok () =>
      if config.repositoryId ≠ manifest.repositoryId then [.configRepositoryMismatch] else []
  | _ => [.cannotReadConfig]

/-- The loop of `verify` over the segments; `count` segments have been seen and
`previous` is the digest of the last one. -/
def segmentProblems (manifest : Manifest Digest) :
    Nat → Option Digest → List (Digest × Segment Value Digest) → List (Problem Digest)
  | _, _, [] => []
  | count, previous, (digest, segment) :: rest =>
    (if segment.previousSegment ≠ previous then [.segmentParent digest] else []) ++
    (if segment.sequence ≠ count + 1 then [.segmentSequence digest] else []) ++
    (if segment.repositoryId ≠ manifest.repositoryId then [.segmentRepository digest] else []) ++
    segmentProblems manifest (count + 1) (some digest) rest

/-- The loop of `verify` over the commits. -/
def commitProblems : Option String → List (Commit Value) → List (Problem Digest)
  | _, [] => []
  | previous, commit :: rest =>
    let commitId := C.strGet (commit.header.lookup "commit_id")
    (if previous ≠ none ∧ previous ≠ some (commit.parentId C) then [.commitParent commitId]
      else []) ++
    commitProblems (some commitId) rest

/-- The comparisons `verify` makes with the manifest after its two loops. -/
def manifestProblems (manifest : Manifest Digest) (previousSegment : Option Digest)
    (previousCommit : Option String) (segments commits changes : Nat) : List (Problem Digest) :=
  (if previousSegment ≠ manifest.headSegment then [.manifestHead] else []) ++
  (if previousCommit ≠ manifest.lastCompleteCommitId then [.manifestWatermark] else []) ++
  (if manifest.segmentCount ≠ segments then [.segmentCount] else []) ++
  (if manifest.commitCount ≠ commits then [.commitCount] else []) ++
  (if manifest.changeCount ≠ changes then [.changeCount] else [])

/-- `verify(deep=True)`. -/
def verify (σ : Store Bytes Digest) : VerifyResult Digest :=
  match readManifest σ with
  | .error e => ⟨false, 0, 0, 0, [.raised e]⟩
  | .ok manifest =>
    let chain := iterSegments C false σ
    let history := iterCommits C false σ
    let segments := chain.items.length
    let commits := history.items.length
    let changes := (history.items.map fun c => c.changeList.length).sum
    let previousSegment := (chain.items.getLast?).map Prod.fst
    let previousCommit :=
      history.items.getLast?.map fun c => C.strGet (c.header.lookup "commit_id")
    let checked := configProblems σ manifest ++ segmentProblems manifest 0 none chain.items
    match chain.error with
    | some e => finish segments 0 0 (checked ++ [.raised e])
    | none =>
      let walked := checked ++ commitProblems C none history.items
      match history.error with
      | some e => finish segments commits changes (walked ++ [.raised e])
      | none =>
        finish segments commits changes
          (walked ++ manifestProblems manifest previousSegment previousCommit
            segments commits changes)
where
  finish (segments commits changes : Nat) (errors : List (Problem Digest)) :
      VerifyResult Digest :=
    ⟨errors.isEmpty, segments, commits, changes, errors⟩

end Gitllery
