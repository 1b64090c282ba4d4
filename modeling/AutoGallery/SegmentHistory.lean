import AutoGallery.SegmentChain

/-!
# The history of a repository

The invariant of a repository is `Published σ m segs hist blocks`: the manifest
`m` heads a chain of readable segments `segs` (newest first) numbered from one,
their frames read oldest first are the frames of the commits `hist`, and the
watermark and the three counters describe `hist`.  `append_published` is the
step: a successful call extends the history by the pending commits, or leaves
it alone when the call is recognised as a repetition.  `appends_published`
carries it along every run of successful calls.
-/

namespace Gitllery

variable {Value Bytes Digest : Type}

section Commits

variable (C : Codec Value Bytes Digest)

/-- Each commit names its predecessor as its parent; the first one is bound only
when a commit went before. -/
def Follows : Option String → List (Commit Value) → Prop
  | _, [] => True
  | previous, c :: rest =>
    (∀ q, previous = some q → c.parentId C = q) ∧ Follows (some (c.commitId C)) rest

/-- The id of the last commit, or `previous` when there is none. -/
def lastCommitId : Option String → List (Commit Value) → Option String
  | previous, [] => previous
  | _, c :: rest => lastCommitId (some (c.commitId C)) rest

/-- The number of changes of a list of commits. -/
def changeTotal (commits : List (Commit Value)) : Nat :=
  (commits.map fun c => c.changeList.length).sum

variable {C}

theorem lastCommitId_append (previous : Option String) (hist batch : List (Commit Value)) :
    lastCommitId C previous (hist ++ batch) = lastCommitId C (lastCommitId C previous hist) batch := by
  induction hist generalizing previous with
  | nil => rfl
  | cons c rest ih => exact ih _

theorem Follows.append {previous : Option String} {hist batch : List (Commit Value)}
    (hh : Follows C previous hist) (hb : Follows C (lastCommitId C previous hist) batch) :
    Follows C previous (hist ++ batch) := by
  induction hist generalizing previous with
  | nil => exact hb
  | cons c rest ih => exact ⟨hh.1, ih hh.2 hb⟩

/-- What the first loop of `append` has established when it ends. -/
structure Gathers (C : Codec Value Bytes Digest) (commits : List (Commit Value))
    (blocks : List (List (Frame Value))) (g g' : Gathered Value) : Prop where
  stored : List.Forall₂ (fun c block => framesForCommit C c = .ok block) commits blocks
  frames : g'.frames = g.frames ++ blocks.flatten
  ids : ∀ c ∈ commits, c.commitId C ≠ ""
  follows : Follows C g.previousCommit commits
  previousCommit : g'.previousCommit = lastCommitId C g.previousCommit commits
  commitCount : g'.commitCount = g.commitCount + commits.length
  changeCount : g'.changeCount = g.changeCount + changeTotal commits

theorem gatherFrames_ok {commits : List (Commit Value)} {g g' : Gathered Value}
    (h : gatherFrames C commits g = .ok g') : ∃ blocks, Gathers C commits blocks g g' := by
  induction commits generalizing g with
  | nil =>
    simp only [gatherFrames, Except.ok.injEq] at h
    subst h
    exact ⟨[], .nil, by simp, by simp, trivial, rfl, rfl, rfl⟩
  | cons c rest ih =>
    unfold gatherFrames at h
    simp only at h
    split at h
    · cases h
    rename_i hid
    split at h
    · cases h
    rename_i hparent
    split at h
    · cases h
    rename_i block hblock
    obtain ⟨blocks, hg⟩ := ih h
    refine ⟨block :: blocks, .cons hblock hg.stored, ?_, ?_, ⟨?_, hg.follows⟩,
      hg.previousCommit, ?_, ?_⟩
    · rw [hg.frames, List.flatten_cons, List.append_assoc]
    · intro d hd
      rcases List.mem_cons.mp hd with rfl | hd
      · exact hid
      · exact hg.ids d hd
    · intro q hq
      rw [hq] at hparent
      by_contra hne
      simp [Option.filter, hne] at hparent
    · rw [hg.commitCount, List.length_cons]
      show g.commitCount + 1 + rest.length = _
      omega
    · rw [hg.changeCount]
      simp only [changeTotal, List.map_cons, List.sum_cons]
      omega

end Commits

variable [DecidableEq Digest]

/-- The invariant of a repository with history `hist`; `blocks` are the frames
of its commits. -/
structure Published (C : Codec Value Bytes Digest) (σ : Store Bytes Digest) (m : Manifest Digest)
    (segs : List (Digest × Segment Value Digest)) (hist : List (Commit Value))
    (blocks : List (List (Frame Value))) : Prop where
  manifest : σ.manifest = .json m
  header : m.header = currentHeader
  config : ∃ cfg, σ.config = .json cfg ∧ cfg.header = currentHeader ∧
    cfg.repositoryId = m.repositoryId
  linked : Linked C σ m.repositoryId none 0 m.headSegment segs
  stored : List.Forall₂ (fun c block => framesForCommit C c = .ok block) hist blocks
  frames : storedFrames segs = blocks.flatten
  ids : ∀ c ∈ hist, c.commitId C ≠ ""
  follows : Follows C none hist
  watermark : m.lastCompleteCommitId = lastCommitId C none hist
  segmentCount : m.segmentCount = segs.length
  commitCount : m.commitCount = hist.length
  changeCount : m.changeCount = changeTotal hist

variable {C : Codec Value Bytes Digest}

variable {σ : Store Bytes Digest} {m : Manifest Digest}
  {segs : List (Digest × Segment Value Digest)} {hist : List (Commit Value)}
  {blocks : List (List (Frame Value))} {σ' : Store Bytes Digest} {batch : List (Commit Value)}
  {now : String} {batches : List (List (Commit Value))}

theorem Published.readManifest_eq (h : Published C σ m segs hist blocks) :
    readManifest σ = .ok m := by
  unfold readManifest
  rw [h.manifest]
  simp only [h.header, validateHeader_currentHeader, Except.map]

/-- A fresh repository has an empty history. -/
theorem initialise_published (C : Codec Value Bytes Digest) (repositoryId : String)
    (source creatorDir generation : Option String) (now : String) (hfresh : σ.manifest = .missing) :
    ∃ m, Published C (initialise repositoryId source creatorDir generation now σ) m [] [] [] := by
  unfold initialise
  rw [hfresh]
  exact ⟨_, rfl, rfl, ⟨_, rfl, rfl, rfl⟩, rfl, .nil, rfl, by simp, trivial, rfl, rfl, rfl, rfl⟩

variable (C hist batch) in
/-- The history after a successful call with `batch`: unchanged when the call
reads as a repetition of the last commit. -/
def historyAfter :
    List (Commit Value) :=
  if isRepeat C (lastCommitId C none hist) batch then hist else hist ++ batch

/-- New segments on top of a repository, with the manifest that heads them. -/
theorem Published.extend {τ : Store Bytes Digest} {g : Gathered Value} {w : Packing Value Digest}
    (h : Published C σ m segs hist blocks)
    (hgather : gatherFrames C batch
      ⟨[], m.lastCompleteCommitId, m.commitCount, m.changeCount⟩ = .ok g) (hext : Extends C σ τ)
    (hnil : w.frames = []) {new : List (Digest × Segment Value Digest)}
    (hnew : Packs C τ m.repositoryId ⟨[], ∅, m.headSegment, m.segmentCount⟩ w new g.frames)
    (hσ' : σ' = { τ with manifest := .json (m.advanced g w now) }) :
    ∃ blocks', Published C σ' (m.advanced g w now) (new ++ segs) (hist ++ batch) blocks' := by
  obtain ⟨newBlocks, hg⟩ := gatherFrames_ok hgather
  obtain ⟨cfg, hcfg, hcfgHeader, hcfgRepo⟩ := h.config
  have hreads : ∀ d, readSegment C σ' d = readSegment C τ d := by
    intro d
    apply readSegment_congr
    rw [hσ']
  have hchain : Linked C τ m.repositoryId none 0 w.previousSegment (new ++ segs) := by
    apply Linked.append _ (h.linked.extends hext)
    rw [Nat.zero_add, ← h.segmentCount]
    exact hnew.linked
  have hframes : storedFrames new = newBlocks.flatten := by
    have hpacked := hnew.frames
    rw [hnil, List.append_nil, hg.frames] at hpacked
    exact hpacked
  have hfollows : Follows C (lastCommitId C none hist) batch := by
    rw [← h.watermark]
    exact hg.follows
  refine ⟨blocks ++ newBlocks, ?_⟩
  constructor
  case manifest => rw [hσ']
  case header => exact h.header
  case config =>
    refine ⟨cfg, ?_, hcfgHeader, hcfgRepo⟩
    rw [hσ']
    exact hext.config.trans hcfg
  case linked => exact hchain.congr hreads
  case stored => exact List.rel_append h.stored hg.stored
  case frames => rw [storedFrames_append, h.frames, hframes, List.flatten_append]
  case ids =>
    intro c hc
    rcases List.mem_append.mp hc with hc | hc
    · exact h.ids c hc
    · exact hg.ids c hc
  case follows => exact h.follows.append hfollows
  case watermark =>
    rw [lastCommitId_append, ← h.watermark]
    exact hg.previousCommit
  case segmentCount =>
    show w.segmentCount = _
    rw [hnew.count, List.length_append]
    show m.segmentCount + new.length = _
    rw [h.segmentCount]
    omega
  case commitCount =>
    show g.commitCount = _
    rw [hg.commitCount, List.length_append]
    show m.commitCount + batch.length = _
    rw [h.commitCount]
  case changeCount =>
    show g.changeCount = _
    rw [hg.changeCount]
    show m.changeCount + changeTotal batch = _
    rw [h.changeCount]
    simp [changeTotal]

/-- **The step.**  A successful `append` keeps the invariant. -/
theorem append_published {p p' : Process Bytes Digest} {m' : Manifest Digest}
    (h : Published C p.store m segs hist blocks) (happend : append C now batch p = (.ok m', p')) :
    ∃ segs' blocks', Published C p'.store m' segs' (historyAfter C hist batch) blocks' := by
  obtain ⟨hsame, rfl, hp⟩ | ⟨hnew, g, w, q, hgather, hpack, rfl, hstore⟩ :=
    append_ok_cases C h.readManifest_eq happend
  · have hhist : historyAfter C hist batch = hist := by
      unfold historyAfter
      rw [← h.watermark]
      rcases hsame with rfl | hrepeat
      · simp [isRepeat]
      · rw [if_pos hrepeat]
    rw [hhist, hp]
    exact ⟨segs, blocks, h⟩
  · have hhist : historyAfter C hist batch = hist ++ batch := by
      unfold historyAfter
      rw [← h.watermark, hnew]
      rfl
    obtain ⟨hext, hok⟩ := packFrames_spec hpack
    obtain ⟨hnil, new, hpacks⟩ := hok w rfl
    obtain ⟨blocks', hpub⟩ := h.extend hgather hext hnil hpacks hstore
    rw [hhist]
    exact ⟨new ++ segs, blocks', hpub⟩

/-- A run of successful, uninterrupted calls of `append`. -/
inductive Appends (C : Codec Value Bytes Digest) :
    Store Bytes Digest → List (List (Commit Value)) → Store Bytes Digest → Prop
  | nil (σ : Store Bytes Digest) : Appends C σ [] σ
  | cons {σ σ' : Store Bytes Digest} {p : Process Bytes Digest} {m : Manifest Digest}
      {now : String} {batch : List (Commit Value)} {batches : List (List (Commit Value))}
      (call : append C now batch ⟨σ, none⟩ = (.ok m, p))
      (rest : Appends C p.store batches σ') : Appends C σ (batch :: batches) σ'

variable (C batches) in
/-- The history that a run of successful calls has published, from the commits
handed over. -/
def publishedHistory :
    List (Commit Value) :=
  batches.foldl (historyAfter C) []

/-- **The run.**  Every run of successful calls keeps the invariant. -/
theorem appends_published (hrun : Appends C σ batches σ') (h : Published C σ m segs hist blocks) :
    ∃ m' segs' blocks',
      Published C σ' m' segs' (batches.foldl (historyAfter C) hist) blocks' := by
  induction hrun generalizing m segs hist blocks with
  | nil σ => exact ⟨m, segs, blocks, h⟩
  | cons call rest ih =>
    obtain ⟨segs', blocks', h'⟩ := append_published h call
    exact ih h'

/-- A run from a fresh repository. -/
theorem published_of_initialise {repositoryId : String}
    {source creatorDir generation : Option String} (hfresh : σ.manifest = .missing)
    (hrun : Appends C (initialise repositoryId source creatorDir generation now σ) batches σ') :
    ∃ m segs blocks, Published C σ' m segs (publishedHistory C batches) blocks := by
  obtain ⟨m, hinit⟩ := initialise_published C repositoryId source creatorDir generation now hfresh
  exact appends_published hrun hinit

end Gitllery
