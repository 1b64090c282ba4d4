import AutoGallery.SegmentRoundTrip

/-!
# Which histories verify

`verify` recomputes the segment chain, the parent chain, the watermark and the
three counters from the files.  On a published history the segment part never
complains, and the commit part complains exactly when two neighbouring commits
share an id: their frames are then read as one group, so that at best one
commit too few is counted.  `append` accepts such neighbours when the second
names the first, that is its own id, as its parent.
-/

namespace Gitllery

open List

variable {Value Bytes Digest : Type}

variable {C : Codec Value Bytes Digest} {σ : Store Bytes Digest}
  {segs : List (Digest × Segment Value Digest)} {m : Manifest Digest} {hist : List (Commit Value)}
  {blocks : List (List (Frame Value))}

section Segments

/-- The digest of the last segment `verify` has seen, `previous` at first. -/
def lastDigest (previous : Option Digest) (items : List (Digest × Segment Value Digest)) :
    Option Digest :=
  match items.getLast? with
  | none => previous
  | some item => some item.1

variable [DecidableEq Digest]

theorem segmentProblems_append (m : Manifest Digest) (count : Nat) (previous : Option Digest)
    (items : List (Digest × Segment Value Digest)) (d : Digest) (s : Segment Value Digest) :
    segmentProblems m count previous (items ++ [(d, s)]) =
      segmentProblems m count previous items ++
        segmentProblems m (count + items.length) (lastDigest previous items) [(d, s)] := by
  induction items generalizing count previous with
  | nil => rfl
  | cons x rest ih =>
    obtain ⟨e, t⟩ := x
    have hlast : lastDigest previous ((e, t) :: rest) = lastDigest (some e) rest := by
      unfold lastDigest
      cases rest with
      | nil => rfl
      | cons y ys => rw [getLast?_cons_cons, getLast?_cons]
    have hcount : count + ((e, t) :: rest).length = count + 1 + rest.length := by
      rw [length_cons]
      omega
    rw [cons_append, segmentProblems, ih, hlast, hcount,
      segmentProblems.eq_def m count previous ((e, t) :: rest)]
    simp only [append_assoc]

variable {head : Option Digest}

theorem lastDigest_linked {repositoryId : String} (h : Linked C σ repositoryId none 0 head segs) :
    lastDigest none segs.reverse = head := by
  unfold lastDigest
  rw [getLast?_reverse]
  cases segs with
  | nil => exact h.symm
  | cons x rest => exact h.1.symm

/-- Oldest first, a chain of segments passes the checks of `verify`. -/
theorem segmentProblems_linked (h : Linked C σ m.repositoryId none 0 head segs) :
    segmentProblems m 0 none segs.reverse = [] := by
  induction segs generalizing head with
  | nil => rfl
  | cons x rest ih =>
    obtain ⟨d, s⟩ := x
    obtain ⟨-, -, hseq, hrepo, hrest⟩ := h
    rw [reverse_cons, segmentProblems_append, ih hrest, lastDigest_linked hrest, length_reverse]
    simp [segmentProblems, hseq, hrepo]

theorem Published.configProblems_eq (h : Published C σ m segs hist blocks) :
    configProblems σ m = [] := by
  obtain ⟨cfg, hcfg, hheader, hrepo⟩ := h.config
  simp [configProblems, hcfg, hheader, hrepo]

end Segments

section Commits

theorem strGet_commit_id {c : Commit Value} (h : c.commitId C ≠ "") :
    C.strGet (c.restored.header.lookup "commit_id") = c.commitId C := by
  rw [lookup_restored (by decide) (by decide)]
  exact C.strGet_of_strOr h

/-- A history in which each commit follows the one before passes the checks of
`verify`. -/
theorem commitProblems_follows {previous : Option String} (h : Follows C previous hist)
    (hids : ∀ c ∈ hist, c.commitId C ≠ "") :
    commitProblems C previous (hist.map Commit.restored) = ([] : List (Problem Digest)) := by
  induction hist generalizing previous with
  | nil => rfl
  | cons c rest ih =>
    have hid := strGet_commit_id (hids c mem_cons_self)
    have hparent : ¬(previous ≠ none ∧ previous ≠ some (c.parentId C)) := by
      rintro ⟨hsome, hne⟩
      obtain ⟨q, rfl⟩ := Option.ne_none_iff_exists'.mp hsome
      exact hne (congrArg some (h.1 q rfl).symm)
    rw [map_cons, commitProblems]
    simp only [hid, Commit.restored_parentId, if_neg hparent, nil_append]
    exact ih h.2 (fun d hd => hids d (mem_cons_of_mem _ hd))

theorem lastCommitId_eq_getLast? (hist : List (Commit Value))
    (hids : ∀ c ∈ hist, c.commitId C ≠ "") :
    (hist.map Commit.restored).getLast?.map
      (fun c => C.strGet (c.header.lookup "commit_id")) = lastCommitId C none hist := by
  induction hist using reverseRecOn with
  | nil => rfl
  | append_singleton init c _ =>
    rw [lastCommitId_append, map_append, map_cons, map_nil, getLast?_concat,
      Option.map_some, strGet_commit_id (hids c (by simp))]
    rfl

variable (C) in
/-- The number of groups in which the readers see a history, `openId` being the id
of the group that is open. -/
def groupCount : Option String → List (Commit Value) → Nat
  | _, [] => 0
  | openId, c :: rest =>
    (if openId = some (c.commitId C) then 0 else 1) + groupCount (some (c.commitId C)) rest

theorem groupCount_le (openId : Option String) (hist : List (Commit Value)) :
    groupCount C openId hist ≤ hist.length := by
  induction hist generalizing openId with
  | nil => exact Nat.le_refl 0
  | cons c rest ih =>
    have hrest := ih (some (c.commitId C))
    rw [groupCount, length_cons]
    split <;> omega

/-- As many groups as commits: no two neighbours share an id. -/
theorem isChain_of_groupCount (h : groupCount C none hist = hist.length) :
    hist.IsChain fun x y => x.commitId C ≠ y.commitId C := by
  suffices hopen : ∀ (b : Commit Value) (rest : List (Commit Value)),
      groupCount C (some (b.commitId C)) rest = rest.length →
      (b :: rest).IsChain fun x y => x.commitId C ≠ y.commitId C by
    cases hist with
    | nil => exact .nil
    | cons c rest =>
      apply hopen
      have hrest := groupCount_le (C := C) (some (c.commitId C)) rest
      rw [groupCount, length_cons, if_neg (by simp)] at h
      omega
  intro b rest
  induction rest generalizing b with
  | nil => exact fun _ => .singleton b
  | cons c rest ih =>
    intro hcount
    have hrest := groupCount_le (C := C) (some (c.commitId C)) rest
    rw [groupCount, length_cons] at hcount
    split at hcount
    · omega
    next hne =>
      refine .cons_cons (fun heq => hne (congrArg some heq)) (ih c ?_)
      omega

section

variable (h : List.Forall₂ StoredAs hist blocks) (hids : ∀ c ∈ hist, c.commitId C ≠ "")
include h hids

/-- An open group and the groups after it. -/
theorem length_regroup_open (openId : String) (acc : List (Frame Value)) :
    (regroup C none (some openId) acc blocks.flatten).items.length ≤
      1 + groupCount C (some openId) hist := by
  induction h generalizing openId acc with
  | nil =>
    rw [flatten_nil, regroup]
    split
    · simp
    · split <;> simp
  | @cons c block hist blocks hc _ ih =>
    have hid := hids c mem_cons_self
    have htail : ∀ d ∈ hist, d.commitId C ≠ "" := fun d hd => hids d (mem_cons_of_mem _ hd)
    rw [flatten_cons, groupCount]
    by_cases heq : openId = c.commitId C
    · subst heq
      rw [regroup_collect hid block _ acc (fun f hf => hc.commitId_eq hf), if_pos rfl]
      have hrest := ih htail (c.commitId C) (acc ++ block)
      omega
    · rw [regroup_next hc hid heq, if_neg (fun h => heq (Option.some.inj h))]
      split
      · simp
      · have hrest := ih htail (c.commitId C) block
        simp only [Yield.item, length_cons]
        omega

/-- The readers return at most one commit for each group. -/
theorem length_regroup_le :
    (regroup C none none [] blocks.flatten).items.length ≤ groupCount C none hist := by
  cases h with
  | nil => simp [regroup]
  | @cons c block hist blocks hc hrest =>
    rw [flatten_cons, regroup_start hc (hids c mem_cons_self), groupCount, if_neg (by simp)]
    exact length_regroup_open hrest (fun d hd => hids d (mem_cons_of_mem _ hd)) _ _

end

end Commits

variable [DecidableEq Digest]

section

variable (h : Published C σ m segs hist blocks)
include h

/-- Neighbours with different ids: nothing to report. -/
theorem Published.verify_ok
    (hdistinct : hist.IsChain fun x y => x.commitId C ≠ y.commitId C) : (verify C σ).ok = true := by
  have hhead : (segs.reverse.getLast?).map Prod.fst = m.headSegment := by
    rw [← lastDigest_linked h.linked, lastDigest]
    cases segs.reverse.getLast? <;> rfl
  have hchanges : (hist.map fun c => c.changeList.length).sum = m.changeCount := h.changeCount.symm
  unfold verify
  simp only [h.readManifest_eq, h.iterSegments_eq, iterCommits_published h hdistinct,
    Bool.false_eq_true, if_false, h.configProblems_eq, segmentProblems_linked h.linked,
    commitProblems_follows h.follows h.ids, lastCommitId_eq_getLast? hist h.ids, hhead,
    map_map, length_map, length_reverse]
  simp [verify.finish, manifestProblems, h.watermark, h.segmentCount, h.commitCount,
    Function.comp_def, hchanges]

/-- A clean report counts as many commits as were published. -/
theorem Published.commits_of_verify_ok
    (hok : (verify C σ).ok = true) : (iterCommits C false σ).items.length = hist.length := by
  unfold verify at hok
  simp only [h.readManifest_eq, h.iterSegments_eq] at hok
  split at hok
  · simp [verify.finish] at hok
  · by_contra hne
    rw [← h.commitCount] at hne
    simp [verify.finish, manifestProblems, Ne.symm hne] at hok

theorem Published.verify_ok_iff :
    (verify C σ).ok = true ↔ hist.IsChain fun x y => x.commitId C ≠ y.commitId C := by
  refine ⟨fun hok => ?_, h.verify_ok⟩
  have hstored : Forall₂ StoredAs hist blocks :=
    h.stored.imp fun _ _ hc => StoredAs.of_framesForCommit hc
  have hitems := h.commits_of_verify_ok hok
  have hregroup : iterCommits C false σ = regroup C none none [] blocks.flatten := by
    unfold iterCommits
    simp only [h.iterSegments_eq, arrivingFrames_chain, h.frames]
    rfl
  have hgroups := length_regroup_le hstored h.ids
  have hle := groupCount_le (C := C) none hist
  rw [hregroup] at hitems
  apply isChain_of_groupCount
  omega

end

/-- **Which runs verify.**  After any run of successful calls on a fresh
repository, `verify` finds nothing to report exactly when no two neighbouring
commits of the published history share an id. -/
theorem verify_ok_iff_neighbours_differ (C : Codec Value Bytes Digest) (repositoryId : String)
    (source creatorDir generation : Option String) (now : String) {σ σ' : Store Bytes Digest}
    (hfresh : σ.manifest = .missing) {batches : List (List (Commit Value))}
    (hrun : Appends C (initialise repositoryId source creatorDir generation now σ) batches σ') :
    (verify C σ').ok = true ↔
      (publishedHistory C batches).IsChain fun x y => x.commitId C ≠ y.commitId C := by
  obtain ⟨m, segs, blocks, hpub⟩ := published_of_initialise hfresh hrun
  exact hpub.verify_ok_iff

/-- A commit and its child verify. -/
theorem verify_ok_two_commits :
    ∃ σ', Appends idealCodec (initialise "r" none none none "t" emptyStore)
        [[idealCommit (.text "a") .null none, idealCommit (.text "b") (.text "a") none]] σ' ∧
      (verify idealCodec σ').ok = true := by
  obtain ⟨m, hok⟩ : ∃ m, (append idealCodec "t"
      [idealCommit (.text "a") .null none, idealCommit (.text "b") (.text "a") none]
      ⟨initialise "r" none none none "t" emptyStore, none⟩).1 = .ok m := ⟨_, rfl⟩
  have hrun := Appends.cons (Prod.ext hok rfl) (.nil _)
  refine ⟨_, hrun, ?_⟩
  rw [verify_ok_iff_neighbours_differ idealCodec "r" none none none "t" rfl hrun]
  decide

/-- A commit that is its own parent is accepted behind itself, and the
repository no longer verifies. -/
theorem verify_fails_self_parent :
    ∃ σ', Appends idealCodec (initialise "r" none none none "t" emptyStore)
        [[idealCommit (.text "a") .null none, idealCommit (.text "a") (.text "a") none]] σ' ∧
      (verify idealCodec σ').ok = false := by
  obtain ⟨m, hok⟩ : ∃ m, (append idealCodec "t"
      [idealCommit (.text "a") .null none, idealCommit (.text "a") (.text "a") none]
      ⟨initialise "r" none none none "t" emptyStore, none⟩).1 = .ok m := ⟨_, rfl⟩
  have hrun := Appends.cons (Prod.ext hok rfl) (.nil _)
  obtain ⟨m', segs, blocks, hpub⟩ := published_of_initialise rfl hrun
  refine ⟨_, hrun, ?_⟩
  rw [← Bool.not_eq_true, hpub.verify_ok_iff]
  decide

end Gitllery
