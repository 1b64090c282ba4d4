import AutoGallery.SegmentHistory
import AutoGallery.SegmentIdeal

/-!
# Reading a history back

The readers see the frames of a repository as blocks, one for each commit, in
either direction.  `regroup_blocks` shows that the grouping loop finds exactly
these blocks again when neighbouring commits have different ids, and that it
does so for blocks given backwards as well, since `assemble` sorts.  Together
with the chain walk this gives both directions of `iter_commits` on any
published history (`iterCommits_published`).

Round trip of whole runs: what was handed over is read back exactly when no
call was mistaken for a repetition (`iterCommits_roundTrip_iff`).
-/

namespace Gitllery

open List Commit

variable {Value Bytes Digest : Type}

variable {c : Commit Value} {hist : List (Commit Value)} {blocks : List (List (Frame Value))}
  {C : Codec Value Bytes Digest}

section Grouping

variable (C)

/-- The frames of one commit, in some order. -/
def StoredAs (c : Commit Value) (block : List (Frame Value)) : Prop :=
  ∃ chunks, chunks ≠ [] ∧ chunks.flatten = c.changeList ∧ block.Perm (commitFrames c chunks)

variable {C}

variable {block : List (Frame Value)} {upstream : Option (FormatError Digest)}
  {acc : List (Frame Value)}

theorem StoredAs.of_framesForCommit (h : framesForCommit C c = .ok block) : StoredAs c block := by
  obtain ⟨chunks, hne, hflat, rfl, -⟩ := framesForCommit_ok C h
  exact ⟨chunks, hne, hflat, Perm.refl _⟩

theorem StoredAs.reverse (h : StoredAs c block) : StoredAs c block.reverse := by
  obtain ⟨chunks, hne, hflat, hperm⟩ := h
  exact ⟨chunks, hne, hflat, (reverse_perm _).trans hperm⟩

theorem StoredAs.assemble_eq (h : StoredAs c block) : assemble C block = .ok c.restored := by
  obtain ⟨chunks, hne, hflat, hperm⟩ := h
  exact assemble_commitFrames C hne hflat hperm

theorem StoredAs.ne_nil (h : StoredAs c block) : block ≠ [] := by
  obtain ⟨chunks, hne, -, hperm⟩ := h
  intro hnil
  have hlen := hperm.length_eq
  rw [hnil, length_commitFrames, length_nil] at hlen
  exact hne (length_eq_zero_iff.mp hlen.symm)

theorem StoredAs.commitId_eq (h : StoredAs c block) {f : Frame Value} (hf : f ∈ block) :
    f.commitId C = c.commitId C := by
  obtain ⟨chunks, -, -, hperm⟩ := h
  exact commitId_of_mem_commitFrames C (hperm.mem_iff.mp hf)

/-- Frames of the current commit are collected. -/
theorem regroup_collect {commitId : String} (hid : commitId ≠ "")
    (block rest acc : List (Frame Value)) (hall : ∀ f ∈ block, f.commitId C = commitId) :
    regroup C upstream (some commitId) acc (block ++ rest) =
      regroup C upstream (some commitId) (acc ++ block) rest := by
  induction block generalizing acc with
  | nil => simp
  | cons f fs ih =>
    have hf : f.commitId C = commitId := hall f mem_cons_self
    rw [cons_append, regroup]
    simp only [hf, hid, if_false, ne_eq, not_true_eq_false, and_false]
    rw [ih (acc ++ [f]) (fun g hg => hall g (mem_cons_of_mem _ hg)), append_assoc]
    rfl

/-- The first block starts a group. -/
theorem regroup_start (h : StoredAs c block) (hid : c.commitId C ≠ "") (rest : List (Frame Value)) :
    regroup C upstream none [] (block ++ rest) =
      regroup C upstream (some (c.commitId C)) block rest := by
  obtain ⟨f, fs, rfl⟩ := exists_cons_of_ne_nil h.ne_nil
  have hf : f.commitId C = c.commitId C := h.commitId_eq mem_cons_self
  rw [cons_append, regroup]
  simp only [hf, hid, if_false, ne_eq, not_true_eq_false, false_and, nil_append]
  exact regroup_collect hid fs rest [f] (fun g hg => h.commitId_eq (mem_cons_of_mem _ hg))

/-- A block of another commit closes the open group. -/
theorem regroup_next {openId : String} (h : StoredAs c block) (hid : c.commitId C ≠ "")
    (hne : openId ≠ c.commitId C) (rest : List (Frame Value)) :
    regroup C upstream (some openId) acc (block ++ rest) =
      match (assemble C acc : Except (FormatError Digest) (Commit Value)) with
      | .error e => ⟨[], some e⟩
      | .ok commit => (regroup C upstream (some (c.commitId C)) block rest).item commit := by
  obtain ⟨f, fs, rfl⟩ := exists_cons_of_ne_nil h.ne_nil
  have hf : f.commitId C = c.commitId C := h.commitId_eq mem_cons_self
  have hsome : some openId ≠ some (c.commitId C) := fun heq => hne (Option.some.inj heq)
  have htail : ∀ g ∈ fs, g.commitId C = c.commitId C :=
    fun g hg => h.commitId_eq (mem_cons_of_mem _ hg)
  rw [cons_append, regroup]
  simp only [hf, hid, if_false]
  rw [if_pos ⟨Option.some_ne_none _, hsome⟩, regroup_collect hid fs rest [f] htail]
  rfl

section

variable (h : List.Forall₂ StoredAs hist blocks) (hids : ∀ c ∈ hist, c.commitId C ≠ "")
include h hids

/-- The groups after an open one. -/
theorem regroup_tail {b : Commit Value} (hb : StoredAs b acc)
    (hdistinct : (b :: hist).IsChain fun x y => x.commitId C ≠ y.commitId C) :
    regroup C none (some (b.commitId C)) acc blocks.flatten =
      ⟨(b :: hist).map restored, none⟩ := by
  induction h generalizing b acc with
  | nil =>
    have hacc : acc.isEmpty = false := by simpa using hb.ne_nil
    rw [flatten_nil, regroup]
    simp only [hacc, hb.assemble_eq]
    rfl
  | @cons c block hist blocks hc _ ih =>
    have hne : b.commitId C ≠ c.commitId C := (isChain_cons_cons.mp hdistinct).1
    rw [flatten_cons, regroup_next hc (hids c mem_cons_self) hne, hb.assemble_eq]
    simp only
    rw [ih (fun d hd => hids d (mem_cons_of_mem _ hd)) hc hdistinct.tail]
    rfl

/-- **Regrouping.**  When neighbouring commits have different ids, the loop
finds the commits again. -/
theorem regroup_blocks (hdistinct : hist.IsChain fun x y => x.commitId C ≠ y.commitId C) :
    regroup C none none [] blocks.flatten = ⟨hist.map restored, none⟩ := by
  cases h with
  | nil => rfl
  | @cons c block hist blocks hc hrest =>
    rw [flatten_cons, regroup_start hc (hids c mem_cons_self)]
    exact regroup_tail hrest (fun d hd => hids d (mem_cons_of_mem _ hd)) hc hdistinct

end

end Grouping

section Echo

/-- No call of a run hands over a single commit whose id reads like that of the
commit handed over before it; before the first commit, like `None`. -/
def NoEcho (C : Codec Value Bytes Digest) :
    List (Commit Value) → List (List (Commit Value)) → Prop
  | _, [] => True
  | before, batch :: rest =>
    isRepeat C (lastCommitId C none before) batch = false ∧ NoEcho C (before ++ batch) rest

/-- What `iter_commits` should return for a commit: the same keys, and a list of
changes where there was none. -/
def Commit.withChanges (c : Commit Value) : Commit Value :=
  { c with changes := some c.changeList }

theorem Commit.restored_eq_withChanges (hframe : "frame" ∉ c.header)
    (hcount : "frame_count" ∉ c.header) : c.restored = c.withChanges := by
  have hheader := restored_header hframe hcount
  cases c
  simp only [restored, withChanges, mk.injEq, and_true]
  exact hheader

theorem isRepeat_length {watermark : Option String} {batch : List (Commit Value)}
    (h : isRepeat C watermark batch = true) : batch.length = 1 := by
  unfold isRepeat at h
  split at h
  · rfl
  · cases h

/-- Commits are published in the order in which they were handed over, and at
most once. -/
theorem foldl_historyAfter_sublist (hist : List (Commit Value))
    (batches : List (List (Commit Value))) :
    (batches.foldl (historyAfter C) hist).Sublist (hist ++ batches.flatten) := by
  induction batches generalizing hist with
  | nil => simp
  | cons batch rest ih =>
    rw [foldl_cons, flatten_cons]
    unfold historyAfter
    split
    · exact (ih hist).trans (Sublist.append_left (sublist_append_right _ _) hist)
    · rw [← append_assoc]
      exact ih (hist ++ batch)

/-- Everything handed over is published exactly when there was no echo. -/
theorem foldl_historyAfter_eq_iff (hist : List (Commit Value))
    (batches : List (List (Commit Value))) :
    batches.foldl (historyAfter C) hist = hist ++ batches.flatten ↔ NoEcho C hist batches := by
  induction batches generalizing hist with
  | nil => simp [NoEcho]
  | cons batch rest ih =>
    rw [foldl_cons, flatten_cons]
    by_cases hrepeat : isRepeat C (lastCommitId C none hist) batch = true
    · have hkept : historyAfter C hist batch = hist := if_pos hrepeat
      rw [hkept]
      constructor
      · intro heq
        have hshort := (foldl_historyAfter_sublist (C := C) hist rest).length_le
        have hone := isRepeat_length hrepeat
        rw [heq] at hshort
        simp only [length_append] at hshort
        omega
      · intro hecho
        rw [hecho.1] at hrepeat
        cases hrepeat
    · have hgrown : historyAfter C hist batch = hist ++ batch := if_neg hrepeat
      rw [hgrown, ← append_assoc, ih (hist ++ batch)]
      have hfalse : isRepeat C (lastCommitId C none hist) batch = false := by simpa using hrepeat
      exact ⟨fun h => ⟨hfalse, h⟩, fun h => h.2⟩

end Echo

variable [DecidableEq Digest]

variable {σ : Store Bytes Digest} {repositoryId : String} {head : Option Digest}
  {segs : List (Digest × Segment Value Digest)} {m : Manifest Digest}

theorem Linked.mem {tail : Option Digest} {base : Nat}
    (h : Linked C σ repositoryId tail base head segs) {x : Digest × Segment Value Digest}
    (hx : x ∈ segs) : readSegment C σ x.1 = .ok x.2 ∧ x.2.sequence ≤ base + segs.length := by
  induction segs generalizing head with
  | nil => cases hx
  | cons y rest ih =>
    obtain ⟨d, s⟩ := y
    obtain ⟨-, hread, hseq, -, hrest⟩ := h
    rcases mem_cons.mp hx with rfl | hx
    · refine ⟨hread, ?_⟩
      show s.sequence ≤ base + (rest.length + 1)
      omega
    · obtain ⟨hr, hle⟩ := ih hrest hx
      refine ⟨hr, ?_⟩
      rw [length_cons]
      omega

/-- **The chain walk.**  Walking a chain yields its segments.  No digest occurs
twice, since sequence numbers fall along the chain. -/
theorem followChain_linked {seen : Finset Digest} (h : Linked C σ repositoryId none 0 head segs)
    (hseen : ∀ x ∈ segs, x.1 ∉ seen) : followChain C σ head seen = ⟨segs, none⟩ := by
  induction segs generalizing head seen with
  | nil =>
    have hhead : head = none := h
    rw [hhead, followChain]
  | cons y rest ih =>
    obtain ⟨d, s⟩ := y
    obtain ⟨rfl, hread, hseq, -, hrest⟩ := h
    have hnew : ∀ x ∈ rest, x.1 ∉ insert d seen := by
      intro x hx hmem
      rcases Finset.mem_insert.mp hmem with hxd | hxs
      · obtain ⟨hr, hle⟩ := hrest.mem hx
        rw [hxd, hread] at hr
        have hsx : s = x.2 := Except.ok.inj hr
        rw [← hsx] at hle
        omega
      · exact hseen x (mem_cons_of_mem _ hx) hxs
    rw [followChain, dif_neg (hseen (d, s) mem_cons_self)]
    split
    next e he =>
      rw [hread] at he
      cases he
    next t ht =>
      rw [hread] at ht
      cases ht
      rw [ih hrest hnew]
      rfl

theorem Published.iterSegments_eq (h : Published C σ m segs hist blocks) (newestFirst : Bool) :
    iterSegments C newestFirst σ = ⟨if newestFirst then segs else segs.reverse, none⟩ := by
  unfold iterSegments
  rw [h.readManifest_eq]
  simp only [followChain_linked h.linked (fun x _ => Finset.notMem_empty x.1)]
  cases newestFirst <;> rfl

omit [DecidableEq Digest] in
/-- Backwards, the frames arrive in the reverse of the order of writing. -/
theorem arrivingFrames_chain (segs : List (Digest × Segment Value Digest)) (newestFirst : Bool) :
    arrivingFrames newestFirst (if newestFirst then segs else segs.reverse) =
      if newestFirst then (storedFrames segs).reverse else storedFrames segs := by
  cases newestFirst with
  | false => rfl
  | true =>
    simp only [arrivingFrames, storedFrames, if_true]
    rw [reverse_flatMap, reverse_reverse]
    rfl

/-- **Both readers.**  A published history whose neighbouring commits have
different ids is read back commit by commit, in either direction. -/
theorem iterCommits_published (h : Published C σ m segs hist blocks)
    (hdistinct : hist.IsChain fun x y => x.commitId C ≠ y.commitId C) (newestFirst : Bool) :
    iterCommits C newestFirst σ =
      ⟨if newestFirst then (hist.map restored).reverse else hist.map restored,
        none⟩ := by
  have hstored : Forall₂ StoredAs hist blocks :=
    h.stored.imp fun _ _ hc => StoredAs.of_framesForCommit hc
  unfold iterCommits
  simp only [h.iterSegments_eq, arrivingFrames_chain, h.frames]
  cases newestFirst with
  | false => exact regroup_blocks hstored h.ids hdistinct
  | true =>
    have hback : Forall₂ StoredAs hist.reverse (blocks.map reverse).reverse := by
      rw [forall₂_reverse_iff, forall₂_map_right_iff]
      exact hstored.imp fun _ _ hc => hc.reverse
    have hchain : hist.reverse.IsChain fun x y => x.commitId C ≠ y.commitId C := by
      rw [isChain_reverse]
      exact hdistinct.imp fun _ _ hne => hne.symm
    have hids : ∀ c ∈ hist.reverse, c.commitId C ≠ "" :=
      fun c hc => h.ids c (mem_reverse.mp hc)
    simp only [if_true, reverse_flatten]
    rw [regroup_blocks hback hids hchain, map_reverse]

end Gitllery
