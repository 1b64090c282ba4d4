import AutoGallery.SegmentFormat
import AutoGallery.PyText

/-!
# Cutting a commit into frames and putting it together again

`framesForCommit` is the first of the writer's two chunkers: it cuts the change
list of one commit by number of changes and by encoded size.  `assemble` is the
reader's inverse.  The two meet in `commitFrames`: whatever the sizes were, an
accepted commit is stored as `commitFrames c chunks` for some non-empty list of
chunks whose concatenation is the change list, and `assemble` restores the
commit from any rearrangement of these frames.
-/

namespace Gitllery

open List

variable {Value Bytes Digest : Type} (C : Codec Value Bytes Digest)

/-- The loop over the changes of one commit.  `current` is the chunk being
filled; the result is the list of chunks, the open one last. -/
def chunkChanges (base : Dict Value) :
    List Value → List Value → Except (FormatError Digest) (List (List Value))
  | [], current => .ok (if current.isEmpty then [] else [current])
  | change :: rest, current =>
    let candidate := current ++ [change]
    let encoded := C.canonicalBytes (.partialFrame base candidate)
    -- a full chunk is closed before the change is taken
    if !current.isEmpty ∧
        (current.length ≥ maxChangesPerFrame ∨ C.len encoded > maxFrameBytes) then
      if C.len (C.canonicalBytes (.partialFrame base [change])) > maxFrameBytes then
        .error .changeExceedsFrameLimit
      else (chunkChanges base rest [change]).map (current :: ·)
    else if C.len (C.canonicalBytes (.partialFrame base candidate)) > maxFrameBytes then
      .error .changeExceedsFrameLimit
    else chunkChanges base rest candidate

/-- The frames of a commit whose changes were cut into `chunks`. -/
def commitFrames (commit : Commit Value) (chunks : List (List Value)) : List (Frame Value) :=
  chunks.mapIdx fun index chunk =>
    Frame.ofBase commit.header commit.header_changes index chunks.length chunk

/-- `_frames_for_commit`. -/
def framesForCommit (commit : Commit Value) : Except (FormatError Digest) (List (Frame Value)) :=
  if commit.changeList.isEmpty then
    .ok [Frame.ofBase commit.header commit.header_changes 0 1 []]
  else
    (chunkChanges C commit.header commit.changeList []).map (commitFrames commit)

/-- `assemble`, the reader's inverse of `_frames_for_commit`. -/
def assemble (items : List (Frame Value)) : Except (FormatError Digest) (Commit Value) :=
  match items.mergeSort (fun a b => a.frame ≤ b.frame) with
  | [] => .error (.incompleteFrames "None")  -- unreachable: no empty group is assembled
  | first :: rest =>
    let ordered := first :: rest
    let count := if first.frameCount = 0 then 1 else first.frameCount
    if ordered.length ≠ count ∨ ordered.map Frame.frame ≠ List.range count then
      .error (.incompleteFrames (C.strGet (first.header.lookup "commit_id")))
    else
      .ok { header := first.header
            changes := some (ordered.flatMap Frame.changes)
            header_changes := first.header_changes }

/-- What the readers return for a stored commit: the two bookkeeping keys are
gone and the change list is always present. -/
def Commit.restored (c : Commit Value) : Commit Value where
  header := (c.header.erase "frame").erase "frame_count"
  changes := some c.changeList
  header_changes := by simp [Finmap.mem_erase, c.header_changes]

variable {k : String} {c : Commit Value} {chunks : List (List Value)} {f : Frame Value}
  {items : List (Frame Value)}

theorem erase_of_notMem {d : Dict Value} (h : k ∉ d) : d.erase k = d := by
  apply Finmap.ext_lookup
  intro x
  by_cases hx : x = k
  · subst hx
    rw [Finmap.lookup_erase, Finmap.lookup_eq_none.mpr h]
  · rw [Finmap.lookup_erase_ne hx]

/-- Without keys of the writer's own, a commit is read back with its header
unchanged. -/
theorem Commit.restored_header (hframe : "frame" ∉ c.header) (hcount : "frame_count" ∉ c.header) :
    c.restored.header = c.header := by
  show (c.header.erase "frame").erase "frame_count" = c.header
  rw [erase_of_notMem hframe, erase_of_notMem hcount]

@[simp] theorem Commit.restored_changeList (c : Commit Value) :
    c.restored.changeList = c.changeList := rfl

theorem lookup_restored (h1 : k ≠ "frame") (h2 : k ≠ "frame_count") :
    c.restored.header.lookup k = c.header.lookup k := by
  show ((c.header.erase "frame").erase "frame_count").lookup k = _
  rw [Finmap.lookup_erase_ne h2, Finmap.lookup_erase_ne h1]

@[simp] theorem Commit.restored_parentId (c : Commit Value) :
    c.restored.parentId C = c.parentId C := by
  unfold Commit.parentId
  rw [lookup_restored (by decide) (by decide)]

/-- A chunk within both limits of the chunker. -/
def Fits (base : Dict Value) (chunk : List Value) : Prop :=
  chunk ≠ [] ∧ chunk.length ≤ maxChangesPerFrame ∧
    C.len (C.canonicalBytes (.partialFrame base chunk)) ≤ maxFrameBytes

/-- The chunker loses nothing, and the chunks it closes fit. -/
theorem chunkChanges_ok {base : Dict Value} {changes current : List Value}
    (h : chunkChanges C base changes current = .ok chunks)
    (hcur : current = [] ∨ Fits C base current) :
    chunks.flatten = current ++ changes ∧ ∀ chunk ∈ chunks, Fits C base chunk := by
  induction changes generalizing current chunks with
  | nil =>
    simp only [chunkChanges, Except.ok.injEq] at h
    subst h
    cases current <;> simp_all
  | cons change rest ih =>
    simp only [chunkChanges] at h
    split at h
    next hclosed =>
      split at h
      · cases h
      next hsize =>
        obtain ⟨tail, hrest, rfl⟩ := PyText.map_ok h
        have hnew : Fits C base [change] := ⟨by simp, by simp [maxChangesPerFrame], not_lt.mp hsize⟩
        obtain ⟨hflat, hfits⟩ := ih hrest (.inr hnew)
        have hold : Fits C base current := hcur.resolve_left (by simpa using hclosed.1)
        exact ⟨by simp [hflat], forall_mem_cons.mpr ⟨hold, hfits⟩⟩
    next hopen =>
      split at h
      · cases h
      next hsize =>
        -- the chunk stays open, so it was not full yet
        have hlength : (current ++ [change]).length ≤ maxChangesPerFrame := by
          cases current with
          | nil => simp [maxChangesPerFrame]
          | cons first others =>
            simp only [isEmpty_cons, Bool.not_false, true_and, not_or, not_le] at hopen
            simpa using hopen.1
        obtain ⟨hflat, hfits⟩ := ih h (.inr ⟨by simp, hlength, not_lt.mp hsize⟩)
        exact ⟨by simp [hflat], hfits⟩

/-- **Frames of an accepted commit.**  Whatever the sizes, the frames carry the
change list in order, cut into at least one chunk. -/
theorem framesForCommit_ok {frames : List (Frame Value)} (h : framesForCommit C c = .ok frames) :
    ∃ chunks, chunks ≠ [] ∧ chunks.flatten = c.changeList ∧ frames = commitFrames c chunks ∧
      (c.changeList = [] ∨ ∀ chunk ∈ chunks, Fits C c.header chunk) := by
  unfold framesForCommit at h
  split at h
  next hempty =>
    have hnil : c.changeList = [] := by simpa using hempty
    refine ⟨[[]], by simp, hnil.symm, ?_, .inl hnil⟩
    simpa [commitFrames] using h.symm
  next hne =>
    obtain ⟨chunks, hchunks, rfl⟩ := PyText.map_ok h
    obtain ⟨hflat, hfits⟩ := chunkChanges_ok C hchunks (.inl rfl)
    refine ⟨chunks, ?_, by simpa using hflat, rfl, .inr hfits⟩
    rintro rfl
    simp at hflat
    simp [← hflat] at hne

@[simp] theorem length_commitFrames (c : Commit Value) (chunks : List (List Value)) :
    (commitFrames c chunks).length = chunks.length := by
  simp [commitFrames]

theorem commitFrames_ne_nil (h : chunks ≠ []) : commitFrames c chunks ≠ [] := by
  intro hnil
  have := congrArg length hnil
  simp at this
  exact h this

/-- Every frame of a commit repeats its header. -/
theorem mem_commitFrames (h : f ∈ commitFrames c chunks) :
    f.header = c.restored.header ∧ f.frameCount = chunks.length := by
  obtain ⟨i, hi, rfl⟩ := mem_mapIdx.mp h
  exact ⟨rfl, rfl⟩

theorem commitId_of_mem_commitFrames (h : f ∈ commitFrames c chunks) : f.commitId C = c.commitId C := by
  unfold Frame.commitId
  rw [(mem_commitFrames h).1, lookup_restored (by decide) (by decide)]
  rfl

theorem map_frame_commitFrames (c : Commit Value) (chunks : List (List Value)) :
    (commitFrames c chunks).map Frame.frame = List.range chunks.length := by
  apply ext_getElem
  · simp
  · intro i h1 h2
    simp [commitFrames, Frame.ofBase]

theorem flatMap_changes_commitFrames (c : Commit Value) (chunks : List (List Value)) :
    (commitFrames c chunks).flatMap Frame.changes = chunks.flatten := by
  rw [flatMap_def]
  congr 1
  apply ext_getElem
  · simp
  · intro i h1 h2
    simp [commitFrames, Frame.ofBase]

/-- Sorting any rearrangement of a commit's frames by frame number gives the
frames in the order in which they were written. -/
theorem mergeSort_commitFrames (h : items.Perm (commitFrames c chunks)) :
    items.mergeSort (fun a b => a.frame ≤ b.frame) = commitFrames c chunks := by
  have hsorted : (commitFrames c chunks).Pairwise (fun a b => a.frame < b.frame) := by
    rw [← pairwise_map (f := Frame.frame) (R := (· < ·)), map_frame_commitFrames]
    exact pairwise_lt_range
  have hle : (items.mergeSort (fun a b => a.frame ≤ b.frame)).Pairwise
      (fun a b => decide (a.frame ≤ b.frame) = true) :=
    pairwise_mergeSort (fun a b c hab hbc => by simp only [decide_eq_true_eq] at *; omega)
      (fun a b => by simp only [Bool.or_eq_true, decide_eq_true_eq]; omega) items
  have hperm : (items.mergeSort (fun a b => a.frame ≤ b.frame)).Perm (commitFrames c chunks) :=
    (mergeSort_perm _ _).trans h
  refine hperm.eq_of_pairwise ?_ hle (hsorted.imp (fun hlt => by simpa using Nat.le_of_lt hlt))
  intro a b ha hb hab hba
  have hframe : a.frame = b.frame := by
    simp only [decide_eq_true_eq] at hab hba
    omega
  -- frame numbers are distinct, so equal numbers name the same stored frame
  have hnodup : ((commitFrames c chunks).map Frame.frame).Nodup := by
    rw [map_frame_commitFrames]
    exact nodup_range
  exact inj_on_of_nodup_map hnodup (hperm.mem_iff.mp ha) hb hframe

/-- **Reassembly.**  A commit is restored from its frames in any order. -/
theorem assemble_commitFrames (hne : chunks ≠ []) (hflat : chunks.flatten = c.changeList)
    (h : items.Perm (commitFrames c chunks)) : assemble C items = .ok c.restored := by
  unfold assemble
  rw [mergeSort_commitFrames h]
  obtain ⟨first, rest, hcons⟩ := exists_cons_of_ne_nil (commitFrames_ne_nil (c := c) hne)
  have hmem : first ∈ commitFrames c chunks := by
    rw [hcons]
    exact mem_cons_self
  have hfirst := mem_commitFrames hmem
  have hlen : (first :: rest).length = chunks.length := by
    rw [← hcons, length_commitFrames]
  have hpos : 0 < chunks.length := length_pos_iff.mpr hne
  have hcount : (if first.frameCount = 0 then 1 else first.frameCount) = chunks.length := by
    rw [hfirst.2, if_neg (by omega)]
  rw [hcons]
  simp only [hcount, ← hcons, length_commitFrames, map_frame_commitFrames,
    flatMap_changes_commitFrames, hflat]
  simp [Commit.restored, hfirst.1]

end Gitllery
