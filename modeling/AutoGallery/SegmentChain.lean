import AutoGallery.SegmentReaders

/-!
# Segment files and chains

The segment files only grow.  `Extends` records how: an existing file is never
touched, and a new file holds the canonical text of a segment under its digest.
Every part of `append` before the manifest replacement extends the store,
whether it succeeds, raises or is stopped.

A successful packing loop leaves a chain (`Linked`) of readable segments on top
of the segment it started from, numbered on from there, whose frames are the
frames it was given in the same order (`packFrames_spec`).
-/

namespace Gitllery

variable {Value Bytes Digest : Type} [DecidableEq Digest] (C : Codec Value Bytes Digest)

/-- The file a segment is stored under. -/
def segmentDigest (s : Segment Value Digest) : Digest :=
  C.digestBytes (C.canonicalBytes (.segment s))

/-- `σ'` has the manifest, the configuration and all segment files of `σ`; each
further file is a properly written segment. -/
structure Extends (σ σ' : Store Bytes Digest) : Prop where
  config : σ'.config = σ.config
  manifest : σ'.manifest = σ.manifest
  kept : ∀ d ∈ σ.files, σ'.files.lookup d = σ.files.lookup d
  added : ∀ d ∈ σ'.files, d ∉ σ.files → ∃ s : Segment Value Digest,
    s.header = currentHeader ∧ d = segmentDigest C s ∧
      σ'.files.lookup d = some (C.compress (C.canonicalBytes (.segment s)))

variable {C}

theorem Extends.refl (σ : Store Bytes Digest) : Extends C σ σ :=
  ⟨rfl, rfl, fun _ _ => rfl, fun _ hmem hnot => absurd hmem hnot⟩

variable {σ σ' : Store Bytes Digest} {d : Digest} {s : Segment Value Digest}
  {p p' : Process Bytes Digest} {repositoryId : String} {tail head : Option Digest} {base : Nat}
  {segs new : List (Digest × Segment Value Digest)} {w : Packing Value Digest}
  {frames : List (Frame Value)} {r : Except (Halt Digest) (Packing Value Digest)}
  {frame : Frame Value}

theorem Extends.mem (h : Extends C σ σ') (hd : d ∈ σ.files) : d ∈ σ'.files := by
  rw [← Finmap.lookup_isSome] at hd ⊢
  rw [h.kept d (Finmap.lookup_isSome.mp hd)]
  exact hd

theorem Extends.trans {σ₁ σ₂ σ₃ : Store Bytes Digest}
    (h12 : Extends C σ₁ σ₂) (h23 : Extends C σ₂ σ₃) : Extends C σ₁ σ₃ := by
  refine ⟨h23.config.trans h12.config, h23.manifest.trans h12.manifest, ?_, ?_⟩
  · intro d hd
    rw [h23.kept d (h12.mem hd), h12.kept d hd]
  · intro d hd hnot
    by_cases hmid : d ∈ σ₂.files
    · obtain ⟨s, hs, hdigest, hlook⟩ := h12.added d hmid hnot
      exact ⟨s, hs, hdigest, by rw [h23.kept d hmid, hlook]⟩
    · exact h23.added d hd hmid

/-- Reading depends on the file of that digest only. -/
theorem readSegment_congr (h : σ'.files.lookup d = σ.files.lookup d) :
    readSegment C σ' d = readSegment C σ d := by
  unfold readSegment
  rw [h]

theorem Extends.readSegment_eq (h : Extends C σ σ') (hd : d ∈ σ.files) :
    readSegment C σ' d = readSegment C σ d :=
  readSegment_congr (h.kept d hd)

theorem Extends.readSegment_ok (h : Extends C σ σ') (hread : readSegment C σ d = .ok s) :
    readSegment C σ' d = .ok s := by
  rw [h.readSegment_eq (mem_files_of_readSegment C hread), hread]

/-- A properly written segment file reads as its segment. -/
theorem readSegment_written (hs : s.header = currentHeader)
    (hlook : σ.files.lookup (segmentDigest C s) =
      some (C.compress (C.canonicalBytes (.segment s)))) :
    readSegment C σ (segmentDigest C s) = .ok s := by
  have hvalid : C.validDigest (segmentDigest C s) = true := C.validDigest_digestBytes _
  unfold readSegment
  simp only [hvalid, hlook, Option.bind_some, C.decompress_compress, C.loads_canonicalBytes, hs,
    validateHeader_currentHeader]
  simp [segmentDigest, Except.map]

/-- Digests do not collide, so whatever readable file has the digest of `s`
holds `s`. -/
theorem eq_of_readSegment_segmentDigest {t : Segment Value Digest}
    (h : readSegment C σ (segmentDigest C s) = .ok t) : t = s := by
  unfold readSegment at h
  split at h
  · cases h
  split at h
  · cases h
  next raw _ =>
    split at h
    · cases h
    rename_i u hloads
    split at h
    · cases h
    rename_i hdigest
    have hraw : raw = C.canonicalBytes (.segment s) :=
      C.digestBytes_injective (not_not.mp hdigest)
    rw [hraw, C.loads_canonicalBytes] at hloads
    obtain ⟨-, -, rfl⟩ := PyText.map_ok h
    exact (Option.some.inj hloads).symm

/-- **One segment write.**  Whatever its outcome, the store is extended; on
success the segment can be read under the digest returned. -/
theorem writeSegment_spec {r : Except (Halt Digest) Digest} (hs : s.header = currentHeader)
    (h : writeSegment C s p = (r, p')) :
    Extends C p.store p'.store ∧
      ∀ d, r = .ok d → d = segmentDigest C s ∧ readSegment C p'.store d = .ok s := by
  unfold writeSegment at h
  simp only at h
  split at h
  · cases h
    exact ⟨Extends.refl _, nofun⟩
  split at h
  · cases h
    exact ⟨Extends.refl _, nofun⟩
  · split at h
    · split at h
      · cases h
        exact ⟨Extends.refl _, nofun⟩
      next t hread =>
        cases h
        refine ⟨Extends.refl _, fun d hd => ?_⟩
        cases hd
        refine ⟨rfl, ?_⟩
        have ht : t = s := eq_of_readSegment_segmentDigest hread
        rw [ht] at hread
        exact hread
    next hnew =>
      split at h
      · cases h
        exact ⟨Extends.refl _, nofun⟩
      rename_i q hreplace
      cases h
      have hstore := replace_store hreplace
      have hlook : p'.store.files.lookup (segmentDigest C s) =
          some (C.compress (C.canonicalBytes (.segment s))) := by
        rw [hstore]
        exact Finmap.lookup_insert _
      refine ⟨⟨by rw [hstore], by rw [hstore], ?_, ?_⟩, ?_⟩
      · intro d hd
        rw [hstore]
        exact Finmap.lookup_insert_of_ne _ (fun hdd => hnew (hdd ▸ hd))
      · intro d hd hnot
        have hdd : d = segmentDigest C s := by
          rw [hstore] at hd
          rcases Finmap.mem_insert.mp hd with hdd | hdd
          · exact hdd
          · exact absurd hdd hnot
        exact ⟨s, hs, hdd, by rw [hdd]; exact hlook⟩
      · intro d hd
        cases hd
        exact ⟨rfl, readSegment_written hs hlook⟩

/-- A chain of segments from `head` down to `tail`, newest first, numbered on
from `base`. -/
def Linked (C : Codec Value Bytes Digest) (σ : Store Bytes Digest) (repositoryId : String)
    (tail : Option Digest) (base : Nat) :
    Option Digest → List (Digest × Segment Value Digest) → Prop
  | head, [] => head = tail
  | head, (d, s) :: rest =>
    head = some d ∧ readSegment C σ d = .ok s ∧ s.sequence = base + rest.length + 1 ∧
      s.repositoryId = repositoryId ∧ Linked C σ repositoryId tail base s.previousSegment rest

variable (segs) in
/-- The frames of a chain given newest first, in the order in which they were
written. -/
def storedFrames : List (Frame Value) :=
  segs.reverse.flatMap fun s => s.2.frames

section

omit [DecidableEq Digest]

@[simp] theorem storedFrames_nil :
    storedFrames ([] : List (Digest × Segment Value Digest)) = [] := rfl

theorem storedFrames_append (new old : List (Digest × Segment Value Digest)) :
    storedFrames (new ++ old) = storedFrames old ++ storedFrames new := by
  simp [storedFrames]

end

theorem Linked.extends (h : Extends C σ σ') (hl : Linked C σ repositoryId tail base head segs) :
    Linked C σ' repositoryId tail base head segs := by
  induction segs generalizing head with
  | nil => exact hl
  | cons x rest ih =>
    obtain ⟨d, s⟩ := x
    obtain ⟨hhead, hread, hseq, hrepo, hrest⟩ := hl
    exact ⟨hhead, h.readSegment_ok hread, hseq, hrepo, ih hrest⟩

/-- A chain depends on what its digests read as only. -/
theorem Linked.congr (hl : Linked C σ repositoryId tail base head segs)
    (h : ∀ d, readSegment C σ' d = readSegment C σ d) :
    Linked C σ' repositoryId tail base head segs := by
  induction segs generalizing head with
  | nil => exact hl
  | cons x rest ih =>
    obtain ⟨d, s⟩ := x
    obtain ⟨hhead, hread, hseq, hrepo, hrest⟩ := hl
    exact ⟨hhead, (h d).trans hread, hseq, hrepo, ih hrest⟩

/-- A chain on top of a chain is a chain. -/
theorem Linked.append {middle : Option Digest} {old : List (Digest × Segment Value Digest)}
    (hnew : Linked C σ repositoryId middle (base + old.length) head new)
    (hold : Linked C σ repositoryId tail base middle old) :
    Linked C σ repositoryId tail base head (new ++ old) := by
  induction new generalizing head with
  | nil =>
    have hhead : head = middle := hnew
    rw [hhead]
    exact hold
  | cons x rest ih =>
    obtain ⟨d, s⟩ := x
    obtain ⟨hhead, hread, hseq, hrepo, hrest⟩ := hnew
    refine ⟨hhead, hread, ?_, hrepo, ih hrest⟩
    have hlen : (rest ++ old).length = rest.length + old.length := List.length_append
    show s.sequence = base + (rest ++ old).length + 1
    omega

variable (C σ repositoryId) in
/-- What publishing from the packing state `w` to `w'` has put on disk: `new`
segments on top of the last published one, holding `frames`. -/
structure Packs (w w' : Packing Value Digest) (new : List (Digest × Segment Value Digest))
    (frames : List (Frame Value)) : Prop where
  linked : Linked C σ repositoryId w.previousSegment w.segmentCount w'.previousSegment new
  count : w'.segmentCount = w.segmentCount + new.length
  frames : storedFrames new ++ w'.frames = w.frames ++ frames

theorem Packs.trans (hext : Extends C σ σ') {w' w'' : Packing Value Digest}
    {new' : List (Digest × Segment Value Digest)} {frames' : List (Frame Value)}
    (h : Packs C σ repositoryId w w' new frames) (h' : Packs C σ' repositoryId w' w'' new' frames') :
    Packs C σ' repositoryId w w'' (new' ++ new) (frames ++ frames') := by
  refine ⟨?_, ?_, ?_⟩
  · have hlink := h'.linked
    rw [h.count] at hlink
    exact hlink.append (h.linked.extends hext)
  · rw [h'.count, h.count, List.length_append]
    omega
  · rw [storedFrames_append, List.append_assoc, h'.frames, ← List.append_assoc, h.frames,
      List.append_assoc]

theorem publishSegment_spec (h : publishSegment C repositoryId w p = (r, p')) :
    Extends C p.store p'.store ∧
      ∀ w', r = .ok w' → w'.frames = [] ∧ ∃ new, Packs C p'.store repositoryId w w' new [] := by
  unfold publishSegment at h
  split at h
  next hempty =>
    cases h
    refine ⟨Extends.refl _, fun w' hw => ?_⟩
    cases hw
    exact ⟨hempty, [], rfl, rfl, by simp⟩
  · split at h
    next e q hwrite =>
      cases h
      exact ⟨(writeSegment_spec rfl hwrite).1, nofun⟩
    next d q hwrite =>
      cases h
      obtain ⟨hext, hok⟩ := writeSegment_spec rfl hwrite
      refine ⟨hext, fun w' hw => ?_⟩
      cases hw
      obtain ⟨-, hread⟩ := hok d rfl
      refine ⟨rfl, [(d, w.segment repositoryId w.frames)], ⟨?_, rfl, ?_⟩⟩
      · exact ⟨rfl, hread, rfl, rfl, rfl⟩
      · simp [storedFrames, Packing.segment]

theorem makeRoom_spec (h : makeRoom C repositoryId frame w p = (r, p')) :
    Extends C p.store p'.store ∧
      ∀ w', r = .ok w' → ∃ new, Packs C p'.store repositoryId w w' new [] := by
  unfold makeRoom at h
  simp only at h
  split at h
  · obtain ⟨hext, hok⟩ := publishSegment_spec h
    exact ⟨hext, fun w' hw => (hok w' hw).2⟩
  · cases h
    refine ⟨Extends.refl _, fun w' hw => ?_⟩
    cases hw
    exact ⟨[], rfl, rfl, by simp⟩

theorem packFrame_spec (h : packFrame C repositoryId frame w p = (r, p')) :
    Extends C p.store p'.store ∧
      ∀ w', r = .ok w' → ∃ new, Packs C p'.store repositoryId w w' new [frame] := by
  unfold packFrame at h
  split at h
  next e q hroom =>
    cases h
    exact ⟨(makeRoom_spec hroom).1, nofun⟩
  rename_i v q hroom
  obtain ⟨hext, hok⟩ := makeRoom_spec hroom
  simp only at h
  split at h
  · cases h
    exact ⟨hext, nofun⟩
  cases h
  refine ⟨hext, fun w' hw => ?_⟩
  cases hw
  obtain ⟨new, hnew⟩ := hok v rfl
  refine ⟨new, hnew.linked, hnew.count, ?_⟩
  have hframes := hnew.frames
  rw [List.append_nil] at hframes
  rw [← hframes, List.append_assoc]

/-- **The packing loop.**  Every run extends the store; a successful one has
stored exactly the frames it was given, in order. -/
theorem packFrames_spec (h : packFrames C repositoryId frames w p = (r, p')) :
    Extends C p.store p'.store ∧
      ∀ w', r = .ok w' →
        w'.frames = [] ∧ ∃ new, Packs C p'.store repositoryId w w' new frames := by
  induction frames generalizing w p with
  | nil => exact publishSegment_spec h
  | cons frame rest ih =>
    unfold packFrames at h
    split at h
    next e q hframe =>
      cases h
      exact ⟨(packFrame_spec hframe).1, nofun⟩
    rename_i v q hframe
    obtain ⟨hext, hok⟩ := packFrame_spec hframe
    obtain ⟨hext', hok'⟩ := ih h
    refine ⟨hext.trans hext', fun w' hw => ?_⟩
    obtain ⟨hnil, new', hnew'⟩ := hok' w' hw
    obtain ⟨new, hnew⟩ := hok v rfl
    exact ⟨hnil, new' ++ new, hnew.trans hext' hnew'⟩

end Gitllery
