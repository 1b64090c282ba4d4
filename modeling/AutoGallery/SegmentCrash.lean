import AutoGallery.SegmentHistory
import AutoGallery.SegmentIdeal

/-!
# Failed and interrupted appends

A call of `append` that raises, or whose process stops before the manifest is
replaced, only leaves segment files behind (`append_error_extends`).  Readers
start from the manifest and follow names of files that were there before, so
they do not notice (`Intact`, `followChain_extends`).

Running the call again on top of the leftovers is a simulation of the run on
the original directory: where the one writes a segment, the other may find it
written already, and since the digest determines the text it finds the same
segment (`Beside`, `append_beside`).
-/

namespace Gitllery

variable {Value Bytes Digest : Type} [DecidableEq Digest]

variable {σ σ' : Store Bytes Digest} {s : Segment Value Digest} {p : Process Bytes Digest}

/-- The digests a reader asks for when it starts at `head`. -/
inductive ChainNames (C : Codec Value Bytes Digest) (σ : Store Bytes Digest) :
    Option Digest → Digest → Prop
  | head (d : Digest) : ChainNames C σ (some d) d
  | next {d e : Digest} {s : Segment Value Digest} (hread : readSegment C σ d = .ok s)
      (hrest : ChainNames C σ s.previousSegment e) : ChainNames C σ (some d) e

/-- Every file a reader asks for when it starts at `head` is there.  The file may
still be damaged; a name that is no digest is rejected without looking. -/
def ChainPresent (C : Codec Value Bytes Digest) (σ : Store Bytes Digest)
    (head : Option Digest) : Prop :=
  ∀ d, ChainNames C σ head d → C.validDigest d = true → d ∈ σ.files

/-- The directory of a repository: the manifest names files that are there. -/
def Intact (C : Codec Value Bytes Digest) (σ : Store Bytes Digest) : Prop :=
  ∀ m, readManifest σ = .ok m → ChainPresent C σ m.headSegment

variable {C : Codec Value Bytes Digest}

section Readers

variable {d : Digest}

theorem ChainPresent.readSegment_eq (h : Extends C σ σ') (hpresent : ChainPresent C σ (some d)) :
    readSegment C σ' d = readSegment C σ d := by
  by_cases hvalid : C.validDigest d = true
  · exact h.readSegment_eq (hpresent d (.head d) hvalid)
  · unfold readSegment
    rw [if_pos (by simpa using hvalid), if_pos (by simpa using hvalid)]

theorem ChainPresent.previous (hpresent : ChainPresent C σ (some d))
    (hread : readSegment C σ d = .ok s) : ChainPresent C σ s.previousSegment :=
  fun e he => hpresent e (.next hread he)

section

variable (h : Extends C σ σ')
include h

/-- Further segment files do not change the walk along a chain whose files are
all there. -/
theorem followChain_extends (head : Option Digest) (seen : Finset Digest)
    (hpresent : ChainPresent C σ head) :
    followChain C σ' head seen = followChain C σ head seen := by
  induction head, seen using followChain.induct C σ with
  | case1 seen => rw [followChain, followChain]
  | case2 seen d hseen => rw [followChain, followChain, dif_pos hseen, dif_pos hseen]
  | case3 seen d hseen e hread =>
    have hread' := (hpresent.readSegment_eq h).trans hread
    rw [followChain, followChain, dif_neg hseen, dif_neg hseen]
    split <;> split <;> simp_all
  | case4 seen d hseen s hread ih =>
    have hread' := (hpresent.readSegment_eq h).trans hread
    have hrest := ih (hpresent.previous hread)
    rw [followChain, followChain, dif_neg hseen, dif_neg hseen]
    split <;> split <;> simp_all

theorem Extends.readManifest_eq : readManifest σ' = readManifest σ := by
  unfold readManifest
  rw [h.manifest]

theorem Intact.iterSegments_eq (hσ : Intact C σ) (newestFirst : Bool) :
    iterSegments C newestFirst σ' = iterSegments C newestFirst σ := by
  unfold iterSegments
  rw [h.readManifest_eq]
  cases hm : readManifest σ with
  | error e => rfl
  | ok m => simp only [followChain_extends h m.headSegment ∅ (hσ m hm)]

theorem Intact.iterCommits_eq (hσ : Intact C σ) (newestFirst : Bool) :
    iterCommits C newestFirst σ' = iterCommits C newestFirst σ := by
  unfold iterCommits
  rw [hσ.iterSegments_eq h]

theorem Intact.verify_eq (hσ : Intact C σ) : verify C σ' = verify C σ := by
  have hconfig : ∀ m : Manifest Digest, configProblems σ' m = configProblems σ m := by
    intro m
    unfold configProblems
    rw [h.config]
  unfold verify
  rw [h.readManifest_eq]
  simp only [hconfig, hσ.iterSegments_eq h, hσ.iterCommits_eq h]

end

end Readers

section Restart

variable (C) in
/-- Two uninterrupted processes, the second with leftovers of an earlier attempt
in its directory. -/
structure Beside (p q : Process Bytes Digest) : Prop where
  uninterrupted : p.budget = none
  uninterrupted' : q.budget = none
  leftovers : Extends C p.store q.store

variable (C) in
/-- An operation that cannot tell the leftovers from its own work. -/
def Restartable {α : Type} (f : Process Bytes Digest → α × Process Bytes Digest) : Prop :=
  ∀ p q, Beside C p q → (f q).1 = (f p).1 ∧ Beside C (f p).2 (f q).2

omit [DecidableEq Digest] in
theorem replace_uninterrupted (h : p.budget = none)
    (change : Store Bytes Digest → Store Bytes Digest) :
    p.replace change = some ⟨change p.store, none⟩ := by
  unfold Process.replace
  rw [h]

/-- Writing a segment that is among the leftovers catches up with them. -/
theorem Extends.insert_left (h : Extends C σ σ') (hnew : segmentDigest C s ∉ σ.files)
    (hleft : segmentDigest C s ∈ σ'.files) : let text := C.compress (C.canonicalBytes (.segment s))
    Extends C { σ with files := σ.files.insert (segmentDigest C s) text } σ' := by
  refine ⟨h.config, h.manifest, ?_, ?_⟩
  · intro d hd
    by_cases hdd : d = segmentDigest C s
    · subst hdd
      obtain ⟨t, -, hdigest, hlook⟩ := h.added _ hleft hnew
      have htext : C.canonicalBytes (.segment s) = C.canonicalBytes (.segment t) :=
        C.digestBytes_injective hdigest
      rw [hlook, Finmap.lookup_insert, htext]
    · rw [Finmap.lookup_insert_of_ne _ hdd]
      rcases Finmap.mem_insert.mp hd with hd | hd
      · exact absurd hd hdd
      · exact h.kept d hd
  · intro d hd hnot
    exact h.added d hd fun hmem => hnot (Finmap.mem_insert.mpr (.inr hmem))

/-- Both write the segment. -/
theorem Extends.insert_both (h : Extends C σ σ') (s : Segment Value Digest) :
    let text := C.compress (C.canonicalBytes (.segment s))
    Extends C { σ with files := σ.files.insert (segmentDigest C s) text }
      { σ' with files := σ'.files.insert (segmentDigest C s) text } := by
  refine ⟨h.config, h.manifest, ?_, ?_⟩
  · intro d hd
    by_cases hdd : d = segmentDigest C s
    · subst hdd
      rw [Finmap.lookup_insert, Finmap.lookup_insert]
    · rw [Finmap.lookup_insert_of_ne _ hdd, Finmap.lookup_insert_of_ne _ hdd]
      rcases Finmap.mem_insert.mp hd with hd | hd
      · exact absurd hd hdd
      · exact h.kept d hd
  · intro d hd hnot
    have hne : d ≠ segmentDigest C s := fun hdd => hnot (Finmap.mem_insert.mpr (.inl hdd))
    have hmem : d ∈ σ'.files := (Finmap.mem_insert.mp hd).resolve_left hne
    obtain ⟨t, ht, hdigest, hlook⟩ :=
      h.added d hmem fun hd => hnot (Finmap.mem_insert.mpr (.inr hd))
    exact ⟨t, ht, hdigest, by rw [Finmap.lookup_insert_of_ne _ hne, hlook]⟩

theorem writeSegment_restartable (hs : s.header = currentHeader) :
    Restartable C (writeSegment C s) := by
  intro p q hpq
  have hvalid : C.validDigest (segmentDigest C s) = true := C.validDigest_digestBytes _
  have hp := replace_uninterrupted hpq.uninterrupted
  have hq := replace_uninterrupted hpq.uninterrupted'
  unfold writeSegment
  simp only [← segmentDigest.eq_def, hvalid, Bool.true_eq_false, if_false, hp, hq]
  split
  · exact ⟨rfl, hpq⟩
  by_cases hold : segmentDigest C s ∈ p.store.files
  · have hread := hpq.leftovers.readSegment_eq hold
    rw [if_pos hold, if_pos (hpq.leftovers.mem hold), hread]
    split <;> exact ⟨rfl, hpq⟩
  · rw [if_neg hold]
    by_cases hleft : segmentDigest C s ∈ q.store.files
    · have hext := hpq.leftovers.insert_left hold hleft
      have hread : readSegment C q.store (segmentDigest C s) = .ok s :=
        hext.readSegment_ok (readSegment_written hs (Finmap.lookup_insert _))
      rw [if_pos hleft, hread]
      exact ⟨rfl, rfl, hpq.uninterrupted', hext⟩
    · rw [if_neg hleft]
      exact ⟨rfl, rfl, rfl, hpq.leftovers.insert_both s⟩

section

variable (repositoryId : String)

theorem publishSegment_restartable (w : Packing Value Digest) :
    Restartable C (publishSegment C repositoryId w) := by
  intro p q hpq
  unfold publishSegment
  split
  · exact ⟨rfl, hpq⟩
  obtain ⟨hres, hnext⟩ := writeSegment_restartable (C := C)
    (s := w.segment repositoryId w.frames) rfl p q hpq
  revert hres hnext
  rcases writeSegment C (w.segment repositoryId w.frames) p with ⟨rp, p'⟩
  rcases writeSegment C (w.segment repositoryId w.frames) q with ⟨rq, q'⟩
  rintro rfl hnext
  cases rq <;> exact ⟨rfl, hnext⟩

theorem makeRoom_restartable (frame : Frame Value)
    (w : Packing Value Digest) : Restartable C (makeRoom C repositoryId frame w) := by
  intro p q hpq
  unfold makeRoom
  simp only
  split
  · exact publishSegment_restartable repositoryId w p q hpq
  · exact ⟨rfl, hpq⟩

theorem packFrame_restartable (frame : Frame Value)
    (w : Packing Value Digest) : Restartable C (packFrame C repositoryId frame w) := by
  intro p q hpq
  obtain ⟨hres, hnext⟩ := makeRoom_restartable (C := C) repositoryId frame w p q hpq
  unfold packFrame
  revert hres hnext
  rcases makeRoom C repositoryId frame w p with ⟨rp, p'⟩
  rcases makeRoom C repositoryId frame w q with ⟨rq, q'⟩
  rintro rfl hnext
  cases rq with
  | error e => exact ⟨rfl, hnext⟩
  | ok w' =>
    simp only
    split <;> exact ⟨rfl, hnext⟩

theorem packFrames_restartable (frames : List (Frame Value))
    (w : Packing Value Digest) : Restartable C (packFrames C repositoryId frames w) := by
  intro p q hpq
  induction frames generalizing w p q with
  | nil => exact publishSegment_restartable repositoryId w p q hpq
  | cons frame rest ih =>
    obtain ⟨hres, hnext⟩ := packFrame_restartable (C := C) repositoryId frame w p q hpq
    unfold packFrames
    revert hres hnext
    rcases packFrame C repositoryId frame w p with ⟨rp, p'⟩
    rcases packFrame C repositoryId frame w q with ⟨rq, q'⟩
    rintro rfl hnext
    cases rq with
    | error e => exact ⟨rfl, hnext⟩
    | ok w' => exact ih w' p' q' hnext

end

/-- The manifest but for the time at which it was written. -/
def Manifest.unstamped (m : Manifest Digest) : Manifest Digest :=
  { m with updatedAt := "" }

/-- **Restart.**  On top of leftovers, `append` has the outcome it has without
them. -/
theorem append_beside {q : Process Bytes Digest} (hpq : Beside C p q) (now now' : String)
    (commits : List (Commit Value)) :
    (append C now' commits q).1.map Manifest.unstamped =
      (append C now commits p).1.map Manifest.unstamped := by
  unfold append
  rw [hpq.leftovers.readManifest_eq]
  cases hm : readManifest p.store with
  | error e => rfl
  | ok m =>
    simp only
    split
    · rfl
    split
    · rfl
    · cases hg : gatherFrames C commits
          ⟨[], m.lastCompleteCommitId, m.commitCount, m.changeCount⟩ with
      | error e => rfl
      | ok g =>
        simp only
        obtain ⟨hres, hnext⟩ := packFrames_restartable (C := C) m.repositoryId g.frames
          ⟨[], ∅, m.headSegment, m.segmentCount⟩ p q hpq
        revert hres hnext
        rcases packFrames C m.repositoryId g.frames
          ⟨[], ∅, m.headSegment, m.segmentCount⟩ p with ⟨rp, p'⟩
        rcases packFrames C m.repositoryId g.frames
          ⟨[], ∅, m.headSegment, m.segmentCount⟩ q with ⟨rq, q'⟩
        rintro rfl hnext
        cases rq with
        | error e => rfl
        | ok w =>
          simp only [replace_uninterrupted hnext.uninterrupted,
            replace_uninterrupted hnext.uninterrupted']
          rfl

end Restart

/-- A call that raised or was stopped has only added segment files. -/
theorem append_error_extends {now : String} {commits : List (Commit Value)}
    {p' : Process Bytes Digest} {e : Halt Digest} (h : append C now commits p = (.error e, p')) :
    Extends C p.store p'.store := by
  unfold append at h
  split at h
  · cases h
    exact Extends.refl _
  simp only at h
  split at h
  · cases h
  split at h
  · cases h
  · split at h
    · cases h
      exact Extends.refl _
    · split at h
      next hpack =>
        cases h
        exact (packFrames_spec hpack).1
      next hpack =>
        split at h
        · cases h
          exact (packFrames_spec hpack).1
        · cases h

section Operations

variable {head : Option Digest}

theorem ChainPresent.extends (h : Extends C σ σ') (hpresent : ChainPresent C σ head) :
    ChainPresent C σ' head := by
  intro d hd
  induction hd with
  | head d => exact fun hvalid => h.mem (hpresent d (.head d) hvalid)
  | next hread _ ih =>
    rw [hpresent.readSegment_eq h] at hread
    exact ih (hpresent.previous hread)

theorem Intact.extends (hσ : Intact C σ) (h : Extends C σ σ') : Intact C σ' := by
  intro m hm
  rw [h.readManifest_eq] at hm
  exact (hσ m hm).extends h

/-- A chain of readable segments on top of a chain that is there. -/
theorem ChainPresent.of_linked {repositoryId : String} {tail : Option Digest} {base : Nat}
    {segs : List (Digest × Segment Value Digest)} (h : Linked C σ repositoryId tail base head segs)
    (htail : ChainPresent C σ tail) : ChainPresent C σ head := by
  induction segs generalizing head with
  | nil =>
    have hhead : head = tail := h
    rw [hhead]
    exact htail
  | cons x rest ih =>
    obtain ⟨d, s⟩ := x
    obtain ⟨rfl, hread, -, -, hrest⟩ := h
    intro e he hvalid
    cases he with
    | head => exact mem_files_of_readSegment C hread
    | next hread' hnames =>
      rw [hread] at hread'
      cases hread'
      exact ih hrest e hnames hvalid

theorem ChainPresent.congr_files (hfiles : σ'.files = σ.files) (hpresent : ChainPresent C σ head) :
    ChainPresent C σ' head := by
  have hread : ∀ d, readSegment C σ' d = readSegment C σ d :=
    fun d => readSegment_congr (by rw [hfiles])
  intro d hd
  rw [hfiles]
  induction hd with
  | head d => exact hpresent d (.head d)
  | next hr _ ih =>
    rw [hread] at hr
    exact ih (hpresent.previous hr)

theorem Intact.initialise (repositoryId : String) (source creatorDir generation : Option String)
    (now : String) (hσ : Intact C σ) :
    Intact C (initialise repositoryId source creatorDir generation now σ) := by
  unfold Gitllery.initialise
  split
  · intro m hm d hd
    simp only [readManifest, validateHeader_currentHeader, Except.map, Except.ok.injEq] at hm
    subst hm
    cases hd
  · exact hσ

/-- Whatever its outcome, `append` leaves a repository behind. -/
theorem Intact.append (hp : Intact C p.store) (now : String) (commits : List (Commit Value)) :
    Intact C (append C now commits p).2.store := by
  cases hrun : Gitllery.append C now commits p with
  | mk r p' =>
    cases r with
    | error e => exact hp.extends (append_error_extends hrun)
    | ok m' =>
      cases hm : readManifest p.store with
      | error e => simp [Gitllery.append, hm] at hrun
      | ok m =>
        rcases append_ok_cases C hm hrun with
          ⟨-, -, rfl⟩ | ⟨-, g, w, q, -, hpack, hm', hstore⟩
        · exact hp
        obtain ⟨hext, hok⟩ := packFrames_spec hpack
        obtain ⟨-, new, hnew⟩ := hok w rfl
        have hchain : ChainPresent C q.store w.previousSegment :=
          .of_linked hnew.linked ((hp m hm).extends hext)
        intro m'' hm''
        have hsame : m'' = m' := by
          simp only [hstore, readManifest] at hm''
          cases hv : (validateHeader m'.header .manifest :
              Except (FormatError Digest) Unit) with
          | error e => simp [hv, Except.map] at hm''
          | ok _ =>
            simp only [hv, Except.map, Except.ok.injEq] at hm''
            exact hm''.symm
        rw [hsame, hm']
        apply hchain.congr_files
        rw [hstore]

end Operations

/-- A repository: a directory whose manifest names files that are there. -/
structure Repository (C : Codec Value Bytes Digest) where
  store : Store Bytes Digest
  intact : Intact C store

namespace Repository

/-- The empty directory, before `initialise`. -/
def empty (C : Codec Value Bytes Digest) : Repository C where
  store := emptyStore
  intact := by
    intro m hm
    simp [readManifest, emptyStore] at hm

def initialise (R : Repository C) (repositoryId : String)
    (source creatorDir generation : Option String) (now : String) : Repository C where
  store := Gitllery.initialise repositoryId source creatorDir generation now R.store
  intact := R.intact.initialise repositoryId source creatorDir generation now

/-- The repository after a call, whatever its outcome and wherever it stopped. -/
def append (R : Repository C) (now : String) (budget : Option Nat)
    (commits : List (Commit Value)) : Repository C where
  store := (Gitllery.append C now commits ⟨R.store, budget⟩).2.store
  intact := R.intact.append (p := ⟨R.store, budget⟩) now commits

end Repository

/-- **Atomic and restartable.**  A call that raises, or whose process stops
before it has replaced the manifest, is invisible to every reader, and calling
`append` again has the outcome the call would have had without the failure. -/
theorem append_atomic_and_restartable (R : Repository C) {now : String} {budget : Option Nat}
    {commits : List (Commit Value)} {failure : Halt Digest} {p : Process Bytes Digest}
    (hfail : append C now commits ⟨R.store, budget⟩ = (.error failure, p)) :
    readManifest p.store = readManifest R.store ∧
    (∀ newestFirst, iterCommits C newestFirst p.store = iterCommits C newestFirst R.store) ∧
    verify C p.store = verify C R.store ∧
    ∀ again first, (append C again commits ⟨p.store, none⟩).1.map Manifest.unstamped =
      (append C first commits ⟨R.store, none⟩).1.map Manifest.unstamped := by
  have hext : Extends C R.store p.store := append_error_extends hfail
  refine ⟨hext.readManifest_eq, R.intact.iterCommits_eq hext, R.intact.verify_eq hext, ?_⟩
  intro again first
  exact append_beside ⟨rfl, rfl, hext⟩ first again commits

/-- The process stops between the segment and the manifest; the second attempt
publishes. -/
theorem append_restarted_once :
    let R := (Repository.empty idealCodec).initialise "r" none none none "t"
    let commits := [idealCommit (.text "a") .null none]
    ∃ p, append idealCodec "t" commits ⟨R.store, some 1⟩ = (.error .stopped, p) ∧
      (append idealCodec "u" commits ⟨p.store, none⟩).1.map Manifest.unstamped =
        (append idealCodec "t" commits ⟨R.store, none⟩).1.map Manifest.unstamped := by
  intro R commits
  have hstopped : (append idealCodec "t" commits ⟨R.store, some 1⟩).1 = .error .stopped := rfl
  have hfail : append idealCodec "t" commits ⟨R.store, some 1⟩ =
      (.error .stopped, (append idealCodec "t" commits ⟨R.store, some 1⟩).2) :=
    Prod.ext hstopped rfl
  exact ⟨_, hfail, (append_atomic_and_restartable R hfail).2.2.2 "u" "t"⟩

end Gitllery
