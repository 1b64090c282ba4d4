import AutoGallery.Curation

/-!
# What the operations of curation do to rows

An operation creates a commit, goes through works or changes, and ends with the
statistics of the commit.  Of every step this says what it does to the visibility and
the favourite mark of each work (`live`), which changes it records, and that commits
keep their identities and times (`stamps`).
-/

namespace Curation

open PyText List
open WorkDatabase (Visibility)

variable {Digest : Type}

section Definitions

/-- The visibility and the favourite mark of a work. -/
def live (workId : Uuid) (db : Database Digest) : Visibility × Option Bool :=
  (visibilityOf (workState workId db), (getWork workId db).map (·.isFavorite))

/-- The identities and times of the commits. -/
def stamps (db : Database Digest) : List (Uuid × Time) :=
  db.commits.map fun commit => (commit.id, commit.createdAt)

/-- The rows of works and of their states are keyed. -/
structure Keyed (db : Database Digest) : Prop where
  works : (db.works.map (·.id)).Nodup
  workStates : (db.workStates.map (·.workId)).Nodup

end Definitions

section Commits

variable (db : Database Digest)

@[simp]
theorem stamps_setStats (id : Uuid) (stats : Stats) : stamps (setStats id stats db) = stamps db := by
  unfold stamps setStats
  rw [map_map]
  refine map_congr_left fun commit _ => ?_
  dsimp only [Function.comp]
  split <;> rfl

@[simp]
theorem stamps_setCommitStatus (id : Uuid) (status : CommitStatus) :
    stamps (setCommitStatus id status db) = stamps db := by
  unfold stamps setCommitStatus
  rw [map_map]
  refine map_congr_left fun commit _ => ?_
  dsimp only [Function.comp]
  split <;> rfl

@[simp]
theorem stamps_assignStatus (target : Commit Digest) (status : CommitStatus) :
    stamps (assignStatus target status db) = stamps db := by
  unfold assignStatus
  split
  · rfl
  · exact stamps_setCommitStatus db target.id status

/-- The commit that is created, if there is none with its key. -/
theorem createCommit_new {inp : Inputs} {draft : Draft Digest}
    (h : ∀ key, draft.dedupeKey = some key → db.commits.find? (·.dedupeKey = some key) = none) :
    (createCommit inp draft db).2.id = inp.commitId ∧
      stamps (createCommit inp draft db).1 = stamps db ++ [(inp.commitId, inp.now)] ∧
      (createCommit inp draft db).1.commits = db.commits ++ [(createCommit inp draft db).2] ∧
      (createCommit inp draft db).2.parentCommitId = latestCommitId db ∧
      (createCommit inp draft db).2.dedupeKey = draft.dedupeKey ∧
      (createCommit inp draft db).2.metadata = draft.metadata := by
  have hnone : (draft.dedupeKey.bind fun key => db.commits.find? (·.dedupeKey = some key)) = none := by
    cases hkey : draft.dedupeKey with
    | none => rfl
    | some key => exact h key hkey
  unfold createCommit
  rw [hnone]
  exact ⟨rfl, by simp [stamps], rfl, rfl, rfl, rfl⟩

end Commits

section States

variable (db : Database Digest) (workId : Uuid)

theorem find?_workId {states : List WorkState} {state : WorkState}
    (h : states.find? (·.workId = workId) = some state) : state.workId = workId := by
  simpa using find?_some h

/-- The row that is there, or a new one that says nothing. -/
theorem ensureWorkState_cases :
    (∃ state, workState workId db = some state ∧ ensureWorkState workId db = (db, state)) ∨
      (workState workId db = none ∧
        ensureWorkState workId db =
          ({ db with workStates := db.workStates ++ [⟨workId, .visible, none, none, none, none⟩] },
            ⟨workId, .visible, none, none, none, none⟩)) := by
  unfold ensureWorkState
  cases h : workState workId db with
  | none => exact .inr ⟨rfl, rfl⟩
  | some state => exact .inl ⟨state, rfl, rfl⟩

/-- Afterwards there is a row, and it shows the visibility from before. -/
theorem ensureWorkState_spec :
    workState workId (ensureWorkState workId db).1 = some (ensureWorkState workId db).2 ∧
      (ensureWorkState workId db).2.workId = workId ∧
      (ensureWorkState workId db).2.visibility = visibilityOf (workState workId db) := by
  rcases ensureWorkState_cases db workId with ⟨state, hstate, heq⟩ | ⟨hnone, heq⟩
  · rw [heq, hstate]
    exact ⟨rfl, find?_workId workId hstate, rfl⟩
  · rw [heq, hnone]
    refine ⟨?_, rfl, rfl⟩
    unfold workState at hnone ⊢
    simp [find?_append, hnone]

theorem workState_ensureWorkState (other : Uuid) :
    visibilityOf (workState other (ensureWorkState workId db).1) =
      visibilityOf (workState other db) := by
  by_cases hother : other = workId
  · subst hother
    obtain ⟨hstate, -, hvisibility⟩ := ensureWorkState_spec db other
    rw [hstate]
    exact hvisibility
  · rcases ensureWorkState_cases db workId with ⟨state, -, heq⟩ | ⟨-, heq⟩
    · rw [heq]
    · rw [heq]
      unfold workState
      have hne : ¬ workId = other := fun h => hother h.symm
      simp [find?_append, hne]

@[simp]
theorem live_ensureWorkState (other : Uuid) :
    live other (ensureWorkState workId db).1 = live other db := by
  unfold live
  rw [workState_ensureWorkState]
  rcases ensureWorkState_cases db workId with ⟨state, -, heq⟩ | ⟨-, heq⟩
  · rw [heq]
  · rw [heq]
    rfl

@[simp]
theorem changes_ensureWorkState : (ensureWorkState workId db).1.changes = db.changes := by
  rcases ensureWorkState_cases db workId with ⟨state, -, heq⟩ | ⟨-, heq⟩ <;> rw [heq]

@[simp]
theorem commits_ensureWorkState : (ensureWorkState workId db).1.commits = db.commits := by
  rcases ensureWorkState_cases db workId with ⟨state, -, heq⟩ | ⟨-, heq⟩ <;> rw [heq]

@[simp]
theorem works_ensureWorkState : (ensureWorkState workId db).1.works = db.works := by
  rcases ensureWorkState_cases db workId with ⟨state, -, heq⟩ | ⟨-, heq⟩ <;> rw [heq]

theorem keyed_ensureWorkState (h : Keyed db) : Keyed (ensureWorkState workId db).1 := by
  rcases ensureWorkState_cases db workId with ⟨state, -, heq⟩ | ⟨hnone, heq⟩
  · rw [heq]
    exact h
  rw [heq]
  refine ⟨h.works, ?_⟩
  rw [map_append, nodup_append]
  refine ⟨h.workStates, by simp, ?_⟩
  intro id hid other hother heq
  obtain ⟨state, hstate, rfl⟩ := mem_map.mp hid
  have hfind := find?_eq_none.mp hnone state hstate
  simp only [map_cons, map_nil, mem_singleton] at hother
  rw [heq, hother] at hfind
  simp at hfind

variable {f : WorkState → WorkState}

section

variable (hf : ∀ s, s.workId = workId → (f s).workId = workId)
include hf

/-- Assigning to the row of a work. -/
theorem workState_updateWorkState (other : Uuid) :
    workState other (updateWorkState workId f db) =
      if other = workId then (workState other db).map f else workState other db := by
  have hkey : (fun s : WorkState => decide (s.workId = other)) ∘
      (fun s => if s.workId = workId then f s else s) = fun s => decide (s.workId = other) := by
    funext s
    dsimp only [Function.comp]
    split
    next hs => rw [hf s hs, hs]
    · rfl
  unfold workState updateWorkState
  rw [find?_map, hkey]
  cases hfind : db.workStates.find? (fun s => decide (s.workId = other)) with
  | none => simp
  | some state =>
    have hstate := find?_workId other hfind
    by_cases hother : other = workId
    · simp [hother, hstate]
    · simp [hother, hstate]

theorem live_updateWorkState (other : Uuid) :
    live other (updateWorkState workId f db) =
      if other = workId then (visibilityOf ((workState other db).map f), (live other db).2)
      else live other db := by
  unfold live
  rw [workState_updateWorkState db workId hf]
  split <;> rfl

theorem keyed_updateWorkState (h : Keyed db) :
    Keyed (updateWorkState workId f db) := by
  refine ⟨h.works, ?_⟩
  unfold updateWorkState
  rw [map_map]
  have hsame : (fun s : WorkState => s.workId) ∘ (fun s => if s.workId = workId then f s else s) =
      fun s => s.workId := by
    funext s
    dsimp only [Function.comp]
    split
    next hs => rw [hf s hs, hs]
    · rfl
  rw [hsame]
  exact h.workStates

end

theorem markState_workId (now : Time) (commitId : Uuid) (visibility : Visibility)
    (reason : Option Text) (state : WorkState) :
    (markState now commitId visibility reason state).workId = state.workId := by
  unfold markState
  split <;> rfl

@[simp]
theorem markState_visibility (now : Time) (commitId : Uuid) (visibility : Visibility)
    (reason : Option Text) (state : WorkState) :
    (markState now commitId visibility reason state).visibility = visibility := by
  unfold markState
  split <;> rfl

end States

section Works

variable (db : Database Digest) (workId : Uuid)

variable {work : Work}

theorem getWork_id (h : getWork workId db = some work) : work.id = workId := by
  simpa using find?_some h

theorem getWork_of_mem (hkeyed : Keyed db) (h : work ∈ db.works) : getWork work.id db = some work :=
  find?_of_nodup hkeyed.works h

theorem getWork_setFavorite (value : Bool) (other : Uuid) :
    getWork other (setFavorite workId value db) =
      (getWork other db).map fun w => if w.id = workId then { w with isFavorite := value } else w := by
  have hkey : (fun w : Work => decide (w.id = other)) ∘
      (fun w => if w.id = workId then { w with isFavorite := value } else w) =
        fun w => decide (w.id = other) := by
    funext w
    dsimp only [Function.comp]
    split <;> rfl
  unfold getWork setFavorite
  rw [find?_map, hkey]

theorem live_setFavorite (value : Bool) (other : Uuid) :
    live other (setFavorite workId value db) =
      if other = workId then ((live other db).1, (live other db).2.map fun _ => value)
      else live other db := by
  unfold live
  rw [getWork_setFavorite]
  have hstate : workState other (setFavorite workId value db) = workState other db := rfl
  rw [hstate]
  cases hwork : getWork other db with
  | none => simp
  | some work =>
    have hid := getWork_id db other hwork
    by_cases hother : other = workId
    · simp [hother, hid]
    · simp [hother, hid]

theorem ensureWorkState_setFavorite (value : Bool) (other : Uuid) :
    ensureWorkState other (setFavorite workId value db) =
      (setFavorite workId value (ensureWorkState other db).1, (ensureWorkState other db).2) := by
  have hstate : workState other (setFavorite workId value db) = workState other db := rfl
  unfold ensureWorkState
  rw [hstate]
  cases workState other db <;> rfl

theorem keyed_setFavorite (value : Bool) (h : Keyed db) : Keyed (setFavorite workId value db) := by
  refine ⟨?_, h.workStates⟩
  unfold setFavorite
  rw [map_map]
  have hsame : (fun w : Work => w.id) ∘
      (fun w => if w.id = workId then { w with isFavorite := value } else w) = fun w => w.id := by
    funext w
    dsimp only [Function.comp]
    split <;> rfl
  rw [hsame]
  exact h.works

end Works

section Loops

variable {db : Database Digest}

theorem commits_moveWork (move : Move) (reason : Option Text) (inp : Inputs) (commitId : Uuid)
    (acc : Database Digest × Nat) (work : Work) :
    (moveWork move reason inp commitId acc work).1.commits = acc.1.commits := by
  unfold moveWork
  dsimp only
  split
  · exact commits_ensureWorkState _ _
  · exact commits_ensureWorkState _ _

theorem commits_moveWorks_loop (move : Move) (reason : Option Text) (inp : Inputs)
    (commitId : Uuid) (works : List Work) (acc : Database Digest × Nat) :
    (works.foldl (moveWork move reason inp commitId) acc).1.commits = acc.1.commits := by
  induction works generalizing acc with
  | nil => rfl
  | cons work rest ih => exact (ih _).trans (commits_moveWork move reason inp commitId acc work)

theorem commits_revertMove (target : Visibility) (action : Action) (inp : Inputs)
    (revertId : Uuid) (number : Nat) (change : Change) :
    (revertMove target action inp revertId number change db).1.commits = db.commits := by
  unfold revertMove
  split
  · rfl
  · dsimp only
    split
    · exact commits_ensureWorkState db _
    · exact commits_ensureWorkState db _

theorem commits_revertChange (inp : Inputs) (revertId : Uuid) (number : Nat) (change : Change) :
    (revertChange inp revertId number change db).1.commits = db.commits := by
  unfold revertChange
  split
  · exact commits_revertMove ..
  · exact commits_revertMove ..
  · split <;> rfl
  · split
    · rfl
    · dsimp only [addChange, updateCreatorState, activateCreator, ensureCreatorState]
      split <;> rfl
  all_goals rfl

theorem commits_revertChanges (inp : Inputs) (revertId : Uuid) (changes : List Change)
    (number : Nat) (db : Database Digest) :
    (revertChanges inp revertId number changes db).1.commits = db.commits := by
  induction changes generalizing number db with
  | nil => rfl
  | cons change rest ih => exact (ih _ _).trans (commits_revertChange inp revertId number change)

end Loops

end Curation
