import AutoGallery.CurationRows

/-!
# Replaying the curation ledger

The changes of a work, in the order of the ledger, tell its visibility and its
favourite mark: each snapshot overwrites the keys it has.  What they tell last should
be what the rows of the work say (`Agrees`).

Trashing, restoring, marking and reverting keep to this, because every change shows
the rows as they are after it (`Tells`).
-/

namespace Curation

open PyText List
open WorkDatabase (Visibility)

variable {Digest : Type}

variable {change : Change} {commitId : Uuid} {known : Uuid → Prop} {marked : WorkState}

section Replay

/-- What has been told of a work. -/
structure Replayed where
  visibility : Option Visibility
  isFavorite : Option Bool
  deriving DecidableEq

/-- A snapshot overwrites the keys it has. -/
def Replayed.apply (told : Replayed) (change : Change) : Replayed :=
  match change.afterState with
  | some (.work s) => ⟨s.visibility.or told.visibility, s.isFavorite.or told.isFavorite⟩
  | _ => told

/-- The change is about the work. -/
def about (workId : Uuid) (change : Change) : Bool :=
  change.subjectType = .work ∧ change.subjectId = workId

/-- The time of the commit of a change. -/
def commitTime (db : Database Digest) (change : Change) : Time :=
  ((stamps db).lookup change.commitId).getD 0

/-- The place of a change in the ledger. -/
def ledgerPlace (db : Database Digest) (change : Change) :
    Time ×ₗ Uuid ×ₗ WithTop Nat ×ₗ Time ×ₗ Uuid :=
  toLex (commitTime db change, toLex (change.commitId, changePlace change))

/-- The changes of a work in the order of the ledger. -/
def ledger (workId : Uuid) (db : Database Digest) : List Change :=
  Keyset.arranged (ledgerPlace db) (db.changes.filter (about workId))

/-- What the ledger tells of a work. -/
def replay (workId : Uuid) (db : Database Digest) : Replayed :=
  (ledger workId db).foldl Replayed.apply ⟨none, none⟩

/-- What is told is what the rows say. -/
def Consistent (told : Replayed) (rows : Visibility × Option Bool) : Prop :=
  told.visibility = some rows.1 ∧ told.isFavorite = rows.2

/-- The ledger has changes of the work. -/
def Touched (workId : Uuid) (db : Database Digest) : Prop :=
  ∃ change ∈ db.changes, about workId change = true

/-- The ledger replays to the rows, for every work it has changes of. -/
def Agrees (db : Database Digest) : Prop :=
  ∀ workId, Touched workId db → Consistent (replay workId db) (live workId db)

/-- What further changes tell of a work. -/
def replayRows (workId : Uuid) (told : Replayed) (rows : List Change) : Replayed :=
  (rows.filter (about workId)).foldl Replayed.apply told

@[simp]
theorem replayRows_nil (workId : Uuid) (told : Replayed) : replayRows workId told [] = told := rfl

theorem replayRows_append (workId : Uuid) (told : Replayed) (rows more : List Change) :
    replayRows workId told (rows ++ more) = replayRows workId (replayRows workId told rows) more := by
  unfold replayRows
  rw [filter_append, foldl_append]

/-- The snapshot has both keys. -/
def Whole (change : Change) : Prop :=
  ∃ s, change.afterState = some (.work s) ∧ s.visibility ≠ none ∧ s.isFavorite ≠ none

theorem Whole.apply_eq (h : Whole change) (told told' : Replayed) :
    told.apply change = told'.apply change := by
  obtain ⟨s, hs, hvisibility, hfavorite⟩ := h
  unfold Replayed.apply
  rw [hs]
  obtain ⟨v, hv⟩ := Option.ne_none_iff_exists'.mp hvisibility
  obtain ⟨f, hf⟩ := Option.ne_none_iff_exists'.mp hfavorite
  simp [hv, hf]

/-- After a whole snapshot it does not matter what was told before. -/
theorem replayRows_whole {workId : Uuid} {rows : List Change}
    (hwhole : ∀ row ∈ rows.filter (about workId), Whole row) (hrows : rows.filter (about workId) ≠ []) (told told' : Replayed) :
    replayRows workId told rows = replayRows workId told' rows := by
  unfold replayRows
  cases hcase : rows.filter (about workId) with
  | nil => exact absurd hcase hrows
  | cons first rest =>
    have hmem : first ∈ rows.filter (about workId) := hcase ▸ mem_cons_self
    rw [foldl_cons, foldl_cons, (hwhole first hmem).apply_eq told told']

end Replay

section Appending

variable {db db' : Database Digest} {inp : Inputs} {rows : List Change}

/-- What the ledger needs to be read: every change belongs to a commit. -/
def Stamped (db : Database Digest) : Prop :=
  ∀ change ∈ db.changes, change.commitId ∈ (stamps db).map Prod.fst

variable (db inp rows) in
/-- An operation has recorded changes under a commit of its own. -/
structure Recorded (db' : Database Digest) : Prop where
  changes : db'.changes = db.changes ++ rows
  stamps : stamps db' = stamps db ++ [(inp.commitId, inp.now)]
  commit : ∀ row ∈ rows, row.commitId = inp.commitId

/-- The commit comes after all others in the order of the ledger, and its identity is
new. -/
structure Inputs.Fresh (inp : Inputs) (db : Database Digest) : Prop where
  order : ∀ stamp ∈ Curation.stamps db, toLex (stamp.2, stamp.1) < toLex (inp.now, inp.commitId)
  commitId : inp.commitId ∉ (Curation.stamps db).map Prod.fst

theorem commitTime_old (h : Recorded db inp rows db')
    (hchange : change.commitId ∈ (stamps db).map Prod.fst) :
    commitTime db' change = commitTime db change := by
  unfold commitTime
  rw [h.stamps, lookup_append]
  obtain ⟨stamp, hstamp, heq⟩ := mem_map.mp hchange
  cases hlookup : (stamps db).lookup change.commitId with
  | none =>
    rw [lookup_eq_none_iff] at hlookup
    exact absurd (heq ▸ hlookup stamp hstamp) (by simp)
  | some time => rfl

theorem commitTime_mem (hchange : change.commitId ∈ (stamps db).map Prod.fst) :
    (change.commitId, commitTime db change) ∈ stamps db := by
  unfold commitTime
  obtain ⟨stamp, hstamp, heq⟩ := mem_map.mp hchange
  cases hlookup : (stamps db).lookup change.commitId with
  | none =>
    rw [lookup_eq_none_iff] at hlookup
    exact absurd (heq ▸ hlookup stamp hstamp) (by simp)
  | some time =>
    obtain ⟨before, after, hsplit, -⟩ := lookup_eq_some_iff.mp hlookup
    rw [hsplit]
    simp

theorem commitTime_new (h : Recorded db inp rows db') (hfresh : inp.Fresh db)
    (hchange : change.commitId = inp.commitId) : commitTime db' change = inp.now := by
  unfold commitTime
  rw [h.stamps, lookup_append, hchange]
  have hnone : (stamps db).lookup inp.commitId = none := by
    rw [lookup_eq_none_iff]
    intro stamp hstamp
    have hne : inp.commitId ≠ stamp.1 := fun heq => hfresh.commitId (heq ▸ mem_map_of_mem hstamp)
    simpa using hne
  rw [hnone]
  simp

/-- **Further changes are told after what has been told.** -/
theorem replay_recorded (h : Recorded db inp rows db') (hfresh : inp.Fresh db)
    (hstamped : Stamped db) (workId : Uuid)
    (hsorted : (rows.filter (about workId)).Pairwise fun a b => changePlace a ≤ changePlace b) :
    replay workId db' = replayRows workId (replay workId db) rows := by
  have hold : ∀ change ∈ db.changes.filter (about workId),
      ledgerPlace db' change = ledgerPlace db change := by
    intro change hchange
    unfold ledgerPlace
    rw [commitTime_old h (hstamped change (mem_of_mem_filter hchange))]
  have hbefore : ∀ a ∈ db.changes.filter (about workId), ∀ b ∈ rows.filter (about workId),
      ledgerPlace db' a < ledgerPlace db' b := by
    intro a ha b hb
    have hstamp := hstamped a (mem_of_mem_filter ha)
    have hid := h.commit b (mem_of_mem_filter hb)
    have horder := hfresh.order _ (commitTime_mem hstamp)
    unfold ledgerPlace
    rw [commitTime_old h hstamp, commitTime_new h hfresh hid, hid]
    rw [Prod.Lex.toLex_lt_toLex] at horder ⊢
    rcases horder with htime | ⟨htime, hless⟩
    · exact .inl htime
    · exact .inr ⟨htime, Prod.Lex.toLex_lt_toLex.mpr (.inl hless)⟩
  have hnew : (rows.filter (about workId)).Pairwise
      fun a b => ledgerPlace db' a ≤ ledgerPlace db' b := by
    refine hsorted.imp_of_mem fun {a b} ha hb hab => ?_
    have hida := h.commit a (mem_of_mem_filter ha)
    have hidb := h.commit b (mem_of_mem_filter hb)
    unfold ledgerPlace
    rw [commitTime_new h hfresh hida, commitTime_new h hfresh hidb, hida, hidb]
    refine Prod.Lex.toLex_le_toLex.mpr (.inr ⟨rfl, Prod.Lex.toLex_le_toLex.mpr (.inr ⟨rfl, hab⟩)⟩)
  unfold replay ledger replayRows
  rw [h.changes, filter_append, Keyset.arranged_append _ hbefore hnew, foldl_append,
    Keyset.arranged_congr hold]

end Appending

section Telling

variable {db db' db'' : Database Digest}

/-- A part of an operation writes rows of works and changes that show them as they are
afterwards.  `subjects` are the works in question; a snapshot may lack keys only where
the ledger is `known` to have them. -/
structure Tells (commitId : Uuid) (known : Uuid → Prop) (subjects : List Uuid)
    (db : Database Digest) (rows : List Change) (db' : Database Digest) : Prop where
  changes : db'.changes = db.changes ++ rows
  commits : db'.commits = db.commits
  keyed : Keyed db → Keyed db'
  subjects : (rows.map (·.subjectId)).Sublist subjects
  row : ∀ row ∈ rows, row.commitId = commitId ∧ row.subjectType = .work ∧
    row.action ≠ .creatorArchived
  grounded : ∀ row ∈ rows, Whole row ∨ known row.subjectId
  kept : ∀ workId told, Consistent told (live workId db) →
    Consistent (replayRows workId told rows) (live workId db')

/-- Nothing is told where nothing is changed. -/
theorem Tells.silent (subjects : List Uuid) (hchanges : db'.changes = db.changes)
    (hcommits : db'.commits = db.commits) (hkeyed : Keyed db → Keyed db')
    (hlive : ∀ workId, live workId db' = live workId db) :
    Tells commitId known subjects db [] db' where
  changes := by rw [hchanges, append_nil]
  commits := hcommits
  keyed := hkeyed
  subjects := nil_sublist _
  row := by simp
  grounded := by simp
  kept workId told h := by rwa [replayRows_nil, hlive]

theorem Tells.trans {subjects subjects' : List Uuid} {rows rows' : List Change}
    (h : Tells commitId known subjects db rows db')
    (h' : Tells commitId known subjects' db' rows' db'') :
    Tells commitId known (subjects ++ subjects') db (rows ++ rows') db'' where
  changes := by rw [h'.changes, h.changes, append_assoc]
  commits := h'.commits.trans h.commits
  keyed := fun hk => h'.keyed (h.keyed hk)
  subjects := by
    rw [map_append]
    exact h.subjects.append h'.subjects
  row := fun row hrow => (mem_append.mp hrow).elim (h.row row) (h'.row row)
  grounded := fun row hrow => (mem_append.mp hrow).elim (h.grounded row) (h'.grounded row)
  kept := by
    intro workId told hk
    rw [replayRows_append]
    exact h'.kept workId _ (h.kept workId told hk)

/-- One change of one work, which shows it as it is afterwards. -/
theorem Tells.one (hchanges : db'.changes = db.changes ++ [change])
    (hcommits : db'.commits = db.commits) (hkeyed : Keyed db → Keyed db')
    (hrow : change.commitId = commitId ∧ change.subjectType = .work ∧
      change.action ≠ .creatorArchived) (hgrounded : Whole change ∨ known change.subjectId)
    (hother : ∀ workId, workId ≠ change.subjectId → live workId db' = live workId db)
    (hshown : ∀ told, Consistent told (live change.subjectId db) →
      Consistent (told.apply change) (live change.subjectId db')) :
    Tells commitId known [change.subjectId] db [change] db' where
  changes := hchanges
  commits := hcommits
  keyed := hkeyed
  subjects := Sublist.refl _
  row := by simpa using hrow
  grounded := by simpa using hgrounded
  kept := by
    intro workId told hk
    by_cases hid : workId = change.subjectId
    · have habout : about workId change = true := by simp [about, hrow.2.1, hid]
      subst hid
      simpa [replayRows, habout] using hshown told hk
    · have hne : change.subjectId ≠ workId := fun h => hid h.symm
      have habout : about workId change = false := by simp [about, hne]
      rw [hother workId hid]
      simpa [replayRows, habout] using hk

end Telling

section Operations

variable {db : Database Digest}

variable {work : Work} {state : Option WorkState} {move : Move}

theorem whole_workSnapshot (h : change.afterState = some (.work (workSnapshot work state))) :
    Whole change :=
  ⟨_, h, by simp [workSnapshot], by simp [workSnapshot]⟩

theorem apply_workSnapshot (h : change.afterState = some (.work (workSnapshot work state)))
    (told : Replayed) : told.apply change = ⟨some (visibilityOf state), some work.isFavorite⟩ := by
  unfold Replayed.apply
  rw [h]
  rfl

theorem live_marked (hmarked : marked.workId = work.id) (workId : Uuid) :
    live workId (addChange change
      (updateWorkState work.id (fun _ => marked) (ensureWorkState work.id db).1)) =
        if workId = work.id then (marked.visibility, (live workId db).2) else live workId db := by
  have hupdate := live_updateWorkState (ensureWorkState work.id db).1 work.id
    (fun _ _ => hmarked) workId (f := fun _ => marked)
  rw [live_ensureWorkState] at hupdate
  refine Eq.trans (by rfl) (hupdate.trans ?_)
  split
  next hid =>
    rw [hid, (ensureWorkState_spec db work.id).1]
    rfl
  · rfl

section

variable (hwork : getWork work.id db = some work) (hsubject : change.subjectId = work.id)
  (hrow : change.commitId = commitId ∧ change.subjectType = .work ∧ change.action ≠ .creatorArchived)
include hwork hsubject hrow

/-- A work gets another row of state, and the change shows it. -/
theorem tells_marked (hmarked : marked.workId = work.id)
    (hafter : change.afterState = some (.work (workSnapshot work (some marked)))) :
    Tells commitId known [work.id] db [change]
      (addChange change (updateWorkState work.id (fun _ => marked) (ensureWorkState work.id db).1)) := by
  rw [← hsubject]
  refine Tells.one ?_ ?_ ?_ hrow (.inl (whole_workSnapshot hafter)) ?_ ?_
  · rw [hsubject]
    simp [addChange, updateWorkState]
  · rw [hsubject]
    simp [addChange, updateWorkState]
  · intro hkeyed
    rw [hsubject]
    have hupdated := keyed_updateWorkState _ work.id (fun _ _ => hmarked)
      (keyed_ensureWorkState db work.id hkeyed) (f := fun _ => marked)
    exact ⟨hupdated.works, hupdated.workStates⟩
  · intro workId hid
    rw [hsubject] at hid ⊢
    rw [live_marked hmarked, if_neg hid]
  · intro told _
    rw [hsubject, live_marked hmarked, if_pos rfl, apply_workSnapshot hafter]
    refine ⟨rfl, ?_⟩
    unfold live
    rw [hwork]
    rfl

/-- A work gets another favourite mark, and the change shows it. -/
theorem tells_favorite {value : Bool} {shown : WorkSnapshot}
    (hafter : change.afterState = some (.work shown)) (hvalue : shown.isFavorite = some value)
    (hvisibility : shown.visibility = none ∨ shown.visibility = some (live work.id db).1)
    (hgrounded : Whole change ∨ known work.id) :
    Tells commitId known [work.id] db [change] (addChange change (setFavorite work.id value db)) := by
  have hlive : ∀ workId, live workId (addChange change (setFavorite work.id value db)) =
      if workId = work.id then ((live workId db).1, (live workId db).2.map fun _ => value)
      else live workId db := live_setFavorite db work.id value
  rw [← hsubject] at hgrounded
  rw [← hsubject]
  refine Tells.one rfl rfl ?_ hrow hgrounded ?_ ?_
  · intro hkeyed
    have hset := keyed_setFavorite db change.subjectId value hkeyed
    exact ⟨hset.works, hset.workStates⟩
  · intro workId hid
    rw [hsubject] at hid ⊢
    rw [hlive, if_neg hid]
  intro told htold
  have hmark : (live work.id db).2 = some work.isFavorite := by
    unfold live
    rw [hwork]
    rfl
  rw [hsubject] at htold ⊢
  rw [hlive, if_pos rfl, hmark]
  unfold Replayed.apply
  rw [hafter]
  refine ⟨?_, by simp [hvalue]⟩
  rcases hvisibility with hnone | hsome
  · simpa [hnone] using htold.1
  · simp [hsome]

end

/-- The body of the loop of `trash_works` and `restore_works`. -/
theorem moveWork_tells (commitId : Uuid) (known : Uuid → Prop)
    (hmove : move.action ≠ .creatorArchived) (reason : Option Text) (inp : Inputs)
    (acc : Database Digest × Nat) (hwork : getWork work.id acc.1 = some work) :
    (moveWork move reason inp commitId acc work).1.works = acc.1.works ∧
      ∃ rows, Tells commitId known [work.id] acc.1 rows
        (moveWork move reason inp commitId acc work).1 := by
  have hstate := (ensureWorkState_spec acc.1 work.id).2.1
  unfold moveWork
  dsimp only
  split
  · refine ⟨by simp [addChange, updateWorkState], _, tells_marked hwork rfl ⟨rfl, rfl, hmove⟩ ?_ rfl⟩
    rw [markState_workId]
    exact hstate
  · exact ⟨by simp, [], Tells.silent _ (by simp) (by simp) (keyed_ensureWorkState _ _) (by simp)⟩

theorem moveWorks_loop_tells (commitId : Uuid) (known : Uuid → Prop)
    (hmove : move.action ≠ .creatorArchived) (reason : Option Text) (inp : Inputs)
    (works : List Work) (acc : Database Digest × Nat)
    (hworks : ∀ work ∈ works, getWork work.id acc.1 = some work) :
    ∃ rows, Tells commitId known (works.map (·.id)) acc.1 rows
      (works.foldl (moveWork move reason inp commitId) acc).1 := by
  induction works generalizing acc with
  | nil => exact ⟨[], Tells.silent _ rfl rfl id fun _ => rfl⟩
  | cons work rest ih =>
    obtain ⟨hsame, rows, hrows⟩ := moveWork_tells commitId known hmove reason inp acc
      (hworks work mem_cons_self)
    obtain ⟨more, hmore⟩ := ih (moveWork move reason inp commitId acc work) (by
      intro other hother
      unfold getWork
      rw [hsame]
      exact hworks other (mem_cons_of_mem _ hother))
    exact ⟨rows ++ more, hrows.trans hmore⟩

/-- The actions that change the visibility or the favourite mark of a work. -/
def Action.moves : Action → Bool
  | .workTrashed | .workRestored | .workFavorited => true
  | _ => false

theorem revertMove_tells (target : Visibility) {action : Action} (haction : action ≠ .creatorArchived)
    (inp : Inputs) (number : Nat) (change : Change) :
    ∃ rows, Tells commitId known [change.subjectId] db rows
      (revertMove target action inp commitId number change db).1 := by
  unfold revertMove
  cases hwork : getWork change.subjectId db with
  | none => exact ⟨[], Tells.silent _ rfl rfl id fun _ => rfl⟩
  | some work =>
    have hid := getWork_id db _ hwork
    have hstate := (ensureWorkState_spec db work.id).2.1
    rw [← hid]
    rw [← hid] at hwork
    dsimp only
    split
    · exact ⟨[], Tells.silent _ (by simp) (by simp) (keyed_ensureWorkState _ _) (by simp)⟩
    · refine ⟨_, tells_marked hwork rfl ⟨rfl, rfl, haction⟩ ?_ rfl⟩
      rw [markState_workId]
      exact hstate

/-- `_revert_change` tells of the work of the change, if the change moved it. -/
theorem revertChange_tells (commitId : Uuid) (db : Database Digest) (inp : Inputs) (number : Nat)
    (hcreator : change.action ≠ .creatorArchived) (hknown : known change.subjectId) :
    ∃ rows, Tells commitId known (if change.action.moves then [change.subjectId] else []) db rows
      (revertChange inp commitId number change db).1 := by
  have hsilent : ∀ subjects, ∃ rows, Tells commitId known subjects db rows db :=
    fun subjects => ⟨[], Tells.silent _ rfl rfl id fun _ => rfl⟩
  unfold revertChange
  cases haction : change.action with
  | workTrashed => exact revertMove_tells .visible (by simp) inp number change
  | workRestored => exact revertMove_tells .trashed (by simp) inp number change
  | workFavorited =>
    dsimp only
    cases hwork : getWork change.subjectId db with
    | none => exact hsilent _
    | some work =>
      have hid := getWork_id db _ hwork
      rw [← hid] at hknown hwork
      simp only [Action.moves, if_true]
      rw [← hid]
      exact ⟨_, tells_favorite hwork rfl (by simp) rfl rfl (.inl rfl) (.inr hknown)⟩
  | creatorArchived => exact absurd haction hcreator
  | workTagAdded | workTagRemoved | commandNoop | creatorRestored | workPurged | assetPurged =>
    exact hsilent _
  | other name => exact hsilent _

theorem revertChanges_tells (commitId : Uuid) (inp : Inputs) (changes : List Change) (number : Nat)
    (db : Database Digest) (hcreator : ∀ change ∈ changes, change.action ≠ .creatorArchived)
    (hknown : ∀ change ∈ changes, known change.subjectId) :
    ∃ rows, Tells commitId known ((changes.filter (·.action.moves)).map (·.subjectId)) db rows
      (revertChanges inp commitId number changes db).1 := by
  induction changes generalizing number db with
  | nil => exact ⟨[], Tells.silent _ rfl rfl id fun _ => rfl⟩
  | cons change rest ih =>
    obtain ⟨rows, hrows⟩ := revertChange_tells commitId db inp number
      (hcreator change mem_cons_self) (hknown change mem_cons_self)
    obtain ⟨more, hmore⟩ := ih (number + 1) (revertChange inp commitId number change db).1
      (fun c hc => hcreator c (mem_cons_of_mem _ hc))
      (fun c hc => hknown c (mem_cons_of_mem _ hc))
    refine ⟨rows ++ more, ?_⟩
    have hboth := hrows.trans hmore
    have hsplit : ((change :: rest).filter (·.action.moves)).map (·.subjectId) =
        (if change.action.moves then [change.subjectId] else []) ++
          (rest.filter (·.action.moves)).map (·.subjectId) := by
      by_cases hmoves : change.action.moves = true <;> simp [hmoves]
    rw [hsplit]
    exact hboth

end Operations

end Curation
