import AutoGallery.CurationCommands
import AutoGallery.Runs

/-!
# The ledger along a run

A run is a list of operations of the service, each with what it takes from outside.  In
every state of a run the ledger replays to the rows, unless a command has moved a work
and then gone on with another operation on it.  The ledger replays to the rows in all
states of a run just if no command of the run does that (`ledger_replays_iff`).
-/

namespace Curation

open PyText List
open WorkDatabase (Visibility)

variable {Digest : Type}

section Invariant

/-- What holds of the ledger as long as it replays to the rows. -/
structure LedgerInvariant (db : Database Digest) : Prop where
  keyed : Keyed db
  stamped : Stamped db
  work : ∀ change ∈ db.changes, change.subjectType = .work ∧ change.action ≠ .creatorArchived
  single : ∀ commitId, ((db.changes.filter fun c => c.commitId = commitId ∧ c.action.moves).map
    (·.subjectId)).Nodup
  agrees : Agrees db

variable {db db' : Database Digest} {inp : Inputs} {rows : List Change}

variable (db inp rows) in
/-- What an operation that keeps the invariant has written. -/
structure Written (db' : Database Digest) : Prop extends Recorded db inp rows db' where
  keyed : Keyed db'
  row : ∀ row ∈ rows, row.subjectType = .work ∧ row.action ≠ .creatorArchived
  sorted : ∀ workId, (rows.filter (about workId)).Pairwise fun a b => changePlace a ≤ changePlace b
  single : ((rows.filter (·.action.moves)).map (·.subjectId)).Nodup
  grounded : ∀ row ∈ rows, Whole row ∨ Touched row.subjectId db
  kept : ∀ workId said, Consistent said (live workId db) →
    Consistent (replayRows workId said rows) (live workId db')

theorem consistent_live (workId : Uuid) (db : Database Digest) :
    Consistent ⟨some (live workId db).1, (live workId db).2⟩ (live workId db) :=
  ⟨rfl, rfl⟩

section

variable (h : Written db inp rows db') (hfresh : inp.Fresh db) (hinv : LedgerInvariant db)
include h hfresh hinv

theorem Written.agrees : Agrees db' := by
  intro workId htouched
  rw [replay_recorded h.toRecorded hfresh hinv.stamped workId (h.sorted workId)]
  by_cases hold : Touched workId db
  · exact h.kept workId _ (hinv.agrees workId hold)
  -- the first changes of the work, all of them whole
  obtain ⟨change, hchange, habout⟩ := htouched
  rw [h.changes] at hchange
  have hrow : change ∈ rows := by
    rcases mem_append.mp hchange with hmem | hmem
    · exact absurd ⟨change, hmem, habout⟩ hold
    · exact hmem
  have hrows : rows.filter (about workId) ≠ [] :=
    ne_nil_of_mem (mem_filter.mpr ⟨hrow, habout⟩)
  have hwhole : ∀ row ∈ rows.filter (about workId), Whole row := by
    intro row hmem
    obtain ⟨hmem, hid⟩ := mem_filter.mp hmem
    have hsubject : row.subjectId = workId := by
      simp only [about, decide_eq_true_eq] at hid
      exact hid.2
    exact (h.grounded row hmem).resolve_right fun htouched => hold (hsubject ▸ htouched)
  rw [replayRows_whole hwhole hrows _ ⟨some (live workId db).1, (live workId db).2⟩]
  exact h.kept workId _ (consistent_live workId db)

theorem Written.invariant : LedgerInvariant db' where
  keyed := h.keyed
  stamped := by
    intro change hchange
    rw [h.changes] at hchange
    rw [h.stamps, map_append, mem_append]
    rcases mem_append.mp hchange with hmem | hmem
    · exact .inl (hinv.stamped change hmem)
    · exact .inr (by simp [h.commit change hmem])
  work := by
    intro change hchange
    rw [h.changes] at hchange
    exact (mem_append.mp hchange).elim (hinv.work change) (h.row change)
  single := by
    intro commitId
    rw [h.changes, filter_append]
    by_cases hid : commitId = inp.commitId
    · have hold : (db.changes.filter fun c => c.commitId = commitId ∧ c.action.moves) = [] := by
        refine filter_eq_nil_iff.mpr fun change hchange => ?_
        have hne : change.commitId ≠ commitId := fun heq =>
          hfresh.commitId (hid ▸ heq ▸ hinv.stamped change hchange)
        simp [hne]
      have hnew : (rows.filter fun c => c.commitId = commitId ∧ c.action.moves) =
          rows.filter (·.action.moves) :=
        filter_congr fun row hrow => by simp [h.commit row hrow, hid]
      rw [hold, hnew, nil_append]
      exact h.single
    · have hnew : (rows.filter fun c => c.commitId = commitId ∧ c.action.moves) = [] := by
        refine filter_eq_nil_iff.mpr fun row hrow => ?_
        have hne : row.commitId ≠ commitId := fun heq => hid (heq ▸ h.commit row hrow)
        simp [hne]
      rw [hnew, append_nil]
      exact hinv.single commitId
  agrees := h.agrees hfresh hinv

end

/-- Among changes of different works there is no order to keep. -/
theorem pairwise_about_of_nodup (h : (rows.map (·.subjectId)).Nodup) (workId : Uuid)
    {R : Change → Change → Prop} : (rows.filter (about workId)).Pairwise R := by
  refine ((pairwise_map.mp h).filter _).imp_of_mem fun {a b} ha hb hab => ?_
  have hida := (mem_filter.mp ha).2
  have hidb := (mem_filter.mp hb).2
  simp only [about, decide_eq_true_eq] at hida hidb
  exact absurd (hida.2.trans hidb.2.symm) hab

/-- The rows that the ledger is about are the same. -/
structure SameRows (db db' : Database Digest) : Prop where
  works : db'.works = db.works
  workStates : db'.workStates = db.workStates
  changes : db'.changes = db.changes

theorem SameRows.live (h : SameRows db db') (workId : Uuid) :
    Curation.live workId db' = Curation.live workId db := by
  unfold Curation.live getWork workState
  rw [h.works, h.workStates]

theorem SameRows.keyed (h : SameRows db db') (hkeyed : Keyed db) : Keyed db' :=
  ⟨h.works ▸ hkeyed.works, h.workStates ▸ hkeyed.workStates⟩

/-- An operation that creates a commit and then tells of different works. -/
theorem Tells.written {subjects : List Uuid} {created finished : Database Digest}
    (htells : Tells inp.commitId (Touched · db) subjects created rows finished)
    (hsubjects : subjects.Nodup) (hkeyed : Keyed db) (hcreated : SameRows db created)
    (hfinished : SameRows finished db')
    (hstamps : stamps db' = stamps db ++ [(inp.commitId, inp.now)]) : Written db inp rows db' where
  changes := by rw [hfinished.changes, htells.changes, hcreated.changes]
  stamps := hstamps
  commit := fun row hrow => (htells.row row hrow).1
  keyed := hfinished.keyed (htells.keyed (hcreated.keyed hkeyed))
  row := fun row hrow => (htells.row row hrow).2
  sorted := fun workId => pairwise_about_of_nodup (htells.subjects.nodup hsubjects) workId
  single := ((filter_sublist.map _).trans htells.subjects).nodup hsubjects
  grounded := htells.grounded
  kept := by
    intro workId said hsaid
    rw [hfinished.live]
    exact htells.kept workId said (by rwa [hcreated.live])

end Invariant

section Operations

variable {db db' : Database Digest}

theorem createCommit_sameRows (inp : Inputs) (draft : Draft Digest) (db : Database Digest) :
    SameRows db (createCommit inp draft db).1 := by
  unfold createCommit
  split <;> exact ⟨rfl, rfl, rfl⟩

theorem assignStatus_sameRows (target : Commit Digest) (status : CommitStatus)
    (db : Database Digest) : SameRows db (assignStatus target status db) := by
  unfold assignStatus
  split <;> exact ⟨rfl, rfl, rfl⟩

variable {commitId : Uuid} {inp : Inputs} {id : Uuid} {result : RevertResult}

theorem Tells.stamps {known : Uuid → Prop} {subjects : List Uuid} {rows : List Change}
    (h : Tells commitId known subjects db rows db') : Curation.stamps db' = Curation.stamps db := by
  unfold Curation.stamps
  rw [h.commits]

variable {move : Move} {workIds : List Uuid} {reason message : Option Text}

/-- What a call that moves works has done. -/
theorem moveWorks_ok (hok : moveWorks move workIds reason message inp db = .ok (db', id)) :
    ∃ draft stats, draft.dedupeKey = none ∧
      db' = requestSearchProjection ((db.works.filter (·.id ∈ workIds)).map (·.id))
        (setStats inp.commitId stats ((db.works.filter (·.id ∈ workIds)).foldl
          (moveWork move reason inp inp.commitId) ((createCommit inp draft db).1, 0)).1) := by
  unfold moveWorks at hok
  dsimp only at hok
  split_ifs at hok
  cases hok
  exact ⟨_, _, rfl, rfl⟩

theorem moveWorks_written (hmove : move.action ≠ .creatorArchived) (hkeyed : Keyed db)
    (hok : moveWorks move workIds reason message inp db = .ok (db', id)) :
    ∃ rows, Written db inp rows db' := by
  obtain ⟨draft, stats, hkey, rfl⟩ := moveWorks_ok hok
  obtain ⟨-, hstamps, -⟩ := @createCommit_new Digest db inp draft (by simp [hkey])
  have hsame := createCommit_sameRows inp draft db
  obtain ⟨rows, htells⟩ := moveWorks_loop_tells inp.commitId (Touched · db) hmove reason inp
    (db.works.filter (·.id ∈ workIds)) ((createCommit inp draft db).1, 0) (by
      intro work hwork
      unfold getWork
      rw [hsame.works]
      exact getWork_of_mem db hkeyed (mem_of_mem_filter hwork))
  refine ⟨rows, htells.written ?_ hkeyed hsame ⟨rfl, rfl, rfl⟩ ?_⟩
  · exact (filter_sublist.map _).nodup hkeyed.works
  · exact (stamps_setStats _ _ _).trans (htells.stamps.trans hstamps)

theorem toggleWorkFavorite_written {workId : Uuid} (hkeyed : Keyed db)
    (hok : toggleWorkFavorite workId inp db = .ok (db', id)) : ∃ rows, Written db inp rows db' := by
  unfold toggleWorkFavorite recordWorkFavorite at hok
  cases hwork : getWork workId db with
  | none =>
    rw [hwork] at hok
    cases hok
  | some work =>
    obtain rfl := getWork_id db workId hwork
    rw [hwork] at hok
    dsimp only at hok
    rw [ensureWorkState_setFavorite] at hok
    generalize hdraft : ({ message := _, trigger := _ } : Draft Digest) = draft at hok
    obtain ⟨hid, hstamps, -⟩ := @createCommit_new Digest
      (setFavorite work.id (!work.isFavorite) (ensureWorkState work.id db).1) inp draft
      (by simp [← hdraft])
    have hsame := createCommit_sameRows inp draft
      (setFavorite work.id (!work.isFavorite) (ensureWorkState work.id db).1)
    rw [hid] at hok
    have hstate := (ensureWorkState_spec db work.id).2.2
    have hensured : Tells inp.commitId (Touched · db) [] db [] (ensureWorkState work.id db).1 :=
      Tells.silent _ (by simp) (by simp) (keyed_ensureWorkState _ _) (by simp)
    have hfound : getWork work.id (ensureWorkState work.id db).1 = some work := by
      unfold getWork
      rw [works_ensureWorkState]
      exact hwork
    generalize hchange : Change.mk _ _ _ _ _ _ _ _ _ = change at hok
    have hmarked : Tells inp.commitId (Touched · db) [work.id] (ensureWorkState work.id db).1 [change]
        (addChange change
          (setFavorite work.id (!work.isFavorite) (ensureWorkState work.id db).1)) := by
      rw [← hchange]
      refine tells_favorite hfound rfl (by simp) rfl rfl (.inr ?_) (.inl ?_)
      · rw [live_ensureWorkState]
        exact congrArg some hstate
      · exact ⟨_, rfl, by simp [workSnapshot], by simp⟩
    cases hok
    refine ⟨_, (hensured.trans hmarked).written (by simp) hkeyed ⟨rfl, rfl, rfl⟩
      ⟨hsame.works, hsame.workStates, ?_⟩ ?_⟩
    · exact congrArg (· ++ _) hsame.changes
    · refine (stamps_setStats _ _ _).trans (hstamps.trans ?_)
      congr 1
      exact hensured.stamps

/-- What a revert that succeeds has passed. -/
theorem revertCommit_ok (hok : revertCommit commitId inp db = .ok (db', result)) :
    ∃ target, revertTarget commitId db = .ok target ∧ checkNotReverted commitId db = .ok () ∧
      checkRevertSize commitId db = .ok () ∧
      applyRevert target (changesForCommit commitId db) inp db = (db', result) := by
  unfold revertCommit at hok
  obtain ⟨target, htarget, hok⟩ := bind_ok hok
  obtain ⟨_, hreverted, hok⟩ := bind_ok hok
  obtain ⟨_, hsize, hok⟩ := bind_ok hok
  exact ⟨target, htarget, hreverted, hsize, Except.ok.inj hok⟩

/-- And what it has done. -/
theorem applyRevert_eq (target : Commit Digest) (changes : List Change) (inp : Inputs)
    (db : Database Digest) :
    ∃ draft stats status works, draft.dedupeKey = none ∧
      (applyRevert target changes inp db).1 = requestSearchProjection works (setStats inp.commitId
        stats (assignStatus target status (revertChanges inp inp.commitId 0 changes.reverse
          (createCommit inp draft db).1).1)) := by
  unfold applyRevert
  exact ⟨_, _, _, _, rfl, rfl⟩

theorem revertCommit_written (hinv : LedgerInvariant db)
    (hok : revertCommit commitId inp db = .ok (db', result)) : ∃ rows, Written db inp rows db' := by
  obtain ⟨target, -, -, -, happly⟩ := revertCommit_ok hok
  obtain ⟨draft, stats, status, works, hkey, heq⟩ :=
    applyRevert_eq target (changesForCommit commitId db) inp db
  rw [happly] at heq
  obtain ⟨-, hstamps, -⟩ := @createCommit_new Digest db inp draft (by simp [hkey])
  have hperm : (changesForCommit commitId db).reverse.Perm
      (db.changes.filter (·.commitId = commitId)) :=
    (reverse_perm _).trans (Keyset.arranged_perm _ _)
  have hmem : ∀ change ∈ (changesForCommit commitId db).reverse, change ∈ db.changes :=
    fun change hchange => mem_of_mem_filter (hperm.mem_iff.mp hchange)
  obtain ⟨rows, htells⟩ := @revertChanges_tells Digest (Touched · db) inp.commitId inp
    (changesForCommit commitId db).reverse 0 (createCommit inp draft db).1
    (fun change hchange => (hinv.work change (hmem change hchange)).2)
    (fun change hchange => ⟨change, hmem change hchange, by
      simp [about, (hinv.work change (hmem change hchange)).1]⟩)
  cases heq
  refine ⟨rows, htells.written ?_ hinv.keyed (createCommit_sameRows inp draft db) ?_ ?_⟩
  · refine ((hperm.filter _).map _).nodup_iff.mpr ?_
    rw [filter_filter]
    have hsingle := hinv.single commitId
    simpa [Bool.and_comm] using hsingle
  · have hassigned := fun status => assignStatus_sameRows target status
      (revertChanges inp inp.commitId 0 (changesForCommit commitId db).reverse
        (createCommit inp draft db).1).1
    exact ⟨(hassigned _).works, (hassigned _).workStates, (hassigned _).changes⟩
  · refine (stamps_setStats _ _ _).trans ((stamps_assignStatus _ _ _).trans ?_)
    exact htells.stamps.trans hstamps

end Operations

section Commands

variable [DecidableEq Digest] {casefold : Text → Text} {commandHash : CommandRequest → Digest}
  {command : CommandRequest} {actorId : Option Text} {inp : Inputs} {db db' : Database Digest}
  {response : CommandResponse}

variable (command db) in
/-- No operation that moves a work is followed by another one on the same work. -/
def LastWord : Prop :=
  command.operations.Pairwise fun a b => a.workId = b.workId → moves (live a.workId db) a = false

/-- The changes of a command that is executed. -/
def commandRows (casefold : Text → Text) (inp : Inputs) (command : CommandRequest)
    (db : Database Digest) : List Change :=
  planRows inp inp.commitId 0 (planCommand casefold command db).plans

omit [DecidableEq Digest] in
/-- It is enough to look at the operations on one work at a time. -/
theorem lastWord_of_works
    (h : ∀ workId init last, command.operations.filter (·.workId = workId) = init ++ [last] →
      ∀ op ∈ init, moves (live workId db) op = false) : LastWord command db := by
  refine pairwise_iff_forall_sublist.mpr fun {a b} hab hid => ?_
  have hsub : [a, b].Sublist (command.operations.filter (·.workId = a.workId)) := by
    simpa [hid] using hab.filter (·.workId = a.workId)
  rcases eq_nil_or_concat (command.operations.filter (·.workId = a.workId)) with hnil | ⟨init, last, hcat⟩
  · rw [hnil] at hsub
    cases hsub
  rw [concat_eq_append] at hcat
  have hstill := h a.workId init last hcat
  rw [hcat] at hsub
  have hpairs : (init ++ [last]).Pairwise fun x _ => moves (live a.workId db) x = false := by
    refine pairwise_append.mpr ⟨?_, pairwise_singleton _ _, fun x hx _ _ => hstill x hx⟩
    exact pairwise_of_forall_mem_list fun x hx _ _ => hstill x hx
  exact pairwise_iff_forall_sublist.mp hpairs hsub

variable {workId : Uuid} {init : List CommandOperation} {last : CommandOperation}

omit [DecidableEq Digest] in
theorem LastWord.still (h : LastWord command db)
    (hops : command.operations.filter (·.workId = workId) = init ++ [last]) :
    ∀ op ∈ init, moves (live workId db) op = false := by
  intro op hop
  have hid : ∀ o ∈ init ++ [last], o.workId = workId := by
    intro o ho
    rw [← hops] at ho
    simpa using (mem_filter.mp ho).2
  have hpair := h.filter (·.workId = workId)
  rw [hops, pairwise_append] at hpair
  have hlast := hid last (by simp)
  have hthis := hid op (mem_append_left _ hop)
  rw [← hthis]
  exact hpair.2.2 op hop last (by simp) (hthis.trans hlast.symm)

/-- What a command that is executed does to the ledger and to the rows. -/
theorem command_recorded (hruns : Executed command db)
    (hok : executeGitlleryCommand casefold commandHash command actorId false inp db =
      .ok (db', response)) :
    Recorded db inp (commandRows casefold inp command db) db' ∧ (Keyed db → Keyed db') ∧
      ∀ workId, live workId db' = (command.operations.filter (·.workId = workId)).foldl
        (effect (live workId db)) (live workId db) := by
  obtain ⟨draft, hkey, -, heq⟩ := @executeGitlleryCommand_runs Digest casefold command _ commandHash db
    hruns actorId inp
  obtain ⟨hid, hstamps, -⟩ := @createCommit_new Digest db inp draft (by
    intro key hsome
    rw [hkey] at hsome
    cases hsome
    exact hruns.1)
  have hsame := createCommit_sameRows inp draft db
  have hplans := @planCommand_plans Digest casefold command db hruns.2.2
  obtain ⟨hchanges, hcommits, hkeyed⟩ := @applyPlans_frame Digest casefold inp inp.commitId db
    (planCommand casefold command db).plans 0 (createCommit inp draft db).1
  rw [hok, hid] at heq
  cases heq
  refine ⟨⟨?_, ?_, ?_⟩, fun h => ?_, fun workId => ?_⟩
  · exact hchanges.trans (congrArg (· ++ _) hsame.changes)
  · refine (stamps_setStats _ _ _).trans (Eq.trans ?_ hstamps)
    unfold stamps
    rw [hcommits]
  · intro row hrow
    obtain ⟨plan, -, n, -, rfl⟩ := mem_planRows hrow
    rfl
  · have hplanned := hkeyed (hsame.keyed h)
    exact ⟨hplanned.works, hplanned.workStates⟩
  · refine (applyPlans_live hplans 0 _ workId).trans ?_
    rw [hsame.live]

omit [DecidableEq Digest] in
/-- What the changes of a command tell of a work it has operations on. -/
theorem commandRows_told (hruns : Executed command db)
    (hops : command.operations.filter (·.workId = workId) = init ++ [last]) (said : Replayed) :
    replayRows workId said (commandRows casefold inp command db) =
      ⟨some (told (live workId db) last).1, (told (live workId db) last).2⟩ := by
  unfold commandRows
  rw [planRows_told (planCommand_plans hruns.2.2) 0 workId said, hops, foldl_append]
  rfl

section

variable (haccepted : Accepted casefold command) (hruns : Executed command db)
  (hok : executeGitlleryCommand casefold commandHash command actorId false inp db = .ok (db', response))
include haccepted hruns hok

theorem command_written (hlast : LastWord command db) (hkeyed : Keyed db) :
    Written db inp (commandRows casefold inp command db) db' := by
  obtain ⟨hrecorded, hkeys, hlive⟩ := command_recorded hruns hok
  have hplans := @planCommand_plans Digest casefold command db hruns.2.2
  refine { toRecorded := hrecorded, keyed := hkeys hkeyed, row := ?_, sorted := ?_, single := ?_,
           grounded := ?_, kept := ?_ }
  · intro row hrow
    obtain ⟨plan, -, n, -, rfl⟩ := mem_planRows hrow
    refine ⟨rfl, ?_⟩
    change planAction plan ≠ .creatorArchived
    unfold planAction
    split
    · cases plan.operation.action <;> simp
    · simp
  · exact fun workId => (planRows_sorted _ _).filter _
  · unfold commandRows
    rw [planRows_moving hplans, Nodup, pairwise_map]
    refine (hlast.filter _).imp_of_mem fun {a b} ha _ hab hid => ?_
    have hmoves := (mem_filter.mp ha).2
    rw [hab hid] at hmoves
    cases hmoves
  · exact fun row hrow => .inl (planRows_whole hplans hrow)
  · intro workId said hsaid
    rw [hlive]
    rcases eq_nil_or_concat (command.operations.filter (·.workId = workId)) with
      hnil | ⟨init, last, hcat⟩
    · unfold commandRows
      rw [planRows_told hplans, hnil]
      exact hsaid
    rw [concat_eq_append] at hcat
    have hfamilies := haccepted.families workId
    rw [hcat] at hfamilies
    rw [commandRows_told hruns hcat, hcat,
      (lastWord_iff init last hfamilies).mpr (hlast.still hcat)]
    exact ⟨rfl, rfl⟩

/-- A command after which the ledger replays to the rows has not gone on after moving a
work. -/
theorem command_lastWord (hinv : LedgerInvariant db) (hfresh : inp.Fresh db) (hagrees : Agrees db') :
    LastWord command db := by
  obtain ⟨hrecorded, -, hlive⟩ := command_recorded hruns hok
  have hplans := @planCommand_plans Digest casefold command db hruns.2.2
  refine lastWord_of_works fun workId init last hops => ?_
  have hfamilies := haccepted.families workId
  rw [hops] at hfamilies
  have hsaid := @commandRows_told Digest casefold command inp db _ _ _ hruns hops (replay workId db)
  have hreplay := replay_recorded hrecorded hfresh hinv.stamped workId
    ((planRows_sorted _ _).filter _)
  have htouched : Touched workId db' := by
    have hlast : last ∈ command.operations.filter (·.workId = workId) := by
      rw [hops]
      simp
    obtain ⟨hmem, hid⟩ := mem_filter.mp hlast
    obtain ⟨row, hrow, habout⟩ := planRows_about hplans 0 hmem
    refine ⟨row, ?_, of_decide_eq_true hid ▸ habout⟩
    rw [hrecorded.changes]
    exact mem_append_right _ hrow
  obtain ⟨hvisibility, hfavorite⟩ := hagrees workId htouched
  rw [hreplay, hsaid, hlive, hops] at hvisibility hfavorite
  refine (lastWord_iff init last hfamilies).mp (Prod.ext ?_ hfavorite.symm)
  exact (Option.some.inj hvisibility).symm

end

end Commands

section Run

/-- The operations of the service that write to the ledger of works. -/
inductive Operation where
  | trash (workIds : List Uuid) (reason message : Option Text)
  | restore (workIds : List Uuid) (reason message : Option Text)
  | favorite (workId : Uuid)
  | command (command : CommandRequest) (actorId : Option Text) (dryRun : Bool)
  | revert (commitId : Uuid)

/-- An operation, and what it takes from outside. -/
structure Step where
  operation : Operation
  inputs : Inputs

/-- An operation that fails is rolled back. -/
def settled {α : Type} (db : Database Digest) :
    Except HttpException (Database Digest × α) → Database Digest
  | .ok result => result.1
  | .error _ => db

variable [DecidableEq Digest] (casefold : Text → Text) (commandHash : CommandRequest → Digest)

section

variable (db : Database Digest)

def perform (step : Step) : Database Digest :=
  match step.operation with
  | .trash workIds reason message => settled db (trashWorks workIds reason message step.inputs db)
  | .restore workIds reason message =>
    settled db (restoreWorks workIds reason message step.inputs db)
  | .favorite workId => settled db (toggleWorkFavorite workId step.inputs db)
  | .command command actorId dryRun =>
    settled db
      (executeGitlleryCommand casefold commandHash command actorId dryRun step.inputs db)
  | .revert commitId => settled db (revertCommit commitId step.inputs db)

/-- The commit of the step, if it makes one, is the last in the ledger, and a command is
one that the request schema accepts. -/
def Step.Valid (step : Step) : Prop :=
  step.inputs.Fresh db ∧
    match step.operation with
    | .command command _ _ => Accepted casefold command
    | _ => True

/-- A command that is executed does not move a work and then go on with it. -/
def Step.LastWord (step : Step) : Prop :=
  match step.operation with
  | .command command _ dryRun => dryRun = false → Executed command db → Curation.LastWord command db
  | _ => True

/-- Any works with any states, and nothing in the ledger. -/
structure Start : Prop where
  keyed : Keyed db
  commits : db.commits = []
  changes : db.changes = []

end

variable {casefold commandHash} {db : Database Digest} {step : Step}

section

omit [DecidableEq Digest]

theorem Start.invariant (h : Start db) : LedgerInvariant db where
  keyed := h.keyed
  stamped := by simp [Stamped, h.changes]
  work := by simp [h.changes]
  single := by simp [h.changes]
  agrees := by
    rintro workId ⟨change, hchange, -⟩
    rw [h.changes] at hchange
    cases hchange

/-- An operation that writes, or fails, keeps the invariant. -/
theorem settled_invariant {α : Type} {inp : Inputs} (hinv : LedgerInvariant db)
    (hfresh : inp.Fresh db) {outcome : Except HttpException (Database Digest × α)}
    (hwritten : ∀ db' result, outcome = .ok (db', result) → ∃ rows, Written db inp rows db') :
    LedgerInvariant (settled db outcome) := by
  cases houtcome : outcome with
  | error e => exact hinv
  | ok result =>
    obtain ⟨rows, hrows⟩ := hwritten result.1 result.2 houtcome
    exact hrows.invariant hfresh hinv

end

theorem perform_invariant (hinv : LedgerInvariant db) (hvalid : step.Valid casefold db)
    (hlast : step.LastWord db) : LedgerInvariant (perform casefold commandHash db step) := by
  obtain ⟨operation, inp⟩ := step
  obtain ⟨hfresh, haccepted⟩ := hvalid
  cases operation with
  | trash workIds reason message =>
    exact settled_invariant hinv hfresh fun db' id hok =>
      moveWorks_written (by simp [trashMove]) hinv.keyed hok
  | restore workIds reason message =>
    exact settled_invariant hinv hfresh fun db' id hok =>
      moveWorks_written (by simp [restoreMove]) hinv.keyed hok
  | favorite workId =>
    exact settled_invariant hinv hfresh fun db' id hok =>
      toggleWorkFavorite_written hinv.keyed hok
  | revert commitId =>
    exact settled_invariant hinv hfresh fun db' id hok => revertCommit_written hinv hok
  | command command actorId dryRun =>
    change LedgerInvariant (settled db
      (executeGitlleryCommand casefold commandHash command actorId dryRun inp db))
    by_cases hruns : Executed command db ∧ dryRun = false
    · obtain ⟨hruns, rfl⟩ := hruns
      exact settled_invariant hinv hfresh fun db' response hok =>
        ⟨_, command_written haccepted hruns hok (hlast rfl hruns) hinv.keyed⟩
    cases hok : executeGitlleryCommand casefold commandHash command actorId dryRun inp db with
    | error e => exact hinv
    | ok result =>
      have hrests : ¬ Executed command db ∨ dryRun = true := by
        rw [not_and_or, Bool.not_eq_false] at hruns
        exact hruns
      have hsame := executeGitlleryCommand_rests hok hrests
      change LedgerInvariant result.1
      rw [hsame]
      exact hinv

/-- A step after which the ledger replays to the rows has left the last word to the
truth. -/
theorem perform_lastWord (hinv : LedgerInvariant db) (hvalid : step.Valid casefold db)
    (hagrees : Agrees (perform casefold commandHash db step)) : step.LastWord db := by
  obtain ⟨operation, inp⟩ := step
  obtain ⟨hfresh, haccepted⟩ := hvalid
  cases operation with
  | trash | restore | favorite | revert => trivial
  | command command actorId dryRun =>
    rintro rfl hruns
    obtain ⟨draft, -, -, hok⟩ := @executeGitlleryCommand_runs Digest casefold command _ commandHash db
      hruns actorId inp
    refine command_lastWord haccepted hruns hok hinv hfresh ?_
    change Agrees (settled db _) at hagrees
    rw [hok] at hagrees
    exact hagrees

/-- One visible work that is no favourite. -/
def oneWork {Digest : Type} : Database Digest where
  works := [⟨1, none, none, none, false, false, false, none⟩]
  workStates := []
  creators := []
  creatorStates := []
  tags := []
  workTags := []
  commits := []
  changes := []
  projectionIntents := []
  searchRequests := []

/-- A command with the operations on work 1. -/
def commandOn (operations : List CommandOperation) : CommandRequest :=
  ⟨"m".toList, none, none, 0, operations⟩

def trashOne : CommandOperation := ⟨1, .trash, none, none, none⟩

def favoriteOne : CommandOperation := ⟨1, .favorite, some true, none, none⟩

/-- The first operation of a ledger. -/
def firstStep (operation : Operation) : Step := ⟨operation, ⟨1, 1, 1, id, id⟩⟩

theorem start_oneWork {Digest : Type} : Start (oneWork : Database Digest) :=
  ⟨⟨by simp [oneWork], by simp [oneWork]⟩, rfl, rfl⟩

theorem fresh_firstStep {Digest : Type} (operation : Operation) :
    (firstStep operation).inputs.Fresh (oneWork : Database Digest) :=
  ⟨by simp [stamps, oneWork], by simp [stamps, oneWork]⟩

theorem accepted_commandOn : Accepted id (commandOn [trashOne, favoriteOne]) :=
  ⟨by decide, by decide, by decide⟩

/-- The work is trashed and marked by one command.  The ledger says it is visible. -/
theorem ledger_hides_trash :
    Start (oneWork : Database Unit) ∧
      (firstStep (.command (commandOn [trashOne, favoriteOne]) none false)).Valid id
        (oneWork : Database Unit) ∧
      replay 1 (perform id (fun _ => ()) oneWork
        (firstStep (.command (commandOn [trashOne, favoriteOne]) none false))) =
          ⟨some .visible, some true⟩ ∧
      live 1 (perform id (fun _ => ()) oneWork
        (firstStep (.command (commandOn [trashOne, favoriteOne]) none false))) =
          (.trashed, some true) :=
  ⟨start_oneWork, ⟨fresh_firstStep _, accepted_commandOn⟩, by decide, by decide⟩

/-- **The ledger replays to the rows** in every state of a run just if no command of the
run moves a work and then goes on with another operation on it. -/
theorem ledger_replays_iff {steps : List Step} (hstart : Start db)
    (hvalid : Runs.AllSteps (perform casefold commandHash) (Step.Valid casefold) db steps) :
    Runs.Throughout (perform casefold commandHash) Agrees db steps ↔
      Runs.AllSteps (perform casefold commandHash) Step.LastWord db steps :=
  Runs.throughout_iff_allSteps (fun _ hinv => hinv.agrees)
    (fun _ _ hinv hvalid hlast => perform_invariant hinv hvalid hlast)
    (fun _ _ hinv hvalid hagrees => perform_lastWord hinv hvalid hagrees) hstart.invariant hvalid

/-- The same two operations in one command are no run on which the ledger replays to the
rows; trashing alone is one. -/
theorem ledger_replays_oneWork :
    Runs.Throughout (perform id fun _ => ()) Agrees oneWork [firstStep (.trash [1] none none)] ∧
      ¬ Runs.Throughout (perform id fun _ => ()) Agrees oneWork
        [firstStep (.command (commandOn [trashOne, favoriteOne]) none false)] := by
  have htrash : Runs.AllSteps (perform id fun _ => ()) (Step.Valid id) oneWork
      [firstStep (.trash [1] none none)] := ⟨⟨fresh_firstStep _, trivial⟩, trivial⟩
  have hboth : Runs.AllSteps (perform id fun _ => ()) (Step.Valid id) oneWork
      [firstStep (.command (commandOn [trashOne, favoriteOne]) none false)] :=
    ⟨⟨fresh_firstStep _, accepted_commandOn⟩, trivial⟩
  constructor
  · exact (ledger_replays_iff start_oneWork htrash).mpr ⟨trivial, trivial⟩
  rw [ledger_replays_iff start_oneWork hboth]
  rintro ⟨hlast, -⟩
  have hpairs := hlast rfl ⟨rfl, rfl, by simp [commandOn, trashOne, favoriteOne, getWork, oneWork]⟩
  have hstill := rel_of_pairwise_cons hpairs (mem_singleton.mpr rfl) rfl
  revert hstill
  decide

end Run

end Curation
