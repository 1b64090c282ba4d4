import AutoGallery.CurationLedger

/-!
# Commands

What `execute_gitllery_command` does to the rows of each work, and what its changes tell
of them.  The two part ways: the operations of a command take effect one after the
other, but every snapshot shows the rows from before the command, changed by its own
operation only.  So the last operation on a work has the last word in the ledger, and it
speaks the truth just if no operation before it has moved the work (`lastWord_iff`).
-/

namespace Curation

open PyText List CommandAction
open WorkDatabase (Visibility)

variable {Digest : Type}

variable {casefold : Text → Text} {op : CommandOperation} {ops : List CommandOperation}
  {command : CommandRequest} {inp : Inputs}

section Moving

/-- Whether an operation changes the visibility or the favourite mark of a work that has
these. -/
def moves (shown : Visibility × Option Bool) (op : CommandOperation) : Bool :=
  match op.action with
  | .trash => shown.1 ≠ .trashed ∧ shown.1 ≠ .purged
  | .restore => shown.1 = .trashed
  | .favorite => shown.2 = some (!op.value.getD false)
  | .tagAdd | .tagRemove => false

/-- What an operation that moves a work makes of it. -/
def moved (op : CommandOperation) (shown : Visibility × Option Bool) : Visibility × Option Bool :=
  match op.action with
  | .trash => (.trashed, shown.2)
  | .restore => (.visible, shown.2)
  | .favorite => (shown.1, shown.2.map fun _ => op.value.getD false)
  | .tagAdd | .tagRemove => shown

/-- What an operation makes of a work, decided by how the work was at first. -/
def effect (first : Visibility × Option Bool) (shown : Visibility × Option Bool)
    (op : CommandOperation) : Visibility × Option Bool :=
  if moves first op then moved op shown else shown

/-- What is told by an operation: its own effect on the work as it was at first. -/
def told (first : Visibility × Option Bool) (op : CommandOperation) : Visibility × Option Bool :=
  effect first first op

/-- The part of what is shown that belongs to a family of operations. -/
def aspect (family : Family) (shown : Visibility × Option Bool) : Visibility ⊕ Option Bool :=
  match family with
  | .visibility => .inl shown.1
  | .favorite => .inr shown.2
  | .tag _ => .inr none

variable {family : Family} {first shown : Visibility × Option Bool}

/-- An operation leaves alone what belongs to other families. -/
theorem aspect_effect_of_ne (h : familyOf casefold op ≠ family) :
    aspect family (effect first shown op) = aspect family shown := by
  unfold effect
  split
  · unfold moved
    cases haction : op.action <;> cases family <;> simp_all [aspect, familyOf]
  · rfl

/-- An operation that moves a work changes what belongs to its family. -/
theorem aspect_effect_of_moves (hmoves : moves first op = true)
    (hsame : aspect (familyOf casefold op) shown = aspect (familyOf casefold op) first) :
    aspect (familyOf casefold op) (effect first shown op) ≠ aspect (familyOf casefold op) first := by
  unfold effect
  rw [if_pos hmoves]
  unfold moves at hmoves
  unfold familyOf at hsame ⊢
  unfold moved
  cases haction : op.action <;> simp_all [aspect]
  exact fun h => hmoves.1 h.symm

theorem aspect_foldl_effect (ops : List CommandOperation)
    (h : ∀ op ∈ ops, familyOf casefold op ≠ family) (shown : Visibility × Option Bool) :
    aspect family (ops.foldl (effect first) shown) = aspect family shown := by
  induction ops generalizing shown with
  | nil => rfl
  | cons op rest ih =>
    rw [foldl_cons, ih fun o ho => h o (mem_cons_of_mem _ ho),
      aspect_effect_of_ne (h op mem_cons_self)]

theorem foldl_effect_of_still (ops : List CommandOperation) (h : ∀ op ∈ ops, moves first op = false)
    (shown : Visibility × Option Bool) : ops.foldl (effect first) shown = shown := by
  induction ops generalizing shown with
  | nil => rfl
  | cons op rest ih =>
    have hop : effect first shown op = shown := by
      unfold effect
      rw [h op mem_cons_self]
      rfl
    rw [foldl_cons, hop, ih fun o ho => h o (mem_cons_of_mem _ ho)]

/-- **The last word.**  Operations of different families on one work: the last one tells
what they all have made of it just if none before it has moved the work. -/
theorem lastWord_iff (ops : List CommandOperation) (last : CommandOperation)
    (hfamilies : (ops ++ [last]).Pairwise fun a b => familyOf casefold a ≠ familyOf casefold b) :
    (ops ++ [last]).foldl (effect first) first = told first last ↔
      ∀ op ∈ ops, moves first op = false := by
  rw [foldl_append]
  constructor
  · intro heq op hop
    by_contra hmoves
    rw [Bool.not_eq_false] at hmoves
    obtain ⟨before, after, rfl⟩ := append_of_mem hop
    rw [append_assoc, cons_append, pairwise_append, pairwise_cons] at hfamilies
    obtain ⟨-, ⟨hafter, -⟩, hbefore⟩ := hfamilies
    -- everything else leaves alone what belongs to the family of this operation
    have hmoved : aspect (familyOf casefold op)
        ((before ++ op :: after).foldl (effect first) first) ≠
          aspect (familyOf casefold op) first := by
      rw [foldl_append, foldl_cons, aspect_foldl_effect after fun o ho =>
        (hafter o (mem_append_left _ ho)).symm]
      exact aspect_effect_of_moves hmoves
        (aspect_foldl_effect before (fun o ho => hbefore o ho op mem_cons_self) first)
    have hlast : familyOf casefold last ≠ familyOf casefold op :=
      (hafter last (by simp)).symm
    have haspect := congrArg (aspect (familyOf casefold op)) heq
    rw [foldl_cons, foldl_nil, aspect_effect_of_ne hlast, told,
      aspect_effect_of_ne hlast] at haspect
    exact hmoved haspect
  · intro hstill
    rw [foldl_effect_of_still ops hstill]
    rfl

end Moving

section Schema

/-- The loop finds every pair of operations about the same. -/
theorem checkConflicts_iff {seen : List (Uuid × Family)} :
    checkConflicts casefold seen ops = .ok () ↔
      (∀ op ∈ ops, (op.workId, familyOf casefold op) ∉ seen) ∧
        ops.Pairwise fun a b => (a.workId, familyOf casefold a) ≠ (b.workId, familyOf casefold b) := by
  induction ops generalizing seen with
  | nil => simp [checkConflicts]
  | cons op rest ih =>
    unfold checkConflicts
    dsimp only
    split
    next hold => simp [hold]
    next hnew =>
      rw [ih, pairwise_cons]
      simp only [mem_cons, not_or, forall_eq_or_imp]
      exact ⟨fun h => ⟨⟨hnew, fun o ho => (h.1 o ho).2⟩, fun o ho => Ne.symm (h.1 o ho).1, h.2⟩,
        fun h => ⟨fun o ho => ⟨Ne.symm (h.2.1 o ho), h.1.2 o ho⟩, h.2.2⟩⟩

/-- The operations of an accepted command on one work are of different families. -/
theorem Accepted.families (h : Accepted casefold command) (workId : Uuid) :
    (command.operations.filter (·.workId = workId)).Pairwise
      fun a b => familyOf casefold a ≠ familyOf casefold b := by
  have hconflicts : checkConflicts casefold [] command.operations = .ok () := by
    have hvalid := h.2.2
    unfold validateWorkLimitAndConflicts at hvalid
    split at hvalid
    · cases hvalid
    · exact hvalid
  refine ((checkConflicts_iff.mp hconflicts).2.filter _).imp_of_mem fun {a b} ha hb hab => ?_
  have hida : a.workId = workId := by simpa using (mem_filter.mp ha).2
  have hidb : b.workId = workId := by simpa using (mem_filter.mp hb).2
  intro hfamily
  exact hab (by rw [hida, hidb, hfamily])

end Schema

section Planning

variable {db : Database Digest}

/-- The plan of an operation. -/
structure PlanOf (db : Database Digest) (op : CommandOperation) (plan : Plan) : Prop where
  operation : plan.operation = op
  willChange : op.action.onTag = false → plan.willChange = moves (live op.workId db) op
  visibility : plan.after.visibility = some (told (live op.workId db) op).1
  favorite : plan.after.isFavorite = (told (live op.workId db) op).2
  whole : plan.after.isFavorite ≠ none

variable {work : Work}

theorem live_of_getWork {workId : Uuid} (h : getWork workId db = some work) :
    live workId db = (visibilityOf (workState workId db), some work.isFavorite) := by
  unfold live
  rw [h]
  rfl

/-- The body of the planning loop appends the plan of its operation. -/
theorem planOperation_plans (casefold : Text → Text) (command : CommandRequest)
    (hwork : getWork op.workId db = some work) (acc : Planning) :
    ∃ plan, PlanOf db op plan ∧
      (planOperation casefold command work (workState op.workId db) acc op).plans =
        acc.plans ++ [plan] := by
  have hlive := live_of_getWork hwork
  unfold planOperation
  cases haction : op.action with
  | trash | restore =>
    dsimp only
    split
    · refine ⟨_, ⟨rfl, ?_, ?_, ?_, ?_⟩, rfl⟩ <;>
        grind [moves, told, effect, workSnapshot, onTag]
    · refine ⟨_, ⟨rfl, ?_, ?_, ?_, ?_⟩, rfl⟩ <;>
        grind [moves, moved, told, effect, workSnapshot, onTag]
  | favorite =>
    dsimp only
    split
    · refine ⟨_, ⟨rfl, ?_, ?_, ?_, ?_⟩, rfl⟩ <;>
        grind [moves, told, effect, workSnapshot, onTag]
    next hmoves =>
      have hvalue : work.isFavorite = !op.value.getD false := Bool.eq_not.mpr hmoves
      refine ⟨_, ⟨rfl, ?_, ?_, ?_, ?_⟩, rfl⟩ <;>
        grind [moves, moved, told, effect, workSnapshot, onTag]
  | tagAdd | tagRemove =>
    dsimp only
    split <;>
      refine ⟨_, ⟨rfl, ?_, ?_, ?_, ?_⟩, rfl⟩ <;>
        simp [moves, told, effect, workSnapshot, onTag, haction, hlive]

/-- The planning loop makes the plan of each operation. -/
theorem planCommand_plans (hworks : ∀ op ∈ command.operations, (getWork op.workId db).isSome) :
    List.Forall₂ (PlanOf db) command.operations (planCommand casefold command db).plans := by
  have hloop : ∀ (ops : List CommandOperation) (acc : Planning),
      (∀ op ∈ ops, (getWork op.workId db).isSome) →
      ∃ plans, Forall₂ (PlanOf db) ops plans ∧
        (ops.foldl (fun acc op => (getWork op.workId db).elim acc fun work =>
          planOperation casefold command work (workState op.workId db) acc op) acc).plans =
            acc.plans ++ plans := by
    intro ops
    induction ops with
    | nil => exact fun acc _ => ⟨[], .nil, (append_nil _).symm⟩
    | cons op rest ih =>
      intro acc hops
      obtain ⟨work, hwork⟩ := Option.isSome_iff_exists.mp (hops op mem_cons_self)
      obtain ⟨plan, hplan, heq⟩ := planOperation_plans casefold command hwork acc
      rw [foldl_cons, hwork, Option.elim_some]
      obtain ⟨plans, hplans, hrest⟩ := ih _ fun o ho => hops o (mem_cons_of_mem _ ho)
      exact ⟨plan :: plans, .cons hplan hplans, by rw [hrest, heq, append_assoc]; rfl⟩
  obtain ⟨plans, hplans, heq⟩ := hloop command.operations
    ⟨fun workId => tagNames workId db, [], 0⟩ hworks
  have hall : (planCommand casefold command db).plans = plans := by
    unfold planCommand
    rw [heq, nil_append]
  rw [hall]
  exact hplans

end Planning

section Applying

variable {commitId : Uuid} {before db : Database Digest}

variable {plan : Plan} {plans : List Plan} {sequence : Nat} {row : Change}

/-- Plans about tags leave works and their states alone. -/
theorem applyPlan_tag (htag : plan.operation.action.onTag = true) (sequence : Nat) :
    (applyPlan casefold inp commitId before sequence plan db).works = db.works ∧
      (applyPlan casefold inp commitId before sequence plan db).workStates = db.workStates := by
  unfold applyPlan
  dsimp only
  split
  · exact ⟨rfl, rfl⟩
  cases haction : plan.operation.action with
  | trash | restore | favorite => simp [onTag, haction] at htag
  | tagAdd =>
    dsimp only [upsertTag, insertWorkTag]
    split <;> split <;> exact ⟨rfl, rfl⟩
  | tagRemove =>
    dsimp only
    split <;> exact ⟨rfl, rfl⟩

/-- The other plans mark the work, if they will change anything. -/
theorem applyPlan_move (htag : plan.operation.action.onTag = false)
    (hchange : plan.willChange = true) (sequence : Nat) :
    applyPlan casefold inp commitId before sequence plan db =
      if plan.operation.action = .favorite then
        setFavorite plan.operation.workId (plan.operation.value.getD false) db
      else updateWorkState plan.operation.workId
        (markState inp.now commitId (plan.after.visibility.getD .visible) plan.after.reason.join)
        (ensureWorkState plan.operation.workId db).1 := by
  unfold applyPlan
  rw [hchange]
  cases haction : plan.operation.action with
  | trash | restore | favorite => simp
  | tagAdd | tagRemove => simp [onTag, haction] at htag

/-- What a plan does to the rows of works. -/
theorem applyPlan_live (hplan : PlanOf before op plan) (sequence : Nat) (workId : Uuid) :
    live workId (applyPlan casefold inp commitId before sequence plan db) =
      if op.workId = workId then effect (live workId before) (live workId db) op
      else live workId db := by
  have hop := hplan.operation
  by_cases htag : op.action.onTag = true
  · have hstill : effect (live workId before) (live workId db) op = live workId db := by
      unfold effect moves
      cases haction : op.action <;> simp_all [onTag]
    obtain ⟨hworks, hstates⟩ := @applyPlan_tag Digest casefold inp commitId before db plan
      (hop ▸ htag) sequence
    rw [hstill, ite_self]
    unfold live getWork workState
    rw [hworks, hstates]
  · rw [Bool.not_eq_true] at htag
    have hchange := hplan.willChange htag
    by_cases hmoves : moves (live op.workId before) op = true
    · have hvisibility := hplan.visibility
      rw [told, effect, if_pos hmoves] at hvisibility
      rw [applyPlan_move (hop ▸ htag) (hchange.trans hmoves), hop]
      have heffect : op.workId = workId →
          effect (live workId before) (live workId db) op = moved op (live workId db) := by
        rintro rfl
        rw [effect, if_pos hmoves]
      split
      next haction =>
        rw [live_setFavorite]
        split
        · rename_i hid
          rw [if_pos hid.symm, heffect hid.symm]
          simp [moved, haction]
        · rename_i hid
          rw [if_neg fun h => hid h.symm]
      next haction =>
        rw [live_updateWorkState _ _ fun s hs => by rw [markState_workId, hs], live_ensureWorkState]
        split
        · rename_i hid
          subst hid
          rw [if_pos rfl, heffect rfl, (ensureWorkState_spec db op.workId).1, hvisibility]
          cases hcase : op.action <;> simp_all [moved, visibilityOf, onTag]
        · rename_i hid
          rw [if_neg fun h => hid h.symm]
    · rw [Bool.not_eq_true] at hmoves
      have hsame : applyPlan casefold inp commitId before sequence plan db = db := by
        unfold applyPlan
        rw [hchange, hmoves]
        rfl
      rw [hsame]
      split
      next hid =>
        rw [effect, ← hid, hmoves]
        rfl
      · rfl

/-- A plan writes no commits or changes, and keeps the keys. -/
theorem applyPlan_frame (sequence : Nat) (plan : Plan) :
    (applyPlan casefold inp commitId before sequence plan db).changes = db.changes ∧
      (applyPlan casefold inp commitId before sequence plan db).commits = db.commits ∧
      (Keyed db → Keyed (applyPlan casefold inp commitId before sequence plan db)) := by
  unfold applyPlan
  dsimp only
  split
  · exact ⟨rfl, rfl, id⟩
  cases plan.operation.action with
  | trash | restore =>
    refine ⟨by simp [updateWorkState], by simp [updateWorkState], fun hkeyed => ?_⟩
    exact keyed_updateWorkState _ _ (fun s hs => by rw [markState_workId, hs])
      (keyed_ensureWorkState db _ hkeyed)
  | favorite => exact ⟨rfl, rfl, keyed_setFavorite db _ _⟩
  | tagAdd =>
    dsimp only [upsertTag, insertWorkTag]
    split <;> split <;> exact ⟨rfl, rfl, fun h => ⟨h.works, h.workStates⟩⟩
  | tagRemove =>
    dsimp only
    split
    · exact ⟨rfl, rfl, id⟩
    · exact ⟨rfl, rfl, fun h => ⟨h.works, h.workStates⟩⟩

/-- The changes of the plans, numbered from `sequence` on. -/
def planRows (inp : Inputs) (commitId : Uuid) : Nat → List Plan → List Change
  | _, [] => []
  | sequence, plan :: rest =>
    planChange inp commitId sequence plan :: planRows inp commitId (sequence + 1) rest

/-- The loop that applies the plans writes their changes and nothing else to the
ledger. -/
theorem applyPlans_frame (plans : List Plan) (sequence : Nat) (db : Database Digest) :
    (applyPlans casefold inp commitId before sequence plans db).changes =
        db.changes ++ planRows inp commitId sequence plans ∧
      (applyPlans casefold inp commitId before sequence plans db).commits = db.commits ∧
      (Keyed db → Keyed (applyPlans casefold inp commitId before sequence plans db)) := by
  induction plans generalizing sequence db with
  | nil => exact ⟨(append_nil _).symm, rfl, id⟩
  | cons plan rest ih =>
    obtain ⟨hchanges, hcommits, hkeyed⟩ := @applyPlan_frame Digest casefold inp commitId before db
      sequence plan
    obtain ⟨hchanges', hcommits', hkeyed'⟩ := ih (sequence + 1)
      (addChange (planChange inp commitId sequence plan)
        (applyPlan casefold inp commitId before sequence plan db))
    refine ⟨?_, hcommits'.trans hcommits, fun h => hkeyed' ?_⟩
    · rw [applyPlans, hchanges', addChange, hchanges, append_assoc]
      rfl
    · exact ⟨(hkeyed h).works, (hkeyed h).workStates⟩

/-- The operations on a work take effect one after the other. -/
theorem applyPlans_live (hplans : List.Forall₂ (PlanOf before) ops plans) (sequence : Nat)
    (db : Database Digest) (workId : Uuid) :
    live workId (applyPlans casefold inp commitId before sequence plans db) =
      (ops.filter (·.workId = workId)).foldl (effect (live workId before)) (live workId db) := by
  induction hplans generalizing sequence db with
  | nil => rfl
  | @cons op plan ops plans hplan hrest ih =>
    rw [applyPlans, ih]
    have hone : live workId (addChange (planChange inp commitId sequence plan)
        (applyPlan casefold inp commitId before sequence plan db)) = _ :=
      applyPlan_live hplan sequence workId
    rw [hone]
    by_cases hid : op.workId = workId
    · simp [hid]
    · simp [hid]

/-- The last operation on a work has the last word. -/
theorem planRows_told (hplans : List.Forall₂ (PlanOf before) ops plans) (sequence : Nat)
    (workId : Uuid) (said : Replayed) :
    replayRows workId said (planRows inp commitId sequence plans) =
      (ops.filter (·.workId = workId)).foldl
        (fun _ op => ⟨some (told (live workId before) op).1, (told (live workId before) op).2⟩) said := by
  induction hplans generalizing sequence said with
  | nil => rfl
  | @cons op plan ops plans hplan hrest ih =>
    have hsplit : planRows inp commitId sequence (plan :: plans) =
        [planChange inp commitId sequence plan] ++ planRows inp commitId (sequence + 1) plans := rfl
    rw [hsplit, replayRows_append, ih]
    by_cases hid : op.workId = workId
    · have habout : about workId (planChange inp commitId sequence plan) = true := by
        simp [about, planChange, hplan.operation, hid]
      obtain ⟨favorite, hfavorite⟩ := Option.ne_none_iff_exists'.mp hplan.whole
      have hone : said.apply (planChange inp commitId sequence plan) =
          ⟨some (told (live workId before) op).1, (told (live workId before) op).2⟩ := by
        have hvisibility := hplan.visibility
        have hmark := hplan.favorite
        rw [hid] at hvisibility hmark
        rw [hfavorite] at hmark
        simp [Replayed.apply, planChange, hvisibility, hfavorite, ← hmark]
      simp [replayRows, habout, hone, hid]
    · have habout : about workId (planChange inp commitId sequence plan) = false := by
        simp [about, planChange, hplan.operation, hid]
      simp [replayRows, habout, hid]

theorem mem_planRows (h : row ∈ planRows inp commitId sequence plans) :
    ∃ plan ∈ plans, ∃ n, sequence ≤ n ∧ row = planChange inp commitId n plan := by
  induction plans generalizing sequence with
  | nil => cases h
  | cons plan rest ih =>
    rcases mem_cons.mp h with rfl | hrest
    · exact ⟨plan, mem_cons_self, sequence, le_rfl, rfl⟩
    · obtain ⟨other, hother, n, hn, heq⟩ := ih hrest
      exact ⟨other, mem_cons_of_mem _ hother, n, by omega, heq⟩

/-- The changes of a command come in the order of its operations. -/
theorem planRows_sorted (plans : List Plan) (sequence : Nat) :
    (planRows inp commitId sequence plans).Pairwise fun a b => changePlace a ≤ changePlace b := by
  induction plans generalizing sequence with
  | nil => exact Pairwise.nil
  | cons plan rest ih =>
    refine pairwise_cons.mpr ⟨?_, ih (sequence + 1)⟩
    intro row hrow
    obtain ⟨other, -, n, hn, rfl⟩ := mem_planRows hrow
    refine (Prod.Lex.toLex_lt_toLex.mpr (.inl ?_)).le
    change ((sequence : Nat) : WithTop Nat) < (n : WithTop Nat)
    exact WithTop.coe_lt_coe.mpr hn

/-- The changes of a command are whole. -/
theorem planRows_whole (hplans : List.Forall₂ (PlanOf before) ops plans)
    (hrow : row ∈ planRows inp commitId sequence plans) : Whole row := by
  induction hplans generalizing sequence with
  | nil => cases hrow
  | @cons op plan ops plans hplan hrest ih =>
    rcases mem_cons.mp hrow with rfl | hmem
    · exact ⟨plan.after, rfl, by simp [hplan.visibility], hplan.whole⟩
    · exact ih hmem

/-- There is a change for every operation. -/
theorem planRows_about (hplans : List.Forall₂ (PlanOf before) ops plans) (sequence : Nat)
    (hop : op ∈ ops) : ∃ row ∈ planRows inp commitId sequence plans, about op.workId row = true := by
  induction hplans generalizing sequence with
  | nil => cases hop
  | @cons first plan ops plans hplan hrest ih =>
    rcases mem_cons.mp hop with rfl | hmem
    · refine ⟨_, mem_cons_self, ?_⟩
      simp [about, planChange, hplan.operation]
    · obtain ⟨row, hrow, habout⟩ := ih (sequence + 1) hmem
      exact ⟨row, mem_cons_of_mem _ hrow, habout⟩

theorem planAction_moves (hplan : PlanOf before op plan) :
    (planAction plan).moves = moves (live op.workId before) op := by
  have hchange := hplan.willChange
  unfold planAction
  rw [hplan.operation]
  cases haction : op.action <;>
    cases hwill : plan.willChange <;>
    simp_all [Action.moves, moves, onTag]

/-- The works of the changes that move a work are those of the operations that do. -/
theorem planRows_moving (hplans : List.Forall₂ (PlanOf before) ops plans) (sequence : Nat) :
    ((planRows inp commitId sequence plans).filter (·.action.moves)).map (·.subjectId) =
      (ops.filter fun op => moves (live op.workId before) op).map (·.workId) := by
  induction hplans generalizing sequence with
  | nil => rfl
  | @cons op plan ops plans hplan hrest ih =>
    have haction : (planChange inp commitId sequence plan).action.moves =
        moves (live op.workId before) op := planAction_moves hplan
    have hsubject : (planChange inp commitId sequence plan).subjectId = op.workId := by
      rw [← hplan.operation]
      rfl
    rw [planRows, filter_cons, filter_cons, haction]
    split
    · rw [map_cons, map_cons, hsubject, ih]
    · exact ih _

end Applying

section Executing

variable [DecidableEq Digest] {commandHash : CommandRequest → Digest} {db : Database Digest}

variable (command db) in
/-- The command is executed: it is new, it knows the latest commit if it names one, and
its works are there. -/
def Executed : Prop :=
  db.commits.find? (·.dedupeKey = some (cliKey command.idempotencyKey)) = none ∧
    command.expectedParentCommitId.filter (some · ≠ latestCommitId db) = none ∧
    ∀ op ∈ command.operations, (getWork op.workId db).isSome

omit [DecidableEq Digest] in
theorem missing_eq_nil_iff :
    ((command.operations.map (·.workId)).dedup.filter fun workId => (getWork workId db).isNone) = [] ↔
      ∀ op ∈ command.operations, (getWork op.workId db).isSome := by
  simp [filter_eq_nil_iff, Option.isSome_iff_ne_none]

/-- What a command that is executed writes. -/
theorem executeGitlleryCommand_runs (h : Executed command db) (actorId : Option Text) (inp : Inputs) :
    ∃ draft : Draft Digest, draft.dedupeKey = some (cliKey command.idempotencyKey) ∧
      draft.metadata.commandHash = some (commandHash command) ∧
      executeGitlleryCommand casefold commandHash command actorId false inp db =
        .ok (requestSearchProjection (command.operations.map (·.workId)).dedup
            (setStats (createCommit inp draft db).2.id
              ⟨some ((planCommand casefold command db).plans.length -
                (planCommand casefold command db).skipped),
                some (planCommand casefold command db).skipped, none⟩
              (applyPlans casefold inp (createCommit inp draft db).2.id db 0
                (planCommand casefold command db).plans (createCommit inp draft db).1)),
          ⟨if (planCommand casefold command db).plans.length -
              (planCommand casefold command db).skipped = 0 then .noop else .committed,
            some (createCommit inp draft db).2.id, (createCommit inp draft db).2.parentCommitId,
            (planCommand casefold command db).plans.length -
              (planCommand casefold command db).skipped,
            (planCommand casefold command db).skipped, "pending".toList, some 0⟩) := by
  refine ⟨{ message := command.message
            trigger := "gitllery_cli".toList
            actorType := "user".toList
            actorId := actorId
            metadata := ⟨command.reason, some 1, some (commandHash command), none, false⟩
            dedupeKey := some (cliKey command.idempotencyKey) }, rfl, rfl, ?_⟩
  unfold executeGitlleryCommand
  dsimp only
  rw [h.1]
  dsimp only
  rw [h.2.1]
  dsimp only
  rw [missing_eq_nil_iff.mpr h.2.2]
  rfl

variable {dryRun : Bool} {actorId : Option Text} {db' : Database Digest}
  {response : CommandResponse}

section

variable
  (hok : executeGitlleryCommand casefold commandHash command actorId dryRun inp db = .ok (db', response))
include hok

/-- A command that succeeds was answered from its commit, only tried, or executed. -/
theorem executeGitlleryCommand_cases :
    (db' = db ∧ ((∃ commit,
        db.commits.find? (·.dedupeKey = some (cliKey command.idempotencyKey)) = some commit ∧
          commit.metadata.commandHash = some (commandHash command) ∧
          response = replayResponse commit) ∨ dryRun = true)) ∨
      (Executed command db ∧ dryRun = false) := by
  unfold executeGitlleryCommand at hok
  dsimp only at hok
  split at hok
  next commit hfound =>
    split at hok
    · cases hok
    · rename_i hhash
      cases hok
      exact .inl ⟨rfl, .inl ⟨commit, hfound, not_not.mp hhash, rfl⟩⟩
  next hnew =>
    split at hok
    · cases hok
    rename_i hhead
    split at hok
    · cases hok
    rename_i hmissing
    split at hok
    · rename_i hdry
      cases hok
      exact .inl ⟨rfl, .inr hdry⟩
    · rename_i hdry
      have hworks := missing_eq_nil_iff.mp (not_not.mp hmissing)
      exact .inr ⟨⟨hnew, hhead, hworks⟩, Bool.eq_false_iff.mpr hdry⟩

/-- A command that is not executed, or only tried, writes nothing. -/
theorem executeGitlleryCommand_rests (h : ¬ Executed command db ∨ dryRun = true) : db' = db := by
  rcases executeGitlleryCommand_cases hok with ⟨hsame, -⟩ | ⟨hruns, hdry⟩
  · exact hsame
  · rcases h with hnot | hdry'
    · exact absurd hruns hnot
    · rw [hdry] at hdry'
      cases hdry'

end

end Executing

end Curation
