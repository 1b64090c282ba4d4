import AutoGallery.SearchAccepted
import AutoGallery.SqlFilters

/-!
# Groups of qualifiers

Both compilers walk over the same groups.  If every qualifier of a query has a
condition that is true of a row exactly when `v` says so, the group is true of the
row exactly when `Group.value v` says so, in the database and in the index
(`groupCondition_value`, `groupPart_value`), and the whole query is the conjunction
of its groups with the parts that do not come from a qualifier.
-/

namespace FilterGroups

open PyText SourceIdentity SearchLanguage SearchFilters WorkDatabase WorkDocuments SqlFilters Sql List
open Meili

variable {query : SearchQuery} {group : Group}

/-- What a group says: one of its members for a positive group, none of them for a
negated one. -/
def groupValue (v : Qualifier → Bool) (group : Group) : Bool :=
  if group.negated then group.members.all fun q => !v q else group.members.any v

section Traversal

variable {α β ε : Type}

variable {f : α → Except ε (Option β)} {items : List α} {ys : List β} {p : α → Bool} {r : β → Bool}

/-- A traversal in which every step succeeds with a value. -/
theorem mapM_some {P : α → β → Prop} (h : ∀ x ∈ items, ∃ y, f x = .ok (some y) ∧ P x y) :
    ∃ ys : List β, items.mapM f = .ok (ys.map some) ∧ List.Forall₂ P items ys := by
  induction items with
  | nil => exact ⟨[], rfl, .nil⟩
  | cons x rest ih =>
    obtain ⟨y, hy, hP⟩ := h x mem_cons_self
    obtain ⟨ys, hys, hall⟩ := ih fun z hz => h z (mem_cons_of_mem _ hz)
    refine ⟨y :: ys, ?_, .cons hP hall⟩
    rw [mapM_cons, hy, hys]
    rfl

/-- A traversal that succeeds. -/
theorem mapM_ok {f : α → Except ε β} (h : items.mapM f = .ok ys) :
    List.Forall₂ (fun x y => f x = .ok y) items ys := by
  induction items generalizing ys with
  | nil =>
    cases h
    exact .nil
  | cons x rest ih =>
    rw [mapM_cons] at h
    obtain ⟨y, hx, h⟩ := bind_ok h
    obtain ⟨zs, hrest, heq⟩ := bind_ok h
    cases heq
    exact .cons hx (ih hrest)

/-- The values of a traversal, none of them counting as true. -/
theorem all_reduceOption {p : β → Bool} {ys : List (Option β)}
    (h : List.Forall₂ (fun x y => f x = .ok y) items ys) :
    ys.reduceOption.all p = true ↔ ∀ x ∈ items, ∀ y, f x = .ok y → y.all p = true := by
  induction h with
  | nil => simp
  | @cons x y items ys hxy _ ih =>
    have hhead : (y :: ys).reduceOption.all p = (y.all p && ys.reduceOption.all p) := by
      cases y <;> rfl
    rw [hhead, Bool.and_eq_true, ih, forall_mem_cons]
    simp only [hxy, Except.ok.injEq, forall_eq']

theorem reduceOption_map_some (ys : List β) : (ys.map some).reduceOption = ys := by
  induction ys with
  | nil => rfl
  | cons y rest ih => rw [map_cons, reduceOption_cons_of_some, ih]

theorem any_of_forall₂ (h : List.Forall₂ (fun x y => r y = p x) items ys) : ys.any r = items.any p := by
  induction h with
  | nil => rfl
  | cons hhead _ ih => rw [any_cons, any_cons, hhead, ih]

theorem all_of_forall₂ (h : List.Forall₂ (fun x y => r y = p x) items ys) : ys.all r = items.all p := by
  induction h with
  | nil => rfl
  | cons hhead _ ih => rw [all_cons, all_cons, hhead, ih]

end Traversal

section Groups

variable {target : SearchTarget}

variable {q : Qualifier}

section

variable (h : group ∈ groupedQualifiers query target)
include h

/-- The members of a group. -/
theorem mem_members_iff :
    q ∈ group.members ↔ q ∈ queryQualifiers query ∧ groupable target q = true ∧
      q.key = group.key ∧ q.negated = group.negated := by
  unfold groupedQualifiers at h
  obtain ⟨head, _, rfl⟩ := mem_map.mp h
  simp only [mem_filter, decide_eq_true_eq, Prod.ext_iff, and_assoc]

theorem negated_of_mem (hq : q ∈ group.members) :
    q.negated = group.negated :=
  ((mem_members_iff h).mp hq).2.2.2

/-- No group is empty. -/
theorem members_ne_nil : group.members ≠ [] := by
  unfold groupedQualifiers at h
  obtain ⟨head, hhead, rfl⟩ := mem_map.mp h
  obtain ⟨q, hq, hqhead⟩ := mem_map.mp (mem_eraseDups.mp hhead)
  apply ne_nil_of_mem (a := q)
  exact mem_filter.mpr ⟨hq, decide_eq_true hqhead⟩

end

/-- Every qualifier that is kept has a group. -/
theorem exists_group (hq : q ∈ queryQualifiers query) (hgroupable : groupable target q = true) :
    ∃ group ∈ groupedQualifiers query target, group.key = q.key ∧ group.negated = q.negated := by
  have hkept : q ∈ (queryQualifiers query).filter (groupable target) :=
    mem_filter.mpr ⟨hq, hgroupable⟩
  refine ⟨_, mem_map.mpr ⟨(q.key, q.negated), ?_, rfl⟩, rfl, rfl⟩
  exact mem_eraseDups.mpr (mem_map.mpr ⟨q, hkept, rfl⟩)

end Groups

section Database

variable {E : FilterRuntime} {resolved : Resolution} {db : Database} {work : Work}
  {v : Qualifier → Bool}

/-- What the compiler for the database makes of a qualifier of which `v` is the
truth: a condition, two-valued where it is negated. -/
def HasCondition (E : FilterRuntime) (resolved : Resolution) (db : Database) (work : Work)
    (v : Qualifier → Bool) (q : Qualifier) : Prop :=
  ∃ c, qualifierCondition E resolved q = .ok (some c) ∧ (c db work).holds = v q ∧
    (q.negated = true → c db work ≠ .unknown)

/-- **A group in the database.** -/
theorem groupCondition_value (hgroup : group ∈ groupedQualifiers query .works)
    (h : ∀ q ∈ group.members, HasCondition E resolved db work v q) :
    ∃ c, groupCondition E resolved group = .ok (some c) ∧
      (c db work).holds = groupValue v group := by
  have hsteps : ∀ q ∈ group.members, ∃ c, qualifierCondition E resolved q = .ok (some c) ∧
      ((c db work).holds = v q ∧ (group.negated = true → c db work ≠ .unknown)) := by
    intro q hq
    obtain ⟨c, hc, hv, hknown⟩ := h q hq
    exact ⟨c, hc, hv, fun hn => hknown ((negated_of_mem hgroup hq).trans hn)⟩
  obtain ⟨cs, hcs, hall⟩ := mapM_some hsteps
  have hcs_ne : cs ≠ [] := by
    intro hnil
    rw [hnil] at hall
    exact members_ne_nil hgroup (forall₂_nil_right_iff.mp hall)
  unfold groupCondition groupValue
  rw [hcs]
  simp only [Except.map, reduceOption_map_some, if_neg hcs_ne]
  cases hn : group.negated with
  | true =>
    refine ⟨_, rfl, ?_⟩
    simp only [Truth.holds_all, all_map, if_true]
    apply all_of_forall₂
    refine hall.imp ?_
    intro q c hc
    rw [Function.comp, Truth.holds_not (hc.2 hn), hc.1]
  | false =>
    refine ⟨_, rfl, ?_⟩
    simp only [Truth.holds_any, any_map, Bool.false_eq_true, if_false]
    exact any_of_forall₂ (hall.imp fun q c hc => hc.1)

/-- **A query in the database** is the conjunction of its groups and of the
conditions that every query has. -/
theorem workFilterConditions_value (forceSfw : Bool)
    (h : ∀ q ∈ queryQualifiers query, groupable .works q = true →
      HasCondition E resolved db work v q) :
    ∃ conditions, workFilterConditions E resolved query forceSfw = .ok conditions ∧
      selects conditions db work = (selects (baseConditions query forceSfw) db work &&
        (groupedQualifiers query .works).all (groupValue v)) := by
  have hsteps : ∀ group ∈ groupedQualifiers query .works, ∃ c,
      groupCondition E resolved group = .ok (some c) ∧
        (c db work).holds = groupValue v group := by
    intro group hgroup
    apply groupCondition_value hgroup
    intro q hq
    obtain ⟨hquery, hgroupable, _, _⟩ := (mem_members_iff hgroup).mp hq
    exact h q hquery hgroupable
  obtain ⟨cs, hcs, hall⟩ := mapM_some hsteps
  unfold workFilterConditions
  rw [hcs]
  refine ⟨_, rfl, ?_⟩
  unfold selects
  rw [all_append, reduceOption_map_some, all_of_forall₂ hall]

end Database

section Index

variable {E : FilterRuntime} {target : SearchTarget} {resolved : Resolution}
  {fields : List (Key × Field)} {identityField : Field} {document : Field → Value}
  {v : Qualifier → Bool}

variable (E target resolved fields identityField document v) in
/-- What the compiler for the index makes of a qualifier of which `v` is the
truth. -/
def HasExpression (q : Qualifier) : Prop :=
  ∃ e, qualifierExpression E target resolved fields identityField q = .ok (some e) ∧
    e.satisfied E.foldCase document = (v q != q.negated)

/-- **A group in the index.** -/
theorem groupPart_value (hgroup : group ∈ groupedQualifiers query target)
    (h : ∀ q ∈ group.members, HasExpression E target resolved fields identityField document v q) :
    ∃ e, groupPart E target resolved fields identityField group = .ok (some e) ∧
      e.satisfied E.foldCase document = groupValue v group := by
  have hsteps : ∀ q ∈ group.members, ∃ e,
      qualifierExpression E target resolved fields identityField q = .ok (some e) ∧
        e.satisfied E.foldCase document = (v q != group.negated) := by
    intro q hq
    obtain ⟨e, he, hv⟩ := h q hq
    exact ⟨e, he, negated_of_mem hgroup hq ▸ hv⟩
  obtain ⟨es, hes, hall⟩ := mapM_some hsteps
  cases es with
  | nil => exact absurd (forall₂_nil_right_iff.mp hall) (members_ne_nil hgroup)
  | cons first rest =>
    unfold groupPart groupValue
    rw [hes]
    simp only [Except.map, reduceOption_map_some]
    cases hn : group.negated with
    | true =>
      refine ⟨_, rfl, ?_⟩
      have hjoin := Expression.satisfied_joinAnd E.foldCase document (first :: rest)
      rw [hn] at hall
      exact hjoin.trans (all_of_forall₂ (hall.imp fun q e he => by simpa using he))
    | false =>
      refine ⟨_, rfl, ?_⟩
      have hjoin := Expression.satisfied_joinOr E.foldCase document (first :: rest)
      rw [hn] at hall
      exact hjoin.trans (any_of_forall₂ (hall.imp fun q e he => by simpa using he))

/-- **A query in the index** is the conjunction of its groups and of the parts for
visibility. -/
theorem compileMeiliFilter_value (forceSfw : Bool)
    (hfields : meiliField.lookup .works = some fields)
    (h : ∀ q ∈ queryQualifiers query, groupable .works q = true →
      HasExpression E .works resolved fields identityField document v q) :
    ∃ filter, compileMeiliFilter E .works resolved query forceSfw identityField = .ok filter ∧
      filter.all (·.satisfied E.foldCase document) =
        ((groupedQualifiers query .works).all (groupValue v) &&
          (visibilityParts query forceSfw).all (·.satisfied E.foldCase document)) := by
  have hsteps : ∀ group ∈ groupedQualifiers query .works, ∃ e,
      groupPart E .works resolved fields identityField group = .ok (some e) ∧
        e.satisfied E.foldCase document = groupValue v group := by
    intro group hgroup
    apply groupPart_value hgroup
    intro q hq
    obtain ⟨hquery, hgroupable, _, _⟩ := (mem_members_iff hgroup).mp hq
    exact h q hquery hgroupable
  obtain ⟨es, hes, hall⟩ := mapM_some hsteps
  unfold compileMeiliFilter
  rw [hfields]
  simp only [hes]
  refine ⟨_, rfl, ?_⟩
  rw [Expression.satisfied_joinAnd, if_true, all_append, reduceOption_map_some, all_of_forall₂ hall]

end Index

end FilterGroups
