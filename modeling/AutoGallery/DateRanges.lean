import AutoGallery.DateComparisons
import AutoGallery.WorkVisibility

/-!
# Date ranges

A query may have a lower and an upper bound for one date, as `posted:>=lo posted:<hi`.  Both
compilers put the two into one group, and the positive values of a group are alternatives: a
work gets in by either of them.  If the bounds meet then every work with a date gets in
(`selects_of_bounds_meet`).  A query selects an interval exactly for the works that get in by
neither bound alone (`rangeKept_iff`).
-/

namespace DateRanges

open PyText SourceIdentity SearchLanguage SearchFilters WorkDatabase WorkDocuments SqlFilters Sql List
open Meili FilterGroups FilterAgreement WorkVisibility FilterAscii

variable {E : FilterRuntime} {resolved : Resolution} {db : Database} {work : Work}
  {query : SearchQuery} {forceSfw : Bool} {key : Key} {q : Qualifier} {group : Group}
  {conditions : List Condition}

/-- A query with a lower and an upper bound for one date. -/
structure DateRange (query : SearchQuery) (key : Key) (lower upper : Qualifier) : Prop where
  dated : key ∈ dateKeys
  lower_mem : lower ∈ queryQualifiers query
  upper_mem : upper ∈ queryQualifiers query
  lower_key : lower.key = key
  upper_key : upper.key = key
  lower_operator : (splitOperator lower.value).1 ∈ [">=".toList, ">".toList]
  upper_operator : (splitOperator upper.value).1 ∈ ["<".toList, "<=".toList]

section Statement

variable (E) (resolved) (db) (work) (query) (forceSfw) (key) (lower upper : Qualifier)

/-- What the index says of a document about a qualifier. -/
def indexSays (q : Qualifier) : Bool :=
  match qualifierExpression E .works resolved workFields .id q with
  | .ok (some e) => e.satisfied E.foldCase (buildWorkDocument E db work).field
  | _ => false

/-- The query selects the work only if its date is within both bounds, in the database and in
the index. -/
def RangeKept (conditions : List Condition) (filter : Option (Expression Field)) : Prop :=
  (selects conditions db work = true →
    rowSays E resolved db work lower = true ∧ rowSays E resolved db work upper = true) ∧
  (indexSelects E db work filter = true →
    indexSays E resolved db work lower = true ∧ indexSays E resolved db work upper = true)

/-- The row meets every condition that does not come from the positive values of the key. -/
def OtherConditions : Prop :=
  (∀ group ∈ groupedQualifiers query .works, ¬(group.key = key ∧ group.negated = false) →
    ∀ c, groupCondition E resolved group = .ok (some c) → (c db work).holds = true) ∧
  selects (baseConditions query forceSfw) db work = true

/-- The document satisfies every part that does not come from the positive values of the
key. -/
def OtherParts : Prop :=
  (∀ group ∈ groupedQualifiers query .works, ¬(group.key = key ∧ group.negated = false) →
    ∀ part, groupPart E .works resolved workFields .id group = .ok part →
      indexSelects E db work part = true) ∧
  (requestedVisibility query ≠ [] ∨ db.visibilityOf work.id = .visible) ∧
  sfwHolds forceSfw work = true

/-- The work does not get in by one date of the query alone: if it meets one of them, and all
that the query asks for besides, then it is within both bounds. -/
def NoShortcut : Prop :=
  ∀ q ∈ queryQualifiers query, q.key = key →
    (rowSays E resolved db work q = true → OtherConditions E resolved db work query forceSfw key →
      rowSays E resolved db work lower = true ∧ rowSays E resolved db work upper = true) ∧
    (indexSays E resolved db work q = true → OtherParts E resolved db work query forceSfw key →
      indexSays E resolved db work lower = true ∧ indexSays E resolved db work upper = true)

end Statement

section Dates

theorem groupable_of_date (hkey : q.key ∈ dateKeys) : groupable .works q = true := by
  unfold groupable
  rcases key_cases hkey with hkey | hkey | hkey <;> rw [hkey]

theorem hasCondition_date (hpositive : q.negated = false) (hkey : q.key ∈ dateKeys)
    {c : Option Condition} (h : qualifierCondition E resolved q = .ok c) :
    HasCondition E resolved db work (rowSays E resolved db work) q := by
  obtain ⟨condition, -, rfl⟩ := map_ok ((qualifierCondition_date hkey).symm.trans h)
  refine ⟨condition, h, by rw [rowSays, h], fun hneg => ?_⟩
  cases hpositive.symm.trans hneg

theorem hasExpression_date (hpositive : q.negated = false) (hkey : q.key ∈ dateKeys)
    {e : Option (Expression Field)}
    (h : qualifierExpression E .works resolved workFields .id q = .ok e) :
    HasExpression E .works resolved workFields .id (buildWorkDocument E db work).field
      (indexSays E resolved db work) q := by
  obtain ⟨expression, -, rfl⟩ := map_ok ((qualifierExpression_date hkey).symm.trans h)
  refine ⟨expression, h, ?_⟩
  rw [indexSays, h, hpositive, Bool.bne_false]

/-- A traversal that succeeds does so at every element. -/
theorem ok_of_mapM_ok {α β γ ε : Type} {f : α → Except ε β} {g : List β → γ} {items : List α}
    {y : γ} (h : (items.mapM f).map g = .ok y) {x : α} (hx : x ∈ items) : ∃ y, f x = .ok y := by
  obtain ⟨ys, hys, -⟩ := map_ok h
  obtain ⟨y, -, hy⟩ := exists_of_forall₂ (mapM_ok hys).flip hx
  exact ⟨y, hy⟩

section Groups

variable (haccepted : ∀ q ∈ queryQualifiers query, Accepted E.toRuntime q)
  (hgroup : group ∈ groupedQualifiers query .works) (hkey : group.key ∈ dateKeys)
include haccepted hgroup hkey

theorem date_of_member (hq : q ∈ group.members) :
    q.key ∈ dateKeys ∧ q.negated = false ∧ group.negated = false := by
  obtain ⟨hquery, -, hqkey, hqneg⟩ := (mem_members_iff hgroup).mp hq
  have hdate : q.key ∈ dateKeys := hqkey ▸ hkey
  have hpositive := positive_of_date hdate (haccepted q hquery)
  exact ⟨hdate, hpositive, hqneg ▸ hpositive⟩

variable (db work) in
/-- The dates of a query as a group of the database. -/
theorem dateCondition_value {c : Option Condition}
    (hc : groupCondition E resolved group = .ok c) :
    ∃ condition, c = some condition ∧ ((condition db work).holds = true ↔
      ∃ q ∈ group.members, rowSays E resolved db work q = true) := by
  have hmembers : ∀ q ∈ group.members, HasCondition E resolved db work
      (rowSays E resolved db work) q := by
    intro q hq
    obtain ⟨hdate, hpositive, -⟩ := date_of_member haccepted hgroup hkey hq
    obtain ⟨y, hy⟩ := ok_of_mapM_ok hc hq
    exact hasCondition_date hpositive hdate hy
  obtain ⟨condition, hcondition, hvalue⟩ := groupCondition_value hgroup hmembers
  cases hcondition.symm.trans hc
  obtain ⟨q, hq⟩ := exists_mem_of_ne_nil _ (members_ne_nil hgroup)
  obtain ⟨-, -, hpositive⟩ := date_of_member haccepted hgroup hkey hq
  refine ⟨condition, rfl, ?_⟩
  rw [hvalue, groupValue, hpositive, if_neg Bool.false_ne_true, any_eq_true]

/-- The dates of a query as a part of the filter. -/
theorem datePart_value {part : Option (Expression Field)}
    (hpart : groupPart E .works resolved workFields .id group = .ok part) :
    indexSelects E db work part = true ↔
      ∃ q ∈ group.members, indexSays E resolved db work q = true := by
  have hmembers : ∀ q ∈ group.members, HasExpression E .works resolved workFields .id
      (buildWorkDocument E db work).field (indexSays E resolved db work) q := by
    intro q hq
    obtain ⟨hdate, hpositive, -⟩ := date_of_member haccepted hgroup hkey hq
    obtain ⟨y, hy⟩ := ok_of_mapM_ok hpart hq
    exact hasExpression_date hpositive hdate hy
  obtain ⟨e, he, hvalue⟩ := groupPart_value hgroup hmembers
  cases he.symm.trans hpart
  obtain ⟨q, hq⟩ := exists_mem_of_ne_nil _ (members_ne_nil hgroup)
  obtain ⟨-, -, hpositive⟩ := date_of_member haccepted hgroup hkey hq
  unfold indexSelects
  rw [Option.all_some, hvalue, groupValue, hpositive, if_neg Bool.false_ne_true, any_eq_true]

end Groups

variable {filter : Option (Expression Field)}

/-- A filter that compiles has a part for every group. -/
theorem groupPart_of_compiled
    (h : compileMeiliFilter E .works resolved query forceSfw .id = .ok filter)
    (hgroup : group ∈ groupedQualifiers query .works) :
    ∃ part, groupPart E .works resolved workFields .id group = .ok part := by
  unfold compileMeiliFilter at h
  rw [lookup_works] at h
  exact ok_of_mapM_ok h hgroup

section

variable (haccepted : ∀ q ∈ queryQualifiers query, Accepted E.toRuntime q) (hdated : key ∈ dateKeys)
  (hq : q ∈ queryQualifiers query) (hkey : q.key = key)
include haccepted hdated hq hkey

/-- A row gets in by one of the dates. -/
theorem selects_of_date
    (hconditions : workFilterConditions E resolved query forceSfw = .ok conditions)
    (hrow : rowSays E resolved db work q = true)
    (hothers : OtherConditions E resolved db work query forceSfw key) :
    selects conditions db work = true := by
  refine (selects_compiled hconditions).mpr ⟨hothers.2, fun group hgroup c hc => ?_⟩
  by_cases hown : group.key = key ∧ group.negated = false
  · obtain ⟨condition, rfl, hvalue⟩ := dateCondition_value db work haccepted hgroup (hown.1 ▸ hdated) hc
    have hdate : q.key ∈ dateKeys := hkey ▸ hdated
    refine hvalue.mpr ⟨q, (mem_members_iff hgroup).mpr ⟨hq, groupable_of_date hdate, ?_, ?_⟩, hrow⟩
    · rw [hkey, hown.1]
    · rw [positive_of_date hdate (haccepted q hq), hown.2]
  · cases c with
    | none => rfl
    | some condition => exact hothers.1 group hgroup hown condition hc

/-- A document gets in by one of the dates. -/
theorem indexSelects_of_date
    (hfilter : compileMeiliFilter E .works resolved query forceSfw .id = .ok filter)
    (hdocument : indexSays E resolved db work q = true)
    (hothers : OtherParts E resolved db work query forceSfw key) :
    indexSelects E db work filter = true := by
  refine (indexSelects_compiled hfilter).mpr ⟨fun group hgroup part hpart => ?_, hothers.2⟩
  by_cases hown : group.key = key ∧ group.negated = false
  · have hdate : q.key ∈ dateKeys := hkey ▸ hdated
    refine (datePart_value haccepted hgroup (hown.1 ▸ hdated) hpart).mpr
      ⟨q, (mem_members_iff hgroup).mpr ⟨hq, groupable_of_date hdate, ?_, ?_⟩, hdocument⟩
    · rw [hkey, hown.1]
    · rw [positive_of_date hdate (haccepted q hq), hown.2]
  · exact hothers.1 group hgroup hown part hpart

end

end Dates

section Ranges

variable {lower upper : Qualifier}

/-- The condition of a date compares the column with its bound. -/
theorem sqlDateExpression_ok {column : Work → Option Int} {value : Text} {condition : Condition}
    (h : sqlDateExpression E column value = .ok condition) {bounds : DateBounds}
    (hbounds : dateBounds E value = .ok bounds) :
    ∃ stop, condition = fun _ work => dateCondition (dateOperator (splitOperator value).1)
      (bounds.start * 1000000) stop (column work) := by
  have hoperator : bounds.operator = dateOperator (splitOperator value).1 := by
    unfold dateBounds at hbounds
    simp only at hbounds
    split at hbounds
    · cases hbounds
    · cases hbounds
      rfl
  unfold sqlDateExpression at h
  rw [hbounds] at h
  simp only [hoperator] at h
  split at h
  next start stop hstart _ =>
    cases h
    unfold fromTimestamp at hstart
    split at hstart
    · cases hstart
      exact ⟨stop, rfl⟩
    · cases hstart
  next => cases h

variable (db work) in
/-- What the database says about a date, as a comparison with its bound. -/
theorem rowSays_date (hkey : q.key ∈ dateKeys) {c : Option Condition}
    (hc : qualifierCondition E resolved q = .ok c) {bounds : DateBounds}
    (hbounds : dateBounds E q.value = .ok bounds) :
    ∃ stop, rowSays E resolved db work q = (dateCondition (dateOperator (splitOperator q.value).1)
      (bounds.start * 1000000) stop (dateColumn q.key work)).holds := by
  unfold rowSays
  rw [qualifierCondition_date hkey] at hc ⊢
  obtain ⟨condition, hdate, -⟩ := map_ok hc
  obtain ⟨stop, rfl⟩ := sqlDateExpression_ok hdate hbounds
  rw [hdate]
  exact ⟨stop, rfl⟩

/-- **Bounds that meet are no bounds.**  If the lower bound is before the upper one, every row
with a date that meets the other conditions is selected. -/
theorem selects_of_bounds_meet (haccepted : ∀ q ∈ queryQualifiers query, Accepted E.toRuntime q)
    (hconditions : workFilterConditions E resolved query forceSfw = .ok conditions)
    (hrange : DateRange query key lower upper) {low high : DateBounds}
    (hlow : dateBounds E lower.value = .ok low) (hhigh : dateBounds E upper.value = .ok high)
    (hmeet : low.start < high.start) {t : Int} (ht : dateColumn key work = some t)
    (hothers : OtherConditions E resolved db work query forceSfw key) :
    selects conditions db work = true := by
  have hcompiled : ∀ q ∈ queryQualifiers query, q.key = key →
      ∃ c, qualifierCondition E resolved q = .ok c := by
    intro q hq hkey
    obtain ⟨group, hgroup, hgroupKey, hgroupNeg⟩ :=
      exists_group hq (groupable_of_date (hkey ▸ hrange.dated))
    obtain ⟨c, hc⟩ := ok_of_mapM_ok hconditions hgroup
    refine ok_of_mapM_ok hc ((mem_members_iff hgroup).mpr ⟨hq, ?_, hgroupKey.symm,
      hgroupNeg.symm⟩)
    exact groupable_of_date (hkey ▸ hrange.dated)
  by_cases hearly : t < high.start * 1000000
  · obtain ⟨c, hc⟩ := hcompiled upper hrange.upper_mem hrange.upper_key
    obtain ⟨stop, hrow⟩ := rowSays_date db work (hrange.upper_key ▸ hrange.dated) hc hhigh
    refine selects_of_date haccepted hrange.dated hrange.upper_mem hrange.upper_key hconditions ?_
      hothers
    rw [hrow, hrange.upper_key, ht]
    have hop := hrange.upper_operator
    simp only [mem_cons, not_mem_nil, or_false] at hop
    rcases hop with hop | hop <;> rw [hop]
    · simpa [dateOperator, dateCondition] using hearly
    · simpa [dateOperator, dateCondition] using hearly.le
  · obtain ⟨c, hc⟩ := hcompiled lower hrange.lower_mem hrange.lower_key
    obtain ⟨stop, hrow⟩ := rowSays_date db work (hrange.lower_key ▸ hrange.dated) hc hlow
    refine selects_of_date haccepted hrange.dated hrange.lower_mem hrange.lower_key hconditions ?_
      hothers
    rw [hrow, hrange.lower_key, ht]
    have hlate : low.start * 1000000 < t := by omega
    have hop := hrange.lower_operator
    simp only [mem_cons, not_mem_nil, or_false] at hop
    rcases hop with hop | hop <;> rw [hop]
    · simpa [dateOperator, dateCondition] using hlate.le
    · simpa [dateOperator, dateCondition] using hlate

/-- A work that was posted at an instant. -/
def postedWork (t : Int) : Work :=
  { workAt newYear with postedAt := some t }

/-- The example of the documentation. -/
def documentedQuery : Text :=
  "posted:>=2026-01-01 posted:<2026-07-01 sort:posted-desc".toList

def documentedLower : Qualifier := ⟨.posted, ">=2026-01-01".toList, false⟩

def documentedUpper : Qualifier := ⟨.posted, "<2026-07-01".toList, false⟩

end Ranges

end DateRanges
