import AutoGallery.FilterAgreement

/-!
# Hidden works

Which works a query may show: without a positive `is:trashed` the visible ones, with
it the visible and the trashed ones, never a purged one, and under `force_sfw` only
safe ones.  The database keeps to this.  The index does so unless a work gets in by
another positive `is:` value of a query that asks for a visibility: such a query has
no default visibility, and its `is:` values are alternatives (`noLeak_iff`).
-/

namespace WorkVisibility

open PyText SourceIdentity SearchLanguage SearchFilters WorkDatabase WorkDocuments SqlFilters Sql List
open Meili FilterGroups FilterAgreement ShuffleRing FilterAscii

section Statement

variable (E : FilterRuntime) (resolved : Resolution) (db : Database) (work : Work)
  (query : SearchQuery) (forceSfw : Bool)

/-- The visibilities a query may show. -/
def Allowed (v : Visibility) : Prop :=
  if "trashed".toList ∈ requestedVisibility query then v ≠ .purged else v = .visible

/-- The work may be shown. -/
def Shown : Prop :=
  Allowed query (db.visibilityOf work.id) ∧ (forceSfw = true → work.isNsfw = false)

/-- Whether the document of the work satisfies a filter; no filter selects everything. -/
def indexSelects (filter : Option (Expression Field)) : Bool :=
  filter.all (·.satisfied E.foldCase (buildWorkDocument E db work).field)

/-- No way of searching shows a work that must not be shown: not the conditions of the
database, not the filter of the index, not a phase of the random order over it. -/
def NoLeak (filter : Option (Expression Field)) : Prop :=
  (∀ conditions, workFilterConditions E resolved query forceSfw = .ok conditions →
    selects conditions db work = true → Shown db work query forceSfw) ∧
  (indexSelects E db work filter = true → Shown db work query forceSfw) ∧
  ∀ start phase boundary reverse,
    indexSelects E db work (meiliRandomPhaseFilter filter start phase boundary reverse) = true →
      Shown db work query forceSfw

/-- The work satisfies every part of the filter that does not come from a positive
`is:` value. -/
def OtherParts : Prop :=
  (∀ group ∈ groupedQualifiers query .works, ¬(group.key = .is ∧ group.negated = false) →
    ∀ part, groupPart E .works resolved workFields .id group = .ok part →
      indexSelects E db work part = true) ∧
  sfwHolds forceSfw work = true

/-- A query that asks for a visibility does not let the work in by another state it asks
for: such a work is excluded by another part of the filter, or may be shown. -/
def NoDetour : Prop :=
  requestedVisibility query ≠ [] → ∀ q ∈ queryQualifiers query, q.key = .is → q.negated = false →
    inState work q.value = true → OtherParts E resolved db work query forceSfw →
      Allowed query (db.visibilityOf work.id)

end Statement

section Queries

variable {E : FilterRuntime} {resolved : Resolution} {db : Database} {work : Work}
  {query : SearchQuery} {forceSfw : Bool}

variable {conditions : List Condition} {filter : Option (Expression Field)} {group : Group}
  {q : Qualifier}

/-- The conditions of the database, group by group. -/
theorem selects_compiled (h : workFilterConditions E resolved query forceSfw = .ok conditions) :
    selects conditions db work = true ↔ selects (baseConditions query forceSfw) db work = true ∧
      ∀ group ∈ groupedQualifiers query .works, ∀ c,
        groupCondition E resolved group = .ok c → c.all (fun c => (c db work).holds) = true := by
  obtain ⟨found, hgroups, rfl⟩ := map_ok h
  unfold selects
  rw [all_append, Bool.and_eq_true, all_reduceOption (mapM_ok hgroups)]

/-- **The database shows nothing that must not be shown.** -/
theorem shown_of_selects (h : workFilterConditions E resolved query forceSfw = .ok conditions)
    (hselects : selects conditions db work = true) : Shown db work query forceSfw := by
  have hbase := ((selects_compiled h).mp hselects).1
  unfold baseConditions selects at hbase
  rw [all_cons, Bool.and_eq_true] at hbase
  obtain ⟨hvisible, hsfw⟩ := hbase
  constructor
  · unfold Allowed
    split at hvisible
    next hasked =>
      rw [holds_trashedExpression, decide_eq_true_eq] at hvisible
      obtain ⟨x, hx⟩ := exists_mem_of_ne_nil _ hasked.1
      rw [if_pos (hasked.2 x hx ▸ hx), hvisible]
      decide
    · rw [holds_visibleExpression, decide_eq_true_eq] at hvisible
      rw [hvisible]
      split
      · decide
      · rfl
  · intro hforce
    rw [hforce] at hsfw
    simpa using hsfw

/-- A filter of the index, part by part. -/
theorem indexSelects_compiled
    (h : compileMeiliFilter E .works resolved query forceSfw .id = .ok filter) :
    indexSelects E db work filter = true ↔
      (∀ group ∈ groupedQualifiers query .works, ∀ part,
        groupPart E .works resolved workFields .id group = .ok part →
          indexSelects E db work part = true) ∧
      (requestedVisibility query ≠ [] ∨ db.visibilityOf work.id = .visible) ∧
      sfwHolds forceSfw work = true := by
  unfold compileMeiliFilter at h
  rw [lookup_works] at h
  obtain ⟨parts, hgroups, rfl⟩ := map_ok h
  have hparts := all_reduceOption
    (p := (·.satisfied E.foldCase (buildWorkDocument E db work).field)) (mapM_ok hgroups)
  unfold indexSelects
  rw [Expression.satisfied_joinAnd, all_append, Bool.and_eq_true, hparts, if_pos rfl,
    satisfied_visibilityParts]
  simp

/-- The part of a filter that comes from the positive `is:` values. -/
theorem statesPart (resolved : Resolution) (db : Database) (work : Work)
    (haccepted : ∀ q ∈ queryQualifiers query, Accepted E.toRuntime q)
    (hgroup : group ∈ groupedQualifiers query .works) (hkey : group.key = .is) :
    ∃ e, groupPart E .works resolved workFields .id group = .ok (some e) ∧
      e.satisfied E.foldCase (buildWorkDocument E db work).field =
        groupValue (rowSays E resolved db work) group := by
  apply groupPart_value hgroup
  intro q hq
  obtain ⟨hquery, hgroupable, hqkey, _⟩ := (mem_members_iff hgroup).mp hq
  exact hasExpression_of_compiled (compiled_is (haccepted q hquery) (hqkey.trans hkey) hgroupable)

/-- A state of works is one that works are asked for. -/
theorem groupable_of_inState (hkey : q.key = .is) (h : inState work q.value = true) :
    groupable .works q = true ∧ q.value ∈ workStates := by
  unfold inState at h
  rw [Option.getD_eq_iff] at h
  rcases h with hfound | ⟨_, hfalse⟩
  · obtain ⟨before, after, hsplit, _⟩ := lookup_eq_some_iff.mp hfound
    have hmem : q.value ∈ ["favorite".toList, "nsfw".toList, "sfw".toList, "ai".toList,
        "human".toList] := by
      have hmap := congrArg (map Prod.fst) hsplit
      simp only [map_cons, map_nil, map_append] at hmap
      rw [hmap]
      exact mem_append_right _ mem_cons_self
    unfold groupable
    rw [hkey]
    revert hmem
    generalize q.value = value
    intro hmem
    simp only [mem_cons, not_mem_nil, or_false] at hmem
    rcases hmem with rfl | rfl | rfl | rfl | rfl <;> decide
  · cases hfalse

/-- The part that comes from the positive `is:` values, on a work. -/
theorem statesPart_satisfied (haccepted : ∀ q ∈ queryQualifiers query, Accepted E.toRuntime q)
    (hgroup : group ∈ groupedQualifiers query .works) (hkey : group.key = .is)
    (hneg : group.negated = false) {part : Option (Expression Field)}
    (hpart : groupPart E .works resolved workFields .id group = .ok part) :
    indexSelects E db work part = true ↔ ∃ q ∈ group.members,
      inState work q.value = true ∨ (db.visibilityOf work.id).text = q.value := by
  obtain ⟨e, he, hvalue⟩ := statesPart resolved db work haccepted hgroup hkey
  rw [hpart] at he
  cases he
  unfold indexSelects
  rw [Option.all_some, hvalue, groupValue, hneg, if_neg Bool.false_ne_true, any_eq_true]
  apply exists_congr
  intro q
  apply and_congr_right
  intro hq
  obtain ⟨hquery, hgroupable, hqkey, _⟩ := (mem_members_iff hgroup).mp hq
  rw [hkey] at hqkey
  have hstate := workState_of_accepted (haccepted q hquery) hqkey hgroupable
  rw [rowSays_state hqkey hstate, Bool.or_eq_true, decide_eq_true_eq]

/-- A phase of the random order selects from what the filter selects. -/
theorem indexSelects_of_phase {start : ShuffleKey} {phase : Phase}
    {boundary : Option RandomWorkCursor} {reverse : Bool}
    (h : indexSelects E db work
      (meiliRandomPhaseFilter filter start phase boundary reverse) = true) :
    indexSelects E db work filter = true := by
  unfold indexSelects meiliRandomPhaseFilter at h
  rw [Expression.satisfied_joinAnd] at h
  cases filter with
  | none => rfl
  | some e =>
    rw [reduceOption_cons_of_some, all_cons, Bool.and_eq_true] at h
    exact h.1

/-- A work whose visibility is asked for may be shown. -/
theorem allowed_of_asked (hq : q ∈ queryQualifiers query) (hkey : q.key = .is)
    (hneg : q.negated = false) (hstate : q.value ∈ workStates)
    (htext : (db.visibilityOf work.id).text = q.value) :
    Allowed query (db.visibilityOf work.id) := by
  have hasked : (db.visibilityOf work.id).text = "visible".toList ∨
      (db.visibilityOf work.id).text = "trashed".toList →
      (db.visibilityOf work.id).text ∈ requestedVisibility query := by
    intro hvalue
    exact mem_requestedVisibility.mpr ⟨hvalue, q, hq, hkey, hneg, htext.symm⟩
  rw [← htext] at hstate
  unfold Allowed
  revert hasked hstate
  cases db.visibilityOf work.id with
  | visible =>
    intro _ _
    split
    · decide
    · rfl
  | trashed =>
    intro _ hasked
    have htrashed : "trashed".toList ∈ requestedVisibility query := hasked (.inr rfl)
    rw [if_pos htrashed]
    decide
  | purged =>
    intro hstate
    exact absurd hstate (by decide)

/-- **What the index shows.**  On a work that gets in by no other state, the filter shows
nothing that must not be shown. -/
theorem shown_of_indexSelects (haccepted : ∀ q ∈ queryQualifiers query, Accepted E.toRuntime q)
    (hfilter : compileMeiliFilter E .works resolved query forceSfw .id = .ok filter)
    (hdetour : NoDetour E resolved db work query forceSfw)
    (hselects : indexSelects E db work filter = true) : Shown db work query forceSfw := by
  obtain ⟨hparts, hvisible, hsfw⟩ := (indexSelects_compiled hfilter).mp hselects
  constructor
  · by_cases hnil : requestedVisibility query = []
    · rcases hvisible with hne | hvisible
      · exact absurd hnil hne
      · unfold Allowed
        rw [hnil, if_neg not_mem_nil]
        exact hvisible
    · obtain ⟨asked, hasked⟩ := exists_mem_of_ne_nil _ hnil
      obtain ⟨group, hgroup, hkey, hneg⟩ := group_of_asked hasked
      obtain ⟨e, he, _⟩ := statesPart resolved db work haccepted hgroup hkey
      obtain ⟨r, hr, hsays⟩ :=
        (statesPart_satisfied haccepted hgroup hkey hneg he).mp (hparts group hgroup _ he)
      obtain ⟨hrquery, hrgroupable, hrkey, hrneg⟩ := (mem_members_iff hgroup).mp hr
      rw [hkey] at hrkey
      rw [hneg] at hrneg
      rcases hsays with hin | htext
      · exact hdetour hnil r hrquery hrkey hrneg hin
          ⟨fun other hother _ part hpart => hparts other hother part hpart, hsfw⟩
      · exact allowed_of_asked hrquery hrkey hrneg
          (workState_of_accepted (haccepted r hrquery) hrkey hrgroupable) htext
  · intro hforce
    simpa [sfwHolds, hforce] using hsfw

/-- **No hidden work leaks through search, unless a query that asks for a visibility lets
it in by another state.**  For every accepted query and every work, the three ways of
searching show only what may be shown exactly when the work gets in by no other state. -/
theorem noLeak_iff (E : FilterRuntime) (resolved : Resolution) (db : Database) (work : Work)
    {query : SearchQuery} {forceSfw : Bool} {text : Text} {scope : SearchScope}
    (hparse : parseSearchQuery E.toRuntime text scope = .ok query)
    {filter : Option (Expression Field)}
    (hfilter : compileMeiliFilter E .works resolved query forceSfw .id = .ok filter) :
    NoLeak E resolved db work query forceSfw filter ↔
      NoDetour E resolved db work query forceSfw := by
  have haccepted : ∀ q ∈ queryQualifiers query, Accepted E.toRuntime q :=
    fun q hq => accepted_of_parse hparse hq
  constructor
  · intro hleak hne q hq hkey hneg hin hother
    obtain ⟨hgroupable, _⟩ := groupable_of_inState hkey hin
    have hselects : indexSelects E db work filter = true := by
      apply (indexSelects_compiled hfilter).mpr
      refine ⟨?_, .inl hne, hother.2⟩
      intro group hgroup part hpart
      by_cases hpositive : group.key = .is ∧ group.negated = false
      · apply (statesPart_satisfied haccepted hgroup hpositive.1 hpositive.2 hpart).mpr
        refine ⟨q, (mem_members_iff hgroup).mpr ⟨hq, hgroupable, ?_, ?_⟩, .inl hin⟩
        · rw [hkey, hpositive.1]
        · rw [hneg, hpositive.2]
      · exact hother.1 group hgroup hpositive part hpart
    exact (hleak.2.1 hselects).1
  · intro hdetour
    refine ⟨fun conditions h hselects => shown_of_selects h hselects,
      shown_of_indexSelects haccepted hfilter hdetour, ?_⟩
    intro start phase boundary reverse hselects
    exact shown_of_indexSelects haccepted hfilter hdetour (indexSelects_of_phase hselects)

/-- A visible favourite, on a query for what is visible and a favourite. -/
theorem noLeak_of_visible_favourite :
    ∃ query filter, parseSearchQuery asciiRuntime "is:visible is:favorite".toList .works =
        .ok query ∧
      compileMeiliFilter asciiFilters .works noReferences query true .id = .ok filter ∧
      NoLeak asciiFilters noReferences (gallery (workAt newYear) .visible) (workAt newYear) query
        true filter := by
  have hparse : parseSearchQuery asciiFilters.toRuntime "is:visible is:favorite".toList .works =
      .ok _ := rfl
  refine ⟨_, _, hparse, rfl, ?_⟩
  apply (noLeak_iff asciiFilters noReferences _ _ hparse rfl).mpr
  intro _ q _ _ _ _ _
  unfold Allowed
  decide

/-- A favourite in the trash is selected by the index for a query for what is visible and
a favourite, and not by the database. -/
theorem favourite_leaks_from_trash :
    ∃ query filter, parseSearchQuery asciiRuntime "is:visible is:favorite".toList .works =
        .ok query ∧
      compileMeiliFilter asciiFilters .works noReferences query true .id = .ok filter ∧
      "trashed".toList ∉ requestedVisibility query ∧
      (gallery (workAt newYear) .trashed).visibilityOf (workAt newYear).id = .trashed ∧
      indexSelects asciiFilters (gallery (workAt newYear) .trashed) (workAt newYear) filter = true :=
  ⟨_, _, rfl, rfl, by decide, by decide, by decide⟩

end Queries

end WorkVisibility
