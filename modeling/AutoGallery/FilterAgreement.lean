import AutoGallery.QualifierAgreement
import AutoGallery.FilterAscii

/-!
# The two filters of a query

A query selects the same works in the database and in the index when its qualifiers
are read alike and its `is:` values do not get round the visibility it asks for: the
index takes any one of the positive `is:` values, the database insists on the
visibility.
-/

namespace FilterAgreement

open PyText SourceIdentity SearchLanguage SearchFilters WorkDatabase WorkDocuments SqlFilters Sql List
open Meili FilterGroups FilterAscii

section Queries

variable {E : FilterRuntime} {resolved : Resolution} {db : Database} {work : Work}

/-- A state of a work other than its visibility. -/
def inState (work : Work) (value : Text) : Bool :=
  ([("favorite".toList, work.isFavorite), ("nsfw".toList, work.isNsfw),
    ("sfw".toList, !work.isNsfw), ("ai".toList, work.isAiGenerated),
    ("human".toList, !work.isAiGenerated)].lookup value).getD false

/-- A work that is in another state the query asks for has the visibility the query
asks for: the index takes any one of the positive `is:` values. -/
def VisibilityAgrees (db : Database) (work : Work) (query : SearchQuery) : Prop :=
  ∀ asked ∈ requestedVisibility query, ∀ q ∈ queryQualifiers query,
    q.key = .is → q.negated = false → inState work q.value = true →
      (db.visibilityOf work.id).text = asked

variable (E resolved db work) in
/-- What the database says of a row about a qualifier. -/
def rowSays (q : Qualifier) : Bool :=
  match qualifierCondition E resolved q with
  | .ok (some c) => (c db work).holds
  | _ => false

variable {q : Qualifier} {value : Text} {query : SearchQuery} {asked : Text}

theorem hasCondition_of_compiled (h : Compiled E resolved db work workFields q) :
    HasCondition E resolved db work (rowSays E resolved db work) q := by
  obtain ⟨c, _, hc, hknown, _, _⟩ := h
  exact ⟨c, hc, by rw [rowSays, hc], hknown⟩

theorem hasExpression_of_compiled (h : Compiled E resolved db work workFields q) :
    HasExpression E .works resolved workFields .id (buildWorkDocument E db work).field
      (rowSays E resolved db work) q := by
  obtain ⟨c, e, hc, _, he, hagree⟩ := h
  exact ⟨e, he, by rw [hagree, rowSays, hc]⟩

/-- What an `is:` value says of a row. -/
theorem holds_isCondition (hstate : value ∈ workStates) :
    (isCondition value).any (fun c => (c db work).holds) =
      (inState work value || decide ((db.visibilityOf work.id).text = value)) := by
  have hvisible : (visibleExpression db work).holds = decide (db.visibilityOf work.id = .visible) :=
    holds_visibleExpression
  have htrashed : (trashedExpression db work).holds = decide (db.visibilityOf work.id = .trashed) :=
    holds_trashedExpression
  -- the other states are no visibilities
  have hflag : ∀ flag : Bool, (Truth.of flag).holds = (flag || false) := by
    intro flag
    rw [Truth.holds_of, Bool.or_false]
  simp only [workStates, mem_cons, not_mem_nil, or_false] at hstate
  rcases hstate with rfl | rfl | rfl | rfl | rfl | rfl | rfl
  · cases db.visibilityOf work.id <;> exact hflag work.isFavorite
  · cases db.visibilityOf work.id <;> exact hflag work.isNsfw
  · cases db.visibilityOf work.id <;> exact hflag !work.isNsfw
  · cases db.visibilityOf work.id <;> exact hflag work.isAiGenerated
  · cases db.visibilityOf work.id <;> exact hflag !work.isAiGenerated
  · show (visibleExpression db work).holds = (false || _)
    rw [hvisible]
    cases db.visibilityOf work.id <;> rfl
  · show (trashedExpression db work).holds = (false || _)
    rw [htrashed]
    cases db.visibilityOf work.id <;> rfl

theorem rowSays_state (hkey : q.key = .is) (hstate : q.value ∈ workStates) :
    rowSays E resolved db work q =
      (inState work q.value || decide ((db.visibilityOf work.id).text = q.value)) := by
  rw [← holds_isCondition hstate]
  unfold rowSays qualifierCondition
  rw [hkey]
  cases isCondition q.value <;> rfl

theorem mem_requestedVisibility :
    value ∈ requestedVisibility query ↔
      (value = "visible".toList ∨ value = "trashed".toList) ∧
        ∃ q ∈ queryQualifiers query, q.key = .is ∧ q.negated = false ∧ q.value = value := by
  unfold requestedVisibility
  simp only [mem_map, mem_filter, decide_eq_true_eq, mem_cons, not_mem_nil, or_false]
  constructor
  · intro h
    obtain ⟨q, ⟨hq, hkey, hneg, hvalue⟩, rfl⟩ := h
    exact ⟨hvalue, q, hq, hkey, hneg, rfl⟩
  · intro h
    obtain ⟨hvalue, q, hq, hkey, hneg, rfl⟩ := h
    exact ⟨q, ⟨hq, hkey, hneg, hvalue⟩, rfl⟩

/-- A compatible query asks for one visibility at most. -/
theorem requested_unique (h : worksDbCompatible query = true) {x y : Text}
    (hx : x ∈ requestedVisibility query) (hy : y ∈ requestedVisibility query) : x = y := by
  simp only [worksDbCompatible, Bool.and_eq_true, decide_eq_true_eq] at h
  have hcard := h.1
  rw [← card_toFinset, Finset.card_le_one] at hcard
  exact hcard x (mem_toFinset.mpr hx) y (mem_toFinset.mpr hy)

/-- A compatible query has supported qualifiers only. -/
theorem supported_of_compatible (h : worksDbCompatible query = true)
    (hq : q ∈ queryQualifiers query) :
    q.key ∈ supportedKeys ∧ (q.key = .has → q.value ∈ supportedHas) := by
  simp only [worksDbCompatible, Bool.and_eq_true, all_eq_true] at h
  obtain ⟨hkey, hhas⟩ := h.2 q hq
  refine ⟨of_decide_eq_true hkey, ?_⟩
  intro hcase
  simpa [hcase] using hhas

/-- The restriction to works that are safe. -/
def sfwHolds (forceSfw : Bool) (work : Work) : Bool :=
  !forceSfw || !work.isNsfw

/-- The conditions that every query has, without a visibility that is asked for. -/
theorem selects_base_default (forceSfw : Bool) (h : requestedVisibility query = []) :
    selects (baseConditions query forceSfw) db work =
      (decide (db.visibilityOf work.id = .visible) && sfwHolds forceSfw work) := by
  unfold baseConditions selects sfwHolds
  rw [h, if_neg (fun hne => hne.1 rfl), all_cons, holds_visibleExpression]
  cases forceSfw <;> simp

/-- The conditions that every query has, with a visibility that is asked for. -/
theorem selects_base_asked (forceSfw : Bool) (hasked : asked ∈ requestedVisibility query)
    (hunique : ∀ x ∈ requestedVisibility query, x = asked) :
    selects (baseConditions query forceSfw) db work =
      (decide ((db.visibilityOf work.id).text = asked) && sfwHolds forceSfw work) := by
  have hsfw : (if forceSfw then [fun (_ : Database) (w : Work) => Truth.of !w.isNsfw] else []).all
      (fun condition => (condition db work).holds) = sfwHolds forceSfw work := by
    unfold sfwHolds
    cases forceSfw <;> simp
  unfold baseConditions selects
  rw [all_cons, hsfw]
  congr 1
  have hne : requestedVisibility query ≠ [] := ne_nil_of_mem hasked
  rcases (mem_requestedVisibility.mp hasked).1 with rfl | rfl
  · rw [if_neg, holds_visibleExpression]
    · cases db.visibilityOf work.id <;> rfl
    · intro hall
      exact absurd (hall.2 _ hasked) (by decide)
  · rw [if_pos ⟨hne, hunique⟩, holds_trashedExpression]
    cases db.visibilityOf work.id <;> rfl

/-- The parts that every filter for works has. -/
theorem satisfied_visibilityParts (query : SearchQuery) (forceSfw : Bool) :
    (visibilityParts query forceSfw).all
        (·.satisfied E.foldCase (buildWorkDocument E db work).field) =
      ((decide (requestedVisibility query ≠ []) || decide (db.visibilityOf work.id = .visible)) &&
        sfwHolds forceSfw work) := by
  have hsfw : (Expression.compare Field.isNsfw .eq (.bool false)).satisfied E.foldCase
      (buildWorkDocument E db work).field = !work.isNsfw := by
    have hfield : (buildWorkDocument E db work).field .isNsfw = .one (.bool work.isNsfw) := rfl
    rw [Expression.satisfied_eq_bool _ _ hfield, beq_false]
  have hvisible := satisfied_visibility E db work .visible
  unfold visibilityParts sfwHolds
  rw [all_append]
  congr 1
  · by_cases hnil : requestedVisibility query = []
    · rw [if_pos hnil, all_cons, all_nil, Bool.and_true, hnil]
      exact hvisible
    · rw [if_neg hnil]
      simp [hnil]
  · cases forceSfw with
    | true => simpa using hsfw
    | false => rfl

/-- A visibility that is asked for is in the group of the positive `is:` values. -/
theorem group_of_asked (hasked : asked ∈ requestedVisibility query) :
    ∃ group ∈ groupedQualifiers query .works, group.key = .is ∧ group.negated = false := by
  obtain ⟨hvalue, q, hq, hkey, hneg, hqvalue⟩ := mem_requestedVisibility.mp hasked
  have hgroupable : groupable .works q = true := by
    unfold groupable
    rw [hkey, hqvalue]
    rcases hvalue with rfl | rfl <;> decide
  obtain ⟨group, hgroup, hgroupKey, hgroupNeg⟩ := exists_group hq hgroupable
  exact ⟨group, hgroup, hgroupKey.trans hkey, hgroupNeg.trans hneg⟩

/-- Whatever the index selects for a query that asks for a visibility has it. -/
theorem asked_of_groups (haccepted : ∀ q ∈ queryQualifiers query, Accepted E.toRuntime q)
    (hvisibility : VisibilityAgrees db work query) (hasked : asked ∈ requestedVisibility query)
    (hunique : ∀ x ∈ requestedVisibility query, x = asked)
    (hgroups : (groupedQualifiers query .works).all
      (groupValue (rowSays E resolved db work)) = true) :
    (db.visibilityOf work.id).text = asked := by
  obtain ⟨group, hgroup, hkey, hneg⟩ := group_of_asked hasked
  have hsays := all_eq_true.mp hgroups group hgroup
  unfold groupValue at hsays
  rw [hneg, if_neg Bool.false_ne_true, any_eq_true] at hsays
  obtain ⟨r, hr, hrow⟩ := hsays
  obtain ⟨hrquery, hrgroupable, hrkey, hrneg⟩ := (mem_members_iff hgroup).mp hr
  rw [hkey] at hrkey
  have hstate := workState_of_accepted (haccepted r hrquery) hrkey hrgroupable
  rw [rowSays_state hrkey hstate, Bool.or_eq_true, decide_eq_true_eq] at hrow
  rcases hrow with hin | htext
  · exact hvisibility asked hasked r hrquery hrkey (hrneg.trans hneg) hin
  rw [htext]
  apply hunique
  apply mem_requestedVisibility.mpr
  refine ⟨?_, r, hrquery, hrkey, hrneg.trans hneg, rfl⟩
  rw [← htext] at hstate ⊢
  revert hstate
  cases db.visibilityOf work.id <;> decide

/-- **The two filters of a query select the same works.**  The query is one the parser
accepts and the database supports.  Its qualifiers meet the work on the rows of
`QualifierAgrees`, and its `is:` values do not get round the visibility it asks for. -/
theorem workFilters_agree (E : FilterRuntime) {text : Text} {scope : SearchScope}
    {query : SearchQuery} (hparse : parseSearchQuery E.toRuntime text scope = .ok query)
    (hcompatible : worksDbCompatible query = true) (resolved : Resolution) (db : Database)
    (work : Work) (forceSfw : Bool)
    (hqualifiers : ∀ q ∈ queryQualifiers query, QualifierAgrees E resolved db work q)
    (hvisibility : VisibilityAgrees db work query) :
    ∃ conditions filter, workFilterConditions E resolved query forceSfw = .ok conditions ∧
      compileMeiliFilter E .works resolved query forceSfw .id = .ok filter ∧
      selects conditions db work =
        filter.all (·.satisfied E.foldCase (buildWorkDocument E db work).field) := by
  have haccepted : ∀ q ∈ queryQualifiers query, Accepted E.toRuntime q :=
    fun q hq => accepted_of_parse hparse hq
  have hcompiled : ∀ q ∈ queryQualifiers query, groupable .works q = true →
      Compiled E resolved db work workFields q := by
    intro q hq hgroupable
    obtain ⟨hkey, hhas⟩ := supported_of_compatible hcompatible hq
    exact compiled_of_agrees (haccepted q hq) hgroupable hkey hhas (hqualifiers q hq)
  obtain ⟨conditions, hconditions, hselects⟩ := workFilterConditions_value forceSfw
    fun q hq hgroupable => hasCondition_of_compiled (hcompiled q hq hgroupable)
  obtain ⟨filter, hfilter, hsatisfied⟩ := compileMeiliFilter_value forceSfw lookup_works
    fun q hq hgroupable => hasExpression_of_compiled (hcompiled q hq hgroupable)
  refine ⟨conditions, filter, hconditions, hfilter, ?_⟩
  rw [hselects, hsatisfied, satisfied_visibilityParts]
  by_cases hnil : requestedVisibility query = []
  · rw [selects_base_default forceSfw hnil, hnil]
    simp [Bool.and_comm]
  obtain ⟨asked, hasked⟩ := exists_mem_of_ne_nil _ hnil
  have hunique : ∀ x ∈ requestedVisibility query, x = asked :=
    fun x hx => requested_unique hcompatible hx hasked
  rw [selects_base_asked forceSfw hasked hunique]
  cases hgroups : (groupedQualifiers query .works).all
      (groupValue (rowSays E resolved db work)) with
  | true =>
    have hvis := asked_of_groups haccepted hvisibility hasked hunique hgroups
    simp [hvis, hnil]
  | false => simp

/-- A query with a source, a day and a state, on a work created at noon of that day. -/
theorem workFilters_agree_at_noon :
    ∃ query, parseSearchQuery asciiRuntime
        "source:pixiv created:2026-01-01 is:favorite".toList .works = .ok query ∧
      ∃ conditions filter,
        workFilterConditions asciiFilters noReferences query true = .ok conditions ∧
        compileMeiliFilter asciiFilters .works noReferences query true .id = .ok filter ∧
        selects conditions (gallery (workAt (newYear + 43200000000)) .visible)
            (workAt (newYear + 43200000000)) =
          filter.all (·.satisfied asciiFilters.foldCase (buildWorkDocument asciiFilters
            (gallery (workAt (newYear + 43200000000)) .visible)
            (workAt (newYear + 43200000000))).field) := by
  have hparse : parseSearchQuery asciiFilters.toRuntime
      "source:pixiv created:2026-01-01 is:favorite".toList .works = .ok _ := rfl
  refine ⟨_, hparse, ?_⟩
  apply workFilters_agree asciiFilters hparse (by decide)
  · intro q hq
    have hmem : q ∈ [(⟨.source, "pixiv".toList, false⟩ : Qualifier),
        ⟨.created, "2026-01-01".toList, false⟩, ⟨.is, "favorite".toList, false⟩] := hq
    simp only [mem_cons, not_mem_nil, or_false] at hmem
    rcases hmem with rfl | rfl | rfl
    · exact fun _ => show "pixiv".toList ∈ ["pixiv".toList] by decide
    · intro bounds hbounds
      have hday : dateBounds asciiFilters "2026-01-01".toList =
          .ok ⟨.eq, 1767225600, some 1767311999⟩ := by decide
      rw [show dateBounds asciiFilters _ = _ from hday] at hbounds
      cases hbounds
      constructor
      · intro seconds hseconds
        simp only [Option.toList_some, mem_cons, not_mem_nil, or_false] at hseconds
        omega
      · intro t ht
        cases ht
        exact ⟨by decide, by decide⟩
    · trivial
  · intro asked hasked
    have hnone : asked ∈ ([] : List Text) := hasked
    cases hnone

/-- A work created in the last second of a day: the database does not select it for
that day, the index does. -/
theorem filters_differ_in_last_second :
    ∃ query conditions filter,
      parseSearchQuery asciiRuntime "created:2026-01-01".toList .works = .ok query ∧
      worksDbCompatible query = true ∧
      workFilterConditions asciiFilters noReferences query false = .ok conditions ∧
      compileMeiliFilter asciiFilters .works noReferences query false .id = .ok filter ∧
      selects conditions (gallery (workAt (newYear + 86399500000)) .visible)
        (workAt (newYear + 86399500000)) = false ∧
      filter.all (·.satisfied asciiFilters.foldCase (buildWorkDocument asciiFilters
        (gallery (workAt (newYear + 86399500000)) .visible)
        (workAt (newYear + 86399500000))).field) = true :=
  ⟨_, _, _, rfl, by decide, rfl, rfl, by decide, by decide⟩

end Queries

end FilterAgreement
