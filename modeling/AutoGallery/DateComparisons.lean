import AutoGallery.FilterAgreement

/-!
# Comparisons with a day

A date without a time stands for a whole day.  `_date_bounds` keeps the first and the last
second of the day, and all comparisons but `=` look at the first one only.  So an instant in
the middle of a day is on that day and also later than it.  The last second is cut off at its
beginning in the database and taken as a whole in the index.

`dateLaws_iff` holds for which instants the comparisons are a trichotomy nevertheless: those
whose timestamps lie before or after all the timestamps of the day, and its first instant.
-/

namespace DateComparisons

open PyText SearchLanguage SearchFilters WorkDatabase WorkDocuments SqlFilters Sql Meili
open FilterAgreement FilterAscii

variable {E : FilterRuntime} {date : Text} {day : Int} {operator : Text} {comparison : Comparison}

/-- The comparisons that a date may begin with; without one it is taken for `=`. -/
def comparisons : List (Text × Comparison) :=
  [([], .eq), ("<".toList, .lt), ("<=".toList, .le), ("=".toList, .eq), (">=".toList, .ge),
    (">".toList, .gt)]

/-- A date without a time that the parser accepts, and its day counted from 1970-01-01.
`datetime` has the years 1 to 9999. -/
structure DateOnly (E : FilterRuntime) (date : Text) (day : Int) : Prop where
  accepted : parseDate E.toRuntime date = .ok ()
  plain : dateOperators.find? (startswith date) = none
  noTime : 'T' ∉ E.upper date
  parsed : E.fromisoformat (replaceZulu date) = some ⟨day, 0, none⟩
  years : -719162 ≤ day ∧ day ≤ 2932896

/-- The first microsecond of a day. -/
def firstInstant (day : Int) : Int := day * 86400000000

/-- The last microsecond of a day. -/
def lastInstant (day : Int) : Int := day * 86400000000 + 86399999999

section Bounds

theorem splitOperator_append (hplain : dateOperators.find? (startswith date) = none)
    (h : (operator, comparison) ∈ comparisons) :
    splitOperator (operator ++ date) = (operator, date) ∧ dateOperator operator = comparison := by
  have hequals : startswith date "=".toList = false := by
    have := List.find?_eq_none.mp hplain "=".toList (by decide)
    simpa using this
  simp only [comparisons, List.mem_cons, Prod.mk.injEq, List.not_mem_nil, or_false] at h
  rcases h with ⟨rfl, rfl⟩ | ⟨rfl, rfl⟩ | ⟨rfl, rfl⟩ | ⟨rfl, rfl⟩ | ⟨rfl, rfl⟩ | ⟨rfl, rfl⟩
  · refine ⟨?_, by decide⟩
    unfold splitOperator
    rw [List.nil_append, hplain]
  all_goals
    refine ⟨?_, by decide⟩
    cases date with
    | nil => rfl
    | cons c rest =>
      have hc : c ≠ '=' := by
        rintro rfl
        simp [startswith] at hequals
      simp [splitOperator, dateOperators, startswith, hc.symm]

variable (E day) in
theorem timestamp_firstInstant : E.timestamp (firstInstant day) = day * 86400 := by
  have h := E.timestamp_second (day * 86400)
  rwa [show day * 86400 * 1000000 = firstInstant day by unfold firstInstant; omega] at h

variable (E day) in
/-- The last instant of a day is in its last second, unless the division has rounded. -/
theorem timestamp_lastInstant :
    day * 86400 + 86399 ≤ E.timestamp (lastInstant day) ∧
      E.timestamp (lastInstant day) ≤ day * 86400 + 86400 := by
  unfold lastInstant
  constructor
  · apply le_timestamp
    omega
  · apply timestamp_le
    omega

/-- The bounds of a comparison with a day. -/
theorem dateBounds_dateOnly (h : DateOnly E date day)
    (hoperator : (operator, comparison) ∈ comparisons) :
    dateBounds E (operator ++ date) =
      .ok ⟨comparison, day * 86400, some (E.timestamp (lastInstant day))⟩ := by
  obtain ⟨hsplit, hcomparison⟩ := splitOperator_append h.plain hoperator
  have hfirst : E.timestamp (instant ⟨day, 0, none⟩) = day * 86400 := by
    rw [← timestamp_firstInstant E day]
    congr 1
    simp [instant, firstInstant]
  have hlast : instant (endOfDay ⟨day, 0, none⟩) = lastInstant day := by
    simp [instant, endOfDay, lastInstant]
  unfold dateBounds
  simp only [hsplit, h.parsed, if_neg h.noTime, hcomparison, hfirst, hlast]

end Bounds

section Matches

/-- The condition that the database has for a date is true of a row. -/
def SqlMatches (E : FilterRuntime) (column : Work → Option Int) (db : Database) (work : Work)
    (raw : Text) : Prop :=
  ∃ condition, sqlDateExpression E column raw = .ok condition ∧ (condition db work).holds = true

/-- The expression that the index has for a date is true of a document. -/
def IndexMatches (E : FilterRuntime) (field : Field) (document : Field → Value) (raw : Text) :
    Prop :=
  ∃ bounds, dateBounds E raw = .ok bounds ∧
    (dateExpression field bounds).satisfied E.foldCase document = true

/-- What the comparison of an instant with a day should say, for an instant that is on the day
or not. -/
structure DayLaws (holds : Text → Prop) (onDay : Prop) : Prop where
  some : holds "<".toList ∨ holds "=".toList ∨ holds ">".toList
  notLtEq : ¬(holds "<".toList ∧ holds "=".toList)
  notLtGt : ¬(holds "<".toList ∧ holds ">".toList)
  notEqGt : ¬(holds "=".toList ∧ holds ">".toList)
  eq_iff : holds "=".toList ↔ onDay
  le_iff : holds "<=".toList ↔ holds "<".toList ∨ holds "=".toList
  ge_iff : holds ">=".toList ↔ holds "=".toList ∨ holds ">".toList

/-- The instant is on the day, in UTC. -/
def OnDay (day t : Int) : Prop :=
  firstInstant day ≤ t ∧ t ≤ lastInstant day

/-- The comparisons with a day are a trichotomy in the database and in the index, and both
give the same answers. -/
structure DateLaws (E : FilterRuntime) (column : Work → Option Int) (field : Field) (db : Database)
    (work : Work) (document : Field → Value) (date : Text) (day t : Int) : Prop where
  sql : DayLaws (fun operator => SqlMatches E column db work (operator ++ date)) (OnDay day t)
  index : DayLaws (fun operator => IndexMatches E field document (operator ++ date)) (OnDay day t)
  agree : ∀ operator ∈ comparisons.map Prod.fst,
    SqlMatches E column db work (operator ++ date) ↔ IndexMatches E field document (operator ++ date)

/-- The timestamp of the instant is before or after those of the whole day, or the instant is
the first of the day.  The day ends in the year 9999. -/
def ApartFromDay (E : FilterRuntime) (day t : Int) : Prop :=
  E.timestamp (lastInstant day) < 253402300800 ∧
    (E.timestamp t < E.timestamp (firstInstant day) ∨ t = firstInstant day ∨
      E.timestamp (lastInstant day) < E.timestamp t)

variable {t : Int} {column : Work → Option Int} {field : Field} {db : Database} {work : Work}
  {document : Field → Value}

/-- A comparison with a day in the database. -/
theorem sqlMatches_iff (comparison : Comparison) (h : DateOnly E date day) (hcolumn : column work = some t)
    (hoperator : (operator, comparison) ∈ comparisons) :
    SqlMatches E column db work (operator ++ date) ↔
      E.timestamp (lastInstant day) < 253402300800 ∧
        (dateCondition comparison (day * 86400 * 1000000)
          (sqlStop (some (E.timestamp (lastInstant day)))) (some t)).holds = true := by
  obtain ⟨hlow, hhigh⟩ := timestamp_lastInstant E day
  obtain ⟨hfirstYear, hlastYear⟩ := h.years
  have hstart : fromTimestamp (day * 86400) = .ok (day * 86400 * 1000000) :=
    fromTimestamp_ok (by omega)
  unfold SqlMatches sqlDateExpression
  rw [dateBounds_dateOnly h hoperator]
  simp only [hstart]
  by_cases hyear : E.timestamp (lastInstant day) < 253402300800
  · have hstop : fromTimestampOpt (some (E.timestamp (lastInstant day))) =
        .ok (sqlStop (some (E.timestamp (lastInstant day)))) := by
      apply fromTimestampOpt_ok
      intro seconds hseconds
      simp only [Option.toList_some, List.mem_singleton] at hseconds
      omega
    simp only [hstop]
    constructor
    · rintro ⟨condition, hcondition, hholds⟩
      cases hcondition
      rw [← hcolumn]
      exact ⟨hyear, hholds⟩
    · rintro ⟨-, hholds⟩
      rw [← hcolumn] at hholds
      exact ⟨_, rfl, hholds⟩
  · -- the end of the last day is rounded to the year 10000
    have herror : fromTimestampOpt (some (E.timestamp (lastInstant day))) = .error .valueError := by
      have hzero : E.timestamp (lastInstant day) ≠ 0 := by omega
      simp [fromTimestampOpt, hzero, fromTimestamp, hyear, Except.map]
    simp only [herror]
    constructor
    · rintro ⟨condition, hcondition, -⟩
      cases hcondition
    · exact fun hand => absurd hand.1 hyear

/-- A comparison with a day in the index. -/
theorem indexMatches_iff (comparison : Comparison) (h : DateOnly E date day)
    (hoperator : (operator, comparison) ∈ comparisons) :
    IndexMatches E field document (operator ++ date) ↔
      (dateExpression field ⟨comparison, day * 86400, some (E.timestamp (lastInstant day))⟩).satisfied
        E.foldCase document = true := by
  unfold IndexMatches
  rw [dateBounds_dateOnly h hoperator]
  constructor
  · rintro ⟨bounds, hbounds, hsatisfied⟩
    cases hbounds
    exact hsatisfied
  · exact fun hsatisfied => ⟨_, rfl, hsatisfied⟩

variable (db) in
/-- The answers of the database, as comparisons of the instant. -/
theorem sqlMatches_cases (h : DateOnly E date day) (hcolumn : column work = some t)
    (hyear : E.timestamp (lastInstant day) < 253402300800) :
    (SqlMatches E column db work ("<".toList ++ date) ↔ t < firstInstant day) ∧
    (SqlMatches E column db work ("<=".toList ++ date) ↔ t ≤ firstInstant day) ∧
    (SqlMatches E column db work (">".toList ++ date) ↔ t > firstInstant day) ∧
    (SqlMatches E column db work (">=".toList ++ date) ↔ t ≥ firstInstant day) ∧
    (SqlMatches E column db work ("=".toList ++ date) ↔
      if E.timestamp (lastInstant day) = 0 then t = firstInstant day
      else firstInstant day ≤ t ∧ t ≤ E.timestamp (lastInstant day) * 1000000) := by
  have hfirst : day * 86400 * 1000000 = firstInstant day := by unfold firstInstant; omega
  refine ⟨(sqlMatches_iff .lt h hcolumn (by decide)).trans ?_,
    (sqlMatches_iff .le h hcolumn (by decide)).trans ?_,
    (sqlMatches_iff .gt h hcolumn (by decide)).trans ?_,
    (sqlMatches_iff .ge h hcolumn (by decide)).trans ?_,
    (sqlMatches_iff .eq h hcolumn (by decide)).trans ?_⟩ <;> rw [hfirst]
  iterate 4 · simp [dateCondition, hyear]
  · by_cases hzero : E.timestamp (lastInstant day) = 0
    · simp [dateCondition, sqlStop, hzero]
    · simp [dateCondition, sqlStop, hzero, hyear]

/-- The answers of the index, as comparisons of the timestamp. -/
theorem indexMatches_cases (h : DateOnly E date day)
    (hfield : document field = .one (.number (E.timestamp t))) :
    (IndexMatches E field document ("<".toList ++ date) ↔ E.timestamp t < day * 86400) ∧
    (IndexMatches E field document ("<=".toList ++ date) ↔ E.timestamp t ≤ day * 86400) ∧
    (IndexMatches E field document (">".toList ++ date) ↔ E.timestamp t > day * 86400) ∧
    (IndexMatches E field document (">=".toList ++ date) ↔ E.timestamp t ≥ day * 86400) ∧
    (IndexMatches E field document ("=".toList ++ date) ↔
      day * 86400 ≤ E.timestamp t ∧ E.timestamp t ≤ E.timestamp (lastInstant day)) := by
  have hnumber := Expression.satisfied_number E.foldCase document (some (E.timestamp t)) hfield
  refine ⟨(indexMatches_iff .lt h (by decide)).trans ?_, (indexMatches_iff .le h (by decide)).trans ?_,
    (indexMatches_iff .gt h (by decide)).trans ?_, (indexMatches_iff .ge h (by decide)).trans ?_,
    (indexMatches_iff .eq h (by decide)).trans ?_⟩ <;> simp [dateExpression, hnumber]

/-- An instant in the middle of a day is on the day and later than it. -/
theorem apart_of_laws (h : DateOnly E date day) (hcolumn : column work = some t)
    (hfield : document field = .one (.number (E.timestamp t)))
    (hlaws : DateLaws E column field db work document date day t) : ApartFromDay E day t := by
  -- without a condition in the database there is no trichotomy
  have hyear : E.timestamp (lastInstant day) < 253402300800 := by
    rcases hlaws.sql.some with hholds | hholds | hholds
    · exact ((sqlMatches_iff .lt h hcolumn (by decide)).mp hholds).1
    · exact ((sqlMatches_iff .eq h hcolumn (by decide)).mp hholds).1
    · exact ((sqlMatches_iff .gt h hcolumn (by decide)).mp hholds).1
  obtain ⟨-, -, hgt, -, -⟩ := sqlMatches_cases db h hcolumn hyear
  obtain ⟨-, -, -, -, heq⟩ := indexMatches_cases h hfield
  refine ⟨hyear, ?_⟩
  rw [timestamp_firstInstant]
  by_contra hnot
  have hbetween : day * 86400 ≤ E.timestamp t ∧ E.timestamp t ≤ E.timestamp (lastInstant day) := by
    omega
  have hindex := heq.mpr hbetween
  rcases lt_trichotomy t (firstInstant day) with hbefore | hfirst | hafter
  · have honDay := hlaws.index.eq_iff.mp hindex
    exact absurd honDay.1 (by omega)
  · exact hnot (.inr (.inl hfirst))
  · have hsql := (hlaws.agree "=".toList (by decide)).mpr hindex
    exact hlaws.sql.notEqGt ⟨hsql, hgt.mpr hafter⟩

/-- Where the instant lies if its timestamp is apart from those of the day. -/
theorem ApartFromDay.cases (h : ApartFromDay E day t) :
    (t < firstInstant day ∧ E.timestamp t < day * 86400) ∨
      (t = firstInstant day ∧ E.timestamp t = day * 86400) ∨
      (lastInstant day < t ∧ E.timestamp (lastInstant day) * 1000000 < t ∧
        E.timestamp (lastInstant day) < E.timestamp t) := by
  obtain ⟨-, hbefore | rfl | hafter⟩ := h
  · rw [timestamp_firstInstant] at hbefore
    refine .inl ⟨?_, hbefore⟩
    by_contra hnot
    have := E.timestamp_mono _ _ (Int.not_lt.mp hnot)
    rw [timestamp_firstInstant] at this
    omega
  · exact .inr (.inl ⟨rfl, timestamp_firstInstant E day⟩)
  · refine .inr (.inr ⟨?_, ?_, hafter⟩)
    · by_contra hnot
      have := E.timestamp_mono _ _ (Int.not_lt.mp hnot)
      omega
    · by_contra hnot
      have := timestamp_le E (Int.not_lt.mp hnot)
      omega

/-- Comparisons with one number are a trichotomy. -/
theorem dayLaws_of_order {holds : Text → Prop} {onDay : Prop} {x a : Int}
    (hlt : holds "<".toList ↔ x < a) (hle : holds "<=".toList ↔ x ≤ a)
    (hgt : holds ">".toList ↔ x > a) (hge : holds ">=".toList ↔ x ≥ a)
    (heq : holds "=".toList ↔ x = a) (hday : onDay ↔ x = a) : DayLaws holds onDay where
  some := by
    rw [hlt, heq, hgt]
    omega
  notLtEq := by
    rw [hlt, heq]
    omega
  notLtGt := by
    rw [hlt, hgt]
    omega
  notEqGt := by
    rw [heq, hgt]
    omega
  eq_iff := heq.trans hday.symm
  le_iff := by
    rw [hle, hlt, heq]
    omega
  ge_iff := by
    rw [hge, heq, hgt]
    omega

theorem laws_of_apart (h : DateOnly E date day) (hcolumn : column work = some t)
    (hfield : document field = .one (.number (E.timestamp t))) (hapart : ApartFromDay E day t) :
    DateLaws E column field db work document date day t := by
  obtain ⟨hlow, hhigh⟩ := timestamp_lastInstant E day
  have hplaces := hapart.cases
  obtain ⟨hlt, hle, hgt, hge, heq⟩ := sqlMatches_cases db h hcolumn hapart.1
  obtain ⟨hlt', hle', hgt', hge', heq'⟩ := indexMatches_cases h hfield
  -- the answers to `=` are those of a comparison with the first instant
  have hfirst : E.timestamp t = day * 86400 ↔ t = firstInstant day := by
    unfold firstInstant lastInstant at *
    omega
  have hday : OnDay day t ↔ t = firstInstant day := by
    unfold OnDay firstInstant lastInstant at *
    omega
  have heqSql : SqlMatches E column db work ("=".toList ++ date) ↔ t = firstInstant day := by
    rw [heq]
    unfold firstInstant lastInstant at *
    split <;> omega
  have heqIndex : IndexMatches E field document ("=".toList ++ date) ↔
      E.timestamp t = day * 86400 := by
    rw [heq']
    unfold firstInstant lastInstant at *
    omega
  refine ⟨dayLaws_of_order hlt hle hgt hge heqSql hday,
    dayLaws_of_order hlt' hle' hgt' hge' heqIndex (hday.trans hfirst.symm), ?_⟩
  intro operator hoperator
  simp only [comparisons, List.map_cons, List.map_nil, List.mem_cons, List.not_mem_nil,
    or_false] at hoperator
  unfold firstInstant lastInstant at *
  rcases hoperator with rfl | rfl | rfl | rfl | rfl | rfl
  · -- a date alone is taken for `=`
    have hsql := (sqlMatches_iff .eq h hcolumn (by decide)).symm.trans heqSql
    have hindex := (indexMatches_iff .eq h (by decide)).symm.trans heqIndex
    exact ((sqlMatches_iff .eq h hcolumn (by decide)).trans (hsql.trans hfirst.symm)).trans
      ((indexMatches_iff .eq h (by decide)).trans hindex).symm
  · rw [hlt, hlt']
    omega
  · rw [hle, hle']
    omega
  · rw [heqSql, heqIndex, hfirst]
  · rw [hge, hge']
    omega
  · rw [hgt, hgt']
    omega

/-- **Comparisons with a day.**  They are a trichotomy in the database and in the index, with
the same answers, exactly for the instants apart from the day and for its first instant. -/
theorem dateLaws_iff (E : FilterRuntime) {date : Text} {day : Int} (h : DateOnly E date day)
    (column : Work → Option Int) (field : Field) (db : Database) (work : Work) {t : Int}
    (hcolumn : column work = some t) (document : Field → Value)
    (hfield : document field = .one (.number (E.timestamp t))) :
    DateLaws E column field db work document date day t ↔ ApartFromDay E day t :=
  ⟨apart_of_laws h hcolumn hfield, laws_of_apart h hcolumn hfield⟩

theorem newYear_dateOnly : DateOnly asciiFilters "2026-01-01".toList 20454 :=
  ⟨by decide, by decide, by decide, by decide, by decide⟩

/-- On the day after, the comparisons with a day are as they should be. -/
theorem dateLaws_iff_next_day :
    DateLaws asciiFilters (fun work => some work.createdAt) .createdTs
      (gallery (workAt (newYear + 86400000000)) .visible) (workAt (newYear + 86400000000))
      (buildWorkDocument asciiFilters (gallery (workAt (newYear + 86400000000)) .visible)
        (workAt (newYear + 86400000000))).field
      "2026-01-01".toList 20454 (newYear + 86400000000) := by
  refine (dateLaws_iff asciiFilters newYear_dateOnly _ _ _ _ rfl _ rfl).mpr ⟨by decide, ?_⟩
  exact .inr (.inr (by decide))

/-- Noon of a day is on the day and later than it, in the database and in the index. -/
theorem noon_later_than_its_day :
    (SqlMatches asciiFilters (fun work => some work.createdAt)
        (gallery (workAt (newYear + 43200000000)) .visible) (workAt (newYear + 43200000000))
        "=2026-01-01".toList ∧
      SqlMatches asciiFilters (fun work => some work.createdAt)
        (gallery (workAt (newYear + 43200000000)) .visible) (workAt (newYear + 43200000000))
        ">2026-01-01".toList) ∧
    IndexMatches asciiFilters .createdTs
        (buildWorkDocument asciiFilters (gallery (workAt (newYear + 43200000000)) .visible)
          (workAt (newYear + 43200000000))).field "=2026-01-01".toList ∧
      IndexMatches asciiFilters .createdTs
        (buildWorkDocument asciiFilters (gallery (workAt (newYear + 43200000000)) .visible)
          (workAt (newYear + 43200000000))).field ">2026-01-01".toList :=
  ⟨⟨⟨_, rfl, by decide⟩, ⟨_, rfl, by decide⟩⟩, ⟨_, rfl, by decide⟩, ⟨_, rfl, by decide⟩⟩

end Matches

end DateComparisons
