import AutoGallery.WorkPagination
import AutoGallery.FilterAscii

/-!
# Pages of a sorted order

Following the cursors of `_search_works_db` under a sort that works accept.  Every
order is that of the places `sortPlace`, the condition of a cursor compares places,
and the reversed order is the opposite one; so the pages are those of a keyset walk.
-/

namespace SortedPages

open PyText SearchLanguage SearchFilters ShuffleRing WorkDatabase WorkPagination Keyset Sql
  FilterAscii

section Accepted

/-- A sort that works accept, other than `random`. -/
structure AcceptedSort (query : SearchQuery) : Prop where
  works : .works ∈ (sortTargets.lookup (querySort query)).getD []
  sorted : querySort query ≠ "random".toList

/-- Works have the attribute of every sort they accept. -/
theorem sortSpec_onWork {sort : Text} (h : .works ∈ (sortTargets.lookup sort).getD []) :
    (sortSpec sort).2.1 = .onWork (sortSpec sort).1 := by
  have htable : ∀ entry ∈ sortTargets, .works ∈ entry.2 →
      (sortSpec entry.1).2.1 = .onWork (sortSpec entry.1).1 := by decide
  cases hlookup : sortTargets.lookup sort with
  | none => simp [hlookup] at h
  | some targets =>
    rw [hlookup, Option.getD_some] at h
    obtain ⟨before, after, htargets, _⟩ := List.lookup_eq_some_iff.mp hlookup
    exact htable (sort, targets) (by simp [htargets]) h

theorem AcceptedSort.not_random {query : SearchQuery} (h : AcceptedSort query) :
    queryValues query .sort ≠ ["random".toList] := by
  intro hrandom
  apply h.sorted
  rw [querySort, hrandom]
  rfl

end Accepted

section Orders

variable (query : SearchQuery)

/-- The place of a work in the order of a query. -/
def sortPlace (work : Work) :
    WithTop (Directed (sqlSortSpec query).2.2 SortValue) ×ₗ Directed (sqlSortSpec query).2.2 Uuid :=
  place (sqlSortSpec query).2.2 ((sqlSortSpec query).1.value work) work.id

theorem nodup_sortPlace {rows : List Work} (h : (rows.map Work.id).Nodup) :
    (rows.map (sortPlace query)).Nodup := by
  rw [List.Nodup, List.pairwise_map] at h ⊢
  exact h.imp fun hne heq => hne (place_inj heq)

variable [LinearOrder Title]

theorem applySqlSort_forward (rows : List Work) :
    applySqlSort query false rows = arranged (sortPlace query) rows := by
  apply orderBy_forward
  cases hnullable : (sqlSortSpec query).1.nullable with
  | true => exact .inl (if_pos hnullable)
  | false => exact .inr (Column.value_ne_none hnullable)

theorem applySqlSort_backward (rows : List Work) :
    applySqlSort query true rows =
      arranged (fun work => OrderDual.toDual (sortPlace query work)) rows := by
  apply orderBy_backward
  cases hnullable : (sqlSortSpec query).1.nullable with
  | true => exact .inl (if_pos hnullable)
  | false => exact .inr (Column.value_ne_none hnullable)

/-- **The condition of a cursor forward** keeps the works behind its place. -/
theorem holds_seek_after (value : Option SortValue) (identity : Uuid) (work : Work) :
    (workSeekExpression query .after value identity work).holds =
      decide (place (sqlSortSpec query).2.2 value identity < sortPlace query work) := by
  rw [Bool.eq_iff_iff, decide_eq_true_iff, sortPlace, place_lt_iff]
  unfold workSeekExpression rowBefore
  obtain ⟨column, _, ascending⟩ := sqlSortSpec query
  cases value with
  | none =>
    cases hvalue : column.value work <;> cases ascending <;>
      simp [hvalue, columnBefore, valueBefore]
  | some x =>
    cases hvalue : column.value work with
    | none => cases ascending <;> simp [hvalue, columnBefore, Truth.holds_any]
    | some y =>
      cases ascending <;>
        simp [hvalue, columnBefore, valueBefore, Truth.holds_any, eq_comm (a := y) (b := x)]

theorem holds_seek_before (value : Option SortValue) (identity : Uuid) (work : Work) :
    (workSeekExpression query .before value identity work).holds =
      decide (sortPlace query work < place (sqlSortSpec query).2.2 value identity) := by
  rw [Bool.eq_iff_iff, decide_eq_true_iff, sortPlace, place_lt_iff]
  unfold workSeekExpression rowBefore
  obtain ⟨column, _, ascending⟩ := sqlSortSpec query
  cases value <;> cases hvalue : column.value work <;> cases ascending <;>
    simp [hvalue, columnBefore, valueBefore, Truth.holds_not, Truth.of_ne_unknown]

end Orders

section Pages

variable (C : CursorRuntime) (query : SearchQuery) (forceSfw : Bool)

/-- The cursor from a work under a sorted order. -/
def sortCursor (seek : Seek) (work : Work) : Cursor :=
  ⟨1, C.queryDigest query.canonical, forceSfw, querySort query, Seek.text seek, work.id,
    (sqlSortSpec query).1.value work, none, none, none⟩

theorem encodeWorkCursor_eq {query : SearchQuery} (h : AcceptedSort query) (seek : Seek)
    (work : Work) :
    encodeWorkCursor C query forceSfw seek work = .ok (sortCursor C query forceSfw seek work) := by
  have hattribute : (sqlSortSpec query).2.1 = .onWork (sqlSortSpec query).1 :=
    sortSpec_onWork h.works
  unfold encodeWorkCursor
  rw [hattribute]
  rfl

theorem decodeWorkCursor_eq (seek : Seek) (work : Work) :
    decodeWorkCursor C query forceSfw (sortCursor C query forceSfw seek work) =
      .ok (seek, (sqlSortSpec query).1.value work, work.id) := by
  unfold decodeWorkCursor
  rw [if_neg (by simp [sortCursor])]
  simp only [sortCursor, readSeek_text]

variable [LinearOrder Title] {query} {rows : List Work}

/-- The page that is made of fetched works. -/
theorem searchWorksDb_of_fetch (h : AcceptedSort query) (seed : Option Int) {offset limit : Nat}
    {cursor : Option Cursor} {pageRows : List Work}
    (hfetch : fetchSortedPage C rows query offset limit forceSfw cursor = .ok pageRows) :
    searchWorksDb C rows query offset limit forceSfw cursor seed =
      .ok ⟨pageRows, pageRows.getLast?.map (sortCursor C query forceSfw .after),
        if cursor.isSome ∨ 0 < offset then
          pageRows.head?.map (sortCursor C query forceSfw .before) else none⟩ := by
  have hencode : ∀ seek, pageCursor C query forceSfw none seek =
      fun work => .ok (sortCursor C query forceSfw seek work) := by
    intro seek
    funext work
    exact encodeWorkCursor_eq C forceSfw h seek work
  have hmap : ∀ (row : Option Work) seek, row.mapM (pageCursor C query forceSfw none seek) =
        .ok (row.map (sortCursor C query forceSfw seek)) := by
    intro row seek
    rw [hencode]
    cases row <;> rfl
  unfold searchWorksDb
  rw [if_neg h.not_random]
  simp only [pure_bind, hfetch, hmap]
  by_cases hprevious : cursor.isSome ∨ 0 < offset
  · simp only [hprevious, if_true]
    rfl
  · simp only [hprevious, if_false]
    rfl

variable {done rest : List Work} {b : Work}

section

variable (hids : (rows.map Work.id).Nodup) (offset limit : Nat)
  (hsplit : applySqlSort query false rows = done ++ b :: rest)
include hids offset limit hsplit

/-- Behind a work of the order. -/
theorem fetchSortedPage_after :
    fetchSortedPage C rows query offset limit forceSfw (some (sortCursor C query forceSfw .after b)) =
      .ok (rest.take limit) := by
  have hplaces := nodup_sortPlace query hids
  have hbehind : applySqlSort query false (selectWhere rows (workSeekExpression query .after
      ((sqlSortSpec query).1.value b) b.id)) = rest := by
    unfold selectWhere
    simp only [holds_seek_after]
    rw [applySqlSort_forward] at hsplit ⊢
    rw [arranged_filter _ hplaces, hsplit]
    exact filter_beyond (hsplit ▸ arranged_strict _ hplaces)
  unfold fetchSortedPage
  simp only [decodeWorkCursor_eq]
  show Except.ok _ = _
  simp [hbehind]

/-- Before a work of the order. -/
theorem fetchSortedPage_before :
    fetchSortedPage C rows query offset limit forceSfw (some (sortCursor C query forceSfw .before b)) =
      .ok (lastOnes limit done) := by
  have hplaces := nodup_sortPlace query hids
  have hahead : applySqlSort query true (selectWhere rows (workSeekExpression query .before
      ((sqlSortSpec query).1.value b) b.id)) = done.reverse := by
    unfold selectWhere
    simp only [holds_seek_before]
    rw [applySqlSort_forward] at hsplit
    rw [applySqlSort_backward, arranged_dual, arranged_filter _ hplaces, hsplit]
    · exact congrArg _ (filter_ahead (hsplit ▸ arranged_strict _ hplaces))
    · exact hplaces.sublist (List.Sublist.map _ List.filter_sublist)
  unfold fetchSortedPage
  simp only [decodeWorkCursor_eq]
  show Except.ok _ = _
  simp [hahead, reverse_take_reverse]

end

/-- The pages of a sorted order are served as those of a keyset. -/
theorem serves_sorted (h : AcceptedSort query) (hids : (rows.map Work.id).Nodup) (limit : Nat)
    (seed : Option Int) :
    Serves (applySqlSort query false rows) limit (sortCursor C query forceSfw .after)
      (sortCursor C query forceSfw .before)
      (fun cursor => searchWorksDb C rows query 0 limit forceSfw cursor seed) where
  first := ⟨none, searchWorksDb_of_fetch C forceSfw h seed rfl⟩
  forward done b rest hsplit := by
    rw [searchWorksDb_of_fetch C forceSfw h seed
      (fetchSortedPage_after C forceSfw hids 0 limit hsplit)]
    simp
  backward done b rest hsplit :=
    ⟨_, searchWorksDb_of_fetch C forceSfw h seed
      (fetchSortedPage_before C forceSfw hids 0 limit hsplit), rfl⟩

/-- Whether a work comes before another under a sort: by the column, with `NULL`s last
in both directions, and then by the identity in the same direction. -/
def sortedBefore (query : SearchQuery) (a b : Work) : Prop :=
  rowBefore (sqlSortSpec query).2.2 false ((sqlSortSpec query).1.value a) a.id
    ((sqlSortSpec query).1.value b) b.id = true

theorem pairwise_sortedBefore (hids : (rows.map Work.id).Nodup) :
    (applySqlSort query false rows).Pairwise (sortedBefore query) := by
  rw [applySqlSort_forward]
  exact (arranged_strict _ (nodup_sortPlace query hids)).imp fun hlt => place_lt_iff.mp hlt

/-- **Every matching work is visited once.**  Following the cursors to the next page from
the first one until a page is empty gives the works in the order of the sort, and the
cursor of every later page to the previous one leads back to it. -/
theorem sortedPages_complete (h : AcceptedSort query) (hids : (rows.map Work.id).Nodup)
    (seed : Option Int) {limit : Nat} (hlimit : 1 ≤ limit) :
    ∃ pages, (∀ fuel, rows.length < fuel →
        follow (fun cursor => searchWorksDb C rows query 0 limit forceSfw cursor seed) fuel none =
          some pages) ∧
      (pages.flatMap Page.items).Perm rows ∧
      (pages.flatMap Page.items).Pairwise (sortedBefore query) ∧
      pages.flatMap Page.items = applySqlSort query false rows ∧
      LeadsBack (fun cursor => searchWorksDb C rows query 0 limit forceSfw cursor seed) pages := by
  have hperm : (applySqlSort query false rows).Perm rows := by
    rw [applySqlSort_forward]
    exact arranged_perm _ rows
  obtain ⟨pages, hpages, hrows, hback⟩ :=
    follow_complete (serves_sorted C forceSfw h hids limit seed) hlimit
  refine ⟨pages, ?_, ?_, ?_, hrows, hback⟩
  · intro fuel hfuel
    exact hpages fuel (by rwa [hperm.length_eq])
  · rwa [hrows]
  · rw [hrows]
    exact pairwise_sortedBefore hids

end Pages

/-- Titles by code points. -/
instance codePointOrder : LinearOrder Title :=
  LinearOrder.lift' Title.text fun a b h => by
    cases a
    cases b
    exact congrArg Title.mk h

/-- The digest of the query `sort:title-asc`; no seed is looked at. -/
def titleRuntime : CursorRuntime where
  queryDigest _ := "8ff38cc3c61c9130".toList
  seedDigest _ := 0

/-- Three works, one without a title. -/
def titledWorks : List Work :=
  [{ workAt newYear with id := 1, title := none }, { workAt newYear with id := 2 },
    { workAt newYear with id := 3 }]

/-- Works with and without a title, one on each page. -/
theorem sortedPages_complete_titles :
    ∃ query, parseSearchQuery asciiRuntime "sort:title-asc".toList .works = .ok query ∧
      ∃ pages, (∀ fuel, titledWorks.length < fuel →
          follow (fun cursor => searchWorksDb titleRuntime titledWorks query 0 1 true cursor none)
            fuel none = some pages) ∧
        (pages.flatMap Page.items).Perm titledWorks ∧
        (pages.flatMap Page.items).Pairwise (sortedBefore query) ∧
        pages.flatMap Page.items = applySqlSort query false titledWorks ∧
        LeadsBack (fun cursor => searchWorksDb titleRuntime titledWorks query 0 1 true cursor none)
          pages := by
  have hparse : parseSearchQuery asciiRuntime "sort:title-asc".toList .works = .ok _ := rfl
  exact ⟨_, hparse, sortedPages_complete titleRuntime true ⟨by decide, by decide⟩ (by decide) none
    (by decide)⟩

end SortedPages
