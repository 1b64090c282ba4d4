import AutoGallery.ShuffleFilter
import AutoGallery.SortedPages

/-!
# Pages of the random order from the index

`_search_meili_random_works` pages the ring in the index.  Its hits come in the order
of the ring where the rules in front of `sort` do not tell the matching works apart;
the settings of the index leave the ranking rules at their defaults, so that they do
as soon as the query has a text.
-/

namespace MeiliRing

open PyText SearchLanguage SearchFilters ShuffleRing WorkDatabase WorkDocuments WorkPagination List
  RandomPages ShuffleFilter Keyset Meili FilterAscii

variable {text : Text} {baseFilter : Option (Expression Field)} {rows : List Work} {limit : Nat}
  {seed : Int} {first : Work}

section Path

/-- `_free_text`. -/
def freeText (query : SearchQuery) : Text :=
  [' '].intercalate (query.tokens.filterMap fun token =>
    match token.body with
    | .term value => some (if token.quoted then jsonDumps value else value)
    | .qualifier _ => none)

variable (E : FilterRuntime) (engine : Engine Work) (db : Database) (works : List Work)

/-- A work as the index sees it. -/
def indexed (work : Work) : Field → Value :=
  (buildWorkDocument E db work).field

/-- `fetch`: the works that a search in a phase returns, and how many it finds. -/
def meiliFetch (text : Text) (baseFilter : Option (Expression Field)) (start : ShuffleKey)
    (phase : Phase) (count : Nat) (reverse : Bool) (phaseOffset : Nat)
    (boundary : Option RandomWorkCursor) : Results Work :=
  if count = 0 then ⟨[], 0⟩
  else
    search engine E.foldCase (indexed E db) works text
      (meiliRandomPhaseFilter baseFilter start phase boundary reverse)
      (meiliShuffleFields.map (·, if reverse then .desc else .asc)) phaseOffset count

section

variable (fetch : Phase → Nat → Bool → Nat → Option RandomWorkCursor → Results Work)

/-- The page of `_search_meili_random_works` at an offset. -/
def meiliOffsetPage (offset limit : Nat) : List Work :=
  let phaseZero := fetch .zero limit false offset none
  if phaseZero.estimatedTotalHits ≤ offset then
    (fetch .one limit false (offset - phaseZero.estimatedTotalHits) none).hits
  else if phaseZero.hits.length < limit then
    phaseZero.hits ++ (fetch .one (limit - phaseZero.hits.length) false 0 none).hits
  else phaseZero.hits

/-- The hits of `_search_meili_random_works`. -/
def meiliRandomHits
    (C : CursorRuntime) (query : SearchQuery) (offset limit : Nat) (forceSfw : Bool) (seed : Int)
    (start : ShuffleKey) : Option Cursor → Except PageError (List Work)
  | some cursor =>
    (randomBoundary C query forceSfw seed start cursor).map fun boundary =>
      boundaryPage (fun phase count reverse phaseOffset boundary =>
        (fetch phase count reverse phaseOffset boundary).hits) boundary limit
  | none => .ok (meiliOffsetPage fetch offset limit)

end

/-- `_search_meili_random_works` when the index answers.  The index holds the documents of
the works; a hit is given by its work. -/
def searchMeiliRandomWorks (resolved : Resolution) (C : CursorRuntime) (query : SearchQuery)
    (offset limit : Nat) (forceSfw : Bool) (seed : Int) (cursor : Option Cursor) :
    Except PageError (Page Work Cursor) := do
  let baseFilter ← (compileMeiliFilter E .works resolved query forceSfw .id).mapError .filter
  let start ← shuffleRingStart C seed
  let hits ← meiliRandomHits (meiliFetch E engine db works (freeText query) baseFilter start) C
    query offset limit forceSfw seed start cursor
  let cursorOf := fun seek (work : Work) =>
    encodeRandomWorkCursor C query forceSfw seed (phaseOf start work.shuffleKey) seek
      work.shuffleKey work.id
  pure ⟨hits, hits.getLast?.map (cursorOf .after),
    if cursor.isSome ∨ 0 < offset then hits.head?.map (cursorOf .before) else none⟩

end Path

section Agreement

variable {E : FilterRuntime} {engine : Engine Work} {db : Database} {works : List Work}

/-- The works that a text and a filter match. -/
def matchingWorks (E : FilterRuntime) (finds : Text → Work → Bool) (db : Database)
    (works : List Work) (text : Text) (baseFilter : Option (Expression Field)) : List Work :=
  works.filter fun work =>
    finds text work && baseFilter.all (·.satisfied E.foldCase (indexed E db work))

theorem nodup_matchingWorks (h : (works.map Work.id).Nodup) (finds : Text → Work → Bool)
    (text : Text) (baseFilter : Option (Expression Field)) :
    ((matchingWorks E finds db works text baseFilter).map Work.id).Nodup :=
  h.sublist (Sublist.map _ filter_sublist)

/-- A search in a phase finds the matching works in a window. -/
theorem found_eq (text : Text) (baseFilter : Option (Expression Field)) (start : ShuffleKey)
    (phase : Phase) (reverse : Bool) (boundary : Option RandomWorkCursor) :
    (works.filter fun work => engine.finds text work &&
        (meiliRandomPhaseFilter baseFilter start phase boundary reverse).all
          (·.satisfied E.foldCase (indexed E db work))) =
      (matchingWorks E engine.finds db works text baseFilter).filter
        (inWindow start phase reverse boundary) := by
  unfold matchingWorks
  rw [filter_filter]
  apply filter_congr
  intro work _
  have hfilter := satisfied_phaseFilter E db work E.foldCase baseFilter start phase boundary reverse
  unfold indexed
  rw [hfilter, ← Bool.and_assoc, Bool.and_comm]

/-- Ascending shuffle fields follow the ring, descending ones go against it. -/
theorem sortBefore_shuffle (a b : Work) :
    (sortBefore (indexed E db) (meiliShuffleFields.map (·, .asc)) a b = true ↔
        workPlace a < workPlace b) ∧
      (sortBefore (indexed E db) (meiliShuffleFields.map (·, .desc)) a b = true ↔
        OrderDual.toDual (workPlace a) < OrderDual.toDual (workPlace b)) := by
  have hnumbers : ∀ work, ∀ f ∈ meiliShuffleFields,
      indexed E db work f = .one (.number (shuffleNumber work f)) :=
    fun work f hf => field_shuffle E db work hf
  obtain ⟨hasc, hdesc⟩ := sortBefore_numbers hnumbers a b
  rw [hasc, hdesc, OrderDual.toDual_lt_toDual, map_shuffleNumber, map_shuffleNumber]
  exact ⟨shuffleParts_before _ _ _ _, shuffleParts_before _ _ _ _⟩

/-- The rules in front of `sort` do not tell the matching works apart. -/
def Level (engine : Engine Work) (text : Text) (rows : List Work) : Prop :=
  ∀ a ∈ rows, ∀ b ∈ rows, engine.rank text a = engine.rank text b

variable (hrows : matchingWorks E engine.finds db works text baseFilter = rows)

include hrows

variable {count : Nat} {resolved : Resolution}

section

variable (start : ShuffleKey) (phase : Phase) (hcount : count ≠ 0) (offset : Nat)
include start phase hcount offset

/-- The answer to a search in a phase, by rank and place. -/
theorem meiliFetch_forward (boundary : Option RandomWorkCursor) :
    meiliFetch E engine db works text baseFilter start phase count false offset boundary =
      ⟨((arranged (fun work => toLex (engine.rank text work, workPlace work))
          (rows.filter (inWindow start phase false boundary))).drop offset).take count,
        (rows.filter (inWindow start phase false boundary)).length⟩ := by
  unfold meiliFetch
  rw [if_neg hcount, if_neg Bool.false_ne_true, ← hrows]
  exact search_eq engine (found_eq ..) (fun a b => (sortBefore_shuffle a b).1) offset count

theorem meiliFetch_backward (boundary : Option RandomWorkCursor) :
    meiliFetch E engine db works text baseFilter start phase count true offset boundary =
      ⟨((arranged (fun work => toLex (engine.rank text work, OrderDual.toDual (workPlace work)))
          (rows.filter (inWindow start phase true boundary))).drop offset).take count,
        (rows.filter (inWindow start phase true boundary)).length⟩ := by
  unfold meiliFetch
  rw [if_neg hcount, if_pos rfl, ← hrows]
  exact search_eq engine (found_eq ..) (fun a b => (sortBefore_shuffle a b).2) offset count

theorem meiliFetch_total :
    (meiliFetch E engine db works text baseFilter start phase count false offset
        none).estimatedTotalHits = (phaseRows rows start phase).length := by
  rw [meiliFetch_forward hrows _ _ hcount, filter_inWindow_none]
  exact (arranged_perm _ _).length_eq.symm

end

section

variable (hids : (rows.map Work.id).Nodup) (hlevel : Level engine text rows)
include hids hlevel

/-- **The index fetches what the database fetches**, where the matching works have one
rank. -/
theorem meiliFetch_hits (start : ShuffleKey) (phase : Phase) (count : Nat) (reverse : Bool)
    (offset : Nat) (boundary : Option RandomWorkCursor) :
    (meiliFetch E engine db works text baseFilter start phase count reverse offset boundary).hits =
      fetchPhase rows start phase count reverse offset boundary := by
  have hkept := nodup_phase hids (inWindow start phase reverse boundary)
  have hsame : Level engine text (rows.filter (inWindow start phase reverse boundary)) :=
    fun a ha b hb => hlevel a (mem_of_mem_filter ha) b (mem_of_mem_filter hb)
  rw [fetchPhase_eq hids]
  by_cases hcount : count = 0
  · subst hcount
    rw [take_zero]
    rfl
  cases reverse with
  | false =>
    rw [meiliFetch_forward hrows _ _ hcount, arranged_level _ _ hkept hsame]
    rfl
  | true =>
    rw [meiliFetch_backward hrows _ _ hcount, arranged_level _ _ (nodup_dual _ hkept) hsame,
      arranged_dual _ hkept]
    rfl

/-- **The page at an offset is the same.**  The two are coded differently: without an
offset the database always begins with phase zero, the index with phase one if phase
zero has no works. -/
theorem meiliOffsetPage_eq (start : ShuffleKey) (offset : Nat) (hlimit : 1 ≤ limit) :
    meiliOffsetPage (meiliFetch E engine db works text baseFilter start) offset limit =
      offsetPage rows start offset limit := by
  have hcount : limit ≠ 0 := by omega
  have hzero : (rows.filter fun work => phaseOf start work.shuffleKey = .zero).length =
      (phaseRows rows start .zero).length := (arranged_perm _ _).length_eq.symm
  unfold meiliOffsetPage offsetPage
  simp only [meiliFetch_total hrows start .zero hcount offset, meiliFetch_hits hrows hids hlevel,
    selectWhere_phase, hzero]
  by_cases hbeyond : (phaseRows rows start .zero).length ≤ offset
  · rw [if_pos hbeyond]
    by_cases hoffset : offset = 0
    · have hnone : phaseRows rows start .zero = [] := length_eq_zero_iff.mp (by omega)
      have hpage : fetchPhase rows start .zero limit false offset none = [] := by
        rw [fetchPhase_offset hids, hnone, drop_nil, take_nil]
      have hshort : ([] : List Work).length < limit := hlimit
      rw [if_neg fun h => h.1 hoffset, hpage, if_pos hshort, hoffset]
      simp
    · rw [if_pos ⟨hoffset, hbeyond⟩]
  · have hwithin : ¬(offset ≠ 0 ∧ (phaseRows rows start .zero).length ≤ offset) :=
      fun h => hbeyond h.2
    rw [if_neg hbeyond, if_neg hwithin]

variable {C : CursorRuntime} {query : SearchQuery} {forceSfw : Bool} {start : ShuffleKey}

/-- The hits are the works that the database fetches. -/
theorem meiliRandomHits_eq (hstart : shuffleRingStart C seed = .ok start) (offset : Nat)
    (hlimit : 1 ≤ limit) (cursor : Option Cursor) :
    meiliRandomHits (meiliFetch E engine db works text baseFilter start) C query offset limit
        forceSfw seed start cursor =
      fetchRandomWorkPage C rows query offset limit forceSfw cursor seed := by
  cases cursor with
  | none =>
    unfold meiliRandomHits fetchRandomWorkPage
    rw [meiliOffsetPage_eq hrows hids hlevel start offset hlimit, hstart]
    rfl
  | some cursor =>
    have hfetch : (fun phase count reverse phaseOffset boundary =>
        (meiliFetch E engine db works text baseFilter start phase count reverse phaseOffset
          boundary).hits) = fetchPhase rows start := by
      funext phase count reverse phaseOffset boundary
      exact meiliFetch_hits hrows hids hlevel start phase count reverse phaseOffset boundary
    rw [fetchRandomWorkPage_some forceSfw hstart, meiliRandomHits, hfetch]

end

omit hrows

variable {C : CursorRuntime} {query : SearchQuery} {forceSfw : Bool} {start : ShuffleKey}

theorem inWindow_zero (work : Work) : inWindow 0 .zero false none work = true := by
  have hzero : phaseOf 0 work.shuffleKey = .zero := phaseOf_eq_zero.mpr (Fin.zero_le _)
  simp [inWindow, hzero]

section

variable
  (hfilter : compileMeiliFilter E .works resolved query forceSfw .id = .ok baseFilter)
  (hstart : shuffleRingStart C seed = .ok start)
include hfilter hstart

/-- **The index returns the pages of the database** where the matching works have one
rank. -/
theorem searchMeili_eq_db [LinearOrder Title]
    (hrows : matchingWorks E engine.finds db works (freeText query) baseFilter = rows)
    (hsort : queryValues query .sort = ["random".toList]) (hids : (rows.map Work.id).Nodup)
    (hlevel : Level engine (freeText query) rows) (offset : Nat) (hlimit : 1 ≤ limit)
    (cursor : Option Cursor) :
    searchMeiliRandomWorks E engine db works resolved C query offset limit forceSfw seed cursor =
      searchWorksDb C rows query offset limit forceSfw cursor (some seed) := by
  unfold searchMeiliRandomWorks
  rw [hfilter, hstart]
  show (meiliRandomHits _ C query offset limit forceSfw seed start cursor).bind _ = _
  rw [meiliRandomHits_eq hrows hids hlevel hstart offset hlimit cursor]
  cases hfetch : fetchRandomWorkPage C rows query offset limit forceSfw cursor seed with
  | error e => exact (searchWorksDb_of_random_error forceSfw hsort hfetch).symm
  | ok hits => exact (searchWorksDb_of_random forceSfw hsort hstart hfetch).symm

/-- The works of the first page are the hits. -/
theorem items_of_searchMeili {offset : Nat} {page : Page Work Cursor}
    (h : searchMeiliRandomWorks E engine db works resolved C query offset limit forceSfw seed none =
      .ok page) :
    page.items = meiliOffsetPage (meiliFetch E engine db works (freeText query) baseFilter start)
      offset limit := by
  unfold searchMeiliRandomWorks at h
  rw [hfilter, hstart] at h
  rw [← Except.ok.inj h]

end

/-- The first hit from the start of the ring has the least rank. -/
theorem first_hit (hrows : matchingWorks E engine.finds db works text baseFilter = rows)
    {other : Work} (hother : other ∈ rows)
    (hpage : meiliOffsetPage (meiliFetch E engine db works text baseFilter 0) 0 1 = [first]) :
    engine.rank text first ≤ engine.rank text other := by
  have hall : rows.filter (inWindow 0 .zero false none) = rows :=
    filter_eq_self.mpr fun work _ => inWindow_zero work
  have hfetch := meiliFetch_forward hrows 0 .zero Nat.one_ne_zero 0 none
  rw [hall, drop_zero] at hfetch
  have hpos : ¬rows.length ≤ 0 := by
    have := length_pos_of_mem hother
    omega
  cases hsorted : arranged (fun work => toLex (engine.rank text work, workPlace work)) rows with
  | nil =>
    have hlength := (arranged_perm (fun work => toLex (engine.rank text work, workPlace work))
      rows).length_eq
    rw [hsorted, length_nil] at hlength
    omega
  | cons head tail =>
    rw [hsorted, take_succ_cons, take_zero] at hfetch
    unfold meiliOffsetPage at hpage
    rw [hfetch] at hpage
    simp only [hpos, if_false, length_singleton, lt_irrefl] at hpage
    obtain rfl : head = first := head_eq_of_cons_eq hpage
    have hle := arranged_head _ hsorted hother
    rcases Prod.Lex.toLex_le_toLex.mp hle with hlt | heq
    · exact hlt.le
    · exact heq.1.le

end Agreement

section Claim

theorem shuffleRingStart_ok (C : CursorRuntime) (hseed : 0 ≤ seed) (hseed' : seed ≤ 0xFFFFFFFF) :
    ∃ start, shuffleRingStart C seed = .ok start :=
  ⟨_, if_pos ⟨hseed, hseed'⟩⟩

theorem two_of_ring (hids : (rows.map Work.id).Nodup) (h : 2 ≤ rows.length) :
    ∃ first second rest, ringOrder rows 0 = first :: second :: rest ∧ second ≠ first := by
  have hperm := ringOrder_perm 0 rows
  have hnodup : (ringOrder rows 0).Nodup := hperm.nodup_iff.mpr hids.of_map
  rw [← hperm.length_eq] at h
  match hring : ringOrder rows 0 with
  | [] => simp [hring] at h
  | [first] => simp [hring] at h
  | first :: second :: rest =>
    rw [hring] at hnodup
    refine ⟨first, second, rest, rfl, ?_⟩
    intro heq
    simp [heq] at hnodup

theorem level_of_few (engine : Engine Work) (text : Text) (h : rows.length ≤ 1) :
    Level engine text rows := by
  intro a ha b hb
  match rows with
  | [] => exact absurd ha not_mem_nil
  | [work] => rw [mem_singleton.mp ha, mem_singleton.mp hb]
  | _ :: _ :: _ => simp at h

/-- An index that ranks one work behind all others. -/
def demote (finds : Text → Work → Bool) (hfinds : ∀ work, finds [] work = true) (last : Work) :
    Engine Work where
  finds := finds
  rank text work := if text ≠ [] ∧ work = last then 1 else 0
  finds_nil := hfinds
  rank_nil a b := by simp

/-- The digests that put the start of the ring at zero. -/
def zeroRuntime : CursorRuntime where
  queryDigest t := t
  seedDigest _ := 0

variable [LinearOrder Title] (E : FilterRuntime) (engine : Engine Work) (db : Database)
  (works : List Work) (resolved : Resolution) (query : SearchQuery) (forceSfw : Bool)

/-- What random pagination is to do for the matching works `rows`: the pages of the
database are those of the ring, and the index returns the same pages. -/
structure RandomPaging (C : CursorRuntime) (seed : Int) (limit : Nat) (rows : List Work)
    (start : ShuffleKey) : Prop where
  starts : shuffleRingStart C seed = .ok start
  perm : (ringOrder rows start).Perm rows
  order : (ringOrder rows start).Pairwise (ringBefore start)
  pages : PagesOfRing (ringOrder rows start) limit (ringCursor C query forceSfw seed start .before)
    (fun offset cursor => searchWorksDb C rows query offset limit forceSfw cursor (some seed))
  same : ∀ offset cursor,
    searchMeiliRandomWorks E engine db works resolved C query offset limit forceSfw seed cursor =
      searchWorksDb C rows query offset limit forceSfw cursor (some seed)

variable {E engine db works resolved query forceSfw}

section

variable (hfilter : compileMeiliFilter E .works resolved query forceSfw .id = .ok baseFilter)
include hfilter

/-- Random pagination where the matching works have one rank. -/
theorem randomPaging_of_level
    (hrows : matchingWorks E engine.finds db works (freeText query) baseFilter = rows)
    (hsort : queryValues query .sort = ["random".toList]) (hids : (rows.map Work.id).Nodup)
    (hlevel : Level engine (freeText query) rows) (C : CursorRuntime) (hseed : 0 ≤ seed)
    (hseed' : seed ≤ 0xFFFFFFFF) (hlimit : 1 ≤ limit) :
    ∃ start, RandomPaging E engine db works resolved query forceSfw C seed limit rows start := by
  obtain ⟨start, hstart⟩ := shuffleRingStart_ok C hseed hseed'
  exact ⟨start, hstart, ringOrder_perm start rows, pairwise_ringOrder start hids,
    pagesOfRing_db forceSfw hsort hstart hids hlimit,
    fun offset cursor => searchMeili_eq_db hfilter hstart hrows hsort hids hlevel offset hlimit
      cursor⟩

/-- **With a text, the index can put the works in another order.**  The first work of the
ring is ranked behind the others, and the first page of the index is another work. -/
theorem not_same_of_demoted {finds : Text → Work → Bool} (hfinds : ∀ work, finds [] work = true)
    (hrows : matchingWorks E finds db works (freeText query) baseFilter = rows)
    (htext : freeText query ≠ []) {second : Work} {rest : List Work}
    (hring : ringOrder rows 0 = first :: second :: rest) (hne : second ≠ first) :
    ¬∃ start, RandomPaging E (demote finds hfinds first) db works resolved query forceSfw
      zeroRuntime 0 1 rows start := by
  intro ⟨start, hpaging⟩
  obtain rfl : 0 = start := Except.ok.inj hpaging.starts
  obtain ⟨page, hpage, hitems⟩ := hpaging.pages.slice 0
  have hsecond : second ∈ rows := hpaging.perm.mem_iff.mp (by simp [hring])
  rw [← hpaging.same 0 none] at hpage
  rw [items_of_searchMeili hfilter hpaging.starts hpage, hring] at hitems
  have hle : (demote finds hfinds first).rank (freeText query) first ≤
      (demote finds hfinds first).rank (freeText query) second := first_hit hrows hsecond hitems
  simp [demote, htext, hne] at hle

end

/-- **Random pagination, exactly.**  For given matching works it holds for every ranking
of the index, every point of the ring and every page size just if the query has no text,
or fewer than two works match. -/
theorem randomPaging_iff
    (hfilter : compileMeiliFilter E .works resolved query forceSfw .id = .ok baseFilter)
    (hsort : queryValues query .sort = ["random".toList]) (hids : (works.map Work.id).Nodup)
    {finds : Text → Work → Bool} (hfinds : ∀ work, finds [] work = true) :
    (∀ engine : Engine Work, engine.finds = finds → ∀ (C : CursorRuntime) (seed : Int), 0 ≤ seed →
      seed ≤ 0xFFFFFFFF → ∀ limit, 1 ≤ limit → ∃ start,
        RandomPaging E engine db works resolved query forceSfw C seed limit
          (matchingWorks E finds db works (freeText query) baseFilter) start) ↔
      freeText query = [] ∨
        (matchingWorks E finds db works (freeText query) baseFilter).length ≤ 1 := by
  have hrows : ((matchingWorks E finds db works (freeText query) baseFilter).map Work.id).Nodup :=
    nodup_matchingWorks hids finds (freeText query) baseFilter
  constructor
  · intro hpaging
    by_contra hnot
    obtain ⟨htext, hmany⟩ := not_or.mp hnot
    obtain ⟨first, second, rest, hring, hne⟩ := two_of_ring hrows (by omega)
    exact not_same_of_demoted hfilter hfinds rfl htext hring hne
      (hpaging (demote finds hfinds first) rfl zeroRuntime 0 (by decide) (by decide) 1 le_rfl)
  · intro hcondition engine hengine C seed hseed hseed' limit hlimit
    subst hengine
    refine randomPaging_of_level hfilter rfl hsort hrows ?_ C hseed hseed' hlimit
    rcases hcondition with htext | hfew
    · intro a _ b _
      rw [htext]
      exact engine.rank_nil a b
    · exact level_of_few engine (freeText query) hfew

end Claim

section TextSearch

/-- The words of a text. -/
def words (t : Text) : List Text :=
  (t.splitOn ' ').filter (· ≠ [])

/-- The first of the default ranking rules: works with more words of the text in their
title come first.  The last words of a text need not be there. -/
def wordsRule : Engine Work where
  finds text work := (words text).head?.all (· ∈ words (work.title.getD []))
  rank text work := ((words text).filter (· ∉ words (work.title.getD []))).length
  finds_nil _ := rfl
  rank_nil _ _ := rfl

def blue : Work :=
  { workAt newYear with id := 1, title := some "blue".toList, shuffleKey := 2 ^ 62 }

def blueSky : Work :=
  { workAt newYear with id := 2, title := some "blue sky".toList, shuffleKey := 2 ^ 62 + 1 }

def blueGallery : Database :=
  { gallery blue .visible with works := [blue, blueSky] }

/-- The digests of the two queries below and of the seed 6. -/
def blueRuntime : CursorRuntime where
  queryDigest t := if t = "sort:random".toList then "0e1298a4d3f64b2b".toList
    else "7752d94ba9e96be4".toList
  seedDigest _ := 23316826898576613

/-- A query without a text. -/
theorem randomPaging_iff_no_text :
    ∃ query, parseSearchQuery asciiRuntime "sort:random".toList .works = .ok query ∧
      ∃ baseFilter, compileMeiliFilter asciiFilters .works noReferences query true .id =
          .ok baseFilter ∧
        ∃ start, RandomPaging asciiFilters wordsRule blueGallery [blue, blueSky] noReferences query
          true blueRuntime 6 1
          (matchingWorks asciiFilters wordsRule.finds blueGallery [blue, blueSky] (freeText query)
            baseFilter) start := by
  have hparse : parseSearchQuery asciiRuntime "sort:random".toList .works = .ok _ := rfl
  refine ⟨_, hparse, _, rfl, ?_⟩
  exact (randomPaging_iff rfl rfl (by decide) wordsRule.finds_nil).mpr (.inl rfl) wordsRule rfl
    blueRuntime 6 (by decide) (by decide) 1 le_rfl

/-- **A text search in random order loses a work.**  The work with both words comes
first although it is the later one on the ring, and the cursor goes on behind it. -/
theorem text_search_loses_work :
    ∃ query, parseSearchQuery asciiRuntime "blue sky sort:random".toList .works = .ok query ∧
      ∃ baseFilter, compileMeiliFilter asciiFilters .works noReferences query true .id =
          .ok baseFilter ∧
        matchingWorks asciiFilters wordsRule.finds blueGallery [blue, blueSky] (freeText query)
          baseFilter = [blue, blueSky] ∧
        ∃ pages, follow (fun cursor => searchMeiliRandomWorks asciiFilters wordsRule blueGallery
            [blue, blueSky] noReferences blueRuntime query 0 1 true 6 cursor) 3 none = some pages ∧
          pages.flatMap Page.items = [blueSky] := by
  have hparse : parseSearchQuery asciiRuntime "blue sky sort:random".toList .works = .ok _ := rfl
  refine ⟨_, hparse, _, rfl, ?_, ?_⟩
  · decide
  · exact ⟨_, rfl, rfl⟩

end TextSearch

end MeiliRing
