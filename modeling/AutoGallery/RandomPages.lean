import AutoGallery.WorkPagination

/-!
# Pages of the random order

The works from the start of the ring to its end, then those before the start, each
part by key and identity, make one order `ringOrder`.  A page of
`_fetch_random_work_page` is a slice of it, across the end of a phase, from an offset
as well as on either side of a cursor.
-/

namespace RandomPages

open PyText SearchLanguage SearchFilters ShuffleRing WorkDatabase WorkPagination Keyset Sql List

variable {rows : List Work} {phase : Phase} {done rest : List Work} {b : Work}

section Order

/-- The place of a point and an identity on the ring. -/
def ringPlace (key : ShuffleKey) (identity : Uuid) :
    WithTop (Directed true ShuffleKey) ×ₗ Directed true Uuid :=
  place true (some key) identity

/-- The place of a work on the ring. -/
def workPlace (work : Work) : WithTop (Directed true ShuffleKey) ×ₗ Directed true Uuid :=
  ringPlace work.shuffleKey work.id

variable {key start : ShuffleKey}

theorem ringPlace_lt_iff {key' : ShuffleKey} {identity identity' : Uuid} :
    ringPlace key identity < ringPlace key' identity' ↔
      key < key' ∨ key = key' ∧ identity < identity' := by
  unfold ringPlace
  rw [place_lt_iff]
  simp [rowBefore, columnBefore, valueBefore]

theorem phaseOf_eq_zero : phaseOf start key = .zero ↔ start ≤ key := by
  unfold phaseOf
  split <;> simp [*]

theorem phaseOf_eq_one : phaseOf start key = .one ↔ key < start := by
  unfold phaseOf
  split <;> simp_all

/-- The works of a phase, in order. -/
def phaseRows (rows : List Work) (start : ShuffleKey) (phase : Phase) : List Work :=
  arranged workPlace (rows.filter fun work => phaseOf start work.shuffleKey = phase)

/-- The random order from a point of the ring. -/
def ringOrder (rows : List Work) (start : ShuffleKey) : List Work :=
  phaseRows rows start .zero ++ phaseRows rows start .one

/-- Whether a work comes before another from a point of the ring. -/
def ringBefore (start : ShuffleKey) (a b : Work) : Prop :=
  (start ≤ a.shuffleKey ∧ b.shuffleKey < start) ∨
    (phaseOf start a.shuffleKey = phaseOf start b.shuffleKey ∧
      (a.shuffleKey < b.shuffleKey ∨ a.shuffleKey = b.shuffleKey ∧ a.id < b.id))

variable (start : ShuffleKey)

theorem nodup_workPlace (h : (rows.map Work.id).Nodup) : (rows.map workPlace).Nodup := by
  rw [Nodup, pairwise_map] at h ⊢
  exact h.imp fun hne heq => hne (place_inj heq)

theorem nodup_phase (h : (rows.map Work.id).Nodup) (p : Work → Bool) :
    ((rows.filter p).map workPlace).Nodup :=
  (nodup_workPlace h).sublist (Sublist.map _ filter_sublist)

theorem mem_phaseRows {work : Work} :
    work ∈ phaseRows rows start phase ↔
      work ∈ rows ∧ phaseOf start work.shuffleKey = phase := by
  unfold phaseRows
  rw [(arranged_perm _ _).mem_iff, mem_filter, decide_eq_true_iff]

theorem ringOrder_perm (rows : List Work) : (ringOrder rows start).Perm rows := by
  have hone : rows.filter (fun work => decide (phaseOf start work.shuffleKey = .one)) =
      rows.filter fun work => !decide (phaseOf start work.shuffleKey = .zero) := by
    apply filter_congr
    intro work _
    cases phaseOf start work.shuffleKey <;> rfl
  unfold ringOrder phaseRows
  rw [hone]
  exact ((arranged_perm _ _).append (arranged_perm _ _)).trans (filter_append_perm _ rows)

theorem pairwise_phaseRows (h : (rows.map Work.id).Nodup) (phase : Phase) :
    (phaseRows rows start phase).Pairwise fun a b => workPlace a < workPlace b :=
  arranged_strict _ (nodup_phase h _)

/-- The order of the ring. -/
theorem pairwise_ringOrder (h : (rows.map Work.id).Nodup) :
    (ringOrder rows start).Pairwise (ringBefore start) := by
  have hphase : ∀ phase, (phaseRows rows start phase).Pairwise (ringBefore start) := by
    intro phase
    refine (pairwise_phaseRows start h phase).imp_of_mem ?_
    intro a b ha hb hlt
    have hsame : phaseOf start a.shuffleKey = phaseOf start b.shuffleKey :=
      ((mem_phaseRows start).mp ha).2.trans ((mem_phaseRows start).mp hb).2.symm
    exact .inr ⟨hsame, ringPlace_lt_iff.mp hlt⟩
  refine pairwise_append.mpr ⟨hphase .zero, hphase .one, ?_⟩
  intro a ha b hb
  exact .inl ⟨phaseOf_eq_zero.mp ((mem_phaseRows start).mp ha).2,
    phaseOf_eq_one.mp ((mem_phaseRows start).mp hb).2⟩

end Order

section Fetching

variable {start : ShuffleKey}

theorem holds_phaseCondition (work : Work) :
    (phaseCondition start phase work).holds = decide (phaseOf start work.shuffleKey = phase) := by
  rw [Bool.eq_iff_iff, decide_eq_true_iff]
  cases phase with
  | zero => simp [phaseCondition, phaseOf_eq_zero]
  | one => simp [phaseCondition, phaseOf_eq_one]

theorem holds_boundary_forward (boundary : RandomWorkCursor) (work : Work) :
    (boundaryCondition false boundary work).holds =
      decide (ringPlace boundary.key boundary.identity < workPlace work) := by
  rw [Bool.eq_iff_iff, decide_eq_true_iff, workPlace, ringPlace_lt_iff]
  simp [boundaryCondition, eq_comm (a := boundary.key)]

theorem holds_boundary_backward (boundary : RandomWorkCursor) (work : Work) :
    (boundaryCondition true boundary work).holds =
      decide (workPlace work < ringPlace boundary.key boundary.identity) := by
  rw [Bool.eq_iff_iff, decide_eq_true_iff, workPlace, ringPlace_lt_iff]
  simp [boundaryCondition]

theorem orderBy_ring_forward (kept : List Work) :
    orderBy true false (fun work => some work.shuffleKey) Work.id kept = arranged workPlace kept :=
  orderBy_forward (.inl rfl) kept

theorem orderBy_ring_backward {kept : List Work} (h : (kept.map workPlace).Nodup) :
    orderBy false true (fun work => some work.shuffleKey) Work.id kept =
      (arranged workPlace kept).reverse :=
  (orderBy_backward (.inl rfl) kept).trans (arranged_dual workPlace h)

theorem selectWhere_phase :
    selectWhere rows (phaseCondition start phase) =
      rows.filter fun work => phaseOf start work.shuffleKey = phase := by
  unfold selectWhere
  simp only [holds_phaseCondition]

/-- Whether a work is in a phase and on the wanted side of a boundary. -/
def inWindow (start : ShuffleKey) (phase : Phase) (reverse : Bool)
    (boundary : Option RandomWorkCursor) (work : Work) : Bool :=
  decide (phaseOf start work.shuffleKey = phase) && boundary.all fun b =>
    if reverse then decide (workPlace work < ringPlace b.key b.identity)
    else ringPlace b.key b.identity < workPlace work

/-- Works around the ring, in either direction. -/
def ringArranged (reverse : Bool) (rows : List Work) : List Work :=
  if reverse then (arranged workPlace rows).reverse else arranged workPlace rows

theorem filter_inWindow_none (reverse : Bool) :
    rows.filter (inWindow start phase reverse none) =
      rows.filter fun work => phaseOf start work.shuffleKey = phase := by
  apply filter_congr
  intro work _
  simp [inWindow]

theorem kept_eq (reverse : Bool) (boundary : Option RandomWorkCursor) :
    (boundary.elim (selectWhere rows (phaseCondition start phase)) fun b =>
        selectWhere (selectWhere rows (phaseCondition start phase)) (boundaryCondition reverse b)) =
      rows.filter (inWindow start phase reverse boundary) := by
  rw [selectWhere_phase]
  cases boundary with
  | none => exact (filter_inWindow_none reverse).symm
  | some b =>
    unfold selectWhere
    rw [Option.elim_some, filter_filter]
    apply filter_congr
    intro work _
    cases reverse with
    | true => simp [inWindow, holds_boundary_backward, Bool.and_comm]
    | false => simp [inWindow, holds_boundary_forward, Bool.and_comm]

section

variable (h : (rows.map Work.id).Nodup)
include h

/-- **What a phase gives**: some of the works in the window, in order. -/
theorem fetchPhase_eq (count : Nat) (reverse : Bool)
    (offset : Nat) (boundary : Option RandomWorkCursor) :
    fetchPhase rows start phase count reverse offset boundary =
      ((ringArranged reverse (rows.filter (inWindow start phase reverse boundary))).drop
        offset).take count := by
  unfold fetchPhase
  by_cases hcount : count = 0
  · rw [if_pos hcount, hcount, take_zero]
  · rw [if_neg hcount]
    simp only [kept_eq]
    cases reverse with
    | true => rw [Bool.not_true, orderBy_ring_backward (nodup_phase h _), ringArranged, if_pos rfl]
    | false => rw [Bool.not_false, orderBy_ring_forward]; rfl

/-- From an offset in a phase. -/
theorem fetchPhase_offset (count offset : Nat) :
    fetchPhase rows start phase count false offset none =
      ((phaseRows rows start phase).drop offset).take count := by
  rw [fetchPhase_eq h, filter_inWindow_none]
  rfl

/-- From the end of a phase. -/
theorem fetchPhase_end (count : Nat) :
    fetchPhase rows start phase count true 0 none =
      (phaseRows rows start phase).reverse.take count := by
  rw [fetchPhase_eq h, filter_inWindow_none]
  rfl

theorem arranged_inWindow (reverse : Bool) (b : RandomWorkCursor) :
    arranged workPlace (rows.filter (inWindow start phase reverse (some b))) =
      (phaseRows rows start phase).filter fun work =>
        if reverse then decide (workPlace work < ringPlace b.key b.identity)
        else ringPlace b.key b.identity < workPlace work := by
  unfold phaseRows
  rw [← arranged_filter _ (nodup_phase h _), filter_filter]
  apply congrArg
  apply filter_congr
  intro work _
  exact Bool.and_comm _ _

end

section

variable (h : (rows.map Work.id).Nodup) (count : Nat)
  (hsplit : phaseRows rows start phase = done ++ b :: rest) (seek : Seek) (phase' : Phase)
include h count hsplit seek phase'

/-- Behind a work of a phase. -/
theorem fetchPhase_after :
    fetchPhase rows start phase count false 0 (some ⟨seek, b.shuffleKey, b.id, phase'⟩) =
      rest.take count := by
  have hstrict : (done ++ b :: rest).Pairwise fun a c => workPlace a < workPlace c :=
    hsplit ▸ pairwise_phaseRows start h phase
  rw [fetchPhase_eq h, ringArranged, if_neg Bool.false_ne_true, arranged_inWindow h, hsplit]
  exact congrArg (take count) (filter_beyond hstrict)

/-- Before a work of a phase. -/
theorem fetchPhase_before :
    fetchPhase rows start phase count true 0 (some ⟨seek, b.shuffleKey, b.id, phase'⟩) =
      done.reverse.take count := by
  have hstrict : (done ++ b :: rest).Pairwise fun a c => workPlace a < workPlace c :=
    hsplit ▸ pairwise_phaseRows start h phase
  rw [fetchPhase_eq h, ringArranged, if_pos rfl, arranged_inWindow h, hsplit]
  exact congrArg (fun l => l.reverse.take count) (filter_ahead hstrict)

end

end Fetching

section Slices

/-- A page that goes on with the next part when the first has too few. -/
theorem take_spill {α : Type} (n : Nat) (l m : List α) :
    (if (l.take n).length < n then l.take n ++ m.take (n - (l.take n).length) else l.take n) =
      (l ++ m).take n := by
  rw [take_append, length_take]
  split
  · rw [show n - min n l.length = n - l.length by omega]
  · rw [show n - l.length = 0 by omega, take_zero, append_nil]

variable {start : ShuffleKey}

theorem phaseOf_of_split (h : phaseRows rows start phase = done ++ b :: rest) :
    phaseOf start b.shuffleKey = phase := by
  have hmem : b ∈ phaseRows rows start phase := by simp [h]
  exact ((mem_phaseRows start).mp hmem).2

/-- Where a work of the ring stands: in phase zero, or in phase one. -/
theorem ringOrder_split (h : ringOrder rows start = done ++ b :: rest) :
    (∃ rest', phaseRows rows start .zero = done ++ b :: rest' ∧
      rest = rest' ++ phaseRows rows start .one) ∨
    ∃ done', phaseRows rows start .one = done' ++ b :: rest ∧
      done = phaseRows rows start .zero ++ done' := by
  rcases append_eq_append_iff.mp h with ⟨between, hdone, hone⟩ | ⟨between, hzero, hrest⟩
  · exact .inr ⟨between, hone, hdone⟩
  · cases between with
    | nil => exact .inr ⟨[], by simpa using hrest.symm, by simpa using hzero.symm⟩
    | cons c tail =>
      obtain ⟨rfl, htail⟩ := cons.inj hrest
      exact .inl ⟨tail, hzero, htail⟩

section

variable (h : (rows.map Work.id).Nodup) (limit : Nat)
  (hsplit : ringOrder rows start = done ++ b :: rest)
include h limit hsplit

/-- **A page behind a work of the ring.** -/
theorem boundaryPage_after :
    boundaryPage (fetchPhase rows start)
        ⟨.after, b.shuffleKey, b.id, phaseOf start b.shuffleKey⟩ limit = rest.take limit := by
  unfold boundaryPage
  rcases ringOrder_split hsplit with ⟨rest', hzero, rfl⟩ | ⟨done', hone, _⟩
  · simp only [phaseOf_of_split hzero, reduceCtorEq, decide_false, fetchPhase_after h limit hzero,
      adjacentPhase, Bool.false_eq_true, if_false, Option.elim_some, fetchPhase_offset h,
      drop_zero]
    exact take_spill limit rest' _
  · simp only [phaseOf_of_split hone, reduceCtorEq, decide_false, fetchPhase_after h limit hone,
      adjacentPhase, Bool.false_eq_true, if_false, Option.elim_none, append_nil, ite_self]

/-- **A page before a work of the ring.** -/
theorem boundaryPage_before :
    boundaryPage (fetchPhase rows start)
        ⟨.before, b.shuffleKey, b.id, phaseOf start b.shuffleKey⟩ limit = lastOnes limit done := by
  unfold boundaryPage
  rcases ringOrder_split hsplit with ⟨rest', hzero, _⟩ | ⟨done', hone, rfl⟩
  · simp only [phaseOf_of_split hzero, decide_true, fetchPhase_before h limit hzero, adjacentPhase,
      if_true, Option.elim_none, append_nil, ite_self, reverse_take_reverse]
  · simp only [phaseOf_of_split hone, decide_true, fetchPhase_before h limit hone, adjacentPhase,
      if_true, Option.elim_some, fetchPhase_end h]
    rw [← reverse_take_reverse, reverse_append, ← take_spill]

end

/-- **A page from an offset** is a slice of the ring. -/
theorem offsetPage_eq (h : (rows.map Work.id).Nodup) (offset limit : Nat) :
    offsetPage rows start offset limit = ((ringOrder rows start).drop offset).take limit := by
  have hcount : (rows.filter fun work => phaseOf start work.shuffleKey = .zero).length =
      (phaseRows rows start .zero).length := (arranged_perm _ _).length_eq.symm
  unfold offsetPage ringOrder
  simp only [selectWhere_phase, hcount, fetchPhase_offset h]
  by_cases hbeyond : offset ≠ 0 ∧ (phaseRows rows start .zero).length ≤ offset
  · rw [if_pos hbeyond, drop_append, drop_eq_nil_of_le hbeyond.2, nil_append]
  · have hwithin : offset ≤ (phaseRows rows start .zero).length := by omega
    rw [if_neg hbeyond, drop_append_of_le_length hwithin, drop_zero, take_spill]

end Slices

section Serving

variable (C : CursorRuntime) (query : SearchQuery) (forceSfw : Bool) (seed : Int)
  (start : ShuffleKey)

/-- The cursor from a work under a random order. -/
def ringCursor (seek : Seek) (work : Work) : Cursor :=
  encodeRandomWorkCursor C query forceSfw seed (phaseOf start work.shuffleKey) seek
    work.shuffleKey work.id

theorem randomBoundary_ringCursor (seek : Seek) (work : Work) :
    randomBoundary C query forceSfw seed start (ringCursor C query forceSfw seed start seek work) =
      .ok ⟨seek, work.shuffleKey, work.id, phaseOf start work.shuffleKey⟩ := by
  have hdecode : decodeRandomWorkCursor C query forceSfw seed
      (ringCursor C query forceSfw seed start seek work) =
      .ok ⟨seek, work.shuffleKey, work.id, phaseOf start work.shuffleKey⟩ := by
    have hkey : (work.shuffleKey.val : Int) < 2 ^ 63 := by
      have := work.shuffleKey.isLt
      omega
    unfold decodeRandomWorkCursor ringCursor encodeRandomWorkCursor
    rw [if_neg (by simp)]
    simp only [Option.bind_some, readPhase_number, readSeek_text]
    rw [dif_pos ⟨Int.natCast_nonneg _, hkey⟩]
    simp
  unfold randomBoundary
  rw [hdecode]
  exact if_neg (by simp)

/-- What is said of the pages of a random order. -/
structure PagesOfRing (ring : List Work) (limit : Nat) (before : Work → Cursor)
    (serve : Nat → Option Cursor → Except PageError (Page Work Cursor)) : Prop where
  /-- The cursors forward visit the works of the ring, and each page leads back. -/
  walk : ∃ pages, (∀ fuel, ring.length < fuel → follow (serve 0) fuel none = some pages) ∧
    pages.flatMap Page.items = ring ∧ LeadsBack (serve 0) pages
  /-- A page from an offset is a slice. -/
  slice : ∀ k, ∃ page, serve k none = .ok page ∧ page.items = (ring.drop k).take limit
  /-- A cursor backward leads to the works before its own. -/
  back : ∀ done b rest, ring = done ++ b :: rest →
    ∃ page, serve 0 (some (before b)) = .ok page ∧ page.items = lastOnes limit done

variable {C query seed start}

section

variable (hstart : shuffleRingStart C seed = .ok start)
include hstart

theorem fetchRandomWorkPage_offset (hids : (rows.map Work.id).Nodup) (offset limit : Nat) :
    fetchRandomWorkPage C rows query offset limit forceSfw none seed =
      .ok (((ringOrder rows start).drop offset).take limit) := by
  unfold fetchRandomWorkPage
  rw [hstart, ← offsetPage_eq hids]
  rfl

/-- A page from a cursor. -/
theorem fetchRandomWorkPage_some (offset limit : Nat) (cursor : Cursor) :
    fetchRandomWorkPage C rows query offset limit forceSfw (some cursor) seed =
      (randomBoundary C query forceSfw seed start cursor).map fun boundary =>
        boundaryPage (fetchPhase rows start) boundary limit := by
  unfold fetchRandomWorkPage
  rw [hstart]
  show (randomBoundary C query forceSfw seed start cursor).bind _ = _
  cases randomBoundary C query forceSfw seed start cursor <;> rfl

theorem fetchRandomWorkPage_cursor (offset limit : Nat) (seek : Seek) (b : Work) :
    fetchRandomWorkPage C rows query offset limit forceSfw
        (some (ringCursor C query forceSfw seed start seek b)) seed =
      .ok (boundaryPage (fetchPhase rows start)
        ⟨seek, b.shuffleKey, b.id, phaseOf start b.shuffleKey⟩ limit) := by
  rw [fetchRandomWorkPage_some forceSfw hstart, randomBoundary_ringCursor]
  rfl

end

variable [LinearOrder Title]

variable {offset limit : Nat} {cursor : Option Cursor}

section

variable (hsort : queryValues query .sort = ["random".toList])
include hsort

/-- The page that is made of fetched works. -/
theorem searchWorksDb_of_random (hstart : shuffleRingStart C seed = .ok start)
    {pageRows : List Work}
    (hfetch : fetchRandomWorkPage C rows query offset limit forceSfw cursor seed = .ok pageRows) :
    searchWorksDb C rows query offset limit forceSfw cursor (some seed) =
      .ok ⟨pageRows, pageRows.getLast?.map (ringCursor C query forceSfw seed start .after),
        if cursor.isSome ∨ 0 < offset then
          pageRows.head?.map (ringCursor C query forceSfw seed start .before) else none⟩ := by
  have hencode : ∀ seek, pageCursor C query forceSfw (some seed) seek =
      fun work => .ok (ringCursor C query forceSfw seed start seek work) := by
    intro seek
    funext work
    simp only [pageCursor, hstart]
    rfl
  have hmap : ∀ (row : Option Work) seek, row.mapM (pageCursor C query forceSfw (some seed) seek) =
        .ok (row.map (ringCursor C query forceSfw seed start seek)) := by
    intro row seek
    rw [hencode]
    cases row <;> rfl
  unfold searchWorksDb
  rw [if_pos hsort]
  simp only [pure_bind, hfetch, hmap]
  by_cases hprevious : cursor.isSome ∨ 0 < offset
  · simp only [hprevious, if_true]
    rfl
  · simp only [hprevious, if_false]
    rfl

/-- A cursor that is refused. -/
theorem searchWorksDb_of_random_error {e : PageError}
    (hfetch : fetchRandomWorkPage C rows query offset limit forceSfw cursor seed = .error e) :
    searchWorksDb C rows query offset limit forceSfw cursor (some seed) = .error e := by
  unfold searchWorksDb
  rw [if_pos hsort]
  simp only [pure_bind, hfetch]
  rfl

section

variable (hstart : shuffleRingStart C seed = .ok start) (hids : (rows.map Work.id).Nodup)
include hstart hids

theorem serves_random (limit : Nat) :
    Serves (ringOrder rows start) limit (ringCursor C query forceSfw seed start .after)
      (ringCursor C query forceSfw seed start .before)
      (fun cursor => searchWorksDb C rows query 0 limit forceSfw cursor (some seed)) where
  first := by
    refine ⟨none, ?_⟩
    rw [searchWorksDb_of_random forceSfw hsort hstart
      (fetchRandomWorkPage_offset forceSfw hstart hids 0 limit)]
    simp
  forward done b rest hsplit := by
    rw [searchWorksDb_of_random forceSfw hsort hstart
      (fetchRandomWorkPage_cursor forceSfw hstart 0 limit .after b),
      boundaryPage_after hids limit hsplit]
    simp
  backward done b rest hsplit := by
    rw [searchWorksDb_of_random forceSfw hsort hstart
      (fetchRandomWorkPage_cursor forceSfw hstart 0 limit .before b),
      boundaryPage_before hids limit hsplit]
    exact ⟨_, rfl, rfl⟩

/-- **The pages of the database are those of the ring.** -/
theorem pagesOfRing_db (hlimit : 1 ≤ limit) :
    PagesOfRing (ringOrder rows start) limit (ringCursor C query forceSfw seed start .before)
      (fun offset cursor => searchWorksDb C rows query offset limit forceSfw cursor (some seed)) where
  walk := follow_complete (serves_random forceSfw hsort hstart hids limit) hlimit
  slice k := ⟨_, searchWorksDb_of_random forceSfw hsort hstart
    (fetchRandomWorkPage_offset forceSfw hstart hids k limit), rfl⟩
  back done b rest hsplit :=
    (serves_random forceSfw hsort hstart hids limit).backward done b rest hsplit

end

end

end Serving

end RandomPages
