import Mathlib

/-!
# Keyset pagination

Rows are arranged by a key and served in pages of at most `n`.  A cursor names a row
of the last page; the next page holds the first `n` rows with a greater key, the
previous page the last `n` rows with a smaller one.  If a service answers in this way
(`Serves`), whoever follows its cursors sees every row once, in order, and finds each
page again on the way back (`follow_complete`).
-/

namespace Keyset

open List OrderDual

variable {α K : Type} {rows : List α} {a last : α} {before after rest l m : List α} {n : Nat}

theorem nodup_dual (key : α → K) (h : (rows.map key).Nodup) :
    (rows.map fun a => toDual (key a)).Nodup := by
  rw [show (fun a => toDual (key a)) = toDual ∘ key from rfl, ← map_map]
  exact h.map toDual.injective

section Arranging

variable [LinearOrder K] (key : α → K)

/-- The rows in the order of their keys. -/
def arranged (rows : List α) : List α :=
  rows.insertionSort fun a b => key a ≤ key b

theorem arranged_perm (rows : List α) : (arranged key rows).Perm rows :=
  perm_insertionSort _ rows

instance keyTotal : Std.Total fun a b : α => key a ≤ key b :=
  ⟨fun a b => le_total (key a) (key b)⟩

instance keyTrans : IsTrans α fun a b => key a ≤ key b :=
  ⟨fun _ _ _ hab hbc => hab.trans hbc⟩

variable {b : α}

/-- Rows with different keys are arranged strictly. -/
theorem arranged_strict (h : (rows.map key).Nodup) :
    (arranged key rows).Pairwise fun a b => key a < key b := by
  have hsorted : (arranged key rows).Pairwise fun a b => key a ≤ key b :=
    pairwise_insertionSort _ rows
  have hnodup : ((arranged key rows).map key).Nodup :=
    ((arranged_perm key rows).map key).nodup_iff.mpr h
  have hne : (arranged key rows).Pairwise fun a b => key a ≠ key b := by
    rw [Nodup, pairwise_map] at hnodup
    exact hnodup
  exact (hsorted.and hne).imp fun hab => lt_of_le_of_ne hab.1 hab.2

/-- The first row has the least key. -/
theorem arranged_head {first : α} (h : arranged key rows = first :: rest) (ha : a ∈ rows) :
    key first ≤ key a := by
  have hsorted : (first :: rest).Pairwise fun a b => key a ≤ key b :=
    h ▸ pairwise_insertionSort _ rows
  rw [← (arranged_perm key rows).mem_iff, h] at ha
  rcases mem_cons.mp ha with rfl | hrest
  · exact le_refl _
  · exact (pairwise_cons.mp hsorted).1 a hrest

/-- The last row of a list in order has the greatest key. -/
theorem le_getLast {sorted : List α} (h : sorted.Pairwise fun a b => key a ≤ key b)
    (hlast : sorted.getLast? = some last) (ha : a ∈ sorted) : key a ≤ key last := by
  obtain ⟨init, rfl⟩ := getLast?_eq_some_iff.mp hlast
  rcases mem_append.mp ha with hinit | hsame
  · exact (pairwise_append.mp h).2.2 a hinit last mem_cons_self
  · rw [mem_singleton.mp hsame]

theorem arranged_last (h : (arranged key rows).getLast? = some last) (ha : a ∈ rows) :
    key a ≤ key last :=
  le_getLast key (pairwise_insertionSort _ rows) h ((arranged_perm key rows).mem_iff.mpr ha)

/-- Sorting by a comparison that is the order of the keys. -/
theorem insertionSort_eq_arranged {before : α → α → Bool}
    (h : ∀ a b, before a b = true ↔ key a < key b) (rows : List α) :
    rows.insertionSort (fun a b => ¬before b a) = arranged key rows := by
  have hrel : (fun a b => ¬before b a = true) = fun a b => key a ≤ key b := by
    funext a b
    rw [h b a, not_lt]
  unfold arranged
  congr!

/-- There is one strict arrangement of given rows. -/
theorem eq_of_strict (hl : l.Pairwise fun a b => key a < key b)
    (hm : m.Pairwise fun a b => key a < key b) (h : ∀ a, a ∈ l ↔ a ∈ m) : l = m := by
  have hirrefl : Std.Irrefl fun a b : α => key a < key b := ⟨fun a => lt_irrefl (key a)⟩
  have hantisymm : Std.Antisymm fun a b : α => key a < key b :=
    ⟨fun a b hab hba => absurd hab hba.not_gt⟩
  exact Pairwise.eq_of_mem_iff hl hm h

/-- Arranging the selected rows is selecting from the arranged ones. -/
theorem arranged_filter (h : (rows.map key).Nodup) (p : α → Bool) :
    arranged key (rows.filter p) = (arranged key rows).filter p := by
  apply eq_of_strict key
  · apply arranged_strict
    exact h.sublist (Sublist.map key filter_sublist)
  · exact (arranged_strict key h).sublist filter_sublist
  · intro a
    simp only [mem_filter, (arranged_perm key _).mem_iff]

/-- Arranging by the opposite order turns the arrangement round. -/
theorem arranged_dual (h : (rows.map key).Nodup) :
    arranged (fun a => toDual (key a)) rows = (arranged key rows).reverse := by
  apply eq_of_strict fun a => toDual (key a)
  · exact arranged_strict _ (nodup_dual key h)
  · rw [pairwise_reverse]
    exact (arranged_strict key h).imp fun hab => hab
  · intro a
    rw [mem_reverse, (arranged_perm key _).mem_iff,
      (arranged_perm (fun a => toDual (key a)) _).mem_iff]

/-- Only the keys of the rows count. -/
theorem arranged_congr {key key' : α → K} (h : ∀ a ∈ rows, key a = key' a) :
    arranged key rows = arranged key' rows := by
  have hsort := map_insertionSort (fun a b => key a ≤ key b) (fun a b => key' a ≤ key' b) id rows
    fun a ha b hb => by rw [h a ha, h b hb, id, id]
  rwa [map_id, map_id] at hsort

/-- Rows that come later anyway, in their order, stay where they are. -/
theorem arranged_append (key : α → K) {more : List α}
    (hbefore : ∀ a ∈ rows, ∀ b ∈ more, key a < key b)
    (hmore : more.Pairwise fun a b => key a ≤ key b) :
    arranged key (rows ++ more) = arranged key rows ++ more := by
  induction rows with
  | nil => exact Pairwise.insertionSort_eq hmore
  | cons first rest ih =>
    have hfirst : ∀ b ∈ more, key first < key b := hbefore first mem_cons_self
    have hrest := ih fun a ha => hbefore a (mem_cons_of_mem _ ha)
    unfold arranged at hrest ⊢
    rw [cons_append, insertionSort_cons, insertionSort_cons, hrest]
    generalize rest.insertionSort (fun a b => key a ≤ key b) = sorted
    induction sorted with
    | nil =>
      cases more with
      | nil => rfl
      | cons next more =>
        rw [nil_append, orderedInsert_cons, if_pos (hfirst next mem_cons_self).le]
        rfl
    | cons next sorted ihs =>
      rw [cons_append, orderedInsert_cons, orderedInsert_cons]
      split
      · rfl
      · rw [ihs, cons_append]

/-- A key in front of the key makes no difference among rows that agree in it. -/
theorem arranged_level {J : Type} [LinearOrder J] (rank : α → J) (h : (rows.map key).Nodup)
    (hlevel : ∀ a ∈ rows, ∀ b ∈ rows, rank a = rank b) :
    arranged (fun a => toLex (rank a, key a)) rows = arranged key rows := by
  have hnodup : (rows.map fun a => toLex (rank a, key a)).Nodup := by
    rw [Nodup, pairwise_map] at h ⊢
    exact h.imp fun hne heq => hne (Prod.ext_iff.mp (toLex.injective heq)).2
  apply eq_of_strict key
  · refine (arranged_strict _ hnodup).imp_of_mem ?_
    intro a b ha hb hlt
    rw [(arranged_perm _ _).mem_iff] at ha hb
    rcases Prod.Lex.toLex_lt_toLex.mp hlt with hrank | hkey
    · exact absurd (hlevel a ha b hb) hrank.ne
    · exact hkey.2
  · exact arranged_strict key h
  · intro a
    rw [(arranged_perm _ _).mem_iff, (arranged_perm _ _).mem_iff]

variable {key}

/-- The rows beyond a row of a strict arrangement. -/
theorem filter_beyond (h : (before ++ b :: after).Pairwise fun a c => key a < key c) :
    (before ++ b :: after).filter (fun a => key b < key a) = after := by
  obtain ⟨_, hafter, hcross⟩ := pairwise_append.mp h
  obtain ⟨hb, _⟩ := pairwise_cons.mp hafter
  rw [filter_append, filter_cons_of_neg (by simp)]
  rw [filter_eq_nil_iff.mpr, filter_eq_self.mpr, nil_append]
  · intro a ha
    exact decide_eq_true (hb a ha)
  · intro a ha hlt
    exact absurd (hcross a ha b mem_cons_self) (of_decide_eq_true hlt).not_gt

/-- The rows ahead of a row of a strict arrangement. -/
theorem filter_ahead (h : (before ++ b :: after).Pairwise fun a c => key a < key c) :
    (before ++ b :: after).filter (fun a => key a < key b) = before := by
  obtain ⟨_, hafter, hcross⟩ := pairwise_append.mp h
  obtain ⟨hb, _⟩ := pairwise_cons.mp hafter
  rw [filter_append, filter_cons_of_neg (by simp)]
  rw [filter_eq_self.mpr, filter_eq_nil_iff.mpr, append_nil]
  · intro a ha hlt
    exact absurd (hb a ha) (of_decide_eq_true hlt).not_gt
  · intro a ha
    exact decide_eq_true (hcross a ha b mem_cons_self)

end Arranging

section Batches

variable [LinearOrder K] (key : α → K)

/-- The rows up to a cursor; none if nothing has been read. -/
def upTo (rows : List α) (cursor : Option K) : List α :=
  rows.filter fun a => cursor.any (key a ≤ ·)

/-- At most `limit` rows behind a cursor, in order. -/
def batch (rows : List α) (cursor : Option K) (limit : Nat) : List α :=
  (arranged key (rows.filter fun a => cursor.all (· < key a))).take limit

variable {key} {cursor : Option K} {limit : Nat}

@[simp]
theorem upTo_none : upTo key rows none = [] :=
  filter_eq_nil_iff.mpr fun _ _ h => Bool.false_ne_true h

theorem mem_upTo : a ∈ upTo key rows cursor ↔ a ∈ rows ∧ ∃ k ∈ cursor, key a ≤ k := by
  simp [upTo, Option.any_eq_true]

theorem mem_of_mem_batch (h : a ∈ batch key rows cursor limit) : a ∈ rows := by
  have hmem := (arranged_perm key _).mem_iff.mp (mem_of_mem_take h)
  exact (mem_filter.mp hmem).1

theorem batch_pairwise (key : α → K) (rows : List α) (cursor : Option K) (limit : Nat) :
    (batch key rows cursor limit).Pairwise fun a b => key a ≤ key b :=
  (pairwise_insertionSort _ _).sublist (take_sublist _ _)

/-- The rows up to the cursor and those behind it. -/
theorem upTo_append_perm (key : α → K) (rows : List α) (cursor : Option K) :
    (upTo key rows cursor ++ rows.filter fun a => cursor.all (· < key a)).Perm rows := by
  have hnot : (fun a => cursor.all (· < key a)) = fun a => !(cursor.any (key a ≤ ·)) := by
    funext a
    cases cursor with
    | none => rfl
    | some k =>
      rw [Option.all_some, Option.any_some, ← decide_not]
      exact decide_eq_decide.mpr not_le.symm
  rw [hnot]
  exact filter_append_perm _ rows

theorem upTo_of_batch_nil (hlimit : 0 < limit) (h : batch key rows cursor limit = []) :
    ∀ a ∈ rows, a ∈ upTo key rows cursor := by
  intro a ha
  have hnone : rows.filter (fun a => cursor.all (· < key a)) = [] := by
    have hempty : arranged key (rows.filter fun a => cursor.all (· < key a)) = [] := by
      rcases take_eq_nil_iff.mp h with hzero | hnil
      · omega
      · exact hnil
    have hperm := arranged_perm key (rows.filter fun a => cursor.all (· < key a))
    rw [hempty] at hperm
    exact nil_perm.mp hperm
  have hperm := upTo_append_perm key rows cursor
  rw [hnone, append_nil] at hperm
  exact hperm.mem_iff.mpr ha

/-- **One batch further.**  The rows up to the last one of a batch are those up to the
cursor and those of the batch. -/
theorem upTo_batch (hkeys : (rows.map key).Nodup)
    (hlast : (batch key rows cursor limit).getLast? = some last) :
    (upTo key rows (some (key last))).Perm
      (upTo key rows cursor ++ batch key rows cursor limit) := by
  have hstrict := arranged_strict key (hkeys.sublist (Sublist.map key (filter_sublist (l := rows)
      (p := fun a => cursor.all (· < key a)))))
  have hperm := (upTo_append_perm key rows cursor).symm.trans
    ((arranged_perm key (rows.filter fun a => cursor.all (· < key a))).symm.append_left _)
  generalize hsorted : arranged key (rows.filter fun a => cursor.all (· < key a)) = sorted
    at hstrict hperm
  have hbatch : batch key rows cursor limit = sorted.take limit := by
    rw [batch, hsorted]
  have hbehind : ∀ b ∈ sorted, cursor.all (· < key b) := by
    intro b hb
    rw [← hsorted, (arranged_perm key _).mem_iff] at hb
    exact (mem_filter.mp hb).2
  rw [hbatch] at hlast ⊢
  rw [← take_append_drop limit sorted] at hstrict hperm
  obtain ⟨hinside, -, hcross⟩ := pairwise_append.mp hstrict
  have hmem := mem_of_mem_getLast? (Option.mem_def.mpr hlast)
  have hmax : ∀ b ∈ sorted.take limit, key b ≤ key last := fun b hb =>
    le_getLast key (hinside.imp fun hlt => hlt.le) hlast hb
  -- what is kept of the three parts: all, all and nothing
  have hseen : (upTo key rows cursor).filter (fun a => (some (key last)).any (key a ≤ ·)) =
      upTo key rows cursor := by
    refine filter_eq_self.mpr fun b hb => ?_
    obtain ⟨k, hk, hle⟩ := (mem_upTo.mp hb).2
    have hlt := hbehind last (mem_of_mem_take hmem)
    rw [Option.mem_def.mp hk] at hlt
    simp only [Option.all_some, decide_eq_true_eq] at hlt
    simpa using hle.trans hlt.le
  have hkept : (sorted.take limit).filter (fun a => (some (key last)).any (key a ≤ ·)) =
      sorted.take limit :=
    filter_eq_self.mpr fun b hb => by simpa using hmax b hb
  have hdropped : (sorted.drop limit).filter (fun a => (some (key last)).any (key a ≤ ·)) = [] :=
    filter_eq_nil_iff.mpr fun b hb => by simpa using hcross last hmem b hb
  have hfilter := hperm.filter fun a => (some (key last)).any (key a ≤ ·)
  rw [filter_append, filter_append, hseen, hkept, hdropped, append_nil] at hfilter
  exact hfilter

/-- The batch behind the last row of a part. -/
theorem batch_split (hkeys : (rows.map key).Nodup) (h : arranged key rows = before ++ after)
    (limit : Nat) : batch key rows (before.getLast?.map key) limit = after.take limit := by
  have hstrict := h ▸ arranged_strict key hkeys
  rw [batch, arranged_filter key hkeys, h]
  congr 1
  rcases eq_nil_or_concat before with rfl | ⟨init, b, rfl⟩
  · simp
  · rw [concat_eq_append, append_assoc] at hstrict ⊢
    simpa using filter_beyond hstrict

end Batches

section Following

/-- A page: its rows and the cursors to its neighbours. -/
structure Page (α C : Type) where
  items : List α
  next : Option C
  previous : Option C

variable {C ε : Type}

/-- The last `n` entries of a list. -/
def lastOnes (n : Nat) (l : List α) : List α :=
  l.drop (l.length - n)

theorem lastOnes_append (h : m.length = n) : lastOnes n (l ++ m) = m := by
  unfold lastOnes
  rw [length_append, h, Nat.add_sub_cancel, drop_left]

/-- Taking from the other end. -/
theorem reverse_take_reverse (n : Nat) (l : List α) : (l.reverse.take n).reverse = lastOnes n l := by
  rw [take_reverse, reverse_reverse, lastOnes]

/-- What a service answers: pages of at most `n` of the rows `l`.  The cursors `after b`
and `before b` lead to the rows on either side of `b`. -/
structure Serves (l : List α) (n : Nat) (after before : α → C)
    (serve : Option C → Except ε (Page α C)) : Prop where
  first : ∃ previous, serve none =
    .ok ⟨l.take n, (l.take n).getLast?.map after, previous⟩
  forward : ∀ done b rest, l = done ++ b :: rest →
    serve (some (after b)) = .ok ⟨rest.take n, (rest.take n).getLast?.map after,
      (rest.take n).head?.map before⟩
  backward : ∀ done b rest, l = done ++ b :: rest →
    ∃ page, serve (some (before b)) = .ok page ∧ page.items = lastOnes n done

/-- Following the cursor to the next page until a page is empty; none if the fuel runs
out before or the service refuses a cursor. -/
def follow (serve : Option C → Except ε (Page α C)) : Nat → Option C → Option (List (Page α C))
  | 0, _ => none
  | fuel + 1, cursor =>
    match serve cursor with
    | .error _ => none
    | .ok page =>
      if page.items.isEmpty then some []
      else (follow serve fuel page.next).map (page :: ·)

/-- The cursor of each page to the previous page leads there. -/
def LeadsBack (serve : Option C → Except ε (Page α C)) (pages : List (Page α C)) : Prop :=
  pages.IsChain fun earlier later => ∃ cursor back, later.previous = some cursor ∧
    serve (some cursor) = .ok back ∧ back.items = earlier.items

variable {after before : α → C} {serve : Option C → Except ε (Page α C)}

/-- A full page is found again from the row behind it. -/
theorem serves_back (hserves : Serves l n after before serve) (done page rest : List α) (x : α)
    (hl : l = done ++ page ++ x :: rest) (hfull : page.length = n) :
    ∃ back, serve (some (before x)) = .ok back ∧ back.items = page := by
  obtain ⟨back, hback, hitems⟩ := hserves.backward (done ++ page) x rest hl
  exact ⟨back, hback, by rw [hitems, lastOnes_append hfull]⟩

variable (serve) in
/-- Pages that are seen when following from the rows `rest`. -/
structure Seen (rest : List α) (previous : Option C) (pages : List (Page α C)) : Prop where
  rows : pages.flatMap Page.items = rest
  back : LeadsBack serve pages
  filled : ∀ page ∈ pages, page.items ≠ []
  head : ∀ page ∈ pages.head?, page.previous = previous

theorem Seen.nil (previous : Option C) : Seen serve [] previous [] :=
  ⟨rfl, .nil, by simp, by simp⟩

section

variable (hserves : Serves l n after before serve) (hn : 1 ≤ n)
include hserves hn

/-- A page in front of the pages that are seen behind it. -/
theorem Seen.cons {done : List α} (hl : l = done ++ rest) (hrest : rest.take n ≠ [])
    {pages : List (Page α C)}
    (hseen : Seen serve (rest.drop n) (((rest.drop n).take n).head?.map before) pages)
    (next previous : Option C) :
    Seen serve rest previous (⟨rest.take n, next, previous⟩ :: pages) := by
  refine ⟨?_, ?_, ?_, ?_⟩
  · rw [flatMap_cons, hseen.rows, take_append_drop]
  · refine isChain_cons.mpr ⟨?_, hseen.back⟩
    intro later hlater
    have hprevious := hseen.head later hlater
    cases hdrop : rest.drop n with
    | nil =>
      -- nothing is left, so no page follows
      have hitems : later.items ≠ [] := hseen.filled later (mem_of_mem_head? hlater)
      have hnone := hseen.rows
      rw [hdrop, flatMap_eq_nil_iff] at hnone
      exact absurd (hnone later (mem_of_mem_head? hlater)) hitems
    | cons x tail =>
      have hfull : (rest.take n).length = n := by
        have hx : (rest.drop n).length = tail.length + 1 := by rw [hdrop, length_cons]
        rw [length_drop] at hx
        rw [length_take]
        omega
      have hsplit : l = done ++ rest.take n ++ x :: tail := by
        rw [hl, append_assoc, ← hdrop, take_append_drop]
      obtain ⟨back, hserved, hitems⟩ := serves_back hserves done (rest.take n) tail x hsplit hfull
      refine ⟨before x, back, ?_, hserved, hitems⟩
      obtain ⟨m, rfl⟩ : ∃ m, n = m + 1 := ⟨n - 1, by omega⟩
      rw [hprevious, hdrop]
      rfl
  · intro page hpage
    rcases mem_cons.mp hpage with rfl | hpage
    · exact hrest
    · exact hseen.filled page hpage
  · intro page hpage
    rw [Option.mem_def, head?_cons, Option.some.injEq] at hpage
    rw [← hpage]

/-- **Following from a page.**  If a cursor leads to the first of the rows `rest`, then
following from there sees the rows `rest`.  The induction is on how many they are: each
page that is not empty takes some of them. -/
theorem follow_from (rest : List α) :
    ∀ done cursor previous, l = done ++ rest →
      serve cursor = .ok ⟨rest.take n, (rest.take n).getLast?.map after, previous⟩ →
      ∃ pages, (∀ fuel, rest.length < fuel → follow serve fuel cursor = some pages) ∧
        Seen serve rest previous pages := by
  induction hlen : rest.length using Nat.strong_induction_on generalizing rest with
  | _ length ih =>
    intro done cursor previous hl hserve
    by_cases hempty : rest = []
    · subst hempty
      refine ⟨[], ?_, Seen.nil previous⟩
      intro fuel hfuel
      obtain ⟨fuel, rfl⟩ : ∃ m, fuel = m + 1 := ⟨fuel - 1, by omega⟩
      rw [follow, hserve]
      simp
    · have hpos : 0 < rest.length := length_pos_iff.mpr hempty
      have htake : rest.take n ≠ [] := by
        rw [← length_pos_iff, length_take]
        omega
      obtain ⟨front, b, hb⟩ := (eq_nil_or_concat (rest.take n)).resolve_left htake
      rw [concat_eq_append] at hb
      have hsplit : l = (done ++ front) ++ b :: rest.drop n := by
        rw [append_cons, append_assoc done, ← hb, append_assoc, take_append_drop, hl]
      have hshort : (rest.drop n).length < length := by
        rw [length_drop]
        omega
      obtain ⟨pages, hpages, hseen⟩ := ih _ hshort (rest.drop n) rfl (done ++ front ++ [b]) _ _
        (by rw [hsplit, append_cons]) (hserves.forward _ b _ hsplit)
      refine ⟨⟨rest.take n, some (after b), previous⟩ :: pages, ?_,
        hseen.cons hserves hn hl htake _ _⟩
      intro fuel hfuel
      obtain ⟨fuel, rfl⟩ : ∃ m, fuel = m + 1 := ⟨fuel - 1, by omega⟩
      have hlast : (rest.take n).getLast?.map after = some (after b) := by
        rw [hb, getLast?_concat, Option.map_some]
      rw [hlast] at hserve
      rw [follow, hserve]
      simp only [isEmpty_eq_false_iff.mpr htake, Bool.false_eq_true, if_false,
        hpages fuel (by omega), Option.map_some]

/-- **Following the cursors from the start** sees every row once, in order, and every
page leads back to the one before. -/
theorem follow_complete :
    ∃ pages, (∀ fuel, l.length < fuel → follow serve fuel none = some pages) ∧
      pages.flatMap Page.items = l ∧ LeadsBack serve pages := by
  obtain ⟨previous, hfirst⟩ := hserves.first
  obtain ⟨pages, hpages, hseen⟩ := follow_from hserves hn l [] none previous rfl hfirst
  exact ⟨pages, hpages, hseen.rows, hseen.back⟩

end

end Following

end Keyset
