import AutoGallery.Keyset

/-!
# ORDER BY a column and an identity

Rows are ordered by a column that may be `NULL` and then by an identity, both in the
same direction, with the `NULL`s at one end.  Such an order is the order of the places
`place ascending value identity`; the opposite direction with the `NULL`s at the
other end is the opposite order.
-/

namespace Sql

open Keyset

variable {κ ι : Type} {ascending : Bool} {value value' : Option κ} {identity identity' : ι}

section Places

/-- A value that is compared in a direction. -/
@[ext]
structure Directed (ascending : Bool) (κ : Type) where
  value : κ

/-- The value of a column in a direction, with `NULL` behind all others. -/
def columnPlace (ascending : Bool) : Option κ → WithTop (Directed ascending κ)
  | none => ⊤
  | some x => ((⟨x⟩ : Directed ascending κ) : WithTop (Directed ascending κ))

/-- The place of a row in the order by a column and an identity, with `NULL`s last. -/
def place (ascending : Bool) (value : Option κ) (identity : ι) :
    WithTop (Directed ascending κ) ×ₗ Directed ascending ι :=
  toLex (columnPlace ascending value, ⟨identity⟩)

theorem columnPlace_injective (ascending : Bool) :
    Function.Injective (columnPlace (κ := κ) ascending) := by
  intro x y h
  cases x with
  | none =>
    cases y with
    | none => rfl
    | some y => exact absurd h WithTop.top_ne_coe
  | some x =>
    cases y with
    | none => exact absurd h WithTop.coe_ne_top
    | some y => exact congrArg some (congrArg Directed.value (WithTop.coe_injective h))

theorem place_inj (h : place ascending value identity = place ascending value' identity') :
    identity = identity' :=
  congrArg Directed.value (Prod.ext_iff.mp (toLex.injective h)).2

end Places

variable [LinearOrder κ] [LinearOrder ι]

/-- Whether one value comes before another in a direction. -/
def valueBefore (ascending : Bool) (x y : κ) : Bool :=
  if ascending then x < y else y < x

/-- Whether one value of a column comes before another, with the `NULL`s at one end. -/
def columnBefore (ascending nullsFirst : Bool) : Option κ → Option κ → Bool
  | none, none => false
  | none, some _ => nullsFirst
  | some _, none => !nullsFirst
  | some x, some y => valueBefore ascending x y

/-- Whether a row comes before another by a column and then by an identity. -/
def rowBefore (ascending nullsFirst : Bool) (value : Option κ) (identity : ι)
    (value' : Option κ) (identity' : ι) : Bool :=
  columnBefore ascending nullsFirst value value' ||
    (decide (value = value') && valueBefore ascending identity identity')

/-- `ORDER BY column …, identity …`. -/
def orderBy {α : Type} (ascending nullsFirst : Bool) (column : α → Option κ) (identity : α → ι)
    (rows : List α) : List α :=
  rows.insertionSort fun a b =>
    ¬rowBefore ascending nullsFirst (column b) (identity b) (column a) (identity a)

section Comparing

instance directedOrder (ascending : Bool) : LinearOrder (Directed ascending κ) :=
  match ascending with
  | true => LinearOrder.lift' Directed.value fun _ _ h => Directed.ext h
  | false => LinearOrder.lift' (fun x => OrderDual.toDual x.value) fun _ _ h => Directed.ext h

theorem directed_lt_iff {x y : κ} :
    (⟨x⟩ : Directed ascending κ) < ⟨y⟩ ↔ valueBefore ascending x y = true := by
  cases ascending with
  | true => exact (decide_eq_true_iff (p := x < y)).symm
  | false => exact (decide_eq_true_iff (p := y < x)).symm

theorem valueBefore_not (ascending : Bool) (x y : κ) :
    valueBefore (!ascending) x y = valueBefore ascending y x := by
  cases ascending <;> rfl

theorem columnPlace_lt_iff {x y : Option κ} :
    columnPlace ascending x < columnPlace ascending y ↔ columnBefore ascending false x y = true := by
  cases x with
  | none => cases y <;> simp [columnPlace, columnBefore]
  | some x =>
    cases y with
    | none => simp [columnPlace, columnBefore]
    | some y => exact WithTop.coe_lt_coe.trans directed_lt_iff

/-- **Places are the order** with `NULL`s last. -/
theorem place_lt_iff :
    place ascending value identity < place ascending value' identity' ↔
      rowBefore ascending false value identity value' identity' = true := by
  unfold place rowBefore
  rw [Prod.Lex.toLex_lt_toLex, columnPlace_lt_iff, directed_lt_iff,
    (columnPlace_injective ascending).eq_iff, Bool.or_eq_true, Bool.and_eq_true,
    decide_eq_true_iff]

/-- Turning direction and `NULL`s round turns the order round. -/
theorem columnBefore_flip (ascending nullsFirst : Bool) (x y : Option κ) :
    columnBefore (!ascending) (!nullsFirst) x y = columnBefore ascending nullsFirst y x := by
  cases x with
  | none => cases y <;> simp [columnBefore]
  | some x =>
    cases y with
    | none => simp [columnBefore]
    | some y => exact valueBefore_not ascending x y

theorem rowBefore_flip (ascending nullsFirst : Bool) (value value' : Option κ)
    (identity identity' : ι) :
    rowBefore (!ascending) (!nullsFirst) value identity value' identity' =
      rowBefore ascending nullsFirst value' identity' value identity := by
  unfold rowBefore
  rw [columnBefore_flip, valueBefore_not, decide_eq_decide.mpr eq_comm]

/-- Where no value is `NULL`, it does not matter where the `NULL`s go. -/
theorem rowBefore_of_ne_none (nullsFirst nullsFirst' : Bool) (h : value ≠ none) (h' : value' ≠ none)
    (identity identity' : ι) :
    rowBefore ascending nullsFirst value identity value' identity' =
      rowBefore ascending nullsFirst' value identity value' identity' := by
  cases value with
  | none => exact absurd rfl h
  | some x =>
    cases value' with
    | none => exact absurd rfl h'
    | some y => rfl

end Comparing

section Ordering

variable {α : Type} {nullsFirst : Bool} {column : α → Option κ} {identity : α → ι}

/-- Ordering with `NULL`s last, or by a column without `NULL`s. -/
theorem orderBy_forward (h : nullsFirst = false ∨ ∀ a, column a ≠ none) (rows : List α) :
    orderBy ascending nullsFirst column identity rows =
      arranged (fun a => place ascending (column a) (identity a)) rows := by
  apply insertionSort_eq_arranged
  intro a b
  rw [place_lt_iff]
  rcases h with rfl | h
  · rfl
  · rw [rowBefore_of_ne_none nullsFirst false (h a) (h b)]

/-- Ordering in the opposite direction with `NULL`s first. -/
theorem orderBy_backward (h : nullsFirst = true ∨ ∀ a, column a ≠ none) (rows : List α) :
    orderBy (!ascending) nullsFirst column identity rows =
      arranged (fun a => OrderDual.toDual (place ascending (column a) (identity a))) rows := by
  apply insertionSort_eq_arranged
  intro a b
  rw [OrderDual.toDual_lt_toDual, place_lt_iff, ← rowBefore_flip ascending false, Bool.not_false]
  rcases h with rfl | h
  · rfl
  · rw [rowBefore_of_ne_none nullsFirst true (h a) (h b)]

end Ordering

end Sql
