import AutoGallery.PyText

/-!
# SQL conditions

The truth value of a condition is true, false or unknown, and a `WHERE` clause
keeps a row whose condition is true.  Unknown comes from a comparison with
`NULL`.  `EXISTS` and `IN` over columns that are never `NULL` are two-valued, so
that only under such conditions a negation keeps exactly the other rows
(`Truth.holds_not`).
-/

namespace Sql

open PyText

inductive Truth
  | true | false | unknown
deriving DecidableEq

namespace Truth

/-- A condition that is never unknown. -/
def of : Bool → Truth
  | Bool.true => .true
  | Bool.false => .false

def not : Truth → Truth
  | .true => .false
  | .false => .true
  | .unknown => .unknown

def and : Truth → Truth → Truth
  | .false, _ => .false
  | _, .false => .false
  | .true, .true => .true
  | _, _ => .unknown

def or : Truth → Truth → Truth
  | .true, _ => .true
  | _, .true => .true
  | .false, .false => .false
  | _, _ => .unknown

/-- `and_(*conditions)`. -/
def all (conditions : List Truth) : Truth :=
  conditions.foldr and .true

/-- `or_(*conditions)`. -/
def any (conditions : List Truth) : Truth :=
  conditions.foldr or .false

/-- Whether `WHERE` keeps the row. -/
def holds (t : Truth) : Bool :=
  t = .true

@[simp] theorem holds_of (b : Bool) : (of b).holds = b := by
  cases b <;> rfl

@[simp] theorem holds_and (s t : Truth) : (s.and t).holds = (s.holds && t.holds) := by
  cases s <;> cases t <;> rfl

@[simp] theorem holds_or (s t : Truth) : (s.or t).holds = (s.holds || t.holds) := by
  cases s <;> cases t <;> rfl

variable {t : Truth}

theorem holds_not (h : t ≠ .unknown) : t.not.holds = !t.holds := by
  cases t with
  | true => rfl
  | false => rfl
  | unknown => exact absurd rfl h

theorem of_ne_unknown (b : Bool) : of b ≠ .unknown := by
  cases b <;> simp [of]

theorem or_ne_unknown {s : Truth} (hs : s ≠ .unknown) (ht : t ≠ .unknown) : s.or t ≠ .unknown := by
  cases s <;> cases t <;> simp_all [or]

theorem holds_all (conditions : List Truth) :
    (all conditions).holds = conditions.all holds := by
  induction conditions with
  | nil => rfl
  | cons t rest ih =>
    rw [List.all_cons, ← ih]
    exact holds_and t (all rest)

theorem holds_any (conditions : List Truth) :
    (any conditions).holds = conditions.any holds := by
  induction conditions with
  | nil => rfl
  | cons t rest ih =>
    rw [List.any_cons, ← ih]
    exact holds_or t (any rest)

end Truth

/-- A comparison of two columns: unknown if one of them is `NULL`. -/
def compare {α : Type} (relation : α → α → Bool) : Option α → Option α → Truth
  | some x, some y => .of (relation x y)
  | _, _ => .unknown

variable {α : Type}

@[simp] theorem holds_compare_some (relation : α → α → Bool) (x y : α) :
    (compare relation (some x) (some y)).holds = relation x y :=
  Truth.holds_of _

@[simp] theorem holds_compare_none (relation : α → α → Bool) (y : Option α) :
    (compare relation none y).holds = false :=
  rfl

theorem holds_compare_eq [DecidableEq α] (x : Option α) (y : α) :
    (compare (fun x y => decide (x = y)) x (some y)).holds = true ↔ x = some y := by
  cases x <;> simp

/-- `SELECT … FROM rows WHERE condition`. -/
def selectWhere {α : Type} (rows : List α) (condition : α → Truth) : List α :=
  rows.filter fun row => (condition row).holds

/-- `EXISTS (SELECT … FROM rows WHERE condition)`. -/
def existsRow {α : Type} (rows : List α) (condition : α → Truth) : Truth :=
  .of (rows.any fun row => (condition row).holds)

/-- `x IN (…)` over values that are never `NULL`. -/
def isIn {α : Type} [DecidableEq α] (x : α) (values : List α) : Truth :=
  .of (values.any fun y => y = x)

@[simp] theorem holds_existsRow (rows : List α) (condition : α → Truth) :
    (existsRow rows condition).holds = rows.any fun row => (condition row).holds :=
  Truth.holds_of _

theorem holds_isIn_map {β : Type} [DecidableEq β] (x : β) (rows : List α) (column : α → β)
    (condition : α → Truth) :
    (isIn x ((selectWhere rows condition).map column)).holds = true ↔
      ∃ row ∈ rows.filter (fun row => column row = x), (condition row).holds = true := by
  unfold isIn selectWhere
  simp only [Truth.holds_of, List.any_eq_true, List.mem_map, List.mem_filter,
    exists_exists_and_eq_and]
  simp only [and_right_comm]

theorem isIn_ne_unknown [DecidableEq α] (x : α) (values : List α) : isIn x values ≠ .unknown :=
  Truth.of_ne_unknown _

theorem existsRow_ne_unknown (rows : List α) (condition : α → Truth) :
    existsRow rows condition ≠ .unknown :=
  Truth.of_ne_unknown _

/-- `btrim(text)`: blanks are removed at both ends, other white space is not. -/
def btrim (t : Text) : Text :=
  (t.dropWhile (· = ' ')).rdropWhile (· = ' ')

/-- `rtrim(text, c)`. -/
def rtrim (t : Text) (c : Char) : Text :=
  t.rdropWhile (· = c)

/-- Exactly the texts of blanks are trimmed away. -/
theorem btrim_eq_nil_iff (t : Text) : btrim t = [] ↔ ∀ c ∈ t, c = ' ' := by
  unfold btrim
  rw [trim_eq_nil_iff]
  simp only [decide_eq_true_eq]

end Sql
