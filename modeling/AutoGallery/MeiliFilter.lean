import AutoGallery.PyText

/-!
# Meilisearch filters

Filter expressions over the fields of a document, with the documented meaning of
their operators: `=` asks whether a field, or an entry of an array field, has the
value, ignoring the case of text; `!=` selects what `=` does not select; the order
comparisons look at numbers; a field that is null or absent satisfies none of
them.
-/

namespace Meili

open PyText

/-- A value of a field, or a literal of a filter.  The canonical text of an
identifier is kept as the identifier. -/
inductive Scalar
  | bool (b : Bool)
  | number (n : Int)
  | text (t : Text)
  | ident (n : Nat)
deriving DecidableEq

inductive Value
  | null
  | one (s : Scalar)
  | many (entries : List Scalar)
deriving DecidableEq

/-- What a comparison looks at. -/
def Value.scalars : Value → List Scalar
  | .null => []
  | .one s => [s]
  | .many entries => entries

inductive Comparison
  | eq | ne | lt | le | gt | ge
deriving DecidableEq

inductive Expression (F : Type)
  | compare (field : F) (operator : Comparison) (literal : Scalar)
  | and (left right : Expression F)
  | or (left right : Expression F)
  | not (inner : Expression F)

/-- Equality of a value and a literal up to case. -/
def same (fold : Text → Text) : Scalar → Scalar → Bool
  | .text s, .text t => fold s = fold t
  | s, t => s = t

/-- An order comparison of a value and a literal. -/
def ordered (relation : Int → Int → Bool) : Scalar → Scalar → Bool
  | .number m, .number n => relation m n
  | _, _ => false

def Comparison.test (fold : Text → Text) (value : Value) (literal : Scalar) : Comparison → Bool
  | .eq => value.scalars.any fun s => same fold s literal
  | .ne => !value.scalars.any fun s => same fold s literal
  | .lt => value.scalars.any fun s => ordered (· < ·) s literal
  | .le => value.scalars.any fun s => ordered (· ≤ ·) s literal
  | .gt => value.scalars.any fun s => ordered (· > ·) s literal
  | .ge => value.scalars.any fun s => ordered (· ≥ ·) s literal

namespace Expression

variable {F : Type}

/-- Whether a document satisfies a filter. -/
def satisfied (fold : Text → Text) (document : F → Value) : Expression F → Bool
  | .compare field operator literal => operator.test fold (document field) literal
  | .and left right => left.satisfied fold document && right.satisfied fold document
  | .or left right => left.satisfied fold document || right.satisfied fold document
  | .not filter => !filter.satisfied fold document

/-- `" AND ".join(parts) or None`. -/
def joinAnd : List (Expression F) → Option (Expression F)
  | [] => none
  | first :: rest => some (rest.foldl .and first)

/-- `" OR ".join(parts)`, none for no parts. -/
def joinOr : List (Expression F) → Option (Expression F)
  | [] => none
  | first :: rest => some (rest.foldl .or first)

variable (fold : Text → Text) (document : F → Value)

section

variable (parts : List (Expression F))

theorem satisfied_foldl_and (first : Expression F) :
    (parts.foldl .and first).satisfied fold document =
      (first.satisfied fold document && parts.all (·.satisfied fold document)) := by
  induction parts generalizing first with
  | nil => simp
  | cons p rest ih =>
    rw [List.foldl_cons, ih, List.all_cons, ← Bool.and_assoc]
    rfl

theorem satisfied_foldl_or (first : Expression F) :
    (parts.foldl .or first).satisfied fold document =
      (first.satisfied fold document || parts.any (·.satisfied fold document)) := by
  induction parts generalizing first with
  | nil => simp
  | cons p rest ih =>
    rw [List.foldl_cons, ih, List.any_cons, ← Bool.or_assoc]
    rfl

/-- A conjunction of parts selects what all of them select; no filter at all
selects everything. -/
theorem satisfied_joinAnd :
    (joinAnd parts).all (·.satisfied fold document) = parts.all (·.satisfied fold document) := by
  cases parts with
  | nil => rfl
  | cons first rest => exact satisfied_foldl_and fold document rest first

/-- A disjunction of parts selects what one of them selects. -/
theorem satisfied_joinOr :
    (joinOr parts).any (·.satisfied fold document) = parts.any (·.satisfied fold document) := by
  cases parts with
  | nil => rfl
  | cons first rest => exact satisfied_foldl_or fold document rest first

end

@[simp] theorem satisfied_not (filter : Expression F) :
    (Expression.not filter).satisfied fold document = !filter.satisfied fold document :=
  rfl

@[simp] theorem satisfied_and (left right : Expression F) :
    (Expression.and left right).satisfied fold document =
      (left.satisfied fold document && right.satisfied fold document) :=
  rfl

@[simp] theorem satisfied_or (left right : Expression F) :
    (Expression.or left right).satisfied fold document =
      (left.satisfied fold document || right.satisfied fold document) :=
  rfl

/-- `!=` selects exactly what `=` does not. -/
theorem satisfied_ne (field : F) (literal : Scalar) :
    (Expression.compare field .ne literal).satisfied fold document =
      !(Expression.compare field .eq literal).satisfied fold document :=
  rfl

variable {field : F} {m : Nat}

-- a comparison of one field is evaluated by the equations
attribute [local simp] satisfied Comparison.test Value.scalars same ordered

/-- `=` on an array field of texts. -/
theorem satisfied_eq_texts {texts : List Text} (h : document field = .many (texts.map .text))
    (t : Text) :
    (Expression.compare field .eq (.text t)).satisfied fold document = true ↔
      ∃ s ∈ texts, fold s = fold t := by
  simp [h]

/-- `=` on an array field of identifiers. -/
theorem satisfied_eq_idents {α : Type} {ids : List α} {number : α → Nat}
    (h : document field = .many (ids.map fun i => .ident (number i))) (n : Nat) :
    (Expression.compare field .eq (.ident n)).satisfied fold document = true ↔
      ∃ i ∈ ids, number i = n := by
  simp [h]

/-- `=` on a field with one identifier. -/
theorem satisfied_eq_ident (h : document field = .one (.ident m)) (n : Nat) :
    (Expression.compare field .eq (.ident n)).satisfied fold document = decide (m = n) := by
  simp [h]

/-- An identifier is no other text. -/
theorem satisfied_eq_ident_text (h : document field = .one (.ident m)) (t : Text) :
    (Expression.compare field .eq (.text t)).satisfied fold document = false := by
  simp [h]

/-- `=` on a field with one text. -/
theorem satisfied_eq_text {s : Text} (h : document field = .one (.text s)) (t : Text) :
    (Expression.compare field .eq (.text t)).satisfied fold document =
      decide (fold s = fold t) := by
  simp [h]

/-- `=` on a field with one truth value. -/
theorem satisfied_eq_bool {b : Bool} (h : document field = .one (.bool b)) (c : Bool) :
    (Expression.compare field .eq (.bool c)).satisfied fold document = (b == c) := by
  cases b <;> cases c <;> simp [h]

/-- A number against a number, and null against a number. -/
theorem satisfied_number (value : Option Int)
    (h : document field = value.elim .null fun n => .one (.number n)) (n : Int) :
    ((Expression.compare field .eq (.number n)).satisfied fold document = value.any (· = n)) ∧
    ((Expression.compare field .lt (.number n)).satisfied fold document = value.any (· < n)) ∧
    ((Expression.compare field .le (.number n)).satisfied fold document = value.any (· ≤ n)) ∧
    ((Expression.compare field .gt (.number n)).satisfied fold document = value.any (· > n)) ∧
    ((Expression.compare field .ge (.number n)).satisfied fold document = value.any (· ≥ n)) := by
  cases value <;> simp [h]

end Expression

end Meili
