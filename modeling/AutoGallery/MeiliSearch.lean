import AutoGallery.Keyset
import AutoGallery.MeiliFilter

/-!
# Search requests to an index

A search finds the entries that match a text and satisfy a filter.  The hits are put
in order by the ranking rules of the index one after the other; among the default
rules the attributes named in the request come fifth, after the four rules that look
at the words of the text.  A search without a text has nothing to look at there.
-/

namespace Meili

open PyText Keyset

/-- What an index decides about a text: which entries it finds, and the rank of an entry
by the rules in front of `sort`. -/
structure Engine (α : Type) where
  finds : Text → α → Bool
  rank : Text → α → Nat
  finds_nil : ∀ a, finds [] a = true
  rank_nil : ∀ a b, rank [] a = rank [] b

inductive Direction
  | asc | desc
deriving DecidableEq

/-- Whether a value comes before another in a direction; entries without a number come
last. -/
def Value.before : Direction → Value → Value → Bool
  | .asc, .one (.number m), .one (.number n) => m < n
  | .desc, .one (.number m), .one (.number n) => n < m
  | _, .one (.number _), .null => true
  | _, _, _ => false

variable {α F : Type}

/-- Whether an entry comes before another by the attributes of a request. -/
def sortBefore (document : α → F → Value) : List (F × Direction) → α → α → Bool
  | [], _, _ => false
  | (field, direction) :: rest, a, b =>
    Value.before direction (document a field) (document b field) ||
      (decide (document a field = document b field) && sortBefore document rest a b)

/-- Whether a hit comes before another: by rank, then by the attributes of the request. -/
def hitBefore (engine : Engine α) (document : α → F → Value) (text : Text)
    (sort : List (F × Direction)) (a b : α) : Bool :=
  decide (engine.rank text a < engine.rank text b) ||
    (decide (engine.rank text a = engine.rank text b) && sortBefore document sort a b)

structure Results (α : Type) where
  hits : List α
  estimatedTotalHits : Nat

/-- `index.search(text, filter=…, sort=…, offset=…, limit=…)` with an exact total. -/
def search (engine : Engine α) (fold : Text → Text) (document : α → F → Value) (entries : List α)
    (text : Text) (filter : Option (Expression F)) (sort : List (F × Direction))
    (offset limit : Nat) : Results α :=
  let found := entries.filter fun a =>
    engine.finds text a && filter.all (·.satisfied fold (document a))
  ⟨((found.insertionSort fun a b => ¬hitBefore engine document text sort b a).drop offset).take
    limit, found.length⟩

variable {sort : List (F × Direction)} {K : Type} {key : α → K} {document : α → F → Value}

/-- Hits are arranged by rank and then by what the attributes compare. -/
theorem insertionSort_hits (engine : Engine α) (document : α → F → Value) (text : Text)
    [LinearOrder K] (h : ∀ a b, sortBefore document sort a b = true ↔ key a < key b)
    (found : List α) :
    found.insertionSort (fun a b => ¬hitBefore engine document text sort b a) =
      arranged (fun a => toLex (engine.rank text a, key a)) found := by
  apply insertionSort_eq_arranged
  intro a b
  unfold hitBefore
  rw [Bool.or_eq_true, Bool.and_eq_true, decide_eq_true_iff, decide_eq_true_iff, h a b,
    Prod.Lex.toLex_lt_toLex]

/-- The answer to a search, by what it finds and how the attributes compare. -/
theorem search_eq (engine : Engine α) {fold : Text → Text} {entries found : List α} {text : Text}
    {filter : Option (Expression F)}
    (hfound : (entries.filter fun a =>
      engine.finds text a && filter.all (·.satisfied fold (document a))) = found) [LinearOrder K]
    (hkey : ∀ a b, sortBefore document sort a b = true ↔ key a < key b) (offset limit : Nat) :
    search engine fold document entries text filter sort offset limit =
      ⟨((arranged (fun a => toLex (engine.rank text a, key a)) found).drop offset).take limit,
        found.length⟩ := by
  rw [← insertionSort_hits engine document text hkey, ← hfound]
  rfl

/-- Numbers one after the other. -/
def numbersBefore : List Nat → List Nat → Bool
  | m :: ms, n :: ns => decide (m < n) || (decide (m = n) && numbersBefore ms ns)
  | _, _ => false

/-- Attributes that hold numbers compare as the numbers do. -/
theorem sortBefore_numbers {number : α → F → Nat} {fields : List F}
    (h : ∀ a, ∀ f ∈ fields, document a f = .one (.number (number a f))) (a b : α) :
    sortBefore document (fields.map (·, .asc)) a b =
        numbersBefore (fields.map (number a)) (fields.map (number b)) ∧
      sortBefore document (fields.map (·, .desc)) a b =
        numbersBefore (fields.map (number b)) (fields.map (number a)) := by
  induction fields with
  | nil => exact ⟨rfl, rfl⟩
  | cons f rest ih =>
    obtain ⟨hasc, hdesc⟩ := ih fun a f hf => h a f (List.mem_cons_of_mem _ hf)
    have ha := h a f List.mem_cons_self
    have hb := h b f List.mem_cons_self
    have heq : decide (number a f = number b f) = decide (number b f = number a f) :=
      decide_eq_decide.mpr eq_comm
    constructor
    · simp [sortBefore, numbersBefore, ha, hb, hasc, Value.before]
    · simp [sortBefore, numbersBefore, ha, hb, hdesc, Value.before, heq]

end Meili
