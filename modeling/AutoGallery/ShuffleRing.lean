import AutoGallery.SearchFilters

/-!
# The shuffle ring

Works sit on a ring of 2^63 points, each at its shuffle key.  A random order starts
at a point of the ring: phase zero is the part from there to the end of the ring,
phase one the part before it.  The index has no exact 63-bit numbers, so a key and
an identity are kept there as six small numbers, and a comparison of positions
becomes a comparison of six-tuples.
-/

namespace ShuffleRing

open SearchFilters Meili

/-- A point of the ring. -/
abbrev ShuffleKey := Fin (2 ^ 63)

instance shuffleKeyNeZero : NeZero (2 ^ 63) :=
  ⟨by decide⟩

inductive Phase
  | zero | one
deriving DecidableEq

inductive Seek
  | after | before
deriving DecidableEq

/-- `RandomWorkCursor`. -/
structure RandomWorkCursor where
  seek : Seek
  key : ShuffleKey
  identity : Uuid
  phase : Phase
deriving DecidableEq

/-- `MEILI_SHUFFLE_FIELDS`. -/
def meiliShuffleFields : List Field :=
  [.shuffleHigh, .shuffleLow, .shuffleId0, .shuffleId1, .shuffleId2, .shuffleId3]

/-- `_meili_shuffle_parts`, in the order of the fields. -/
def meiliShuffleParts (key : ShuffleKey) (identity : Uuid) : List Nat :=
  [key.val >>> 31, key.val &&& (2 ^ 31 - 1), (identity.val >>> 96) &&& 0xFFFFFFFF,
    (identity.val >>> 64) &&& 0xFFFFFFFF, (identity.val >>> 32) &&& 0xFFFFFFFF,
    identity.val &&& 0xFFFFFFFF]

/-- The strict and the inclusive form of a comparison. -/
def orEqual : Comparison → Comparison
  | .lt => .le
  | .gt => .ge
  | operator => operator

/-- The loop of `_meili_tuple_comparison`: one clause for each position, in which
the positions before it are equal. -/
def tupleClauses (operator : Comparison) (inclusiveLast : Bool) :
    List (Expression Field) → List (Field × Nat) → List (Expression Field)
  | _, [] => []
  | equalities, (field, value) :: rest =>
    let comparison := Expression.compare field
      (if inclusiveLast && rest.isEmpty then orEqual operator else operator) (.number value)
    let clause := match Expression.joinAnd equalities with
      | none => comparison
      | some before => .and before comparison
    clause :: tupleClauses operator inclusiveLast
      (equalities ++ [.compare field .eq (.number value)]) rest

/-- `_meili_tuple_comparison`. -/
def meiliTupleComparison (fields : List Field) (values : List Nat) (operator : Comparison)
    (inclusiveLast : Bool) : Option (Expression Field) :=
  Expression.joinOr (tupleClauses operator inclusiveLast [] (fields.zip values))

/-- `_meili_random_phase_filter`. -/
def meiliRandomPhaseFilter (baseFilter : Option (Expression Field)) (start : ShuffleKey)
    (phase : Phase) (boundary : Option RandomWorkCursor) (reverse : Bool) :
    Option (Expression Field) :=
  let inPhase := meiliTupleComparison (meiliShuffleFields.take 2)
    ((meiliShuffleParts start 0).take 2) (if phase = .zero then .gt else .lt) (phase = .zero)
  let beyond := boundary.bind fun b =>
    meiliTupleComparison meiliShuffleFields (meiliShuffleParts b.key b.identity)
      (if reverse then .lt else .gt) false
  Expression.joinAnd [baseFilter, inPhase, beyond].reduceOption

end ShuffleRing
