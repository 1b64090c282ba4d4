import AutoGallery.RandomPages
import AutoGallery.MeiliSearch
import AutoGallery.WorkDocuments

/-!
# The ring in the index

The six shuffle fields of a document compare as the place of its work on the ring, so
a phase filter of `_meili_random_phase_filter` selects a window of the ring.
-/

namespace ShuffleFilter

open PyText SearchFilters ShuffleRing WorkDatabase WorkDocuments WorkPagination RandomPages Meili List Expression Comparison

section Parts

theorem key_lt_iff (k l : Nat) :
    k < l ↔ k >>> 31 < l >>> 31 ∨
      k >>> 31 = l >>> 31 ∧ k &&& (2 ^ 31 - 1) < l &&& (2 ^ 31 - 1) := by
  rw [Nat.shiftRight_eq_div_pow, Nat.shiftRight_eq_div_pow, Nat.and_two_pow_sub_one_eq_mod,
    Nat.and_two_pow_sub_one_eq_mod]
  omega

/-- A number by its digits to the base 2^32. -/
theorem digits_lt_iff (i j : Nat) :
    i < j ↔ i / 2 ^ 32 < j / 2 ^ 32 ∨ i / 2 ^ 32 = j / 2 ^ 32 ∧ i % 2 ^ 32 < j % 2 ^ 32 := by
  omega

theorem digits_eq_iff (i j : Nat) :
    i = j ↔ i / 2 ^ 32 = j / 2 ^ 32 ∧ i % 2 ^ 32 = j % 2 ^ 32 := by
  omega

theorem identity_lt_iff (i j : Uuid) :
    i < j ↔ numbersBefore
      [(i.val >>> 96) &&& 0xFFFFFFFF, (i.val >>> 64) &&& 0xFFFFFFFF,
        (i.val >>> 32) &&& 0xFFFFFFFF, i.val &&& 0xFFFFFFFF]
      [(j.val >>> 96) &&& 0xFFFFFFFF, (j.val >>> 64) &&& 0xFFFFFFFF,
        (j.val >>> 32) &&& 0xFFFFFFFF, j.val &&& 0xFFFFFFFF] = true := by
  have hi := i.isLt
  have hj := j.isLt
  have hlow : ∀ n : Nat, n &&& 0xFFFFFFFF = n % 2 ^ 32 := fun n =>
    Nat.and_two_pow_sub_one_eq_mod n 32
  have htop : ∀ n : Nat, n < 2 ^ 128 → n / 2 ^ 96 % 2 ^ 32 = n / 2 ^ 96 := by
    intro n hn
    exact Nat.mod_eq_of_lt (Nat.div_lt_of_lt_mul (by rw [← pow_add]; exact hn))
  have h64 : ∀ n : Nat, n / 2 ^ 32 / 2 ^ 32 = n / 2 ^ 64 := by
    intro n
    rw [Nat.div_div_eq_div_mul, ← pow_add]
  have h96 : ∀ n : Nat, n / 2 ^ 64 / 2 ^ 32 = n / 2 ^ 96 := by
    intro n
    rw [Nat.div_div_eq_div_mul, ← pow_add]
  simp only [Nat.shiftRight_eq_div_pow, hlow, htop _ hi, htop _ hj, numbersBefore, Bool.or_eq_true,
    Bool.and_eq_true, decide_eq_true_iff, Bool.false_eq_true, and_false, or_false]
  rw [Fin.lt_def, digits_lt_iff, digits_lt_iff (i.val / 2 ^ 32), digits_eq_iff (i.val / 2 ^ 32),
    h64, h64, digits_lt_iff (i.val / 2 ^ 64), digits_eq_iff (i.val / 2 ^ 64), h96, h96]
  clear hi hj hlow htop h64 h96
  generalize i.val / 2 ^ 96 = a, i.val / 2 ^ 64 % 2 ^ 32 = b, i.val / 2 ^ 32 % 2 ^ 32 = c,
    i.val % 2 ^ 32 = d, j.val / 2 ^ 96 = a', j.val / 2 ^ 64 % 2 ^ 32 = b',
    j.val / 2 ^ 32 % 2 ^ 32 = c', j.val % 2 ^ 32 = d'
  omega

theorem key_eq_iff (k l : Nat) :
    k = l ↔ k >>> 31 = l >>> 31 ∧ k &&& (2 ^ 31 - 1) = l &&& (2 ^ 31 - 1) := by
  rw [Nat.shiftRight_eq_div_pow, Nat.shiftRight_eq_div_pow, Nat.and_two_pow_sub_one_eq_mod,
    Nat.and_two_pow_sub_one_eq_mod]
  omega

/-- The two parts of a key. -/
theorem keyParts_before (k l : ShuffleKey) (i j : Uuid) :
    numbersBefore ((meiliShuffleParts k i).take 2) ((meiliShuffleParts l j).take 2) = true ↔
      k < l := by
  rw [Fin.lt_def, key_lt_iff]
  simp [meiliShuffleParts, numbersBefore]

/-- **The six parts are the place on the ring.** -/
theorem shuffleParts_before (k l : ShuffleKey) (i j : Uuid) :
    numbersBefore (meiliShuffleParts k i) (meiliShuffleParts l j) = true ↔
      ringPlace k i < ringPlace l j := by
  rw [ringPlace_lt_iff, identity_lt_iff, Fin.lt_def, key_lt_iff, Fin.ext_iff,
    key_eq_iff k.val l.val]
  unfold meiliShuffleParts
  rw [numbersBefore, numbersBefore]
  simp only [Bool.or_eq_true, Bool.and_eq_true, decide_eq_true_iff]
  tauto

end Parts

section Tuples

/-- What a tuple comparison says of pairs of a number and a bound. -/
def tupleTest (operator : Comparison) (inclusiveLast : Bool) : List (Nat × Nat) → Bool
  | [] => false
  | (m, n) :: rest =>
    (if inclusiveLast && rest.isEmpty then orEqual operator else operator).test id
        (.one (.number m)) (.number n) ||
      (decide (m = n) && tupleTest operator inclusiveLast rest)

theorem tupleTest_gt (pairs : List (Nat × Nat)) :
    tupleTest .gt false pairs = numbersBefore (pairs.map Prod.snd) (pairs.map Prod.fst) := by
  induction pairs with
  | nil => rfl
  | cons pair rest ih =>
    obtain ⟨m, n⟩ := pair
    simp [tupleTest, numbersBefore, ih, test, Value.scalars, ordered,
      eq_comm (a := m) (b := n)]

theorem tupleTest_lt (pairs : List (Nat × Nat)) :
    tupleTest .lt false pairs = numbersBefore (pairs.map Prod.fst) (pairs.map Prod.snd) := by
  induction pairs with
  | nil => rfl
  | cons pair rest ih =>
    obtain ⟨m, n⟩ := pair
    simp [tupleTest, numbersBefore, ih, test, Value.scalars, ordered]

theorem tupleTest_ge {pairs : List (Nat × Nat)} (h : pairs ≠ []) :
    tupleTest .gt true pairs = !numbersBefore (pairs.map Prod.fst) (pairs.map Prod.snd) := by
  induction pairs with
  | nil => exact absurd rfl h
  | cons pair rest ih =>
    obtain ⟨m, n⟩ := pair
    cases rest with
    | nil =>
      have hge : decide (n ≤ m) = !decide (m < n) := by grind
      simp [tupleTest, numbersBefore, test, Value.scalars, ordered, orEqual, hge]
    | cons next rest =>
      have htest : gt.test id (.one (.number m)) (.number n) = decide (n < m) := by
        simp [test, Value.scalars, ordered]
      rw [tupleTest, ih (by simp), isEmpty_cons, Bool.and_false, if_neg Bool.false_ne_true, htest]
      show _ = !(decide (m < n) || (decide (m = n) &&
        numbersBefore ((next :: rest).map Prod.fst) ((next :: rest).map Prod.snd)))
      generalize numbersBefore _ _ = later
      rcases lt_trichotomy m n with hlt | rfl | hgt
      · simp [hlt, hlt.not_gt, hlt.ne]
      · simp
      · simp [hgt, hgt.not_gt, hgt.ne']

theorem test_number (fold : Text → Text) (m n : Int) (operator : Comparison) :
    operator.test fold (.one (.number m)) (.number n) =
      operator.test id (.one (.number m)) (.number n) := by
  cases operator <;> rfl

variable (fold : Text → Text) {document : Field → Value} (number : Field → Nat)

theorem any_tupleClauses (operator : Comparison) (inclusiveLast : Bool) {pairs : List (Field × Nat)}
    (h : ∀ pair ∈ pairs, document pair.1 = .one (.number (number pair.1)))
    (equalities : List (Expression Field)) :
    (tupleClauses operator inclusiveLast equalities pairs).any (·.satisfied fold document) =
      (equalities.all (·.satisfied fold document) &&
        tupleTest operator inclusiveLast (pairs.map fun pair => (number pair.1, pair.2))) := by
  induction pairs generalizing equalities with
  | nil => simp [tupleClauses, tupleTest]
  | cons pair rest ih =>
    obtain ⟨f, n⟩ := pair
    have hfield := h (f, n) mem_cons_self
    have hcompare : ∀ op : Comparison, (compare f op (.number n)).satisfied fold document =
        op.test id (.one (.number (number f))) (.number n) := by
      intro op
      rw [satisfied, hfield]
      exact test_number fold _ _ op
    have hequal : (compare f .eq (.number n)).satisfied fold document =
        decide (number f = n) := by
      rw [hcompare]
      simp [test, Value.scalars, same]
    have hguard := satisfied_joinAnd fold document equalities
    rw [tupleClauses, any_cons, ih fun pair hpair => h pair (mem_cons_of_mem _ hpair)]
    simp only [all_append, all_cons, all_nil, Bool.and_true, hequal, map_cons,
      tupleTest, isEmpty_map]
    cases hjoin : joinAnd equalities with
    | none =>
      rw [hjoin, Option.all_none] at hguard
      simp only [← hguard, hcompare, Bool.true_and]
    | some before =>
      rw [hjoin, Option.all_some] at hguard
      simp only [← hguard, satisfied_and, hcompare, Bool.and_assoc,
        Bool.and_or_distrib_left]

/-- The fields of a tuple comparison with the numbers a document has there. -/
theorem satisfied_tupleComparison (operator : Comparison) (inclusiveLast : Bool)
    {fields : List Field} (h : ∀ f ∈ fields, document f = .one (.number (number f)))
    {values : List Nat} (hne : fields.zip values ≠ []) :
    (meiliTupleComparison fields values operator inclusiveLast).all (·.satisfied fold document) =
      tupleTest operator inclusiveLast ((fields.zip values).map fun pair => (number pair.1, pair.2)) := by
  have hnumbers : ∀ pair ∈ fields.zip values, document pair.1 = .one (.number (number pair.1)) :=
    fun pair hpair => h pair.1 (of_mem_zip hpair).1
  have hclauses := any_tupleClauses fold number operator inclusiveLast hnumbers []
  rw [← satisfied_joinOr, all_nil, Bool.true_and] at hclauses
  rw [← hclauses]
  unfold meiliTupleComparison
  cases hzip : fields.zip values with
  | nil => exact absurd hzip hne
  | cons pair rest => rfl

end Tuples

section PhaseFilter

variable (E : FilterRuntime) (db : Database) (work : Work)

/-- The numbers in the shuffle fields of a work's document. -/
def shuffleNumber (work : Work) (field : Field) : Nat :=
  ((meiliShuffleFields.zip (meiliShuffleParts work.shuffleKey work.id)).lookup field).getD 0

theorem field_shuffle {field : Field} (h : field ∈ meiliShuffleFields) :
    (buildWorkDocument E db work).field field = .one (.number (shuffleNumber work field)) := by
  simp only [meiliShuffleFields, mem_cons, not_mem_nil, or_false] at h
  rcases h with rfl | rfl | rfl | rfl | rfl | rfl <;> rfl

theorem map_shuffleNumber :
    meiliShuffleFields.map (shuffleNumber work) = meiliShuffleParts work.shuffleKey work.id :=
  rfl

/-- Which works a phase of the ring selects. -/
theorem satisfied_inPhase (fold : Text → Text) (start : ShuffleKey) (phase : Phase) :
    (meiliTupleComparison (meiliShuffleFields.take 2) ((meiliShuffleParts start 0).take 2)
        (if phase = .zero then .gt else .lt) (phase = .zero)).all
        (·.satisfied fold (buildWorkDocument E db work).field) =
      decide (phaseOf start work.shuffleKey = phase) := by
  have hfields : ∀ f ∈ meiliShuffleFields.take 2,
      (buildWorkDocument E db work).field f = .one (.number (shuffleNumber work f)) :=
    fun f hf => field_shuffle E db work (mem_of_mem_take hf)
  have hzip : (meiliShuffleFields.take 2).zip ((meiliShuffleParts start 0).take 2) ≠ [] :=
    cons_ne_nil _ _
  rw [satisfied_tupleComparison fold _ _ _ hfields hzip, Bool.eq_iff_iff, decide_eq_true_iff]
  have hbefore := keyParts_before work.shuffleKey start work.id 0
  cases phase with
  | zero =>
    rw [phaseOf_eq_zero, ← not_lt, ← hbefore, Bool.not_eq_true, ← Bool.not_eq_true']
    exact Eq.congr_left (tupleTest_ge (cons_ne_nil _ _))
  | one =>
    rw [phaseOf_eq_one, ← hbefore]
    exact Eq.congr_left (tupleTest_lt _)

/-- Which works a boundary selects. -/
theorem satisfied_beyond (fold : Text → Text) (boundary : RandomWorkCursor) (reverse : Bool) :
    (meiliTupleComparison meiliShuffleFields (meiliShuffleParts boundary.key boundary.identity)
        (if reverse then .lt else .gt) false).all
        (·.satisfied fold (buildWorkDocument E db work).field) =
      if reverse then decide (workPlace work < ringPlace boundary.key boundary.identity)
      else ringPlace boundary.key boundary.identity < workPlace work := by
  have hzip : meiliShuffleFields.zip (meiliShuffleParts boundary.key boundary.identity) ≠ [] :=
    cons_ne_nil _ _
  rw [satisfied_tupleComparison fold _ _ _ (fun f hf => field_shuffle E db work hf) hzip,
    Bool.eq_iff_iff]
  cases reverse with
  | true =>
    rw [if_pos rfl, if_pos rfl, decide_eq_true_iff, workPlace, ← shuffleParts_before]
    exact Eq.congr_left (tupleTest_lt _)
  | false =>
    rw [if_neg Bool.false_ne_true, if_neg Bool.false_ne_true, decide_eq_true_iff, workPlace,
      ← shuffleParts_before]
    exact Eq.congr_left (tupleTest_gt _)

/-- **A phase filter selects a window of the ring.** -/
theorem satisfied_phaseFilter (fold : Text → Text) (baseFilter : Option (Expression Field))
    (start : ShuffleKey) (phase : Phase) (boundary : Option RandomWorkCursor) (reverse : Bool) :
    (meiliRandomPhaseFilter baseFilter start phase boundary reverse).all
        (·.satisfied fold (buildWorkDocument E db work).field) =
      (baseFilter.all (·.satisfied fold (buildWorkDocument E db work).field) &&
        inWindow start phase reverse boundary work) := by
  have hparts : ∀ parts : List (Option (Expression Field)),
      parts.reduceOption.all (·.satisfied fold (buildWorkDocument E db work).field) =
        parts.all fun part => part.all (·.satisfied fold (buildWorkDocument E db work).field) := by
    intro parts
    induction parts with
    | nil => rfl
    | cons part rest ih => cases part <;> simp [ih]
  unfold meiliRandomPhaseFilter inWindow
  rw [satisfied_joinAnd, hparts]
  simp only [all_cons, all_nil, Bool.and_true, satisfied_inPhase]
  cases boundary with
  | none => rfl
  | some b => rw [Option.bind_some, satisfied_beyond, Option.all_some]

end PhaseFilter

end ShuffleFilter
