import AutoGallery.ResourcePressure
import Mathlib.Data.List.Basic
import Mathlib.Data.List.Induction
import Mathlib.Data.Rat.Floor
import Mathlib.Tactic.Linarith
import Mathlib.Tactic.NormNum

/-!
# What the controller's counters stand for

The controller keeps counts and times and no samples.  This file says what they stand
for in the history of its calls: the counts are lengths of runs of missing or hard
samples that end now, `recoveryStartedAt` is the first update of a run in which the host
has recovered, and nothing since `stableSince` has shown pressure.  The hysteresis of the
controller follows (`controller_hysteresis`).

`Outcome` says once what an update can do; everything about updates is read off it.
-/

namespace ResourcePressure

open List

section Controller

variable {Q : Type} [LinearOrder Q] (N : Floats Q) (t : PressureThresholds Q) (c : Settings Q)

/-- The machine with other counts for the foreground, and no failures. -/
def measured (s : Machine Q) (slow : ℤ) (last : Option ℤ) : Machine Q :=
  { s with failureCount := 0, foregroundSlowCount := slow, foregroundLastSampleGeneration := last }

theorem observed_eq (s : Machine Q) (sample : ResourceSample Q) :
    ∃ slow last, observed c s sample = measured s slow last := by
  unfold observed
  dsimp only
  split_ifs
  · exact ⟨_, _, rfl⟩
  · exact ⟨_, _, rfl⟩
  · exact ⟨_, _, rfl⟩
  · exact ⟨_, _, rfl⟩

/-- The soft reasons that an update finds. -/
def softAt (s : Machine Q) (sample : ResourceSample Q) : List Reason :=
  softReasonsAt N t c (observed c s sample) sample

/-- The update shows pressure: its sample is missing, hard or soft. -/
def Pressed (s : Machine Q) : Option (ResourceSample Q) → Prop
  | none => True
  | some sample => hardReasons N t sample ≠ [] ∨ softAt N t c s sample ≠ []

/-- The machine after an update that has found the host critical or not. -/
inductive Outcome (s : Machine Q) (now : Q) : Option (ResourceSample Q) → Machine Q → Prop
  | failed (trigger : List Reason) (hcount : t.failureSamples ≤ s.failureCount + 1) :
      Outcome s now none { setScale N (setMode (unmeasured s) .critical) (N.ofRat 0) with
        triggerReasons := trigger }
  | failing (hmode : s.controllerMode = .critical) : Outcome s now none (unmeasured s)
  | blind (hmode : s.controllerMode ≠ .critical) :
      Outcome s now none (decreaseBudget N c (setMode (unmeasured s) .constrained))
  | stillHard (sample : ResourceSample Q) (slow : ℤ) (last : Option ℤ)
      (hmode : s.controllerMode = .critical) :
      Outcome s now (some sample) { setScale N (measured s slow last) (N.ofRat 0) with
        recoveryStartedAt := none, stableSince := none, reasons := hardReasons N t sample }
  | notRecovered (sample : ResourceSample Q) (slow : ℤ) (last : Option ℤ) (reasons : List Reason)
      (hmode : s.controllerMode = .critical) :
      Outcome s now (some sample) { setScale N (measured s slow last) (N.ofRat 0) with
        recoveryStartedAt := none, reasons := reasons }
  | recovering (sample : ResourceSample Q) (slow : ℤ) (last : Option ℤ) (reasons : List Reason)
      (hmode : s.controllerMode = .critical) (hrecovered : hardRecovered N t sample) :
      Outcome s now (some sample) { setScale N (measured s slow last) (N.ofRat 0) with
        recoveryStartedAt := some (s.recoveryStartedAt.getD now), reasons := reasons }
  | left (sample : ResourceSample Q) (slow : ℤ) (last : Option ℤ)
      (hmode : s.controllerMode = .critical) (hrecovered : hardRecovered N t sample)
      (hlong : t.resumeSeconds ≤ N.sub now (s.recoveryStartedAt.getD now)) :
      Outcome s now (some sample) (leaveCritical N c (setScale N (measured s slow last) (N.ofRat 0))
        now (softAt N t c s sample))
  | paused (sample : ResourceSample Q) (slow : ℤ) (last : Option ℤ) (pauses : ℕ)
      (hmode : s.controllerMode ≠ .critical) (hhard : hardReasons N t sample ≠ [])
      (hcount : sample.oomKill = true ∨ t.pauseSamples ≤ s.pauseCount + 1) :
      Outcome s now (some sample)
        { setScale N (setMode { measured s slow last with
            stableSince := none, pauseCount := pauses, reasons := hardReasons N t sample }
            .critical) (N.ofRat 0) with
          triggerReasons := hardReasons N t sample }
  | hard (sample : ResourceSample Q) (slow : ℤ) (last : Option ℤ)
      (hmode : s.controllerMode ≠ .critical) (hhard : hardReasons N t sample ≠ []) :
      Outcome s now (some sample) (decreaseBudget N c (setMode { measured s slow last with
        stableSince := none, pauseCount := s.pauseCount + 1, reasons := hardReasons N t sample }
        .constrained))
  | soft (sample : ResourceSample Q) (slow : ℤ) (last : Option ℤ)
      (hmode : s.controllerMode ≠ .critical) (hsoft : softAt N t c s sample ≠ []) :
      Outcome s now (some sample) (decreaseBudget N c (setMode { measured s slow last with
        pauseCount := 0, recoveryStartedAt := none, triggerReasons := [],
        reasons := softAt N t c s sample, stableSince := none } .constrained))
  | calm (sample : ResourceSample Q) (slow : ℤ) (last : Option ℤ)
      (hmode : s.controllerMode ≠ .critical) (hcalm : ¬Pressed N t c s (some sample)) :
      Outcome s now (some sample) (recoverBudgetIfStable N c (setMode { measured s slow last with
        pauseCount := 0, recoveryStartedAt := none, triggerReasons := [],
        reasons := [] } .normal) now)

theorem updateMissing_outcome (s : Machine Q) (now : Q) :
    Outcome N t c s now none (updateMissing N t c s) := by
  unfold updateMissing
  dsimp only
  split_ifs with hcount hmode hmode
  · exact .failed _ hcount
  · exact .failed _ hcount
  · exact .failing hmode
  · exact .blind hmode

variable {s : Machine Q} {sample : ResourceSample Q} {slow : ℤ} {last : Option ℤ} {x : Q}

theorem updateCritical_outcome (now : Q) (hmode : s.controllerMode = .critical) :
    Outcome N t c s now (some sample)
      (updateCritical N t c (measured s slow last) now sample (softAt N t c s sample)) := by
  unfold updateCritical
  dsimp only
  by_cases hhard : hardReasons N t sample ≠ []
  · rw [if_pos hhard]
    exact .stillHard sample slow last hmode
  rw [if_neg hhard]
  by_cases hrecovered : hardRecovered N t sample
  · rw [if_neg (not_not.mpr hrecovered)]
    split_ifs with hlt
    · exact .recovering sample slow last _ hmode hrecovered
    · exact .left sample slow last hmode hrecovered (not_lt.mp hlt)
  · rw [if_pos hrecovered]
    exact .notRecovered sample slow last _ hmode

theorem updateHard_outcome (now : Q) (hmode : s.controllerMode ≠ .critical)
    (hhard : hardReasons N t sample ≠ []) :
    Outcome N t c s now (some sample) (updateHard N t c (measured s slow last) sample) := by
  unfold updateHard
  dsimp only
  by_cases hoom : sample.oomKill = true
  · rw [if_pos hoom, if_pos le_rfl]
    exact .paused sample slow last _ hmode hhard (.inl hoom)
  rw [if_neg hoom]
  by_cases hcount : t.pauseSamples ≤ s.pauseCount + 1
  · rw [if_pos (show t.pauseSamples ≤ (measured s slow last).pauseCount + 1 from hcount)]
    exact .paused sample slow last _ hmode hhard (.inr hcount)
  · rw [if_neg (show ¬t.pauseSamples ≤ (measured s slow last).pauseCount + 1 from hcount)]
    exact .hard sample slow last hmode hhard

/-- **What an update can do.** -/
theorem update_outcome (s : Machine Q) (now : Q) (sample : Option (ResourceSample Q)) :
    Outcome N t c s now sample (update N t c s now sample) := by
  cases sample with
  | none => exact updateMissing_outcome N t c s now
  | some sample =>
    obtain ⟨slow, last, hobserved⟩ := observed_eq c s sample
    have hsoft : softReasonsAt N t c (measured s slow last) sample = softAt N t c s sample := by
      rw [softAt, hobserved]
    unfold update
    dsimp only
    rw [hobserved, hsoft]
    by_cases hmode : s.controllerMode = .critical
    · rw [if_pos (show (measured s slow last).controllerMode = .critical from hmode)]
      exact updateCritical_outcome N t c now hmode
    rw [if_neg (show (measured s slow last).controllerMode ≠ .critical from hmode)]
    by_cases hhard : hardReasons N t sample ≠ []
    · rw [if_pos hhard]
      exact updateHard_outcome N t c now hmode hhard
    rw [if_neg hhard]
    unfold updateCalm
    dsimp only
    by_cases hcalm : softAt N t c s sample = []
    · rw [if_pos hcalm, hcalm]
      exact .calm sample slow last hmode fun hpressed => hpressed.elim hhard (absurd hcalm)
    · rw [if_neg hcalm]
      exact .soft sample slow last hmode hcalm

/-! ### The scale -/

variable {N t c}

theorem clampScale_zero : clampScale N (N.ofRat 0) = N.ofRat 0 := by
  have hle : N.ofRat 0 ≤ N.ofRat 1 := N.ofRat_mono 0 1 (by norm_num)
  rw [clampScale, min_eq_right hle, max_self, N.round4_zero]

theorem clampScale_le_one (x : Q) : clampScale N x ≤ N.ofRat 1 := by
  have hle : max (N.ofRat 0) (min (N.ofRat 1) x) ≤ N.ofRat 1 :=
    max_le (N.ofRat_mono 0 1 (by norm_num)) (min_le_left _ _)
  calc clampScale N x ≤ N.round4 (N.ofRat 1) := N.round4_mono _ _ hle
    _ = N.ofRat 1 := N.round4_one

theorem zero_le_clampScale (x : Q) : N.ofRat 0 ≤ clampScale N x := by
  calc N.ofRat 0 = N.round4 (N.ofRat 0) := N.round4_zero.symm
    _ ≤ clampScale N x := N.round4_mono _ _ (le_max_left _ _)

theorem clampScale_mono {y : Q} (h : x ≤ y) : clampScale N x ≤ clampScale N y :=
  N.round4_mono _ _ (max_le_max le_rfl (min_le_min le_rfl h))

/-- A stored scale is stored again as it is. -/
theorem clampScale_stored (h0 : N.ofRat 0 ≤ x) (h1 : x ≤ N.ofRat 1) (h : N.round4 x = x) :
    clampScale N x = x := by
  rw [clampScale, min_eq_right h1, max_eq_right h0, h]

theorem minScale_pos : N.ofRat 0 < clampScale N (minScale N c) := by
  have hone : (N.ofRat (1 / 100)) ≤ N.ofRat 1 := N.ofRat_mono _ _ (by norm_num)
  have hle : N.ofRat (1 / 100) ≤ max (N.ofRat 0) (min (N.ofRat 1) (minScale N c)) :=
    le_max_of_le_right (le_min hone (le_max_left _ _))
  exact N.round4_pos _ hle

variable (N c s) in
/-- The scale is one that can be stored, and the mode is critical just when it is 0. -/
structure Scaled : Prop where
  critical : s.controllerMode = .critical → s.throughputScale = N.ofRat 0
  running : s.controllerMode ≠ .critical → clampScale N (minScale N c) ≤ s.throughputScale
  stored : clampScale N s.throughputScale = s.throughputScale

theorem Scaled.zero_iff (h : Scaled N c s) :
    s.throughputScale = N.ofRat 0 ↔ s.controllerMode = .critical := by
  refine ⟨fun hzero => ?_, h.critical⟩
  by_contra hmode
  have hle := h.running hmode
  rw [hzero] at hle
  exact absurd minScale_pos hle.not_gt

theorem Scaled.zero_le (h : Scaled N c s) : clampScale N (N.ofRat 0) ≤ s.throughputScale := by
  rw [clampScale_zero, ← h.stored]
  exact zero_le_clampScale _

theorem clampScale_idem (x : Q) : clampScale N (clampScale N x) = clampScale N x :=
  clampScale_stored (zero_le_clampScale x) (clampScale_le_one x) (N.round4_idem _)

theorem scaled_fresh : Scaled N c (fresh N) where
  critical h := nomatch h
  running _ := clampScale_le_one _
  stored := clampScale_stored (N.ofRat_mono 0 1 (by norm_num)) le_rfl N.round4_one

/-- The machine enters the critical mode, or stays in it. -/
theorem scaled_critical (hmode : s.controllerMode = .critical)
    (hscale : s.throughputScale = clampScale N (N.ofRat 0)) : Scaled N c s where
  critical _ := hscale.trans clampScale_zero
  running h := absurd hmode h
  stored := by rw [hscale, clampScale_idem]

/-- Out of the critical mode the scale is a clamped value above the least one. -/
theorem scaled_running (hmode : s.controllerMode ≠ .critical)
    (hscale : s.throughputScale = clampScale N x) (hx : minScale N c ≤ x) : Scaled N c s where
  critical h := absurd h hmode
  running _ := hscale ▸ clampScale_mono hx
  stored := by rw [hscale, clampScale_idem]

/-- A decrease does not raise the scale. -/
theorem decreaseBudget_le (h : Scaled N c s) (hmode : s.controllerMode ≠ .critical) :
    (decreaseBudget N c s).throughputScale ≤ s.throughputScale := by
  have hpos : N.ofRat 0 ≤ s.throughputScale := clampScale_zero.ge.trans h.zero_le
  have hfactor : decreaseFactor N c ≤ N.ofRat (19 / 20) :=
    max_le (N.ofRat_mono _ _ (by norm_num)) (min_le_left _ _)
  have hmul := N.mul_le s.throughputScale (decreaseFactor N c) hpos hfactor
  change clampScale N (max _ _) ≤ _
  rcases le_total (minScale N c) (N.mul s.throughputScale (decreaseFactor N c)) with hle | hle
  · rw [max_eq_right hle]
    exact (clampScale_mono hmul).trans h.stored.le
  · rw [max_eq_left hle]
    exact h.running hmode

theorem minScale_le_one : minScale N c ≤ N.ofRat 1 :=
  max_le (N.ofRat_mono _ _ (by norm_num)) (min_le_left _ _)

/-- A step up does not end below the least scale. -/
theorem minScale_le_stepUp (scale : Q) :
    minScale N c ≤ min (N.ofRat 1) (N.add (max (minScale N c) scale) (increaseStep N c)) := by
  have hstep : N.ofRat 0 ≤ increaseStep N c :=
    (N.ofRat_mono 0 (1 / 1000) (by norm_num)).trans (le_max_left _ _)
  exact le_min minScale_le_one ((le_max_left _ _).trans (N.le_add _ _ hstep))

/-- A calm update remembers since when, or raises the scale. -/
theorem recoverBudgetIfStable_cases (s : Machine Q) (now : Q) :
    (∃ since, (since = now ∨ s.stableSince = some since) ∧
      recoverBudgetIfStable N c s now = { s with stableSince := some since }) ∨
    ∃ since, s.stableSince = some since ∧ stableSeconds N c ≤ N.sub now since ∧
      (∀ last, s.lastIncreaseAt = some last → stableSeconds N c ≤ N.sub now last) ∧
      recoverBudgetIfStable N c s now = increaseBudget N c s now := by
  unfold recoverBudgetIfStable
  split
  · refine .inl ⟨stableSinceOr N s now, ?_, rfl⟩
    unfold stableSinceOr
    split
    · split
      · exact .inl rfl
      · exact .inr ‹_›
    · exact .inl rfl
  split
  · exact .inl ⟨now, .inl rfl, rfl⟩
  rename_i since hsince
  have hsame : s = { s with stableSince := some since } := by rw [← hsince]
  split
  · exact .inl ⟨since, .inr hsince, hsame⟩
  rename_i hlong
  split
  · exact .inl ⟨since, .inr hsince, hsame⟩
  rename_i hlast
  refine .inr ⟨since, hsince, not_lt.mp hlong, fun last hlast' => not_lt.mp fun hlt => hlast ?_, rfl⟩
  rw [hlast', Option.any_some, decide_eq_true_eq]
  exact hlt

/-- Leaving the critical mode, with soft reasons or without. -/
theorem leaveCritical_cases (s : Machine Q) (now : Q) (soft : List Reason) :
    (soft = [] ∧ leaveCritical N c s now soft =
      { setScale N { setMode { s with pauseCount := 0, recoveryStartedAt := none } .normal with
          reasons := soft, triggerReasons := [] } (minScale N c) with
        stableSince := some now, lastIncreaseAt := some now }) ∨
    (soft ≠ [] ∧ leaveCritical N c s now soft = decreaseBudget N c
      { setMode { s with pauseCount := 0, recoveryStartedAt := none } .constrained with
        reasons := soft, triggerReasons := [], stableSince := none }) := by
  unfold leaveCritical
  by_cases hsoft : soft = []
  · exact .inl ⟨hsoft, by rw [if_pos hsoft, if_pos hsoft]⟩
  · exact .inr ⟨hsoft, by rw [if_neg hsoft, if_neg hsoft]⟩

omit [LinearOrder Q] in
/-- The recovery starts now, or has started. -/
theorem started_cases (s : Machine Q) (now : Q) : s.recoveryStartedAt.getD now = now ∨
    s.recoveryStartedAt = some (s.recoveryStartedAt.getD now) := by
  cases s.recoveryStartedAt with
  | none => exact .inl rfl
  | some start => exact .inr rfl

section Updates

variable {s s' : Machine Q} {now : Q} {sample : Option (ResourceSample Q)}

theorem Outcome.scaled (ho : Outcome N t c s now sample s') (h : Scaled N c s) :
    Scaled N c s' := by
  cases ho with
  | failed _ _ | paused _ _ _ _ _ _ _ => exact scaled_critical rfl rfl
  | failing hmode => exact { h with }
  | blind _ | hard _ _ _ _ _ | soft _ _ _ _ _ => exact scaled_running nofun rfl (le_max_left _ _)
  | stillHard _ _ _ hmode | notRecovered _ _ _ _ hmode
  | recovering _ _ _ _ hmode _ => exact scaled_critical hmode rfl
  | left sample slow last hmode hrecovered hlong =>
    rcases leaveCritical_cases (N := N) (c := c) _ now _ with ⟨-, hleft⟩ | ⟨-, hleft⟩
    · rw [hleft]
      exact scaled_running nofun rfl le_rfl
    · rw [hleft]
      exact scaled_running nofun rfl (le_max_left _ _)
  | calm sample slow last hmode hcalm =>
    rcases recoverBudgetIfStable_cases (N := N) (c := c) _ now with
      ⟨since, -, hrecover⟩ | ⟨since, -, -, -, hrecover⟩
    · rw [hrecover]
      exact ⟨nofun, fun _ => h.running hmode, h.stored⟩
    · rw [hrecover]
      exact scaled_running nofun rfl (minScale_le_stepUp _)

/-- The generation counts the changes of the mode and of the scale. -/
def Counted (s s' : Machine Q) : Prop :=
  s'.generation = s.generation + (if s'.controllerMode = s.controllerMode then 0 else 1) +
    if s'.throughputScale = s.throughputScale then 0 else 1

/-- One assignment of the mode and one of the scale. -/
theorem counted_setScale_setMode (s : Machine Q) (mode : Mode) (value : Q) :
    Counted s (setScale N (setMode s mode) value) := by
  unfold Counted setScale setMode
  dsimp only
  split_ifs <;> rfl

theorem counted_setMode (s : Machine Q) (mode : Mode) : Counted s (setMode s mode) := by
  unfold Counted setMode
  dsimp only
  split_ifs
  · rfl
  · contradiction
  · rfl
  · contradiction

/-- In the critical mode the scale is set to what it is, and nothing is counted. -/
theorem Scaled.quiet (h : Scaled N c s) (hmode : s.controllerMode = .critical) (slow : ℤ)
    (last : Option ℤ) :
    (setScale N (measured s slow last) (N.ofRat 0)).throughputScale = s.throughputScale ∧
      (setScale N (measured s slow last) (N.ofRat 0)).generation = s.generation := by
  have hscale : clampScale N (N.ofRat 0) = s.throughputScale := by
    rw [clampScale_zero, h.critical hmode]
  exact ⟨hscale, if_pos hscale⟩

theorem counted_same (hmode : s'.controllerMode = s.controllerMode)
    (hscale : s'.throughputScale = s.throughputScale) (hcount : s'.generation = s.generation) :
    Counted s s' := by
  rw [Counted, if_pos hmode, if_pos hscale, hcount, Nat.add_zero]

section

variable (ho : Outcome N t c s now sample s')
include ho

theorem Outcome.counted (h : Scaled N c s) :
    Counted s s' := by
  cases ho with
  | failed trigger hcount => exact counted_setScale_setMode (unmeasured s) .critical _
  | failing hmode => exact counted_same rfl rfl rfl
  | blind hmode => exact counted_setScale_setMode (unmeasured s) .constrained _
  | stillHard _ slow last hmode | notRecovered _ slow last _ hmode
  | recovering _ slow last _ hmode _ =>
    obtain ⟨hscale, hcount⟩ := h.quiet hmode slow last
    exact counted_same rfl hscale hcount
  | left sample slow last hmode hrecovered hlong =>
    obtain ⟨hscale, hcount⟩ := h.quiet hmode slow last
    have hfrom : ∀ mode value, Counted s
        (setScale N (setMode (setScale N (measured s slow last) (N.ofRat 0)) mode) value) := by
      intro mode value
      have hset := counted_setScale_setMode (N := N)
        (setScale N (measured s slow last) (N.ofRat 0)) mode value
      rw [Counted, hscale, hcount] at hset
      exact hset
    rcases leaveCritical_cases (N := N) (c := c) _ now _ with ⟨-, hleft⟩ | ⟨-, hleft⟩
    · rw [hleft]
      exact hfrom .normal _
    · rw [hleft]
      exact hfrom .constrained _
  | paused sample slow last pauses hmode hhard hcount =>
    exact counted_setScale_setMode { measured s slow last with .. } .critical _
  | hard _ slow last _ _ | soft _ slow last _ _ =>
    exact counted_setScale_setMode { measured s slow last with .. } .constrained _
  | calm sample slow last hmode hcalm =>
    rcases recoverBudgetIfStable_cases (N := N) (c := c) _ now with
      ⟨since, -, hrecover⟩ | ⟨since, -, -, -, hrecover⟩
    · rw [hrecover]
      exact counted_setMode s .normal
    · rw [hrecover]
      exact counted_setScale_setMode s .normal _

/-- The critical mode is entered after enough failures, or enough hard samples. -/
theorem Outcome.enters (hmode : s.controllerMode ≠ .critical)
    (hmode' : s'.controllerMode = .critical) :
    (sample = none ∧ t.failureSamples ≤ s.failureCount + 1) ∨
    ∃ x, sample = some x ∧ hardReasons N t x ≠ [] ∧
      (x.oomKill = true ∨ t.pauseSamples ≤ s.pauseCount + 1) := by
  cases ho with
  | failed trigger hcount => exact .inl ⟨rfl, hcount⟩
  | failing hcritical | stillHard _ _ _ hcritical | notRecovered _ _ _ _ hcritical
  | recovering _ _ _ _ hcritical _ | left _ _ _ hcritical _ _ => exact absurd hcritical hmode
  | blind _ => cases hmode'
  | paused x slow last pauses _ hhard hcount => exact .inr ⟨x, rfl, hhard, hcount⟩
  | hard x slow last _ _ => cases hmode'
  | soft x slow last _ _ => cases hmode'
  | calm x slow last _ _ =>
    rcases recoverBudgetIfStable_cases (N := N) (c := c) _ now with
      ⟨since, -, hrecover⟩ | ⟨since, -, -, -, hrecover⟩
    · rw [hrecover] at hmode'
      cases hmode'
    · rw [hrecover] at hmode'
      cases hmode'

/-- The critical mode is left by a sample of the recovered host, long enough after the
recovery has started. -/
theorem Outcome.leaves (hmode : s.controllerMode = .critical)
    (hmode' : s'.controllerMode ≠ .critical) :
    ∃ x, sample = some x ∧ hardRecovered N t x ∧
      t.resumeSeconds ≤ N.sub now (s.recoveryStartedAt.getD now) := by
  cases ho with
  | failed trigger hcount => exact absurd rfl hmode'
  | failing _ | stillHard _ _ _ _ | notRecovered _ _ _ _ _
  | recovering _ _ _ _ _ _ => exact absurd hmode hmode'
  | blind hother | paused _ _ _ _ hother _ _ | hard _ _ _ hother _ | soft _ _ _ hother _
  | calm _ _ _ hother _ => exact absurd hmode hother
  | left x slow last _ hrecovered hlong => exact ⟨x, rfl, hrecovered, hlong⟩

/-- Out of the critical mode the scale rises by one step, when nothing has shown pressure
and the scale has not risen for the stable interval. -/
theorem Outcome.rises (h : Scaled N c s)
    (hmode : s.controllerMode ≠ .critical) (hlt : s.throughputScale < s'.throughputScale) :
    s'.throughputScale = stepUp N c s.throughputScale ∧
    (∃ since, s.stableSince = some since ∧ stableSeconds N c ≤ N.sub now since) ∧
    ∀ last, s.lastIncreaseAt = some last → stableSeconds N c ≤ N.sub now last := by
  have hdecrease : ∀ u : Machine Q, u.controllerMode ≠ .critical →
      u.throughputScale = s.throughputScale →
      ¬s.throughputScale < (decreaseBudget N c u).throughputScale := by
    intro u hu hscale hrise
    have hscaled : Scaled N c u :=
      ⟨fun hcritical => absurd hcritical hu, fun _ => hscale ▸ h.running hmode, hscale ▸ h.stored⟩
    exact absurd (hscale ▸ hrise) (decreaseBudget_le hscaled hu).not_gt
  cases ho with
  | failed _ _ | paused _ _ _ _ _ _ _ => exact absurd hlt h.zero_le.not_gt
  | failing hcritical | stillHard _ _ _ hcritical | notRecovered _ _ _ _ hcritical
  | recovering _ _ _ _ hcritical _ | left _ _ _ hcritical _ _ => exact absurd hcritical hmode
  | blind _ | hard _ _ _ _ _ | soft _ _ _ _ _ => exact absurd hlt (hdecrease _ nofun rfl)
  | calm x slow last _ _ =>
    rcases recoverBudgetIfStable_cases (N := N) (c := c) _ now with
      ⟨since, -, hrecover⟩ | ⟨since, hsince, hlong, hlast, hrecover⟩
    · rw [hrecover] at hlt
      exact absurd hlt (lt_irrefl _)
    · rw [hrecover]
      exact ⟨rfl, ⟨since, hsince, hlong⟩, hlast⟩

end

variable (N t c s now sample) in
/-- What an update does to the counts and times. -/
structure Remembers (s' : Machine Q) : Prop where
  failures : s'.failureCount = 0 ∨ sample = none ∧ s'.failureCount = s.failureCount + 1
  pauses : s'.controllerMode ≠ .critical → s'.pauseCount = 0 ∨
    s.controllerMode ≠ .critical ∧ s'.pauseCount = s.pauseCount + 1 ∧
      ∃ x, sample = some x ∧ hardReasons N t x ≠ []
  recovery : ∀ start, s'.recoveryStartedAt = some start →
    ∃ x, sample = some x ∧ hardRecovered N t x ∧ (start = now ∨ s.recoveryStartedAt = some start)
  settled : s'.controllerMode ≠ .critical → s'.recoveryStartedAt = none
  latched : s'.controllerMode = .critical → s'.stableSince = none
  stable : ∀ since, s'.stableSince = some since →
    since = now ∨ ¬Pressed N t c s sample ∧ s.stableSince = some since
  increased : s'.lastIncreaseAt = s.lastIncreaseAt ∨ s'.lastIncreaseAt = some now
  raised : s.throughputScale < s'.throughputScale →
    Pressed N t c s sample ∨ s'.lastIncreaseAt = some now

theorem Outcome.remembers (ho : Outcome N t c s now sample s') (h : Scaled N c s)
    (hsettled : s.controllerMode ≠ .critical → s.recoveryStartedAt = none)
    (hlatched : s.controllerMode = .critical → s.stableSince = none) :
    Remembers N t c s now sample s' := by
  cases ho with
  | failed _ _ | failing _ | blind _ =>
    exact ⟨.inr ⟨rfl, rfl⟩, fun _ => .inl rfl, nofun, fun _ => rfl, fun _ => rfl, nofun,
      .inl rfl, fun _ => .inl trivial⟩
  | stillHard x slow last hmode =>
    exact ⟨.inl rfl, fun hother => absurd hmode hother, nofun, fun _ => rfl, fun _ => rfl, nofun,
      .inl rfl, fun hlt => absurd hlt h.zero_le.not_gt⟩
  | notRecovered x slow last reasons hmode =>
    refine ⟨.inl rfl, fun hother => absurd hmode hother, nofun, fun _ => rfl,
      fun _ => hlatched hmode, fun since hsince => ?_, .inl rfl,
      fun hlt => absurd hlt h.zero_le.not_gt⟩
    exact absurd ((hlatched hmode).symm.trans hsince) nofun
  | recovering x slow last reasons hmode hrecovered =>
    refine ⟨.inl rfl, fun hother => absurd hmode hother, fun start hstart => ?_,
      fun hother => absurd hmode hother, fun _ => hlatched hmode, fun since hsince => ?_, .inl rfl,
      fun hlt => absurd hlt h.zero_le.not_gt⟩
    · obtain rfl := Option.some.inj hstart
      exact ⟨x, rfl, hrecovered, started_cases s now⟩
    · exact absurd ((hlatched hmode).symm.trans hsince) nofun
  | left x slow last hmode hrecovered hlong =>
    rcases leaveCritical_cases (N := N) (c := c) _ now _ with ⟨-, hleft⟩ | ⟨hsoft, hleft⟩
    · rw [hleft]
      exact ⟨.inl rfl, fun _ => .inl rfl, nofun, fun _ => rfl, nofun,
        fun since hsince => .inl (Option.some.inj hsince).symm, .inr rfl, fun _ => .inr rfl⟩
    · rw [hleft]
      exact ⟨.inl rfl, fun _ => .inl rfl, nofun, fun _ => rfl, nofun, nofun, .inl rfl,
        fun _ => .inl (.inr hsoft)⟩
  | paused x slow last pauses hmode hhard hcount =>
    refine ⟨.inl rfl, fun hother => absurd rfl hother, fun start hstart => ?_,
      fun hother => absurd rfl hother, fun _ => rfl, nofun, .inl rfl, fun _ => .inl (.inl hhard)⟩
    exact absurd ((hsettled hmode).symm.trans hstart) nofun
  | hard x slow last hmode hhard =>
    refine ⟨.inl rfl, fun _ => .inr ⟨hmode, rfl, x, rfl, hhard⟩, fun start hstart => ?_,
      fun _ => hsettled hmode, nofun, nofun, .inl rfl, fun _ => .inl (.inl hhard)⟩
    exact absurd ((hsettled hmode).symm.trans hstart) nofun
  | soft x slow last hmode hsoft =>
    exact ⟨.inl rfl, fun _ => .inl rfl, nofun, fun _ => rfl, nofun, nofun, .inl rfl,
      fun _ => .inl (.inr hsoft)⟩
  | calm x slow last hmode hcalm =>
    rcases recoverBudgetIfStable_cases (N := N) (c := c) _ now with
      ⟨since, hsince, hrecover⟩ | ⟨since, hsince, -, -, hrecover⟩
    · rw [hrecover]
      refine ⟨.inl rfl, fun _ => .inl rfl, nofun, fun _ => rfl, nofun, fun later hlater => ?_,
        .inl rfl, fun hlt => absurd hlt (lt_irrefl _)⟩
      obtain rfl := Option.some.inj hlater
      exact hsince.imp_right fun hsince => ⟨hcalm, hsince⟩
    · rw [hrecover]
      exact ⟨.inl rfl, fun _ => .inl rfl, nofun, fun _ => rfl, nofun,
        fun later hlater => .inr ⟨hcalm, hlater⟩, .inr rfl, fun _ => .inr rfl⟩

end Updates

/-! ### Histories -/

/-- A call of the controller. -/
inductive Event (Q : Type)
  | restore (reasons : List Reason)
  | update (now : Q) (sample : Option (ResourceSample Q))

variable (N t c) in
def step (s : Machine Q) : Event Q → Machine Q
  | .restore reasons => restorePaused N t s reasons
  | .update now sample => update N t c s now sample

variable (N t c) in
/-- The machine after the calls. -/
def run (events : List (Event Q)) : Machine Q :=
  events.foldl (step N t c) (fresh N)

theorem run_snoc (events : List (Event Q)) (e : Event Q) :
    run N t c (events ++ [e]) = step N t c (run N t c events) e := by
  rw [run, foldl_append]
  rfl

def Event.time : Event Q → Option Q
  | .restore _ => none
  | .update now _ => some now

/-- The times of the updates do not decrease. -/
def Timed (events : List (Event Q)) : Prop :=
  (events.filterMap Event.time).Pairwise (· ≤ ·)

/-- The sample was missing. -/
def Missing (e : Event Q) : Prop :=
  ∃ now, e = .update now none

variable (N t) in
/-- The sample had hard reasons. -/
def Hard (e : Event Q) : Prop :=
  ∃ now x, e = .update now (some x) ∧ hardReasons N t x ≠ []

variable (N t) in
/-- The sample had no hard reason, and memory at or above the resume threshold. -/
def Recovered (e : Event Q) : Prop :=
  ∃ now x, e = .update now (some x) ∧ hardRecovered N t x

/-- The last `n` events are all of a kind. -/
def Ends (p : Event Q → Prop) (n : ℕ) (events : List (Event Q)) : Prop :=
  ∃ earlier window, events = earlier ++ window ∧ window.length = n ∧ ∀ e ∈ window, p e

section Histories

variable {p : Event Q → Prop} {n m : ℕ} {events earlier later : List (Event Q)} {e d : Event Q}

section

omit [LinearOrder Q]

theorem Ends.zero : Ends p 0 events :=
  ⟨events, [], (append_nil events).symm, rfl, fun _ h => nomatch h⟩

theorem Ends.snoc (h : Ends p n events) (he : p e) : Ends p (n + 1) (events ++ [e]) := by
  obtain ⟨earlier, window, rfl, hlength, hall⟩ := h
  refine ⟨earlier, window ++ [e], append_assoc _ _ _, ?_, fun d hd => ?_⟩
  · rw [length_append, hlength]
    rfl
  · rcases mem_append.mp hd with hwindow | hlast
    · exact hall d hwindow
    · exact mem_singleton.mp hlast ▸ he

theorem Ends.le (h : Ends p n events) (hle : m ≤ n) : Ends p m events := by
  obtain ⟨earlier, window, rfl, hlength, hall⟩ := h
  refine ⟨earlier ++ window.take (n - m), window.drop (n - m), ?_, ?_, fun d hd => ?_⟩
  · rw [append_assoc, take_append_drop]
  · rw [length_drop, hlength]
    omega
  · exact hall d (mem_of_mem_drop hd)

/-- An event of a longer history is the last one, or one of the shorter history. -/
theorem split_snoc (h : events ++ [e] = earlier ++ d :: later) :
    (later = [] ∧ earlier = events ∧ d = e) ∨
      ∃ between, later = between ++ [e] ∧ events = earlier ++ d :: between := by
  rcases eq_nil_or_concat later with rfl | ⟨between, last, rfl⟩
  · obtain ⟨hevents, hlast⟩ := append_inj' h rfl
    exact .inl ⟨rfl, hevents.symm, (singleton_inj.mp hlast).symm⟩
  have hassoc : earlier ++ d :: (between ++ [last]) = (earlier ++ d :: between) ++ [last] := by
    simp
  rw [concat_eq_append, hassoc] at h
  obtain ⟨hevents, hlast⟩ := append_inj' h rfl
  obtain rfl := singleton_inj.mp hlast
  exact .inr ⟨between, concat_eq_append, hevents⟩

end

theorem Timed.init (h : Timed (events ++ [e])) : Timed events := by
  rw [Timed, filterMap_append] at h
  exact (pairwise_append.mp h).1

/-- An earlier update is not later than the last one. -/
theorem Timed.le_last {now v : Q} {x y : Option (ResourceSample Q)}
    (h : Timed (events ++ [.update now x])) (hsplit : events = earlier ++ .update v y :: later) :
    v ≤ now := by
  rw [Timed, filterMap_append] at h
  refine (pairwise_append.mp h).2.2 v ?_ now (by simp [Event.time])
  rw [hsplit, mem_filterMap]
  exact ⟨.update v y, by simp, rfl⟩

end Histories

variable (N t c) in
/-- What the machine's counts and times stand for in the history of its calls. -/
structure Tracks (events : List (Event Q)) (s : Machine Q) : Prop where
  scaled : Scaled N c s
  settled : s.controllerMode ≠ .critical → s.recoveryStartedAt = none
  latched : s.controllerMode = .critical → s.stableSince = none
  failures : Ends Missing s.failureCount events
  pauses : s.controllerMode ≠ .critical → Ends (Hard N t) s.pauseCount events
  recovery : ∀ start, s.recoveryStartedAt = some start → ∃ earlier x later,
    events = earlier ++ .update start (some x) :: later ∧
      ∀ e ∈ Event.update start (some x) :: later, Recovered N t e
  stable : ∀ since, s.stableSince = some since → ∀ earlier v x later,
    events = earlier ++ .update v x :: later → Pressed N t c (run N t c earlier) x → v ≤ since
  raised : ∀ earlier v x later, events = earlier ++ .update v x :: later →
    (run N t c earlier).throughputScale < (run N t c (earlier ++ [.update v x])).throughputScale →
    Pressed N t c (run N t c earlier) x ∨ ∃ last, s.lastIncreaseAt = some last ∧ v ≤ last

theorem tracks_fresh : Tracks N t c [] (fresh N) where
  scaled := scaled_fresh
  settled _ := rfl
  latched h := nomatch h
  failures := .zero
  pauses _ := .zero
  recovery _ h := nomatch h
  stable _ h := nomatch h
  raised earlier v x later h := by simp at h

section Steps

variable {events : List (Event Q)}

theorem run_outcome (events : List (Event Q)) (now : Q) (sample : Option (ResourceSample Q)) :
    Outcome N t c (run N t c events) now sample (run N t c (events ++ [.update now sample])) := by
  rw [run_snoc]
  exact update_outcome N t c _ now sample

/-- The window of the recovered host reaches to an update that finds it recovered. -/
theorem Tracks.window (h : Tracks N t c events s) {now start : Q}
    (hrecovered : hardRecovered N t sample)
    (hstart : start = now ∨ s.recoveryStartedAt = some start) : ∃ earlier x later,
    events ++ [.update now (some sample)] = earlier ++ .update start (some x) :: later ∧
      ∀ e ∈ Event.update start (some x) :: later, Recovered N t e := by
  rcases hstart with rfl | hbefore
  · refine ⟨events, sample, [], rfl, fun e he => ?_⟩
    obtain rfl := mem_singleton.mp he
    exact ⟨_, sample, rfl, hrecovered⟩
  · obtain ⟨earlier, x, later, hevents, hall⟩ := h.recovery start hbefore
    refine ⟨earlier, x, later ++ [.update now (some sample)], by simp [hevents], fun e he => ?_⟩
    rw [← cons_append, mem_append, mem_singleton] at he
    rcases he with hwindow | rfl
    · exact hall e hwindow
    · exact ⟨now, sample, rfl, hrecovered⟩

theorem Tracks.restore (h : Tracks N t c events (run N t c events)) (reasons : List Reason) :
    Tracks N t c (events ++ [.restore reasons]) (run N t c (events ++ [.restore reasons])) := by
  rw [run_snoc]
  refine ⟨scaled_critical rfl rfl, fun _ => rfl, fun _ => rfl, .zero,
    fun hmode => absurd rfl hmode, nofun, nofun, fun earlier v x later hsplit hlt => ?_⟩
  rcases split_snoc hsplit with ⟨-, -, hlast⟩ | ⟨between, -, hevents⟩
  · cases hlast
  · exact h.raised earlier v x between hevents hlt

theorem Tracks.update (h : Tracks N t c events (run N t c events)) {now : Q}
    {sample : Option (ResourceSample Q)} (htimed : Timed (events ++ [.update now sample])) :
    Tracks N t c (events ++ [.update now sample]) (run N t c (events ++ [.update now sample])) := by
  have houtcome := run_outcome (N := N) (t := t) (c := c) events now sample
  have hremembers := houtcome.remembers h.scaled h.settled h.latched
  refine ⟨houtcome.scaled h.scaled, hremembers.settled, hremembers.latched, ?_, fun hmode => ?_,
    fun start hstart => ?_, fun since hsince earlier v x later hsplit hpressed => ?_,
    fun earlier v x later hsplit hlt => ?_⟩
  · rcases hremembers.failures with hnone | ⟨rfl, hcount⟩
    · rw [hnone]
      exact .zero
    · rw [hcount]
      exact h.failures.snoc ⟨now, rfl⟩
  · rcases hremembers.pauses hmode with hnone | ⟨hbefore, hcount, x, rfl, hhard⟩
    · rw [hnone]
      exact .zero
    · rw [hcount]
      exact (h.pauses hbefore).snoc ⟨now, x, rfl, hhard⟩
  · obtain ⟨x, rfl, hrecovered, hbefore⟩ := hremembers.recovery start hstart
    exact h.window hrecovered hbefore
  · rcases split_snoc hsplit with ⟨-, rfl, hlast⟩ | ⟨between, -, hevents⟩
    · -- the update itself: it showed no pressure, or the stable time starts with it
      obtain ⟨rfl, rfl⟩ : v = now ∧ x = sample := by simpa using hlast
      rcases hremembers.stable since hsince with rfl | ⟨hcalm, -⟩
      · exact le_rfl
      · exact absurd hpressed hcalm
    · rcases hremembers.stable since hsince with rfl | ⟨-, hbefore⟩
      · exact htimed.le_last hevents
      · exact h.stable since hbefore earlier v x between hevents hpressed
  · rcases split_snoc hsplit with ⟨-, rfl, hlast⟩ | ⟨between, -, hevents⟩
    · obtain ⟨rfl, rfl⟩ : v = now ∧ x = sample := by simpa using hlast
      rcases hremembers.raised hlt with hpressed | hincreased
      · exact .inl hpressed
      · exact .inr ⟨v, hincreased, le_rfl⟩
    · refine (h.raised earlier v x between hevents hlt).imp_right ?_
      rintro ⟨last, hlast, hle⟩
      rcases hremembers.increased with hsame | hnow
      · exact ⟨last, hsame.trans hlast, hle⟩
      · exact ⟨now, hnow, htimed.le_last hevents⟩

/-- The counts and times stand for what they should after every history. -/
theorem tracks_run (htimed : Timed events) : Tracks N t c events (run N t c events) := by
  induction events using reverseRecOn with
  | nil => exact tracks_fresh
  | append_singleton events e ih =>
    have hbefore := ih htimed.init
    cases e with
    | restore reasons => exact hbefore.restore reasons
    | update now sample => exact hbefore.update htimed

end Steps

variable (N t c) in
/-- The hysteresis of the controller at a call `e` after the calls `past`. -/
structure Hysteresis (past : List (Event Q)) (e : Event Q) (s s' : Machine Q) : Prop where
  /-- nothing is admitted just in the critical mode -/
  zero_iff : (s.throughputScale = N.ofRat 0 ↔ s.controllerMode = .critical) ∧
    (s'.throughputScale = N.ofRat 0 ↔ s'.controllerMode = .critical)
  enters : s.controllerMode ≠ .critical → s'.controllerMode = .critical →
    (∃ reasons, e = .restore reasons) ∨ (∃ now x, e = .update now (some x) ∧ x.oomKill = true) ∨
    Ends (Hard N t) t.pauseSamples (past ++ [e]) ∨ Ends Missing t.failureSamples (past ++ [e])
  /-- a window of updates of the recovered host, from one at `start` to this one -/
  leaves : s.controllerMode = .critical → s'.controllerMode ≠ .critical →
    ∃ earlier start x later now, past ++ [e] = earlier ++ .update start (some x) :: later ∧
      (∀ d ∈ Event.update start (some x) :: later, Recovered N t d) ∧ e.time = some now ∧
      t.resumeSeconds ≤ N.sub now start
  rises : s.controllerMode ≠ .critical → s.throughputScale < s'.throughputScale →
    s'.throughputScale = stepUp N c s.throughputScale ∧ ∃ now, e.time = some now ∧
      ∀ earlier v x later, past = earlier ++ .update v x :: later →
        (Pressed N t c (run N t c earlier) x ∨ (run N t c earlier).throughputScale <
          (run N t c (earlier ++ [.update v x])).throughputScale) →
        stableSeconds N c ≤ N.sub now v
  generation : e.time.isSome → Counted s s'

section Results

variable {past : List (Event Q)}

theorem restore_hysteresis (h : Tracks N t c past (run N t c past)) (reasons : List Reason) :
    Hysteresis N t c past (.restore reasons) (run N t c past)
      (run N t c (past ++ [.restore reasons])) where
  zero_iff := ⟨h.scaled.zero_iff, (h.restore reasons).scaled.zero_iff⟩
  enters _ _ := .inl ⟨reasons, rfl⟩
  leaves _ hmode := by
    rw [run_snoc] at hmode
    exact absurd rfl hmode
  rises _ hlt := by
    rw [run_snoc] at hlt
    exact absurd hlt h.scaled.zero_le.not_gt
  generation h := nomatch h

variable {now : Q} {sample : Option (ResourceSample Q)} {s' : Machine Q}

section

variable (h : Tracks N t c past (run N t c past)) (ho : Outcome N t c (run N t c past) now sample
  s')
include h ho

/-- The critical mode is entered. -/
theorem Tracks.enters (hmode : (run N t c past).controllerMode ≠ .critical)
    (hmode' : s'.controllerMode = .critical) :
    (∃ x, sample = some x ∧ x.oomKill = true) ∨
    Ends (Hard N t) t.pauseSamples (past ++ [.update now sample]) ∨
    Ends Missing t.failureSamples (past ++ [.update now sample]) := by
  rcases ho.enters hmode hmode' with ⟨rfl, hcount⟩ | ⟨x, rfl, hhard, hoom | hcount⟩
  · exact .inr (.inr ((h.failures.snoc ⟨now, rfl⟩).le hcount))
  · exact .inl ⟨x, rfl, hoom⟩
  · exact .inr (.inl (((h.pauses hmode).snoc ⟨now, x, rfl, hhard⟩).le hcount))

/-- The critical mode is left. -/
theorem Tracks.leaves (hmode : (run N t c past).controllerMode = .critical)
    (hmode' : s'.controllerMode ≠ .critical) :
    ∃ earlier start x later, past ++ [.update now sample] =
        earlier ++ .update start (some x) :: later ∧
      (∀ d ∈ Event.update start (some x) :: later, Recovered N t d) ∧
      t.resumeSeconds ≤ N.sub now start := by
  obtain ⟨x, rfl, hrecovered, hlong⟩ := ho.leaves hmode hmode'
  obtain ⟨earlier, y, later, hsplit, hall⟩ := h.window hrecovered (started_cases _ now)
  exact ⟨earlier, _, y, later, hsplit, hall, hlong⟩

/-- The scale rises. -/
theorem Tracks.rises (hmode : (run N t c past).controllerMode ≠ .critical)
    (hlt : (run N t c past).throughputScale < s'.throughputScale) :
    s'.throughputScale = stepUp N c (run N t c past).throughputScale ∧
      ∀ earlier v x later, past = earlier ++ .update v x :: later →
        (Pressed N t c (run N t c earlier) x ∨ (run N t c earlier).throughputScale <
          (run N t c (earlier ++ [.update v x])).throughputScale) →
        stableSeconds N c ≤ N.sub now v := by
  obtain ⟨hstep, ⟨since, hsince, hlong⟩, hlast⟩ := ho.rises h.scaled hmode hlt
  refine ⟨hstep, fun earlier v x later hsplit hwhy => ?_⟩
  have hpressed : Pressed N t c (run N t c earlier) x → stableSeconds N c ≤ N.sub now v :=
    fun hpressed => hlong.trans
      (N.sub_anti now v since (h.stable since hsince earlier v x later hsplit hpressed))
  rcases hwhy with hpressed' | hraised
  · exact hpressed hpressed'
  · rcases h.raised earlier v x later hsplit hraised with hpressed' | ⟨last, hlast', hle⟩
    · exact hpressed hpressed'
    · exact (hlast last hlast').trans (N.sub_anti now v last hle)

end

/-- **Hysteresis of the controller.**  At every call of every history whose updates do
not go back in time. -/
theorem controller_hysteresis (N : Floats Q) (t : PressureThresholds Q) (c : Settings Q)
    (past : List (Event Q)) (e : Event Q) (htimed : Timed (past ++ [e])) :
    Hysteresis N t c past e (run N t c past) (run N t c (past ++ [e])) := by
  have htracks := tracks_run (N := N) (t := t) (c := c) htimed.init
  cases e with
  | restore reasons => exact restore_hysteresis htracks reasons
  | update now sample =>
    have houtcome := run_outcome (N := N) (t := t) (c := c) past now sample
    refine ⟨⟨htracks.scaled.zero_iff, (htracks.update htimed).scaled.zero_iff⟩,
      fun hmode hmode' => ?_, fun hmode hmode' => ?_, fun hmode hlt => ?_,
      fun _ => houtcome.counted htracks.scaled⟩
    · rcases htracks.enters houtcome hmode hmode' with ⟨x, rfl, hoom⟩ | hends
      · exact .inr (.inl ⟨now, x, rfl, hoom⟩)
      · exact .inr (.inr hends)
    · obtain ⟨earlier, start, x, later, hsplit, hall, hlong⟩ :=
        htracks.leaves houtcome hmode hmode'
      exact ⟨earlier, start, x, later, now, hsplit, hall, rfl, hlong⟩
    · obtain ⟨hstep, hstable⟩ := htracks.rises houtcome hmode hlt
      exact ⟨hstep, now, rfl, hstable⟩

end Results

end Controller

/-- Exact arithmetic, and rounding to the nearest multiple of 1/10000. -/
def exactFloats : Floats ℚ where
  ofRat x := x
  add x y := x + y
  sub x y := x - y
  mul x y := x * y
  div a b := a / b
  round4 x := ⌊x * 10000 + 1 / 2⌋ / 10000
  ofRat_mono _ _ h := h
  ofRat_pos := by norm_num
  le_add x y h := by linarith
  sub_anti a b c h := by linarith
  mul_le x f hx hf := by nlinarith
  round4_mono x y h := by
    have hfloor : ⌊x * 10000 + 1 / 2⌋ ≤ ⌊y * 10000 + 1 / 2⌋ := Int.floor_mono (by linarith)
    have hcast : (⌊x * 10000 + 1 / 2⌋ : ℚ) ≤ ⌊y * 10000 + 1 / 2⌋ := by exact_mod_cast hfloor
    linarith
  round4_idem x := by
    have hcancel : (⌊x * 10000 + 1 / 2⌋ / 10000 : ℚ) * 10000 = ⌊x * 10000 + 1 / 2⌋ := by ring
    have hhalf : ⌊(1 / 2 : ℚ)⌋ = 0 := by norm_num
    rw [hcancel, Int.floor_intCast_add, hhalf, add_zero]
  round4_zero := by norm_num
  round4_one := by norm_num
  round4_pos x h := by
    have hone : (1 : ℤ) ≤ ⌊x * 10000 + 1 / 2⌋ := Int.le_floor.mpr (by push_cast; linarith)
    have hcast : (1 : ℚ) ≤ ⌊x * 10000 + 1 / 2⌋ := by exact_mod_cast hone
    linarith

/-- The default thresholds, with a pause at the first hard sample. -/
def someThresholds : PressureThresholds ℚ where
  warningAvailableBytes := 1500
  pauseAvailableBytes := 1250
  resumeAvailableBytes := 1750
  warningSwapFreeRatio := 3 / 10
  pauseSwapFreeRatio := 1 / 4
  criticalSwapFreeRatio := 3 / 20
  swapActivityBytesPerSecond := 100
  pauseMemoryPsi := 2
  pauseIoPsi := 15
  pauseSamples := 1
  failureSamples := 3
  resumeSeconds := 60

def someSettings : Settings ℚ where
  budgetMinScale := 1 / 10
  budgetDecreaseFactor := 1 / 2
  budgetIncreaseStep := 1 / 10
  budgetIncreaseStableSeconds := 30
  foregroundMinSamples := 30
  foregroundSlowSamples := 3
  foregroundP95LimitMs := 500

/-- A host without swap and without other load. -/
def memorySample (available : ℤ) : ResourceSample ℚ where
  memoryAvailableBytes := available
  swapTotalBytes := 0
  swapFreeBytes := 0
  memoryFullAvg10 := none
  ioFullAvg10 := none
  swapInBytesPerSecond := none
  swapOutBytesPerSecond := none
  memoryAvailableChangeBytesPerSecond := none
  cgroupMemoryOomKillDelta := none
  foregroundP95Ms := none
  foregroundSampleCount := 0
  foregroundSampleGeneration := 0
  memoryPsiSoftTrigger := none
  ioPsiSoftTrigger := none

/-- Memory runs low and is free again ten seconds later. -/
def lowMemory : List (Event ℚ) :=
  [.update 0 (some (memorySample 1000)), .update 10 (some (memorySample 2000))]

/-- After a minute the controller leaves the critical mode. -/
theorem controller_hysteresis_lowMemory :
    (run exactFloats someThresholds someSettings lowMemory).controllerMode = .critical ∧
    (run exactFloats someThresholds someSettings
      (lowMemory ++ [.update 70 (some (memorySample 2000))])).controllerMode = .normal ∧
    Hysteresis exactFloats someThresholds someSettings lowMemory
      (.update 70 (some (memorySample 2000))) (run exactFloats someThresholds someSettings lowMemory)
      (run exactFloats someThresholds someSettings
        (lowMemory ++ [.update 70 (some (memorySample 2000))])) := by
  refine ⟨by decide +kernel, by decide +kernel, controller_hysteresis _ _ _ _ _ ?_⟩
  change Pairwise (· ≤ ·) [(0 : ℚ), 10, 70]
  decide

end ResourcePressure
