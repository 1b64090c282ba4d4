import Mathlib.Algebra.Order.Field.Rat
import Mathlib.Order.Basic

/-!
# The resource pressure controller

A sampler measures the host every few seconds and tells the controller what it has seen,
or that it could not measure.  The controller keeps a mode and a scale of throughput.
In the critical mode nothing is admitted and the scale is 0.  Out of it the scale falls
by a factor with every sample that shows pressure, and rises by a step when the host has
been calm for a while.

The numbers are floating-point numbers.  What the controller needs to know of them is
stated in `Floats`.
-/

namespace ResourcePressure

/-- The numbers of the controller, with their rounded operations. -/
structure Floats (Q : Type) [LinearOrder Q] where
  ofRat : ℚ → Q
  add : Q → Q → Q
  sub : Q → Q → Q
  mul : Q → Q → Q
  /-- the quotient of two integers -/
  div : ℤ → ℤ → Q
  /-- `round(x, 4)` -/
  round4 : Q → Q
  ofRat_mono : ∀ a b, a ≤ b → ofRat a ≤ ofRat b
  ofRat_pos : ofRat 0 < ofRat (1 / 100)
  le_add : ∀ x y, ofRat 0 ≤ y → x ≤ add x y
  sub_anti : ∀ a b c, b ≤ c → sub a c ≤ sub a b
  mul_le : ∀ x f, ofRat 0 ≤ x → f ≤ ofRat (19 / 20) → mul x f ≤ x
  round4_mono : ∀ x y, x ≤ y → round4 x ≤ round4 y
  round4_idem : ∀ x, round4 (round4 x) = round4 x
  round4_zero : round4 (ofRat 0) = ofRat 0
  round4_one : round4 (ofRat 1) = ofRat 1
  round4_pos : ∀ x, ofRat (1 / 100) ≤ x → ofRat 0 < round4 x

structure PressureThresholds (Q : Type) where
  warningAvailableBytes : ℤ
  pauseAvailableBytes : ℤ
  resumeAvailableBytes : ℤ
  warningSwapFreeRatio : Q
  pauseSwapFreeRatio : Q
  criticalSwapFreeRatio : Q
  swapActivityBytesPerSecond : Q
  pauseMemoryPsi : Q
  pauseIoPsi : Q
  pauseSamples : ℕ
  failureSamples : ℕ
  resumeSeconds : Q

/-- The settings that the controller reads. -/
structure Settings (Q : Type) where
  budgetMinScale : Q
  budgetDecreaseFactor : Q
  budgetIncreaseStep : Q
  budgetIncreaseStableSeconds : Q
  foregroundMinSamples : ℤ
  foregroundSlowSamples : ℤ
  foregroundP95LimitMs : Q

/-- What the sampler has measured. -/
structure ResourceSample (Q : Type) where
  memoryAvailableBytes : ℤ
  swapTotalBytes : ℤ
  swapFreeBytes : ℤ
  memoryFullAvg10 : Option Q
  ioFullAvg10 : Option Q
  swapInBytesPerSecond : Option Q
  swapOutBytesPerSecond : Option Q
  memoryAvailableChangeBytesPerSecond : Option Q
  cgroupMemoryOomKillDelta : Option ℤ
  foregroundP95Ms : Option Q
  foregroundSampleCount : ℤ
  foregroundSampleGeneration : ℤ
  memoryPsiSoftTrigger : Option Q
  ioPsiSoftTrigger : Option Q

inductive Mode
  | normal
  | constrained
  | critical
  deriving DecidableEq, Repr

inductive Status
  | normal
  | warning
  | paused
  deriving DecidableEq, Repr

inductive Reason
  | restoredPressureLatch
  | resourceMetricsUnavailable
  | memoryAvailableCritical
  | swapFreeCritical
  | swapActivityCritical
  | cgroupOomKill
  | memoryAvailableLow
  | swapFreeLow
  | memoryPsiHigh
  | ioPsiHigh
  | foregroundLatencyHigh
  | recoveryThresholdNotMet
  | recoveryStabilizing
  /-- a reason that another process has left -/
  | other (text : List Char)
  deriving DecidableEq, Repr

/-- `ResourcePressureStateMachine`. -/
structure Machine (Q : Type) where
  controllerMode : Mode
  status : Status
  reasons : List Reason
  throughputScale : Q
  generation : ℕ
  pauseCount : ℕ
  failureCount : ℕ
  recoveryStartedAt : Option Q
  stableSince : Option Q
  lastIncreaseAt : Option Q
  foregroundSlowCount : ℤ
  foregroundLastSampleGeneration : Option ℤ
  triggerReasons : List Reason

def legacyStatus : Mode → Status
  | .normal => .normal
  | .constrained => .warning
  | .critical => .paused

section Controller

variable {Q : Type} [LinearOrder Q] (N : Floats Q) (t : PressureThresholds Q) (c : Settings Q)

/-- `ResourcePressureStateMachine()`. -/
def fresh : Machine Q where
  controllerMode := .normal
  status := .normal
  reasons := []
  throughputScale := N.ofRat 1
  generation := 0
  pauseCount := 0
  failureCount := 0
  recoveryStartedAt := none
  stableSince := none
  lastIncreaseAt := none
  foregroundSlowCount := 0
  foregroundLastSampleGeneration := none
  triggerReasons := []

section

variable (s : Machine Q)

def setMode (mode : Mode) : Machine Q :=
  { s with
    controllerMode := mode
    status := legacyStatus mode
    generation := if mode = s.controllerMode then s.generation else s.generation + 1 }

/-- The value that `_set_scale` stores. -/
def clampScale (value : Q) : Q :=
  N.round4 (max (N.ofRat 0) (min (N.ofRat 1) value))

def setScale (value : Q) : Machine Q :=
  { s with
    throughputScale := clampScale N value
    generation := if clampScale N value = s.throughputScale then s.generation
      else s.generation + 1 }

/-- The least scale out of the critical mode. -/
def minScale : Q :=
  max (N.ofRat (1 / 100)) (min (N.ofRat 1) c.budgetMinScale)

def decreaseFactor : Q :=
  max (N.ofRat (1 / 20)) (min (N.ofRat (19 / 20)) c.budgetDecreaseFactor)

def increaseStep : Q :=
  max (N.ofRat (1 / 1000)) (min (N.ofRat (1 / 4)) c.budgetIncreaseStep)

/-- The interval that has to pass without pressure before the scale rises. -/
def stableSeconds : Q :=
  max (N.ofRat 1) c.budgetIncreaseStableSeconds

def decreaseBudget : Machine Q :=
  setScale N s (max (minScale N c) (N.mul s.throughputScale (decreaseFactor N c)))

/-- The scale one step above `scale`. -/
def stepUp (scale : Q) : Q :=
  clampScale N (min (N.ofRat 1) (N.add (max (minScale N c) scale) (increaseStep N c)))

def increaseBudget (now : Q) : Machine Q :=
  { setScale N s (min (N.ofRat 1) (N.add (max (minScale N c) s.throughputScale)
      (increaseStep N c))) with
    lastIncreaseAt := some now }

/-- `self._stable_since or now`: a time of 0 counts as none. -/
def stableSinceOr (now : Q) : Q :=
  match s.stableSince with
  | some since => if since = N.ofRat 0 then now else since
  | none => now

def recoverBudgetIfStable (now : Q) : Machine Q :=
  if N.ofRat 1 ≤ s.throughputScale then { s with stableSince := some (stableSinceOr N s now) }
  else
    match s.stableSince with
    | none => { s with stableSince := some now }
    | some since =>
      if N.sub now since < stableSeconds N c then s
      else if s.lastIncreaseAt.any fun last => N.sub now last < stableSeconds N c then s
      else increaseBudget N c s now

def restorePaused (reasons : List Reason) : Machine Q :=
  let s := setScale N (setMode s .critical) (N.ofRat 0)
  let reasons := if reasons = [] then [.restoredPressureLatch] else reasons
  { s with
    reasons := reasons
    triggerReasons := reasons
    pauseCount := t.pauseSamples
    failureCount := 0
    recoveryStartedAt := none
    stableSince := none }

end

section

variable (sample : ResourceSample Q)

/-- A host without swap is not out of swap. -/
def ResourceSample.swapFreeRatio : Q :=
  if sample.swapTotalBytes ≤ 0 then N.ofRat 1 else N.div sample.swapFreeBytes sample.swapTotalBytes

def ResourceSample.swapActivityBytesPerSecond : Option Q :=
  match sample.swapInBytesPerSecond, sample.swapOutBytesPerSecond with
  | none, none => none
  | some rate, none => some rate
  | none, some rate => some rate
  | some rateIn, some rateOut => some (N.add rateIn rateOut)

/-- The kernel has killed a process of the group. -/
def ResourceSample.oomKill : Bool :=
  sample.cgroupMemoryOomKillDelta.any (0 < ·)

def hardReasons : List Reason :=
  (if sample.memoryAvailableBytes < t.pauseAvailableBytes then [.memoryAvailableCritical] else []) ++
  (if sample.swapFreeRatio N < t.criticalSwapFreeRatio then [.swapFreeCritical] else []) ++
  (if sample.swapFreeRatio N < t.pauseSwapFreeRatio ∧
      (sample.swapActivityBytesPerSecond N).any (t.swapActivityBytesPerSecond ≤ ·) ∧
      sample.memoryAvailableChangeBytesPerSecond.any (· < N.ofRat 0)
    then [.swapActivityCritical] else []) ++
  (if sample.oomKill then [.cgroupOomKill] else [])

/-- `trigger or default`: a trigger of 0 counts as none. -/
def triggerOr (trigger : Option Q) (default : Q) : Q :=
  match trigger with
  | some value => if value = N.ofRat 0 then default else value
  | none => default

def softReasons : List Reason :=
  (if sample.memoryAvailableBytes < t.warningAvailableBytes then [.memoryAvailableLow] else []) ++
  (if sample.swapFreeRatio N < t.warningSwapFreeRatio then [.swapFreeLow] else []) ++
  (if sample.memoryFullAvg10.any (triggerOr N sample.memoryPsiSoftTrigger t.pauseMemoryPsi ≤ ·)
    then [.memoryPsiHigh] else []) ++
  (if sample.ioFullAvg10.any (triggerOr N sample.ioPsiSoftTrigger t.pauseIoPsi ≤ ·)
    then [.ioPsiHigh] else [])

def hardRecovered : Prop :=
  t.resumeAvailableBytes ≤ sample.memoryAvailableBytes ∧ hardReasons N t sample = []

end

instance (sample : ResourceSample Q) : Decidable (hardRecovered N t sample) :=
  inferInstanceAs (Decidable (_ ∧ _))

/-- The foreground requests were slow in this sample. -/
def slowForeground (sample : ResourceSample Q) : Bool :=
  sample.foregroundP95Ms.any (c.foregroundP95LimitMs < ·) &&
    max 30 c.foregroundMinSamples ≤ sample.foregroundSampleCount

section

variable (s : Machine Q)

/-- A sample has come in: failures are over, and slow samples of the foreground are
counted, each generation once. -/
def observed (sample : ResourceSample Q) : Machine Q :=
  let s := { s with failureCount := 0 }
  if sample.foregroundSampleCount = 0 then { s with foregroundSlowCount := 0 }
  else if s.foregroundLastSampleGeneration.all (· < sample.foregroundSampleGeneration) then
    { s with
      foregroundLastSampleGeneration := some sample.foregroundSampleGeneration
      foregroundSlowCount := if slowForeground c sample then s.foregroundSlowCount + 1 else 0 }
  else s

/-- The soft reasons of a sample that the machine has observed. -/
def softReasonsAt (sample : ResourceSample Q) : List Reason :=
  softReasons N t sample ++
    if max 3 c.foregroundSlowSamples ≤ s.foregroundSlowCount then [.foregroundLatencyHigh] else []

/-- A sample is missing. -/
def unmeasured : Machine Q :=
  { s with
    failureCount := s.failureCount + 1
    pauseCount := 0
    recoveryStartedAt := none
    stableSince := none
    foregroundSlowCount := 0
    reasons := [.resourceMetricsUnavailable] }

def updateMissing : Machine Q :=
  let s' := unmeasured s
  if t.failureSamples ≤ s'.failureCount then
    let s' := setScale N (setMode s' .critical) (N.ofRat 0)
    { s' with
      triggerReasons := if s.controllerMode = .critical then s'.triggerReasons
        else [.resourceMetricsUnavailable] }
  else if s.controllerMode = .critical then s'
  else decreaseBudget N c (setMode s' .constrained)

/-- The critical mode is over. -/
def leaveCritical (now : Q) (soft : List Reason) : Machine Q :=
  let s := setMode { s with pauseCount := 0, recoveryStartedAt := none }
    (if soft = [] then .normal else .constrained)
  let s := { s with reasons := soft, triggerReasons := [] }
  if soft = [] then
    { setScale N s (minScale N c) with stableSince := some now, lastIncreaseAt := some now }
  else decreaseBudget N c { s with stableSince := none }

def updateCritical (now : Q) (sample : ResourceSample Q) (soft : List Reason) :
    Machine Q :=
  let s := setScale N s (N.ofRat 0)
  if hardReasons N t sample ≠ [] then
    { s with recoveryStartedAt := none, stableSince := none, reasons := hardReasons N t sample }
  else if ¬hardRecovered N t sample then
    { s with
      recoveryStartedAt := none
      reasons := if soft = [] then [.recoveryThresholdNotMet] else soft }
  else
    let started := s.recoveryStartedAt.getD now
    if N.sub now started < t.resumeSeconds then
      { s with recoveryStartedAt := some started, reasons := .recoveryStabilizing :: soft }
    else leaveCritical N c s now soft

def updateHard (sample : ResourceSample Q) : Machine Q :=
  let s := { s with
    stableSince := none
    pauseCount := if sample.oomKill then t.pauseSamples else s.pauseCount + 1
    reasons := hardReasons N t sample }
  if t.pauseSamples ≤ s.pauseCount then
    { setScale N (setMode s .critical) (N.ofRat 0) with triggerReasons := hardReasons N t sample }
  else decreaseBudget N c (setMode s .constrained)

def updateCalm (now : Q) (soft : List Reason) : Machine Q :=
  let s := { s with pauseCount := 0, recoveryStartedAt := none, triggerReasons := [],
                    reasons := soft }
  if soft = [] then recoverBudgetIfStable N c (setMode s .normal) now
  else decreaseBudget N c (setMode { s with stableSince := none } .constrained)

/-- `ResourcePressureStateMachine.update`. -/
def update (now : Q) : Option (ResourceSample Q) → Machine Q
  | none => updateMissing N t c s
  | some sample =>
    let s := observed c s sample
    let soft := softReasonsAt N t c s sample
    if s.controllerMode = .critical then updateCritical N t c s now sample soft
    else if hardReasons N t sample ≠ [] then updateHard N t c s sample
    else updateCalm N c s now soft

end

end Controller

end ResourcePressure
