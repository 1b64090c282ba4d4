import AutoGallery.Runs
import Mathlib.Logic.Function.Basic

/-!
# The wake markers of the outbox coordinators

For each kind of outbox a marker in Redis names the job that is to work on it.  Whoever finds no
marker, or one whose job is not active any more, sets a marker of its own and enqueues the job that
it names; a job that ends clears its marker or hands it to a successor.  The marker is set before
its job exists.  Whoever looks the job up in between takes it for lost, and two jobs are enqueued
(`two_coordinators`); if nobody does, there is at most one at any time (`one_coordinator`).

This is the machine for one kind.  The kinds share nothing: the key of the marker and the names of
the jobs contain the kind.
-/

namespace OutboxWake

abbrev JobId := Nat

/-- What RQ has of a job.  It works until it has cleared its marker or handed it over. -/
inductive JobState where
  | missing
  | working
  | released
  | ended
  deriving DecidableEq

/-- `_wake_job_is_active`. -/
def JobState.active : JobState → Bool
  | .working | .released => true
  | .missing | .ended => false

/-- Where a process is in `wake_pending_outboxes`. -/
inductive Waker where
  | idle
  | looking (existing : JobId)
  | clearing (existing : JobId)
  | setting
  | enqueueing (job : JobId)
  | releasing (job : JobId)
  deriving DecidableEq

/-- `named` are the jobs that have been named so far. -/
structure State where
  marker : Option JobId
  jobs : JobId → JobState
  wakers : Nat → Waker
  named : List JobId

/-- One Redis command, one enqueue, or the end of a job or a process.  The name of a new job is
given where it is first used. -/
inductive Action where
  | get (w : Nat)
  | look (w : Nat)
  | clear (w : Nat)
  | set (w : Nat) (job : JobId)
  | enqueue (w : Nat)
  | raises (w : Nat)
  | release (w : Nat)
  | stop (w : Nat)
  | clearWake (job : JobId)
  | handOver (w : Nat) (job successor : JobId)
  | finish (job : JobId)

/-- `_CLEAR_WAKE_SCRIPT`. -/
def compareDelete (marker : Option JobId) (job : JobId) : Option JobId :=
  if marker = some job then none else marker

section

variable (s : State)

def State.go (w : Nat) (phase : Waker) : State :=
  { s with wakers := Function.update s.wakers w phase }

def State.put (job : JobId) (state : JobState) : State :=
  { s with jobs := Function.update s.jobs job state }

/-- The marker is set to a new job, which the process is to enqueue. -/
def State.publish (w : Nat) (job : JobId) : State :=
  { s with marker := some job, named := job :: s.named }.go w (.enqueueing job)

/-- `wake_pending_outboxes` for one kind, and the end of a coordinator.  A clock that counts
nanoseconds gives no job the name of another. -/
def step : Action → State
  | .get w =>
    match s.wakers w with
    | .idle => s.go w (s.marker.elim .setting .looking)
    | _ => s
  | .look w =>
    match s.wakers w with
    | .looking existing => s.go w (if (s.jobs existing).active then .idle else .clearing existing)
    | _ => s
  | .clear w =>
    match s.wakers w with
    | .clearing existing => { s with marker := compareDelete s.marker existing }.go w .setting
    | _ => s
  | .set w job =>
    match s.wakers w with
    | .setting =>
      if job ∈ s.named then s
      else if s.marker = none then s.publish w job
      else s.go w .idle
    | _ => s
  | .enqueue w =>
    match s.wakers w with
    | .enqueueing job => (s.put job .working).go w .idle
    | _ => s
  | .raises w =>
    match s.wakers w with
    | .enqueueing job => s.go w (.releasing job)
    -- the marker does not name the new job yet
    | _ => s.go w .idle
  | .release w =>
    match s.wakers w with
    | .releasing job => { s with marker := compareDelete s.marker job }.go w .idle
    | _ => s
  | .stop w => s.go w .idle
  | .clearWake job =>
    if s.jobs job = .working then
      { s with marker := compareDelete s.marker job }.put job .released
    else s
  | .handOver w job successor =>
    if s.jobs job = .working ∧ s.wakers w = .idle ∧ s.marker = some job ∧ successor ∉ s.named then
      (s.put job .released).publish w successor
    else s
  | .finish job => if (s.jobs job).active then s.put job .ended else s

/-- At most one job is active that has not cleared its marker or handed it over. -/
def OneCoordinator : Prop :=
  ∀ job other, s.jobs job = .working → s.jobs other = .working → job = other

/-- Nobody looks a job up that is still to be enqueued. -/
def Published : Action → Prop
  | .look w => ∀ existing other, s.wakers w = .looking existing →
      s.wakers other ≠ .enqueueing existing
  | _ => True

/-- The job is not at work, and nobody is to enqueue it. -/
def Gone (job : JobId) : Prop :=
  s.jobs job ≠ .working ∧ ∀ w, s.wakers w ≠ .enqueueing job

/-- What holds in a run in which nobody looks too early: the marker names the job at work or
the one that is to be enqueued, and what is about to be cleared is gone. -/
structure Sound : Prop where
  marked : ∀ job ∈ s.marker, job ∈ s.named
  looked : ∀ w job, s.wakers w = .looking job → job ∈ s.named
  stale : ∀ w job, s.wakers w = .clearing job ∨ s.wakers w = .releasing job →
    job ∈ s.named ∧ Gone s job
  pending : ∀ w job, s.wakers w = .enqueueing job → s.marker = some job ∧ s.jobs job ≠ .working ∧
    ∀ other, s.wakers other = .enqueueing job → other = w
  working : ∀ job, s.jobs job = .working → s.marker = some job

end

section Steps

variable {s : State} {w : Nat} {job : JobId} {phase : Waker}

section

variable (h : Sound s)
include h

/-- A process goes on that has no job to enqueue then. -/
theorem Sound.go (henqueues : ∀ job, phase ≠ .enqueueing job)
    (hlooks : ∀ job, phase = .looking job → job ∈ s.named)
    (hstale : ∀ job, phase = .clearing job ∨ phase = .releasing job →
      job ∈ s.named ∧ s.jobs job ≠ .working ∧ ∀ v, v ≠ w → s.wakers v ≠ .enqueueing job) :
    Sound (s.go w phase) := by
  obtain ⟨hmarked, hlooked, hstale', hpending, hworking⟩ := h
  unfold State.go
  constructor <;> grind [Gone, Function.update_apply]

theorem Sound.rest : Sound (s.go w .idle) :=
  h.go nofun nofun nofun

theorem Sound.delete (hgone : Gone s job) :
    Sound { s with marker := compareDelete s.marker job } := by
  obtain ⟨hmarked, hlooked, hstale, hpending, hworking⟩ := h
  constructor <;> grind [Gone, compareDelete]

theorem Sound.put {state : JobState} (hstate : state ≠ .working) :
    Sound (s.put job state) := by
  obtain ⟨hmarked, hlooked, hstale, hpending, hworking⟩ := h
  unfold State.put
  constructor <;> grind [Gone, Function.update_apply]

theorem Sound.publish (hnone : ∀ job, Gone s job) (hnew : job ∉ s.named) :
    Sound (s.publish w job) := by
  obtain ⟨hmarked, hlooked, hstale, hpending, hworking⟩ := h
  have hjobs := fun job => (hnone job).1
  have hwakers := fun job => (hnone job).2
  unfold State.publish State.go
  constructor <;> grind [Gone, Function.update_apply]

theorem Sound.enqueue (hphase : s.wakers w = .enqueueing job) :
    Sound ((s.put job .working).go w .idle) := by
  obtain ⟨hmarked, hlooked, hstale, hpending, hworking⟩ := h
  unfold State.put State.go
  constructor <;> grind [Gone, Function.update_apply]

/-- A job that works is the only one. -/
theorem Sound.alone (hjob : s.jobs job = .working) (other : JobId) :
    Gone (s.put job .released) other := by
  obtain ⟨hmarked, hlooked, hstale, hpending, hworking⟩ := h
  unfold State.put
  constructor <;> grind [Function.update_apply]

/-- **Step.** -/
theorem Sound.step {a : Action} (hpublished : Published s a) :
    Sound (step s a) := by
  cases a with
  | get w =>
    rw [OutboxWake.step]
    split
    · cases hmarker : s.marker with
      | none => exact h.go nofun nofun nofun
      | some job =>
        refine h.go nofun (fun existing heq => ?_) nofun
        cases heq
        exact h.marked job hmarker
    · exact h
  | look w =>
    rw [OutboxWake.step]
    split
    next existing hphase =>
      split
      · exact h.rest
      next hactive =>
        refine h.go nofun nofun fun job heq => ?_
        obtain rfl : existing = job := by simpa using heq
        have hjob : s.jobs existing ≠ .working := fun hworks => hactive (by rw [hworks]; rfl)
        exact ⟨h.looked w existing hphase, hjob, fun v _ => hpublished existing v hphase⟩
    · exact h
  | clear w =>
    rw [OutboxWake.step]
    split
    next existing hphase =>
      exact (h.delete (h.stale w existing (.inl hphase)).2).go nofun nofun nofun
    · exact h
  | set w job =>
    rw [OutboxWake.step]
    split
    · split
      · exact h
      next hnew =>
        split
        next hmarker =>
          refine h.publish (fun other => ⟨fun hworks => ?_, fun v hphase => ?_⟩) hnew
          · cases hmarker.symm.trans (h.working other hworks)
          · cases hmarker.symm.trans (h.pending v other hphase).1
        · exact h.rest
    · exact h
  | enqueue w =>
    rw [OutboxWake.step]
    split
    next job hphase => exact h.enqueue hphase
    · exact h
  | raises w =>
    rw [OutboxWake.step]
    split
    next job hphase =>
      obtain ⟨hmarker, hjob, honly⟩ := h.pending w job hphase
      refine h.go nofun nofun fun other heq => ?_
      obtain rfl : job = other := by simpa using heq
      exact ⟨h.marked job hmarker, hjob, fun v hne hv => hne (honly v hv)⟩
    · exact h.rest
  | release w =>
    rw [OutboxWake.step]
    split
    next job hphase => exact (h.delete (h.stale w job (.inr hphase)).2).rest
    · exact h
  | stop w => exact h.rest
  | clearWake job =>
    rw [OutboxWake.step]
    split
    next hjob =>
      have hput : Sound (s.put job .released) := h.put nofun
      exact hput.delete (h.alone hjob job)
    · exact h
  | handOver w job successor =>
    rw [OutboxWake.step]
    split
    next hjob =>
      have hput : Sound (s.put job .released) := h.put nofun
      exact hput.publish (h.alone hjob.1) hjob.2.2.2
    · exact h
  | finish job =>
    rw [OutboxWake.step]
    split
    · exact h.put nofun
    · exact h

end

/-- No job is at work and no process is in between; a marker may have been left. -/
structure Start (s : State) : Prop where
  marker : ∀ job ∈ s.marker, job ∈ s.named
  jobs : ∀ job, s.jobs job ≠ .working
  wakers : ∀ w, s.wakers w = .idle

theorem Start.sound (h : Start s) : Sound s := by
  obtain ⟨hmarker, hjobs, hwakers⟩ := h
  constructor <;> grind

end Steps

def noMarker : State := ⟨none, fun _ => .missing, fun _ => .idle, []⟩

theorem start_noMarker : Start noMarker :=
  ⟨nofun, fun _ => nofun, fun _ => rfl⟩

/-- A job is enqueued, another process finds it at work, it hands over to a second one. -/
def orderlyRun : List Action :=
  [.get 0, .set 0 1, .enqueue 0, .get 1, .look 1, .handOver 2 1 2, .enqueue 2, .finish 1,
    .clearWake 2]

/-- A process has set the marker and not enqueued its job yet, when another one looks the job
up. -/
def earlyLook : List Action :=
  [.get 0, .set 0 1, .get 1, .look 1, .clear 1, .set 1 2, .enqueue 1, .enqueue 0]

end OutboxWake
