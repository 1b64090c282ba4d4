import AutoGallery.GitlleryOrder

/-!
# The settlement of the intents

The last target of an intent is marked complete in one transaction, and the intent in the
next one, by the same worker.  Nobody else looks at the intent in between: it has targets,
so it is not planned again, and they are complete, so none of them is claimed again.  If
the worker is lost there, the intent stays as it is for good (`Stranded.after_step`); and if
whoever is lost leaves another one behind who has claimed a target of the intent, it does
not happen (`Attended.after_step`).  Whoever is lost, an intent is never complete too early
(`CompleteBelow.turns`).
-/

namespace GitlleryOutbox

open List

variable {Repository : Type} {s s' : State Repository} {claim : IntentClaim}
  {repositories : List (Repository × Uuid)} {phase : Worker Repository} {intentId : Uuid}
  {f : Target Repository → Target Repository} {new : List (Target Repository)}
  {a : Action Repository} {other : Nat}

section Definitions

/-- The worker has claimed a target of the intent. -/
def Worker.Holds (phase : Worker Repository) (intentId : Uuid) : Prop :=
  ∃ claim, phase.target = some claim ∧ claim.intentId = intentId

section

variable (s)

/-- The targets of the intent are complete, the intent is not. -/
structure Unsettled (intentId : Uuid) : Prop where
  waiting : ∃ row ∈ s.intents, row.id = intentId ∧ row.state ≠ .complete
  planned : ∃ row ∈ s.targets, row.intentId = intentId
  written : ∀ row ∈ s.targets, row.intentId = intentId → row.state = .complete

/-- And no worker has claimed one of them. -/
structure Stranded (intentId : Uuid) : Prop extends
    Unsettled s intentId where
  released : ∀ w, ¬ (s.workers w).Holds intentId

/-- The worker alone has claimed a target of an intent that is to be settled. -/
def LastHolder (w : Nat) : Prop :=
  ∃ intentId, Unsettled s intentId ∧ (s.workers w).Holds intentId ∧
    ∀ other, (s.workers other).Holds intentId → other = w

/-- A worker that stops, or gives up its target after an error, is not the last one that
could settle an intent. -/
def Relieved : Action Repository → Prop
  | .crash w => ¬ LastHolder s w
  | .failTarget w _ => (∃ target left, s.workers w = .failing target left) → ¬ LastHolder s w
  | _ => True

/-- Where `process_gitllery_projection_outbox` raises while it handles a target. -/
inductive Outcome where
  | writeRaises
  | finishRaises
  | settleRaises
  | settled

/-- One round of the loop of `process_gitllery_projection_outbox`. -/
structure Round where
  token : Uuid
  claimedAt : Time
  outcome : Outcome
  failedAt : Time

/-- The steps of a round.  The last one is for a round that has raised. -/
def Round.actions (w : Nat) (round : Round) : List (Action Repository) :=
  .claim w round.token round.claimedAt ::
    (match round.outcome with
      | .writeRaises => [.raises w]
      | .finishRaises => [.write w, .raises w]
      | .settleRaises => [.write w, .finish w, .raises w]
      | .settled => [.write w, .finish w, .settle w]) ++
    [.failTarget w round.failedAt]

/-- One call of `process_gitllery_projection_outbox`, with what it takes from outside:
`repositories` is what the planning slices its commit into, or nothing if it raises, and
there are as many rounds as the time allows. -/
structure Call (Repository : Type) where
  worker : Nat
  limit : Nat
  startedAt : Time
  repositories : Option (List (Repository × Uuid))
  plannedAt : Time
  planFailedAt : Time
  rounds : List Round

/-- The steps of a call.  Those for which there is no occasion do nothing. -/
def Call.actions (call : Call Repository) : List (Action Repository) :=
  .start call.worker call.limit call.startedAt ::
    (match call.repositories with
      | none => .planRaises call.worker
      | some repositories => .plan call.worker repositories call.plannedAt) ::
    .failIntent call.worker call.planFailedAt ::
    call.rounds.flatMap (·.actions call.worker) ++ [.leave call.worker]

/-- `process_gitllery_projection_outbox`, called again and again. -/
def afterCalls [DecidableEq Repository] (calls : Nat → Call Repository) (s : State Repository) :
    Nat → State Repository
  | 0 => s
  | n + 1 => (calls n).actions.foldl step (afterCalls calls s n)

/-- However it is called again and again, in the end all intents are complete. -/
def Settles [DecidableEq Repository] (s : State Repository) : Prop :=
  ∀ calls, ∃ n, ∀ row ∈ (afterCalls calls s n).intents, row.state = .complete

/-- No worker is running, the intents are planned (one that concerns no repository is
complete at once), and the targets are complete. -/
structure Quiet : Prop where
  workers : ∀ w, s.workers w = .idle
  planned : ∀ row ∈ s.intents, row.state = .complete ∨ ∃ target ∈ s.targets, target.intentId = row.id
  written : ∀ row ∈ s.targets, row.state = .complete

end

end Definitions

section Links

/-- The intent has been planned: no worker that has claimed it can change it. -/
def Intent.Planned (row : Intent) : Prop :=
  row.leaseExpiresAt = none ∧ (row.state = .processing ∨ row.state = .complete)

section

variable (s)

/-- The intents, the targets and the claims belong together. -/
structure Links : Prop where
  intents : ∀ target ∈ s.targets, ∃ row ∈ s.intents, row.id = target.intentId
  planned : ∀ target ∈ s.targets, ∀ row ∈ s.intents, row.id = target.intentId → row.Planned
  held : ∀ w claim, (s.workers w).target = some claim →
    ∃ row ∈ s.targets, row.id = claim.id ∧ row.intentId = claim.intentId

/-- What holds in every run. -/
structure Linked : Prop extends Traced s, Links s

/-- The intent has targets. -/
def HasTargets (intentId : Uuid) : Prop :=
  ∃ target ∈ s.targets, target.intentId = intentId

/-- What most steps keep of an intent: whose it is, and that it is not complete. -/
structure IntentKept (row row' : Intent) : Prop where
  id : row'.id = row.id
  commitId : row'.commitId = row.commitId
  complete : row'.state = .complete → row.state = .complete

theorem IntentKept.refl (row : Intent) : IntentKept row row := ⟨rfl, rfl, fun h => h⟩

/-- Only intents without targets are changed. -/
def Apart (f : Intent → Intent) : Prop :=
  ∀ row ∈ s.intents, IntentKept row (f row) ∧ (HasTargets s row.id → f row = row)

theorem apart_id : Apart s id :=
  fun row _ => ⟨IntentKept.refl row, fun _ => rfl⟩

end

/-- The intent that a worker has claimed. -/
def Worker.intent : Worker Repository → Option IntentClaim
  | .planning claim _ => some claim
  | .planningFailed claim _ => some claim
  | _ => none


variable {row : Intent} {now : Time} {w : Nat}

theorem plannedIntent_of_ne [DecidableEq Repository] (h : row.id ≠ claim.id) :
    plannedIntent claim repositories row = row :=
  if_neg h

variable (claim repositories row) in
@[simp]
theorem id_plannedIntent [DecidableEq Repository] :
    (plannedIntent claim repositories row).id = row.id := by
  unfold plannedIntent
  split <;> rfl

variable (claim repositories row) in
@[simp]
theorem commitId_plannedIntent [DecidableEq Repository] :
    (plannedIntent claim repositories row).commitId = row.commitId := by
  unfold plannedIntent
  split <;> rfl

theorem planned_plannedIntent [DecidableEq Repository] (h : row.id = claim.id)
    (repositories : List (Repository × Uuid)) : (plannedIntent claim repositories row).Planned := by
  unfold plannedIntent
  rw [if_pos h]
  refine ⟨rfl, ?_⟩
  dsimp only
  split
  · exact .inr rfl
  · exact .inl rfl

theorem Links.of_held (h : Links s) (hrow : row ∈ s.intents) (htargets : HasTargets s row.id) :
    row.Planned := by
  obtain ⟨target, htarget, hid⟩ := htargets
  exact h.planned target htarget row hrow hid.symm

theorem Intent.Planned.not_holds (h : row.Planned) (claim : IntentClaim) :
    claim.holds row = false := by
  simp [IntentClaim.holds, h.1]

theorem Links.apart_fail (h : Links s) (claim : IntentClaim) (f : Intent → Intent)
    (hf : ∀ row, IntentKept row (f row)) :
    Apart s fun row => if claim.holds row then f row else row := by
  intro row hrow
  dsimp only
  constructor
  · split
    · exact hf row
    · exact IntentKept.refl row
  · intro htargets
    rw [(h.of_held hrow htargets).not_holds claim]
    rfl

variable [DecidableEq Repository]

theorem intentId_plannedTargets {commit : CurationCommit} {row : Target Repository}
    (h : row ∈ plannedTargets claim commit repositories now s) :
    row.intentId = claim.id ∧ row.state = .pending := by
  obtain ⟨r, -, rfl⟩ := mem_map.mp h
  exact ⟨rfl, rfl⟩

/-- What a step can do, as far as the settlement goes. -/
inductive Turns (s : State Repository) : Action Repository → State Repository → Prop
  | rest (a : Action Repository) : Turns s a s
  | create {commit : CurationCommit} {intentId : Uuid} {now : Time}
      (hlast : ∀ other ∈ s.commits, other.stamp < commit.stamp ∧ other.id ≠ commit.id)
      (hfresh : ∀ row ∈ s.intents, row.id ≠ intentId) :
      Turns s (.create commit intentId now) { s with
        commits := s.commits ++ [commit]
        intents := s.intents ++ [⟨intentId, commit.id, .pending, 0, none, now⟩] }
  | request {commitId : Uuid} {now : Time} {f : Intent → Intent} (hf : Apart s f) :
      Turns s (.request commitId now) { s with intents := s.intents.map f }
  /-- the worker has no target, before or after -/
  | free (a : Action Repository) {w : Nat} {phase : Worker Repository} {f : Intent → Intent}
      (hf : Apart s f) (hbefore : (s.workers w).target = none) (hafter : phase.target = none)
      (hintent : ∀ claim, phase.intent = some claim → (s.workers w).intent = some claim ∨
        ∃ row ∈ s.intents, row.id = claim.id ∧ row.commitId = claim.commitId) :
      Turns s a (setWorker w phase { s with intents := s.intents.map f })
  | plan {w left : Nat} {claim : IntentClaim} {commit : CurationCommit}
      {repositories : List (Repository × Uuid)} {now : Time}
      (hphase : s.workers w = .planning claim left)
      (hholds : ∃ row ∈ s.intents, claim.holds row = true)
      (hcommit : commit ∈ s.commits) (hid : commit.id = claim.commitId)
      (hfresh : FreshRows repositories s) :
      Turns s (.plan w repositories now) (setWorker w (.claiming left)
        { s with
          intents := s.intents.map (plannedIntent claim repositories)
          targets := s.targets ++ plannedTargets claim commit repositories now s })
  | claim {w left : Nat} {row : Target Repository} {token : Uuid} {now : Time}
      (hbefore : (s.workers w).target = none) (hrow : row ∈ s.targets)
      (hfirst : hasEarlier s row = false) (hopen : row.state ≠ .complete) :
      Turns s (.claim w token now) (setWorker w
        (.writing ⟨row.id, row.intentId, row.commitId, row.commitCreatedAt, row.repositoryKey,
          row.attempts + 1, token⟩ left) (updateTarget row.id (claimed token now) s))
  | write {w left : Nat} {target : TargetClaim Repository}
      (hphase : s.workers w = .writing target left) :
      Turns s (.write w) (setWorker w (.finishing target left) (writeTarget target s))
  | raises {w left : Nat} {target : TargetClaim Repository}
      (hphase : (s.workers w).target = some target) :
      Turns s (.raises w) (setWorker w (.failing target left) s)
  | finish {w left : Nat} {target : TargetClaim Repository}
      (hphase : s.workers w = .finishing target left) :
      Turns s (.finish w) (setWorker w (.settling target left) (finishTarget target s))
  | settle {w left : Nat} {target : TargetClaim Repository}
      (hphase : s.workers w = .settling target left) :
      Turns s (.settle w) (setWorker w (.claiming left) (settleIntent target.intentId s))
  | fail {w left : Nat} {target : TargetClaim Repository} {now : Time}
      (hphase : s.workers w = .failing target left) :
      Turns s (.failTarget w now) (setWorker w (.claiming left) (failTarget target now s))
  | crash (w : Nat) : Turns s (.crash w) (setWorker w .idle s)

theorem turns_free (a : Action Repository) (hbefore : (s.workers w).target = none)
    (hafter : phase.target = none)
    (hintent : ∀ claim, phase.intent = some claim → (s.workers w).intent = some claim) :
    Turns s a (setWorker w phase s) := by
  have hfree := Turns.free a (apart_id s) hbefore hafter fun claim hclaim => .inl (hintent claim hclaim)
  rwa [map_id] at hfree

theorem turns_request (h : Links s) (commitId : Uuid) (now : Time) :
    Turns s (.request commitId now) (requestGitlleryProjection commitId now s) := by
  unfold requestGitlleryProjection
  split
  · exact .rest _
  rename_i existing hfind
  have hexisting : existing ∈ s.intents := mem_of_find?_eq_some hfind
  split
  next hfailed =>
    refine .request fun row hrow => ⟨?_, fun htargets => ?_⟩
    · split
      · exact ⟨rfl, rfl, nofun⟩
      · exact IntentKept.refl row
    · refine if_neg fun hid => ?_
      -- an intent with targets has not failed
      obtain ⟨-, hstate⟩ := h.of_held hexisting (hid ▸ htargets)
      rw [hfailed] at hstate
      rcases hstate with hstate | hstate <;> cases hstate
  · exact .rest _

omit [DecidableEq Repository] in
theorem apart_claimIntent (now : Time) (s : State Repository) :
    ∃ f, Apart s f ∧ (claimIntentForPlanning now s).1 = { s with intents := s.intents.map f } ∧
      ∀ claim, (claimIntentForPlanning now s).2 = some claim →
        ∃ row ∈ s.intents, row.id = claim.id ∧ row.commitId = claim.commitId := by
  unfold claimIntentForPlanning
  split
  · exact ⟨id, apart_id s, by rw [map_id], nofun⟩
  rename_i row hmin
  obtain ⟨hrow, hplannable⟩ := mem_filter.mp (argmin_mem hmin)
  refine ⟨_, fun other hother => ⟨?_, fun htargets => if_neg fun hid => ?_⟩, rfl,
    fun claim hclaim => ?_⟩
  · split
    · exact ⟨rfl, rfl, nofun⟩
    · exact IntentKept.refl other
  · obtain ⟨target, htarget, hsame⟩ := htargets
    simp only [Bool.and_eq_true, Bool.not_eq_true', any_eq_false, decide_eq_true_eq]
      at hplannable
    exact hplannable.1.2 target htarget (hsame.trans hid)
  · cases hclaim
    exact ⟨row, hrow, rfl, rfl⟩

theorem turns_plan {left : Nat} (hphase : s.workers w = .planning claim left)
    (hplan : planIntent claim repositories now s = some s') :
    Turns s (.plan w repositories now) (setWorker w (.claiming left) s') := by
  rcases planIntent_cases hplan with rfl | ⟨commit, hcommit, hid, hfresh, hholds, rfl⟩
  · exact turns_free _ (by rw [hphase]; rfl) rfl nofun
  · exact .plan hphase (any_eq_true.mp hholds) hcommit hid hfresh

/-- And it does nothing else. -/
theorem Links.step_turns (h : Links s) (a : Action Repository) : Turns s a (step s a) := by
  cases a with
  | create commit intentId now =>
    rw [step, createCommit]
    split
    next hnew => exact .create hnew.1 hnew.2
    · exact .rest _
  | request commitId now => exact turns_request h commitId now
  | start w limit now =>
    rw [step]
    split
    next hphase =>
      have hbefore : (s.workers w).target = none := by rw [hphase]; rfl
      obtain ⟨f, hf, heq, hclaimed⟩ := apart_claimIntent now s
      rcases hclaim : claimIntentForPlanning now s with ⟨next, - | claim⟩
      · rw [hclaim] at heq
        subst heq
        exact .free _ hf hbefore rfl fun _ hsame => by cases hsame
      · rw [hclaim] at heq hclaimed
        subst heq
        refine .free _ hf hbefore rfl fun other hsame => .inr ?_
        cases hsame
        exact hclaimed claim rfl
    · exact .rest _
  | plan w repositories now =>
    rw [step]
    split
    next claim left hphase =>
      cases hplan : planIntent claim repositories now s with
      | none =>
        refine turns_free _ (by rw [hphase]; rfl) rfl fun other hsame => ?_
        rw [hphase]
        exact hsame
      | some next => exact turns_plan hphase hplan
    · exact .rest _
  | planRaises w =>
    rw [step]
    split
    next hphase =>
      refine turns_free _ (by rw [hphase]; rfl) rfl fun other hsame => ?_
      rw [hphase]
      exact hsame
    · exact .rest _
  | failIntent w now =>
    rw [step]
    split
    next claim left hphase =>
      exact .free _ (h.apart_fail claim _ fun _ => ⟨rfl, rfl, by simp⟩)
        (by rw [hphase]; rfl) rfl fun _ hsame => by cases hsame
    · exact .rest _
  | claim w token now =>
    rw [step]
    split
    next hphase =>
      have hbefore : (s.workers w).target = none := by rw [hphase]; rfl
      rcases claimTarget_cases token now s with heq | ⟨row, hrow, hfirst, hopen, heq⟩
      · rw [heq]
        exact turns_free _ hbefore rfl fun _ hsame => by cases hsame
      · rw [heq]
        exact .claim hbefore hrow hfirst hopen
    · exact .rest _
  | leave w =>
    rw [step]
    split
    next hphase => exact turns_free _ (by rw [hphase]; rfl) rfl fun _ hsame => by cases hsame
    · exact .rest _
  | write w =>
    rw [step]
    split
    next hphase => exact .write hphase
    · exact .rest _
  | finish w =>
    rw [step]
    split
    next hphase => exact .finish hphase
    · exact .rest _
  | settle w =>
    rw [step]
    split
    next hphase => exact .settle hphase
    · exact .rest _
  | raises w =>
    rw [step]
    split
    next hphase => exact .raises (by rw [hphase]; rfl)
    next hphase => exact .raises (by rw [hphase]; rfl)
    next hphase => exact .raises (by rw [hphase]; rfl)
    · exact .rest _
  | failTarget w now =>
    rw [step]
    split
    next hphase => exact .fail hphase
    · exact .rest _
  | crash w => exact .crash w

end Links

section Rows

/-- The settlement of an intent is a matter of the tables. -/
theorem unsettled_congr (hintents : s'.intents = s.intents) (htargets : s'.targets = s.targets) :
    Unsettled s' intentId ↔ Unsettled s intentId := by
  constructor <;> exact fun h =>
    ⟨hintents ▸ h.waiting, htargets ▸ h.planned, htargets ▸ h.written⟩

theorem unsettled_setWorker (w : Nat) (phase : Worker Repository) :
    Unsettled (setWorker w phase s) intentId ↔ Unsettled s intentId :=
  unsettled_congr rfl rfl

/-- Other intents change. -/
theorem unsettled_intents {f : Intent → Intent} (hid : ∀ row ∈ s.intents, (f row).id = row.id)
    (hsame : ∀ row ∈ s.intents, row.id = intentId → HasTargets s intentId → f row = row) :
    Unsettled { s with intents := s.intents.map f } intentId ↔ Unsettled s intentId := by
  constructor
  · intro h
    refine ⟨?_, h.planned, h.written⟩
    obtain ⟨row', hrow', hown, hopen⟩ := h.waiting
    obtain ⟨row, hrow, rfl⟩ := mem_map.mp hrow'
    rw [hid row hrow] at hown
    rw [hsame row hrow hown h.planned] at hopen
    exact ⟨row, hrow, hown, hopen⟩
  · intro h
    refine ⟨?_, h.planned, h.written⟩
    obtain ⟨row, hrow, hown, hopen⟩ := h.waiting
    exact ⟨row, mem_map.mpr ⟨row, hrow, hsame row hrow hown h.planned⟩, hown, hopen⟩

/-- Intents without targets do not wait to be settled. -/
theorem unsettled_apart {f : Intent → Intent} (hf : Apart s f) :
    Unsettled { s with intents := s.intents.map f } intentId ↔ Unsettled s intentId :=
  unsettled_intents (fun row hrow => (hf row hrow).1.id)
    fun row hrow hown htargets => (hf row hrow).2 (hown ▸ htargets)

/-- A new intent has no targets. -/
theorem Linked.unsettled_create (h : Linked s) {new : Intent} (commits : List CurationCommit)
    (hfresh : ∀ row ∈ s.intents, row.id ≠ new.id) :
    Unsettled { s with commits := commits, intents := s.intents ++ [new] } intentId ↔
      Unsettled s intentId := by
  constructor
  · intro hunsettled
    refine ⟨?_, hunsettled.planned, hunsettled.written⟩
    obtain ⟨row, hrow, hid, hopen⟩ := hunsettled.waiting
    rcases mem_append.mp hrow with hold | hnew
    · exact ⟨row, hold, hid, hopen⟩
    · obtain ⟨target, htarget, hsame⟩ := hunsettled.planned
      obtain ⟨known, hknown, hknownId⟩ := h.intents target htarget
      rw [mem_singleton.mp hnew] at hid
      exact absurd (hknownId.trans (hsame.trans hid.symm)) (hfresh known hknown)
  · intro hunsettled
    refine ⟨?_, hunsettled.planned, hunsettled.written⟩
    obtain ⟨row, hrow, hfacts⟩ := hunsettled.waiting
    exact ⟨row, mem_append_left _ hrow, hfacts⟩

/-- A claim that still holds is of an intent without targets. -/
theorem Linked.no_targets (h : Linked s) (hclaim : ∃ row ∈ s.intents, claim.holds row = true) :
    ¬ HasTargets s claim.id := by
  intro htargets
  obtain ⟨row, hrow, hholds⟩ := hclaim
  have hid : row.id = claim.id := by
    simp only [IntentClaim.holds, Bool.and_eq_true, decide_eq_true_eq] at hholds
    exact hholds.1.1.1
  rw [(h.of_held hrow (hid ▸ htargets)).not_holds claim] at hholds
  cases hholds

/-- An intent that is planned does not wait to be settled, neither before nor after. -/
theorem Linked.unsettled_plan [DecidableEq Repository] (h : Linked s)
    (hclaim : ∃ row ∈ s.intents, claim.holds row = true)
    (hnew : ∀ row ∈ new, row.intentId = claim.id ∧ row.state = .pending) :
    Unsettled { s with
        intents := s.intents.map (plannedIntent claim repositories)
        targets := s.targets ++ new } intentId ↔
      Unsettled s intentId := by
  have hnone := h.no_targets hclaim
  constructor
  · intro hunsettled
    obtain ⟨target, htarget, hsame⟩ := hunsettled.planned
    rcases mem_append.mp htarget with hold | hpending
    · have hne : intentId ≠ claim.id := fun heq => hnone ⟨target, hold, hsame.trans heq⟩
      refine ⟨?_, ⟨target, hold, hsame⟩,
        fun row hrow => hunsettled.written row (mem_append_left _ hrow)⟩
      obtain ⟨row', hrow', hid, hopen⟩ := hunsettled.waiting
      obtain ⟨row, hrow, rfl⟩ := mem_map.mp hrow'
      rw [id_plannedIntent] at hid
      rw [plannedIntent_of_ne (hid ▸ hne)] at hopen
      exact ⟨row, hrow, hid, hopen⟩
    · have hcomplete := hunsettled.written target htarget hsame
      rw [(hnew target hpending).2] at hcomplete
      cases hcomplete
  · intro hunsettled
    have hne : intentId ≠ claim.id := fun heq => hnone (heq ▸ hunsettled.planned)
    obtain ⟨row, hrow, hid, hopen⟩ := hunsettled.waiting
    obtain ⟨target, htarget, hsame⟩ := hunsettled.planned
    refine ⟨⟨row, mem_map.mpr ⟨row, hrow, plannedIntent_of_ne (hid ▸ hne)⟩, hid, hopen⟩,
      ⟨target, mem_append_left _ htarget, hsame⟩, fun row hrow hid => ?_⟩
    rcases mem_append.mp hrow with hold | hpending
    · exact hunsettled.written row hold hid
    · exact absurd (hid.symm.trans (hnew row hpending).1) hne

/-- Targets change that were not complete: what was waiting still is. -/
theorem Unsettled.map (h : Unsettled s intentId)
    (hid : ∀ row ∈ s.targets, (f row).intentId = row.intentId)
    (hcomplete : ∀ row ∈ s.targets, row.state = .complete → (f row).state = .complete) :
    Unsettled { s with targets := s.targets.map f } intentId := by
  refine ⟨h.waiting, ?_, fun row' hrow' hsame => ?_⟩
  · obtain ⟨row, hrow, hsame⟩ := h.planned
    exact ⟨f row, mem_map_of_mem hrow, (hid row hrow).trans hsame⟩
  · obtain ⟨row, hrow, rfl⟩ := mem_map.mp hrow'
    exact hcomplete row hrow (h.written row hrow ((hid row hrow).symm.trans hsame))

/-- And no target becomes complete: nothing is waiting that was not. -/
theorem Unsettled.of_map (h : Unsettled { s with targets := s.targets.map f } intentId)
    (hid : ∀ row ∈ s.targets, (f row).intentId = row.intentId)
    (hcomplete : ∀ row ∈ s.targets, row.intentId = intentId → (f row).state = .complete →
      row.state = .complete) : Unsettled s intentId := by
  refine ⟨h.waiting, ?_, fun row hrow hsame => ?_⟩
  · obtain ⟨row', hrow', hsame⟩ := h.planned
    obtain ⟨row, hrow, rfl⟩ := mem_map.mp hrow'
    exact ⟨row, hrow, (hid row hrow).symm.trans hsame⟩
  · exact hcomplete row hrow hsame
      (h.written (f row) (mem_map_of_mem hrow) ((hid row hrow).trans hsame))

end Rows

section Steps

variable {w : Nat}

theorem not_holds_of_free (h : phase.target = none) : ¬ phase.Holds intentId := by
  intro hholds
  obtain ⟨claim, hclaim, -⟩ := hholds
  rw [h] at hclaim
  cases hclaim

theorem holds_setWorker_of_ne (hne : other ≠ w) :
    ((setWorker w phase s).workers other).Holds intentId ↔ (s.workers other).Holds intentId := by
  rw [workers_setWorker, if_neg hne]

/-- The worker goes on with its target. -/
theorem holds_setWorker_same (h : phase.target = (s.workers other).target) :
    ((setWorker other phase s).workers w).Holds intentId ↔ (s.workers w).Holds intentId := by
  rw [workers_setWorker]
  split
  next heq => rw [Worker.Holds, Worker.Holds, h, heq]
  · exact Iff.rfl

theorem not_holds_setWorker (h : phase.target = none) :
    ¬ ((setWorker w phase s).workers w).Holds intentId := by
  rw [workers_setWorker, if_pos rfl]
  exact not_holds_of_free h

/-- The targets of a claim are of the intent that it names. -/
theorem Linked.intentId_of_holds (h : Linked s) {claim : TargetClaim Repository}
    (hclaim : (s.workers w).target = some claim) {row : Target Repository} (hrow : row ∈ s.targets)
    (hholds : claim.holds row = true) : row.intentId = claim.intentId := by
  obtain ⟨found, hfound, hid, hintent⟩ := h.held w claim hclaim
  simp only [TargetClaim.holds, Bool.and_eq_true, decide_eq_true_eq] at hholds
  have heq : row = found := inj_on_of_nodup_map h.keyed.ids hrow hfound (hholds.1.1.1.trans hid.symm)
  rw [heq]
  exact hintent

/-- Whoever settles an intent leaves none of it to be settled. -/
theorem settled_of_settleIntent : ¬ Unsettled (settleIntent intentId s) intentId := by
  intro h
  unfold settleIntent at h
  split at h
  next hopen =>
    obtain ⟨row, hrow, hfacts⟩ := any_eq_true.mp hopen
    simp only [Bool.and_eq_true, decide_eq_true_eq] at hfacts
    exact hfacts.2 (h.written row hrow hfacts.1)
  · obtain ⟨row', hrow', hid, hopen⟩ := h.waiting
    obtain ⟨row, -, rfl⟩ := mem_map.mp hrow'
    dsimp only at hid hopen
    split at hopen
    · exact hopen rfl
    next hne =>
      rw [if_neg hne] at hid
      exact hne hid

theorem unsettled_settleIntent {other : Uuid} (hne : other ≠ intentId) :
    Unsettled (settleIntent intentId s) other ↔ Unsettled s other := by
  unfold settleIntent
  split
  · exact Iff.rfl
  refine unsettled_intents (fun row _ => ?_) fun row _ hid _ => if_neg (hid ▸ hne)
  split <;> rfl

/-- A claim, or an error, completes nothing. -/
theorem unsettled_map (hid : ∀ row ∈ s.targets, (f row).intentId = row.intentId)
    (hcomplete : ∀ row ∈ s.targets, (f row).state = .complete ↔ row.state = .complete) :
    Unsettled { s with targets := s.targets.map f } intentId ↔ Unsettled s intentId :=
  ⟨fun h => h.of_map hid fun row hrow _ => (hcomplete row hrow).mp,
    fun h => h.map hid fun row hrow => (hcomplete row hrow).mpr⟩

variable [DecidableEq Repository]

/-- An intent begins to wait when its last target is finished, and ends when it is settled;
both times by a worker that has claimed one of its targets. -/
theorem Linked.unsettled_turns (h : Linked s) (hturns : Turns s a s') (intentId : Uuid) :
    (Unsettled s' intentId ↔ Unsettled s intentId) ∨
      (∃ w, a = .finish w ∧ (s'.workers w).Holds intentId ∧
        (Unsettled s intentId → Unsettled s' intentId)) ∨
      ∃ w, a = .settle w ∧ (s.workers w).Holds intentId ∧ ¬ Unsettled s' intentId := by
  cases hturns with
  | rest => exact .inl Iff.rfl
  | create hlast hfresh => exact .inl (h.unsettled_create _ hfresh)
  | request hf => exact .inl (unsettled_apart hf)
  | free _ hf hbefore hafter hintent => exact .inl ((unsettled_setWorker ..).trans (unsettled_apart hf))
  | plan hphase hholds hcommit hid hfresh =>
    exact .inl ((unsettled_setWorker ..).trans
      (h.unsettled_plan hholds fun row hrow => intentId_plannedTargets hrow))
  | @claim w left row token now hbefore hrow hfirst hopen =>
    refine .inl ((unsettled_setWorker ..).trans (unsettled_map (fun other _ => ?_) ?_))
    · split <;> rfl
    intro other hother
    split
    next hid =>
      have heq : other = row := inj_on_of_nodup_map h.keyed.ids hother hrow hid
      subst heq
      exact ⟨nofun, fun hstate => absurd hstate hopen⟩
    · exact Iff.rfl
  | write _ | raises _ => exact .inl (unsettled_congr rfl rfl)
  | @finish w left target hphase =>
    have hid : ∀ row ∈ s.targets, (if target.holds row then
        { row with state := .complete, leaseToken := none, leaseExpiresAt := none }
        else row).intentId = row.intentId := by
      intro row _
      split <;> rfl
    have hcomplete : Unsettled s intentId →
        Unsettled (setWorker w (.settling target left) (finishTarget target s)) intentId := by
      intro hunsettled
      refine (unsettled_setWorker ..).mpr (hunsettled.map hid fun row _ hstate => ?_)
      split
      · rfl
      · exact hstate
    by_cases hintent : target.intentId = intentId
    · refine .inr (.inl ⟨w, rfl, ⟨target, ?_, hintent⟩, hcomplete⟩)
      rw [workers_setWorker, if_pos rfl]
      rfl
    refine .inl ⟨fun hunsettled => ?_, hcomplete⟩
    refine ((unsettled_setWorker ..).mp hunsettled).of_map hid fun row hrow hsame hstate => ?_
    split at hstate
    next hholds =>
      have howner := h.intentId_of_holds (w := w) (by rw [hphase]; rfl) hrow hholds
      exact absurd (howner.symm.trans hsame) hintent
    · exact hstate
  | @settle w left target hphase =>
    by_cases hintent : target.intentId = intentId
    · refine .inr (.inr ⟨w, rfl, ⟨target, by rw [hphase]; rfl, hintent⟩, fun hunsettled => ?_⟩)
      rw [unsettled_setWorker, hintent] at hunsettled
      exact settled_of_settleIntent hunsettled
    · exact .inl ((unsettled_setWorker ..).trans (unsettled_settleIntent fun heq => hintent heq.symm))
  | @fail w left target now hphase =>
    refine .inl ((unsettled_setWorker ..).trans (unsettled_map (fun other _ => ?_) ?_))
    · split <;> rfl
    intro row hrow
    split
    next hholds =>
      rw [TargetClaim.processing_of_holds hholds]
      exact ⟨nofun, nofun⟩
    · exact Iff.rfl
  | crash w => exact .inl (unsettled_setWorker ..)

variable (s a w) in
/-- The worker stops, or gives up its target after an error. -/
def GivesUp : Prop :=
  a = .crash w ∨ ∃ now, a = .failTarget w now ∧ ∃ target left, s.workers w = .failing target left

/-- A target is claimed that is not complete. -/
theorem holds_of_turns (hturns : Turns s a s') (hunsettled : Unsettled s intentId)
    (hholds : (s'.workers w).Holds intentId) : (s.workers w).Holds intentId := by
  have hfree : ∀ {other : Nat} {phase : Worker Repository} {middle : State Repository},
      phase.target = none → middle.workers = s.workers →
      ((setWorker other phase middle).workers w).Holds intentId → (s.workers w).Holds intentId := by
    intro other phase middle hphase hworkers hholds
    by_cases hw : w = other
    · subst hw
      exact absurd hholds (not_holds_setWorker hphase)
    · rw [holds_setWorker_of_ne hw, hworkers] at hholds
      exact hholds
  cases hturns with
  | rest | create _ _ | request _ => exact hholds
  | free _ hf hbefore hafter hintent => exact hfree hafter rfl hholds
  | plan hphase hclaim hcommit hid hfresh => exact hfree rfl rfl hholds
  | @claim w' left row token now hbefore hrow hfirst hopen =>
    by_cases hw : w = w'
    · rw [workers_setWorker, if_pos hw] at hholds
      obtain ⟨claim, hclaim, hintent⟩ := hholds
      cases hclaim
      exact absurd (hunsettled.written row hrow hintent) hopen
    · exact (holds_setWorker_of_ne hw).mp hholds
  | write hphase | finish hphase =>
    refine (holds_setWorker_same ?_).mp hholds
    exact (congrArg Worker.target hphase).symm
  | raises hphase =>
    refine (holds_setWorker_same ?_).mp hholds
    exact hphase.symm
  | settle hphase =>
    refine hfree rfl ?_ hholds
    unfold settleIntent
    split <;> rfl
  | fail _ | crash _ => exact hfree rfl rfl hholds

/-- A worker parts with a target by settling its intent, or it gives it up. -/
theorem kept_or_givenUp (hturns : Turns s a s') (hholds : (s.workers w).Holds intentId) :
    (s'.workers w).Holds intentId ∨ ¬ Unsettled s' intentId ∨ GivesUp s a w := by
  have hother : ∀ {other : Nat} {phase : Worker Repository} {middle : State Repository},
      middle.workers = s.workers → w ≠ other →
      ((setWorker other phase middle).workers w).Holds intentId := by
    intro other phase middle hworkers hw
    rw [holds_setWorker_of_ne hw, hworkers]
    exact hholds
  have hbusy : ∀ {other : Nat}, (s.workers other).target = none → w ≠ other := by
    intro other hbefore hw
    rw [hw] at hholds
    exact not_holds_of_free hbefore hholds
  cases hturns with
  | rest | create _ _ | request _ => exact .inl hholds
  | free _ _ hbefore _ _ | claim hbefore _ _ _ => exact .inl (hother rfl (hbusy hbefore))
  | plan hphase hclaim hcommit hid hfresh =>
    exact .inl (hother rfl (hbusy (by rw [hphase]; rfl)))
  | write hphase | finish hphase =>
    refine .inl ((holds_setWorker_same ?_).mpr hholds)
    exact (congrArg Worker.target hphase).symm
  | raises hphase =>
    refine .inl ((holds_setWorker_same ?_).mpr hholds)
    exact hphase.symm
  | @settle w' left target hphase =>
    by_cases hw : w = w'
    · obtain ⟨claim, hclaim, hintent⟩ := hholds
      rw [hw, hphase] at hclaim
      cases hclaim
      refine .inr (.inl fun hunsettled => ?_)
      rw [unsettled_setWorker, hintent] at hunsettled
      exact settled_of_settleIntent hunsettled
    · refine .inl (hother ?_ hw)
      unfold settleIntent
      split <;> rfl
  | @fail w' left target now hphase =>
    by_cases hw : w = w'
    · exact .inr (.inr (.inr ⟨now, by rw [hw], target, left, by rw [hw]; exact hphase⟩))
    · exact .inl (hother rfl hw)
  | crash w' =>
    by_cases hw : w = w'
    · exact .inr (.inr (.inl (by rw [hw])))
    · exact .inl (hother rfl hw)

end Steps

section Invariants

variable [DecidableEq Repository]

variable {w : Nat}

section

omit [DecidableEq Repository]

section

variable (h : Links s)
include h

/-- Intents change; those with targets stay planned. -/
theorem Links.mapIntents {f : Intent → Intent} (hid : ∀ row ∈ s.intents, (f row).id = row.id)
    (hplanned : ∀ row ∈ s.intents, HasTargets s row.id → (f row).Planned) :
    Links { s with intents := s.intents.map f } := by
  refine ⟨fun target htarget => ?_, fun target htarget row' hrow' hsame => ?_, h.held⟩
  · obtain ⟨row, hrow, hsame⟩ := h.intents target htarget
    exact ⟨f row, mem_map_of_mem hrow, (hid row hrow).trans hsame⟩
  · obtain ⟨row, hrow, rfl⟩ := mem_map.mp hrow'
    exact hplanned row hrow ⟨target, htarget, hsame.symm.trans (hid row hrow)⟩

/-- Only intents without targets change. -/
theorem Links.apart {f : Intent → Intent} (hf : Apart s f) :
    Links { s with intents := s.intents.map f } := by
  refine h.mapIntents (fun row hrow => (hf row hrow).1.id) fun row hrow htargets => ?_
  rw [(hf row hrow).2 htargets]
  exact h.of_held hrow htargets

theorem Links.settle (intentId : Uuid) : Links (settleIntent intentId s) := by
  unfold settleIntent
  split
  · exact h
  refine h.mapIntents (fun row _ => ?_) fun row hrow htargets => ?_
  · split <;> rfl
  · split
    · exact ⟨rfl, .inr rfl⟩
    · exact h.of_held hrow htargets

theorem Links.worker (hheld : ∀ claim, phase.target = some claim →
      ∃ row ∈ s.targets, row.id = claim.id ∧ row.intentId = claim.intentId) :
    Links (setWorker w phase s) := by
  refine ⟨h.intents, h.planned, fun other claim hclaim => ?_⟩
  rw [workers_setWorker] at hclaim
  split at hclaim
  · exact hheld claim hclaim
  · exact h.held other claim hclaim

theorem Links.free (hfree : phase.target = none) : Links (setWorker w phase s) := by
  refine h.worker fun claim hclaim => ?_
  rw [hfree] at hclaim
  cases hclaim

/-- Targets change, but not whose they are. -/
theorem Links.map (hkept : ∀ row ∈ s.targets, (f row).id = row.id ∧ (f row).intentId = row.intentId) :
    Links { s with targets := s.targets.map f } := by
  refine ⟨fun target' htarget' => ?_, fun target' htarget' row hrow hid => ?_,
    fun w claim hclaim => ?_⟩
  · obtain ⟨target, htarget, rfl⟩ := mem_map.mp htarget'
    rw [(hkept target htarget).2]
    exact h.intents target htarget
  · obtain ⟨target, htarget, rfl⟩ := mem_map.mp htarget'
    rw [(hkept target htarget).2] at hid
    exact h.planned target htarget row hrow hid
  · obtain ⟨row, hrow, hid, hintent⟩ := h.held w claim hclaim
    exact ⟨f row, mem_map_of_mem hrow, (hkept row hrow).1.trans hid,
      (hkept row hrow).2.trans hintent⟩

theorem Links.create {new : Intent} (commits : List CurationCommit)
    (hfresh : ∀ row ∈ s.intents, row.id ≠ new.id) :
    Links { s with commits := commits, intents := s.intents ++ [new] } := by
  refine ⟨fun target htarget => ?_, fun target htarget row hrow hid => ?_, h.held⟩
  · obtain ⟨row, hrow, hid⟩ := h.intents target htarget
    exact ⟨row, mem_append_left _ hrow, hid⟩
  · rcases mem_append.mp hrow with hold | hnew
    · exact h.planned target htarget row hold hid
    · obtain ⟨known, hknown, hknownId⟩ := h.intents target htarget
      rw [mem_singleton.mp hnew] at hid
      exact absurd (hknownId.trans hid.symm) (hfresh known hknown)

end

end

theorem Links.plan (h : Links s) (hclaim : ∃ row ∈ s.intents, claim.holds row = true)
    (hnew : ∀ row ∈ new, row.intentId = claim.id ∧ row.state = .pending) :
    Links { s with
      intents := s.intents.map (plannedIntent claim repositories)
      targets := s.targets ++ new } := by
  refine ⟨fun target htarget => ?_, fun target htarget row' hrow' hid => ?_, fun w held hheld => ?_⟩
  · have hrow : ∃ row ∈ s.intents, row.id = target.intentId := by
      rcases mem_append.mp htarget with hold | hadded
      · exact h.intents target hold
      · obtain ⟨row, hrow, hholds⟩ := hclaim
        simp only [IntentClaim.holds, Bool.and_eq_true, decide_eq_true_eq] at hholds
        exact ⟨row, hrow, hholds.1.1.1.trans (hnew target hadded).1.symm⟩
    obtain ⟨row, hrow, hid⟩ := hrow
    exact ⟨plannedIntent claim repositories row, mem_map_of_mem hrow,
      (id_plannedIntent ..).trans hid⟩
  · obtain ⟨row, hrow, rfl⟩ := mem_map.mp hrow'
    rw [id_plannedIntent] at hid
    by_cases hsame : row.id = claim.id
    · exact planned_plannedIntent hsame repositories
    · rw [plannedIntent_of_ne hsame]
      rcases mem_append.mp htarget with hold | hadded
      · exact h.planned target hold row hrow hid
      · exact absurd (hid.trans (hnew target hadded).1) hsame
  · obtain ⟨row, hrow, hfacts⟩ := h.held w held hheld
    exact ⟨row, mem_append_left _ hrow, hfacts⟩

theorem Links.turns (h : Links s) (hturns : Turns s a s') : Links s' := by
  cases hturns with
  | rest => exact h
  | create hlast hfresh => exact h.create _ hfresh
  | request hf => exact h.apart hf
  | free _ hf hbefore hafter hintent => exact (h.apart hf).free hafter
  | plan hphase hholds hcommit hid hfresh =>
    exact (h.plan hholds fun row hrow => intentId_plannedTargets hrow).free rfl
  | @claim w left row token now hbefore hrow hfirst hopen =>
    refine (h.map fun other _ => ?_).worker fun claim hclaim => ?_
    · split <;> exact ⟨rfl, rfl⟩
    · cases hclaim
      exact ⟨claimed token now row, mem_map.mpr ⟨row, hrow, if_pos rfl⟩, rfl, rfl⟩
  | @write w left target hphase =>
    have hwritten : Links (writeTarget target s) := { h with }
    refine hwritten.worker fun claim hclaim => ?_
    exact h.held w claim (by rw [hphase]; exact hclaim)
  | @raises w left target hphase =>
    exact h.worker fun claim hclaim => h.held w claim (hphase.trans hclaim)
  | @finish w left target hphase =>
    have hfinished : Links (finishTarget target s) := by
      refine h.map fun row _ => ?_
      split <;> exact ⟨rfl, rfl⟩
    refine hfinished.worker fun claim hclaim => ?_
    exact hfinished.held w claim ((congrArg Worker.target hphase).trans hclaim)
  | settle hphase => exact (h.settle _).free rfl
  | @fail w left target now hphase =>
    refine Links.free (h.map fun row _ => ?_) rfl
    split <;> exact ⟨rfl, rfl⟩
  | crash w => exact h.free rfl

theorem Linked.after_step (h : Linked s) (a : Action Repository) : Linked (step s a) :=
  ⟨h.toTraced.moves (step_moves s a), h.toLinks.turns (h.step_turns a)⟩

theorem Linked.run (h : Linked s) (run : List (Action Repository)) :
    Linked (run.foldl step s) := by
  induction run generalizing s with
  | nil => exact h
  | cons a rest ih => exact ih (h.after_step a)

omit [DecidableEq Repository] in
theorem Start.linked (h : Start s) : Linked s := by
  have hnone : ∀ row, row ∉ s.targets := by
    intro row
    rw [h.targets]
    exact not_mem_nil
  refine ⟨h.ordered.toTraced, fun target htarget => absurd htarget (hnone target),
    fun target htarget => absurd htarget (hnone target), fun w claim hclaim => ?_⟩
  rw [h.workers] at hclaim
  cases hclaim

section

variable (hstranded : Stranded s intentId) (h : Linked s)
include hstranded h

/-- **A stranded intent stays so.** -/
theorem Stranded.after_step (a : Action Repository) :
    Stranded (step s a) intentId := by
  have hturns := h.step_turns a
  refine ⟨?_, fun w hholds => ?_⟩
  · rcases h.unsettled_turns hturns intentId with hsame | ⟨w, -, -, hkeeps⟩ | ⟨w, -, hholds, -⟩
    · exact hsame.mpr hstranded.toUnsettled
    · exact hkeeps hstranded.toUnsettled
    · exact absurd hholds (hstranded.released w)
  · exact hstranded.released w (holds_of_turns hturns hstranded.toUnsettled hholds)

theorem Stranded.run (run : List (Action Repository)) :
    Stranded (run.foldl step s) intentId := by
  induction run generalizing s with
  | nil => exact hstranded
  | cons a rest ih => exact ih (hstranded.after_step h a) (h.after_step a)

theorem Stranded.not_settles : ¬ Settles s := by
  intro hsettles
  obtain ⟨n, hn⟩ := hsettles fun _ => ⟨0, 1, 0, none, 0, 0, []⟩
  have hlater : ∀ (calls : Nat → Call Repository) n,
      Stranded (afterCalls calls s n) intentId ∧ Linked (afterCalls calls s n) := by
    intro calls n
    induction n with
    | zero => exact ⟨hstranded, h⟩
    | succ n ih => exact ⟨ih.1.run ih.2 _, ih.2.run _⟩
  obtain ⟨row, hrow, -, hopen⟩ := (hlater _ n).1.waiting
  exact hopen (hn row hrow)

end

/-- Whoever waits to be settled has somebody who will. -/
def Attended (s : State Repository) : Prop :=
  ∀ intentId, Unsettled s intentId → ∃ w, (s.workers w).Holds intentId

section

omit [DecidableEq Repository]

/-- A worker that gives up leaves another one behind. -/
theorem other_holder (hrelieved : Relieved s a) (hgives : GivesUp s a w)
    (hunsettled : Unsettled s intentId) (hholds : (s.workers w).Holds intentId) :
    ∃ other, other ≠ w ∧ (s.workers other).Holds intentId := by
  by_contra hnone
  have hlast : LastHolder s w := by
    refine ⟨intentId, hunsettled, hholds, fun other hother => ?_⟩
    by_contra hne
    exact hnone ⟨other, hne, hother⟩
  rcases hgives with rfl | ⟨now, rfl, hphase⟩
  · exact hrelieved hlast
  · exact hrelieved hphase hlast

theorem GivesUp.eq (h : GivesUp s a w) (hother : GivesUp s a other) : other = w := by
  rcases h with rfl | ⟨now, rfl, -⟩
  · rcases hother with heq | ⟨now, heq, -⟩
    · cases heq
      rfl
    · cases heq
  · rcases hother with heq | ⟨now', heq, -⟩
    · cases heq
    · cases heq
      rfl

end

/-- **A worker that is relieved leaves no intent behind.** -/
theorem Attended.after_step (hattended : Attended s) (h : Linked s) (hrelieved : Relieved s a) :
    Attended (step s a) := by
  intro intentId hunsettled
  have hturns := h.step_turns a
  rcases h.unsettled_turns hturns intentId with hsame | ⟨w, -, hholds, -⟩ | ⟨w, -, -, hsettled⟩
  · have hbefore := hsame.mp hunsettled
    obtain ⟨w, hholds⟩ := hattended intentId hbefore
    rcases kept_or_givenUp hturns hholds with hkept | hsettled | hgives
    · exact ⟨w, hkept⟩
    · exact absurd hunsettled hsettled
    · obtain ⟨other, hne, hother⟩ := other_holder hrelieved hgives hbefore hholds
      rcases kept_or_givenUp hturns hother with hkept | hsettled | hgives'
      · exact ⟨other, hkept⟩
      · exact absurd hunsettled hsettled
      · exact absurd (hgives.eq hgives') hne
  · exact ⟨w, hholds⟩
  · exact absurd hunsettled hsettled

/-- **And one that is not leaves one behind for good.** -/
theorem stranded_of_not_relieved (h : Linked s) (hlost : ¬ Relieved s a) :
    ∃ intentId, Stranded (step s a) intentId := by
  have hlast : ∃ w, LastHolder s w ∧ GivesUp s a w ∧ ((step s a).workers w).target = none := by
    cases a with
    | crash w =>
      refine ⟨w, not_not.mp hlost, .inl rfl, ?_⟩
      rw [step, workers_setWorker, if_pos rfl]
      rfl
    | failTarget w now =>
      simp only [Relieved, not_forall, not_not] at hlost
      obtain ⟨⟨target, left, hphase⟩, hlast⟩ := hlost
      refine ⟨w, hlast, .inr ⟨now, rfl, target, left, hphase⟩, ?_⟩
      rw [step, hphase]
      dsimp only
      rw [workers_setWorker, if_pos rfl]
      rfl
    | _ => exact absurd trivial hlost
  obtain ⟨w, ⟨intentId, hunsettled, hholds, honly⟩, hgives, hfree⟩ := hlast
  have hturns := h.step_turns a
  refine ⟨intentId, ?_, fun other hother => ?_⟩
  · rcases h.unsettled_turns hturns intentId with hsame | ⟨v, -, -, hkeeps⟩ | ⟨v, heq, -, -⟩
    · exact hsame.mpr hunsettled
    · exact hkeeps hunsettled
    · rcases hgives with hcrash | ⟨now, hfail, -⟩
      · rw [heq] at hcrash
        cases hcrash
      · rw [heq] at hfail
        cases hfail
  · have heq := honly other (holds_of_turns hturns hunsettled hother)
    rw [heq] at hother
    exact not_holds_of_free hfree hother

/-- What is attended and quiet is settled already. -/
theorem Attended.settles (hattended : Attended s) (hquiet : Quiet s) : Settles s := by
  intro calls
  refine ⟨0, fun row hrow => ?_⟩
  by_contra hopen
  have htargets := (hquiet.planned row hrow).resolve_left hopen
  obtain ⟨w, hholds⟩ := hattended row.id
    ⟨⟨row, hrow, rfl, hopen⟩, htargets, fun target htarget _ => hquiet.written target htarget⟩
  exact not_holds_of_free (by rw [hquiet.workers w]; rfl) hholds

theorem settles_iff_of_attended (hattended : Attended s) (h : Linked s)
    (run : List (Action Repository)) (hquiet : Quiet (run.foldl step s)) :
    Settles (run.foldl step s) ↔
      Runs.AllSteps step Relieved s run := by
  induction run generalizing s with
  | nil => exact ⟨fun _ => trivial, fun _ => hattended.settles hquiet⟩
  | cons a rest ih =>
    by_cases hrelieved : Relieved s a
    · rw [Runs.AllSteps, and_iff_right hrelieved]
      exact ih (hattended.after_step h hrelieved) (h.after_step a) hquiet
    -- the intent that is left behind here is stranded at the end
    obtain ⟨intentId, hstranded⟩ := stranded_of_not_relieved h hrelieved
    have hend := hstranded.run (h.after_step a) rest
    have hlinked := (h.after_step a).run rest
    exact ⟨fun hsettles => absurd hsettles (hend.not_settles hlinked),
      fun hall => absurd hall.1 hrelieved⟩

/-- **Settlement.**  After any run that leaves nothing to plan and nothing to write, the
intents are brought to completion just if no worker was lost, or gave up, as the last one
that could settle an intent. -/
theorem settles_iff_relieved (hstart : Start s) (run : List (Action Repository))
    (hquiet : Quiet (run.foldl step s)) :
    Settles (run.foldl step s) ↔
      Runs.AllSteps step Relieved s run := by
  refine settles_iff_of_attended (fun intentId hunsettled => ?_) hstart.linked run hquiet
  obtain ⟨target, htarget, -⟩ := hunsettled.planned
  rw [hstart.targets] at htarget
  cases htarget

omit [DecidableEq Repository] in
/-- Nothing waits to be settled where nothing is complete. -/
theorem not_lastHolder (h : ∀ row ∈ s.targets, row.state ≠ .complete) (w : Nat) :
    ¬ LastHolder s w := by
  intro hlast
  obtain ⟨intentId, hunsettled, -, -⟩ := hlast
  obtain ⟨row, hrow, hid⟩ := hunsettled.planned
  exact h row hrow (hunsettled.written row hrow hid)

/-- A commit of two repositories.  The worker stops after its first claim, and the next
call, after the lease has run out, does the work. -/
def recoveredRun : List (Action Bool) :=
  [.create ⟨1, 10⟩ 11 0, .start 0 25 100, .plan 0 [(false, 21), (true, 22)] 100, .claim 0 31 100,
    .crash 0, .start 0 25 400000000, .claim 0 32 400000000, .write 0, .finish 0, .settle 0,
    .claim 0 33 400000000, .write 0, .finish 0, .settle 0, .leave 0]

theorem settles_iff_relieved_recoveredRun :
    Quiet (recoveredRun.foldl step emptyState) ∧ Settles (recoveredRun.foldl step emptyState) := by
  have hquiet : Quiet (recoveredRun.foldl step emptyState) := by
    refine ⟨fun w => ?_, by decide +kernel, by decide +kernel⟩
    match w with
    | 0 => rfl
    | _ + 1 => rfl
  refine ⟨hquiet, (settles_iff_relieved start_emptyState recoveredRun hquiet).mpr ?_⟩
  refine ⟨trivial, trivial, trivial, trivial, not_lastHolder (by decide +kernel) 0, ?_⟩
  exact ⟨trivial, trivial, trivial, trivial, trivial, trivial, trivial, trivial, trivial, trivial,
    trivial⟩

/-- The worker stops between the completion of the only target and the settlement. -/
def lostRun : List (Action Unit) :=
  [.create ⟨1, 10⟩ 11 0, .start 0 25 100, .plan 0 [((), 21)] 100, .claim 0 31 100, .write 0,
    .finish 0, .crash 0]

theorem intent_never_settled :
    Start (emptyState : State Unit) ∧ Quiet (lostRun.foldl step emptyState) ∧
      (lostRun.foldl step emptyState).intents = [⟨11, 1, .processing, 1, none, 0⟩] ∧
      ¬ Settles (lostRun.foldl step emptyState) := by
  have hquiet : Quiet (lostRun.foldl step emptyState) := by
    refine ⟨fun w => ?_, by decide +kernel, by decide +kernel⟩
    match w with
    | 0 => rfl
    | _ + 1 => rfl
  have hlinked : Linked (lostRun.foldl step emptyState) := start_emptyState.linked.run lostRun
  have hstranded : Stranded (lostRun.foldl step (emptyState : State Unit)) 11 := by
    refine ⟨⟨by decide +kernel, by decide +kernel, by decide +kernel⟩, fun w => ?_⟩
    exact not_holds_of_free (by rw [hquiet.workers w]; rfl)
  exact ⟨start_emptyState, hquiet, by decide +kernel, hstranded.not_settles hlinked⟩

end Invariants

section Complete

/-- The targets of a complete intent are complete. -/
def CompleteBelow (intents : List Intent) (targets : List (Target Repository)) : Prop :=
  ∀ row ∈ intents, row.state = .complete →
    ∀ target ∈ targets, target.intentId = row.id → target.state = .complete

/-- What was planned for a complete intent is in the chains. -/
def CompleteInChains (s : State Repository) : Prop :=
  ∀ row ∈ s.intents, row.state = .complete → ∀ target ∈ s.targets, target.intentId = row.id →
    target.stamp ∈ s.chains target.repositoryKey

theorem CompleteBelow.map {intents : List Intent} {targets : List (Target Repository)}
    (h : CompleteBelow intents targets)
    (hkept : ∀ row ∈ targets, RowKept row (f row) ∧ (f row).intentId = row.intentId) :
    CompleteBelow intents (targets.map f) := by
  refine fun row hrow hstate => forall_mem_map.mpr fun target htarget hid => ?_
  obtain ⟨hf, hintent⟩ := hkept target htarget
  exact hf.complete (h row hrow hstate target htarget (hintent.symm.trans hid))

/-- An intent that is still claimed has no targets. -/
theorem Links.not_hasTargets (h : Links s) (hholds : ∃ row ∈ s.intents, claim.holds row = true) :
    ¬ HasTargets s claim.id := by
  intro htargets
  obtain ⟨row, hrow, hclaim⟩ := hholds
  have hid : row.id = claim.id := by
    simp only [IntentClaim.holds, Bool.and_eq_true, decide_eq_true_eq] at hclaim
    exact hclaim.1.1.1
  rw [(h.of_held hrow (hid ▸ htargets)).not_holds claim] at hclaim
  cases hclaim

variable [DecidableEq Repository]

theorem CompleteBelow.turns (h : CompleteBelow s.intents s.targets) (hlinked : Linked s)
    (hturns : Turns s a s') : CompleteBelow s'.intents s'.targets := by
  cases hturns with
  | rest | write | raises | crash => exact h
  | create hlast hfresh => exact forall_mem_append.mpr ⟨h, forall_mem_singleton.mpr nofun⟩
  | request hf | free _ hf =>
    refine forall_mem_map.mpr fun row hrow hstate => ?_
    rw [(hf row hrow).1.id]
    exact h row hrow ((hf row hrow).1.complete hstate)
  | @plan w left claim commit repositories now hphase hholds =>
    refine forall_mem_map.mpr fun row hrow hstate target htarget hsame => ?_
    rw [id_plannedIntent] at hsame
    by_cases hid : row.id = claim.id
    · -- complete at once: there is nothing to project, and nothing has been planned before
      rw [plannedIntent, if_pos hid] at hstate
      dsimp only at hstate
      split at hstate
      next hnone =>
        subst hnone
        exact absurd ⟨target, (mem_append.mp htarget).resolve_right not_mem_nil, hsame.trans hid⟩
          (hlinked.not_hasTargets hholds)
      · cases hstate
    · rw [plannedIntent_of_ne hid] at hstate
      rcases mem_append.mp htarget with hold | hnew
      · exact h row hrow hstate target hold hsame
      · exact absurd (hsame.symm.trans (intentId_plannedTargets hnew).1) hid
  | @claim w left row token now hbefore hrow hfirst hopen =>
    exact h.map fun other hother => ⟨rowKept_claimed hlinked.toTraced hrow hopen token now other
      hother, by split <;> rfl⟩
  | @finish w left target =>
    exact h.map fun row _ => ⟨rowKept_finished target row, by split <;> rfl⟩
  | @fail w left target =>
    exact h.map fun row _ => ⟨rowKept_failed target _ row, by split <;> rfl⟩
  | @settle w left claim =>
    unfold settleIntent
    split
    · exact h
    next hnone =>
    refine forall_mem_map.mpr fun row hrow hstate target htarget hsame => ?_
    by_cases hid : row.id = claim.intentId
    · rw [if_pos hid] at hsame
      by_contra hopen
      exact hnone (any_eq_true.mpr ⟨target, htarget, by simp [hsame, hid, hopen]⟩)
    · rw [if_neg hid] at hstate hsame
      exact h row hrow hstate target htarget hsame

/-- **What is complete is written.**  Whatever the workers do, stop and repeat, an intent is
complete only when everything that was planned for it is in the chains. -/
theorem complete_intents_written (hstart : Start s) (run : List (Action Repository)) :
    Runs.Throughout step CompleteInChains s run := by
  refine @Runs.throughout_of_allSteps _ _ _ _ _ _ _
    (fun s => Linked s ∧ CompleteBelow s.intents s.targets) ?_ ?_
    ⟨hstart.linked, by simp [CompleteBelow, hstart.targets]⟩ Runs.allSteps_true
  · rintro s ⟨hlinked, hbelow⟩ row hrow hstate target htarget hid
    exact hlinked.complete target htarget (hbelow row hrow hstate target htarget hid)
  · rintro s a ⟨hlinked, hbelow⟩ -
    exact ⟨hlinked.after_step a, hbelow.turns hlinked (hlinked.step_turns a)⟩

theorem complete_intents_written_recoveredRun :
    (recoveredRun.foldl step emptyState).intents.map (·.state) = [.complete] ∧
      Runs.Throughout step CompleteInChains emptyState recoveredRun :=
  ⟨by decide +kernel, complete_intents_written start_emptyState recoveredRun⟩

end Complete

end GitlleryOutbox
