import AutoGallery.GitlleryBuilds

/-!
# What the outbox keeps, wherever it writes

The rows, the claims and the intents of the outbox belong together whatever the chains
hold (`Tracked`), and a commit that has one target has all that its slices ask for
(`Fanned`).  Neither is a matter of the generation that is written.
-/

namespace GitlleryBuilds

open List

open GitlleryOutbox

section Outbox

variable {Repository : Type} {slices : Slices Repository} {s s' : State Repository}
  {a : Action Repository}

/-- The rows and the claims belong together, whatever has been written where. -/
def Tracked (s : State Repository) : Prop :=
  ∃ chains, Traced { s with chains := chains }

variable (slices s) in
/-- What the plans have made of the intents: a commit with one target has all that its
slices ask for. -/
structure Fanned : Prop where
  sliced : ∀ target ∈ s.targets, target.repositoryKey ∈ slices.repositories target.commitId
  all : ∀ target ∈ s.targets, ∀ r ∈ slices.repositories target.commitId,
    ∃ other ∈ s.targets, other.commitId = target.commitId ∧ other.repositoryKey = r
  ids : (s.intents.map (·.id)).Nodup
  named : ∀ target ∈ s.targets, ∀ row ∈ s.intents, row.id = target.intentId →
    row.commitId = target.commitId
  claims : ∀ w claim, (s.workers w).intent = some claim →
    ∃ row ∈ s.intents, row.id = claim.id ∧ row.commitId = claim.commitId

variable {w : Nat} {phase : Worker Repository} {claim : IntentClaim} {commit : CurationCommit}
  {repositories : List (Repository × Uuid)}

theorem Fanned.worker (h : Fanned slices s)
    (hclaims : ∀ claim, phase.intent = some claim →
      ∃ row ∈ s.intents, row.id = claim.id ∧ row.commitId = claim.commitId) :
    Fanned slices (setWorker w phase s) := by
  refine { h with claims := fun other claim hclaim => ?_ }
  rw [workers_setWorker] at hclaim
  split at hclaim
  · exact hclaims claim hclaim
  · exact h.claims other claim hclaim

theorem Fanned.free (h : Fanned slices s) (hfree : phase.intent = none) :
    Fanned slices (setWorker w phase s) := by
  refine h.worker fun claim hclaim => ?_
  rw [hfree] at hclaim
  cases hclaim

/-- Intents change, but not whose they are. -/
theorem Fanned.intents (h : Fanned slices s) {f : Intent → Intent}
    (hid : ∀ row ∈ s.intents, (f row).id = row.id)
    (hcommit : ∀ row ∈ s.intents, (f row).commitId = row.commitId) :
    Fanned slices { s with intents := s.intents.map f } := by
  refine ⟨h.sliced, h.all, ?_, fun target htarget row' hrow' hsame => ?_, fun w claim hclaim => ?_⟩
  · have hids : (s.intents.map f).map (·.id) = s.intents.map (·.id) := by
      rw [map_map]
      exact map_congr_left hid
    rw [hids]
    exact h.ids
  · obtain ⟨row, hrow, rfl⟩ := mem_map.mp hrow'
    rw [hid row hrow] at hsame
    rw [hcommit row hrow]
    exact h.named target htarget row hrow hsame
  · obtain ⟨row, hrow, hrowId, hrowCommit⟩ := h.claims w claim hclaim
    exact ⟨f row, mem_map_of_mem hrow, (hid row hrow).trans hrowId,
      (hcommit row hrow).trans hrowCommit⟩

/-- Targets change, but not whose they are. -/
theorem Fanned.targets (h : Fanned slices s) {f : Target Repository → Target Repository}
    (hkept : ∀ row ∈ s.targets, (f row).commitId = row.commitId ∧
      (f row).repositoryKey = row.repositoryKey ∧ (f row).intentId = row.intentId) :
    Fanned slices { s with targets := s.targets.map f } := by
  refine ⟨fun target' htarget' => ?_, fun target' htarget' r hr => ?_, h.ids,
    fun target' htarget' row hrow hid => ?_, h.claims⟩
  · obtain ⟨target, htarget, rfl⟩ := mem_map.mp htarget'
    obtain ⟨hcommit, hkey, -⟩ := hkept target htarget
    rw [hcommit, hkey]
    exact h.sliced target htarget
  · obtain ⟨target, htarget, rfl⟩ := mem_map.mp htarget'
    rw [(hkept target htarget).1] at hr ⊢
    obtain ⟨other, hother, hcommit, hkey⟩ := h.all target htarget r hr
    exact ⟨f other, mem_map_of_mem hother, (hkept other hother).1.trans hcommit,
      (hkept other hother).2.1.trans hkey⟩
  · obtain ⟨target, htarget, rfl⟩ := mem_map.mp htarget'
    obtain ⟨hcommit, -, hintent⟩ := hkept target htarget
    rw [hintent] at hid
    rw [hcommit]
    exact h.named target htarget row hrow hid

variable [DecidableEq Repository]

theorem Tracked.after_step (h : Tracked s) (a : Action Repository) :
    Tracked (GitlleryOutbox.step s a) := by
  obtain ⟨chains, htraced⟩ := h
  obtain ⟨chains', htraced', -⟩ := htraced.moves_beside (step_moves s a)
  exact ⟨chains', htraced'⟩

/-- After a plan the commit has all its targets, old or new. -/
theorem fanned_plan (now : Time) {r : Repository} (hr : r ∈ repositories.map Prod.fst) :
    ∃ other ∈ s.targets ++ plannedTargets claim commit repositories now s,
      other.commitId = commit.id ∧ other.repositoryKey = r := by
  by_cases hold : ∃ other ∈ s.targets, other.commitId = commit.id ∧ other.repositoryKey = r
  · obtain ⟨other, hother, hfacts⟩ := hold
    exact ⟨other, mem_append_left _ hother, hfacts⟩
  obtain ⟨entry, hentry, rfl⟩ := mem_map.mp hr
  refine ⟨_, mem_append_right _ (mem_map.mpr ⟨entry, mem_filter.mpr ⟨hentry, ?_⟩, rfl⟩), rfl, rfl⟩
  simp only [Bool.not_eq_true', any_eq_false, Bool.and_eq_true, decide_eq_true_eq]
  intro other hother hsame
  exact hold ⟨other, hother, hsame⟩

theorem Fanned.plan (h : Fanned slices s) (now : Time) {left : Nat}
    (hphase : s.workers w = .planning claim left) (hid : commit.id = claim.commitId)
    (hslices : repositories.map Prod.fst = slices.repositories claim.commitId) :
    Fanned slices { s with targets := s.targets ++ plannedTargets claim commit repositories now s } := by
  refine ⟨fun target htarget => ?_, fun target htarget r hr => ?_, h.ids,
    fun target htarget row hrow hsame => ?_, h.claims⟩
  · rcases mem_append.mp htarget with hold | hnew
    · exact h.sliced target hold
    · obtain ⟨hmem, hcommit, -⟩ := mem_plannedTargets hnew
      rw [hcommit, hid, ← hslices]
      exact mem_map.mpr ⟨_, hmem, rfl⟩
  · rcases mem_append.mp htarget with hold | hnew
    · obtain ⟨other, hother, hfacts⟩ := h.all target hold r hr
      exact ⟨other, mem_append_left _ hother, hfacts⟩
    · obtain ⟨-, hcommit, -⟩ := mem_plannedTargets hnew
      rw [hcommit] at hr ⊢
      rw [hid, ← hslices] at hr
      exact fanned_plan now hr
  · rcases mem_append.mp htarget with hold | hnew
    · exact h.named target hold row hrow hsame
    · obtain ⟨-, hcommit, -⟩ := mem_plannedTargets hnew
      obtain ⟨known, hknown, hknownId, hknownCommit⟩ := h.claims w claim (by rw [hphase]; rfl)
      rw [(intentId_plannedTargets hnew).1] at hsame
      have heq : row = known := inj_on_of_nodup_map h.ids hrow hknown (hsame.trans hknownId.symm)
      rw [heq, hcommit, hid]
      exact hknownCommit

variable (slices s) in
/-- The resolver says what the slices of a commit are. -/
def Slices.Plans : Action Repository → Prop
  | .plan w repositories _ =>
    match s.workers w with
    | .planning claim _ => repositories.map Prod.fst = slices.repositories claim.commitId
    | _ => True
  | _ => True

theorem Fanned.turns (h : Fanned slices s) (hplans : slices.Plans s a) (hlinks : Links s)
    (hturns : Turns s a s') : Fanned slices s' := by
  cases hturns with
  | rest => exact h
  | @create commit intentId now hlast hfresh =>
    refine ⟨h.sliced, h.all, ?_, fun target htarget row hrow hid => ?_, fun w claim hclaim => ?_⟩
    · rw [map_append]
      refine Nodup.append h.ids (nodup_singleton _) fun id hid hsame => ?_
      obtain ⟨row, hrow, rfl⟩ := mem_map.mp hid
      exact hfresh row hrow (mem_singleton.mp hsame)
    · rcases mem_append.mp hrow with hold | hnew
      · exact h.named target htarget row hold hid
      · obtain ⟨known, hknown, hknownId⟩ := hlinks.intents target htarget
        rw [mem_singleton.mp hnew] at hid
        exact absurd (hknownId.trans hid.symm) (hfresh known hknown)
    · obtain ⟨row, hrow, hfacts⟩ := h.claims w claim hclaim
      exact ⟨row, mem_append_left _ hrow, hfacts⟩
  | request hf =>
    exact h.intents (fun row hrow => (hf row hrow).1.id) fun row hrow => (hf row hrow).1.commitId
  | @free _ w phase f hf hbefore hafter hintent =>
    have hchanged := h.intents (f := f) (fun row hrow => (hf row hrow).1.id)
      fun row hrow => (hf row hrow).1.commitId
    refine hchanged.worker fun claim hclaim => ?_
    rcases hintent claim hclaim with hsame | ⟨row, hrow, hid, hcommit⟩
    · exact hchanged.claims w claim hsame
    · exact ⟨f row, mem_map_of_mem hrow, (hf row hrow).1.id.trans hid,
        (hf row hrow).1.commitId.trans hcommit⟩
  | @plan w left claim commit repositories now hphase hholds hcommit hid hfresh =>
    simp only [Slices.Plans, hphase] at hplans
    have hplanned := h.plan now hphase hid hplans
    exact (hplanned.intents (f := plannedIntent claim repositories)
      (fun row _ => id_plannedIntent ..)
      fun row _ => commitId_plannedIntent ..).free rfl
  | claim hbefore hrow hfirst hopen =>
    refine (h.targets fun other _ => ?_).free rfl
    split <;> exact ⟨rfl, rfl, rfl⟩
  | @write w left target hphase =>
    have hwritten : Fanned slices (writeTarget target s) :=
      { h with }
    exact hwritten.free rfl
  | raises hphase => exact h.free rfl
  | finish hphase =>
    refine Fanned.free (h.targets fun row _ => ?_) rfl
    split <;> exact ⟨rfl, rfl, rfl⟩
  | @settle w left target hphase =>
    unfold settleIntent
    split
    · exact h.free rfl
    · refine Fanned.free (h.intents (fun row _ => ?_) fun row _ => ?_) rfl
      · split <;> rfl
      · split <;> rfl
  | fail hphase =>
    refine Fanned.free (h.targets fun row _ => ?_) rfl
    split <;> exact ⟨rfl, rfl, rfl⟩
  | crash w => exact h.free rfl

end Outbox

section Fanning

open Runs

variable {Repository : Type} [DecidableEq Repository] {slices : Slices Repository}
  {s : State Repository}

variable (slices s) in
/-- A commit that has been planned has one target for each repository that it has changes
for, and no other. -/
def FannedOut : Prop :=
  ∀ target ∈ s.targets, ∀ r,
    (s.targets.map fun row => (row.repositoryKey, row.commitId)).count (r, target.commitId) =
      if r ∈ slices.repositories target.commitId then 1 else 0

omit [DecidableEq Repository] in
theorem Fanned.mem_iff (h : Fanned slices s) {target : Target Repository}
    (htarget : target ∈ s.targets) (r : Repository) :
    (r, target.commitId) ∈ (s.targets.map fun row => (row.repositoryKey, row.commitId)) ↔
      r ∈ slices.repositories target.commitId := by
  rw [mem_map]
  constructor
  · rintro ⟨row, hrow, hsame⟩
    obtain ⟨rfl, hcommit⟩ := Prod.mk.inj hsame
    exact hcommit ▸ h.sliced row hrow
  · intro hr
    obtain ⟨row, hrow, hcommit, rfl⟩ := h.all target htarget r hr
    exact ⟨row, hrow, by rw [hcommit]⟩

/-- **Nothing is planned twice or left out.**  Whatever the workers do, stop and repeat, all
targets of a commit are planned together, one for each of its repositories. -/
theorem targets_fan_out {run : List (Action Repository)} (hstart : Start s)
    (hids : (s.intents.map (·.id)).Nodup)
    (hplans : AllSteps GitlleryOutbox.step slices.Plans s run) :
    Throughout GitlleryOutbox.step (FannedOut slices) s run := by
  refine @throughout_of_allSteps _ _ _ _ _ _ _ (fun s => Linked s ∧ Fanned slices s) ?_ ?_
    ⟨hstart.linked, ?_⟩ hplans
  · rintro s ⟨hlinked, hfanned⟩ target htarget r
    rw [hlinked.keyed.pairs.count]
    exact if_congr (hfanned.mem_iff htarget r) rfl rfl
  · rintro s a ⟨hlinked, hfanned⟩ hplan
    exact ⟨hlinked.after_step a, hfanned.turns hplan hlinked.toLinks (hlinked.step_turns a)⟩
  · constructor <;> simp [hids, hstart.targets, hstart.workers, Worker.intent]

/-- All commits have changes for two repositories. -/
def twoRepositories : Slices Bool := ⟨fun _ => [false, true], fun _ _ => 1, fun _ => by decide⟩

theorem targets_fan_out_recoveredRun :
    Throughout GitlleryOutbox.step (FannedOut twoRepositories) emptyState recoveredRun :=
  targets_fan_out start_emptyState nodup_nil (by
    refine ⟨trivial, trivial, rfl, ?_⟩
    repeat' constructor)

end Fanning

section Tracked

variable {Repository : Type} {s : State Repository}

theorem Tracked.commit_mem (h : Tracked s) {target : Target Repository} (htarget : target ∈ s.targets) :
    ⟨target.commitId, target.commitCreatedAt⟩ ∈ s.commits := by
  obtain ⟨_, h⟩ := h
  exact h.commits target htarget

variable {claim : TargetClaim Repository} {row : Target Repository}

theorem Tracked.claimOf (h : Tracked s) {w : Nat} (hclaim : (s.workers w).target = some claim) :
    ClaimOf s.targets claim := by
  obtain ⟨_, h⟩ := h
  exact h.claims w claim hclaim

theorem Tracked.holds (h : Tracked s) (hclaim : ClaimOf s.targets claim) (hrow : row ∈ s.targets)
    (hholds : claim.holds row = true) :
    row.repositoryKey = claim.repositoryKey ∧ row.stamp = claim.stamp ∧
      row.state = .processing ∧ 0 < row.attempts := by
  obtain ⟨_, h⟩ := h
  exact h.holds hclaim hrow hholds

theorem Tracked.commit_eq (h : Tracked s) {c d : CurationCommit} (hc : c ∈ s.commits)
    (hd : d ∈ s.commits) (hid : c.id = d.id) : c = d := by
  obtain ⟨_, h⟩ := h
  exact inj_on_of_nodup_map h.commitIds hc hd hid

theorem Tracked.target_eq (h : Tracked s) {other : Target Repository} (hrow : row ∈ s.targets)
    (hother : other ∈ s.targets) (hid : row.id = other.id) : row = other := by
  obtain ⟨_, h⟩ := h
  exact inj_on_of_nodup_map h.keyed.ids hrow hother hid

/-- The commit of an intent, by its identity. -/
theorem Tracked.commitStamp_eq (h : Tracked s)
    {commit : CurationCommit} (hcommit : commit ∈ s.commits) :
    commitStamp s commit.id = some commit.stamp := by
  unfold commitStamp
  cases hfind : s.commits.find? (·.id = commit.id) with
  | none => exact absurd (find?_eq_none.mp hfind commit hcommit) (by simp)
  | some found =>
    have heq := h.commit_eq (mem_of_find?_eq_some hfind) hcommit (by simpa using find?_some hfind)
    rw [heq]
    rfl

end Tracked

end GitlleryBuilds
