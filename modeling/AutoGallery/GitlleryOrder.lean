import AutoGallery.GitlleryOutbox

/-!
# The order of the segment chains

A target is claimed when no target of an earlier commit of its repository is left.  So
if the targets of a repository come into being in the order of their commits, or at
least none of them after a later one has been claimed, and if a worker writes only while
its claim still holds, then each chain is strictly increasing (`chains_increase`) and no
commit is in it twice (`projected_once`).  The outbox ensures neither: planning can fail
and be tried again later, and a worker whose lease has run out goes on writing.
-/

namespace GitlleryOutbox

open List Runs

variable {Repository : Type} {row : Target Repository} {targets : List (Target Repository)}
  {f : Target Repository → Target Repository} {s s' : State Repository}
  {repositories : List (Repository × Uuid)} {now : Time} {commit : CurationCommit}
  {a : Action Repository} {claim : TargetClaim Repository}

section Rows

variable {row' : Target Repository}

/-- What no step changes of a target: its identity, how often it has been claimed but for
going up, and that it is complete. -/
structure RowKept (row row' : Target Repository) : Prop where
  id : row'.id = row.id
  repositoryKey : row'.repositoryKey = row.repositoryKey
  commitId : row'.commitId = row.commitId
  commitCreatedAt : row'.commitCreatedAt = row.commitCreatedAt
  attempts : row.attempts ≤ row'.attempts
  complete : row.state = .complete → row'.state = .complete

theorem RowKept.refl (row : Target Repository) : RowKept row row :=
  ⟨rfl, rfl, rfl, rfl, le_rfl, fun h => h⟩

theorem RowKept.stamp (h : RowKept row row') : row'.stamp = row.stamp := by
  unfold Target.stamp
  rw [h.commitId, h.commitCreatedAt]

/-- The rows are keyed by their identities, and by repository and commit. -/
structure Keyed (targets : List (Target Repository)) : Prop where
  ids : (targets.map (·.id)).Nodup
  pairs : (targets.map fun row => (row.repositoryKey, row.commitId)).Nodup

theorem Keyed.map (h : Keyed targets) (hkept : ∀ row ∈ targets, RowKept row (f row)) :
    Keyed (targets.map f) := by
  have hids : (targets.map f).map (·.id) = targets.map (·.id) := by
    rw [map_map]
    exact map_congr_left fun row hrow => (hkept row hrow).id
  have hpairs : (targets.map f).map (fun row => (row.repositoryKey, row.commitId)) =
      targets.map fun row => (row.repositoryKey, row.commitId) := by
    rw [map_map]
    refine map_congr_left fun row hrow => ?_
    simp [(hkept row hrow).repositoryKey, (hkept row hrow).commitId]
  exact ⟨by rw [hids]; exact h.ids, by rw [hpairs]; exact h.pairs⟩

end Rows

section Tracing

/-- The target that a worker has claimed. -/
def Worker.target : Worker Repository → Option (TargetClaim Repository)
  | .writing target _ => some target
  | .finishing target _ => some target
  | .settling target _ => some target
  | .failing target _ => some target
  | _ => none

/-- The target that a worker has written and is to finish. -/
def Worker.written : Worker Repository → Option (TargetClaim Repository)
  | .finishing target _ => some target
  | _ => none

variable {phase : Worker Repository}

theorem Worker.target_of_written (h : phase.written = some claim) :
    phase.target = some claim := by
  cases phase with
  | finishing target left => exact h
  | _ => cases h

/-- A claim is of a row, which has been claimed since at most more often. -/
def ClaimOf (targets : List (Target Repository)) (claim : TargetClaim Repository) : Prop :=
  ∃ row ∈ targets, row.id = claim.id ∧ row.repositoryKey = claim.repositoryKey ∧
    row.stamp = claim.stamp ∧ 0 < claim.attempts ∧ claim.attempts ≤ row.attempts

/-- What holds in every run: rows, claims and chains belong together, and what is complete
is in its chain. -/
structure Traced (s : State Repository) : Prop where
  keyed : Keyed s.targets
  commitIds : (s.commits.map (·.id)).Nodup
  commits : ∀ row ∈ s.targets, ⟨row.commitId, row.commitCreatedAt⟩ ∈ s.commits
  begun : ∀ row ∈ s.targets, row.state = .processing ∨ row.state = .complete → 0 < row.attempts
  complete : ∀ row ∈ s.targets, row.state = .complete → row.stamp ∈ s.chains row.repositoryKey
  chained : ∀ repository, ∀ stamp ∈ s.chains repository,
    ∃ row ∈ s.targets, row.repositoryKey = repository ∧ row.stamp = stamp ∧ 0 < row.attempts
  claims : ∀ w claim, (s.workers w).target = some claim → ClaimOf s.targets claim
  written : ∀ w claim, (s.workers w).written = some claim →
    claim.stamp ∈ s.chains claim.repositoryKey

/-- The intents do not matter. -/
theorem Traced.intents (h : Traced s) (intents : List Intent) :
    Traced { s with intents := intents } :=
  { h with }

theorem ClaimOf.map (h : ClaimOf targets claim)
    (hkept : ∀ row ∈ targets, RowKept row (f row)) : ClaimOf (targets.map f) claim := by
  obtain ⟨row, hrow, hid, hrepository, hstamp, hpositive, hattempts⟩ := h
  have hf := hkept row hrow
  exact ⟨f row, mem_map_of_mem hrow, hf.id.trans hid, hf.repositoryKey.trans hrepository,
    hf.stamp.trans hstamp, hpositive, hattempts.trans hf.attempts⟩

section

variable (h : Traced s)
include h

/-- Rows change. -/
theorem Traced.map (hkept : ∀ row ∈ s.targets, RowKept row (f row))
    (hbegun : ∀ row ∈ s.targets, (f row).state = .processing ∨ (f row).state = .complete →
      0 < (f row).attempts)
    (hcomplete : ∀ row ∈ s.targets, (f row).state = .complete →
      row.stamp ∈ s.chains row.repositoryKey) :
    Traced { s with targets := s.targets.map f } where
  keyed := h.keyed.map hkept
  commitIds := h.commitIds
  commits := by
    intro row' hrow'
    obtain ⟨row, hrow, rfl⟩ := mem_map.mp hrow'
    rw [(hkept row hrow).commitId, (hkept row hrow).commitCreatedAt]
    exact h.commits row hrow
  begun := by
    intro row' hrow'
    obtain ⟨row, hrow, rfl⟩ := mem_map.mp hrow'
    exact hbegun row hrow
  complete := by
    intro row' hrow' hstate
    obtain ⟨row, hrow, rfl⟩ := mem_map.mp hrow'
    rw [(hkept row hrow).stamp, (hkept row hrow).repositoryKey]
    exact hcomplete row hrow hstate
  chained := by
    intro repository stamp hstamp
    obtain ⟨row, hrow, hrepository, hsame, hattempts⟩ := h.chained repository stamp hstamp
    have hf := hkept row hrow
    exact ⟨f row, mem_map_of_mem hrow, hf.repositoryKey.trans hrepository,
      hf.stamp.trans hsame, hattempts.trans_le hf.attempts⟩
  claims := fun w claim hclaim => (h.claims w claim hclaim).map hkept
  written := h.written

/-- A worker goes on. -/
theorem Traced.worker (w : Nat)
    (hclaim : ∀ claim, phase.target = some claim → ClaimOf s.targets claim)
    (hwritten : ∀ claim, phase.written = some claim → claim.stamp ∈ s.chains claim.repositoryKey) :
    Traced (setWorker w phase s) := by
  refine { h with claims := ?_, written := ?_ }
  · intro other claim hother
    rw [workers_setWorker] at hother
    split at hother
    · exact hclaim claim hother
    · exact h.claims other claim hother
  · intro other claim hother
    rw [workers_setWorker] at hother
    split at hother
    · exact hwritten claim hother
    · exact h.written other claim hother

/-- A worker goes on that has no target. -/
theorem Traced.free (w : Nat) (hfree : phase.target = none) :
    Traced (setWorker w phase s) := by
  refine h.worker w (fun claim hclaim => ?_) (fun claim hwritten => ?_)
  · rw [hfree] at hclaim
    cases hclaim
  · rw [Worker.target_of_written hwritten] at hfree
    cases hfree

/-- The row that a claim holds is the one it is of. -/
theorem Traced.holds (hclaim : ClaimOf s.targets claim)
    (hrow : row ∈ s.targets) (hholds : claim.holds row = true) :
    row.repositoryKey = claim.repositoryKey ∧ row.stamp = claim.stamp ∧
      row.state = .processing ∧ 0 < row.attempts := by
  obtain ⟨found, hfound, hid, hrepository, hstamp, hpositive, -⟩ := hclaim
  simp only [TargetClaim.holds, Bool.and_eq_true, decide_eq_true_eq] at hholds
  obtain ⟨⟨⟨hsame, hstate⟩, hattempts⟩, -⟩ := hholds
  have heq : row = found := inj_on_of_nodup_map h.keyed.ids hrow hfound (hsame.trans hid.symm)
  rw [heq] at hstate hattempts ⊢
  exact ⟨hrepository, hstamp, hstate, by rw [hattempts]; exact hpositive⟩

/-- The commit of a row determines its time. -/
theorem Traced.stamp_eq {other : Target Repository} (hrow : row ∈ s.targets)
    (hother : other ∈ s.targets) (hcommit : row.commitId = other.commitId) :
    row.stamp = other.stamp := by
  have hsame : (⟨row.commitId, row.commitCreatedAt⟩ : CurationCommit) =
      ⟨other.commitId, other.commitCreatedAt⟩ :=
    inj_on_of_nodup_map h.commitIds (h.commits row hrow) (h.commits other hother) hcommit
  exact congrArg CurationCommit.stamp hsame

/-- The append leaves a commit out just if it is the last one. -/
theorem Traced.appendCommit_cases
    (hclaim : ClaimOf s.targets claim) :
    (s.chains claim.repositoryKey).getLast? = some claim.stamp ∧
        appendCommit claim.stamp (s.chains claim.repositoryKey) = s.chains claim.repositoryKey ∨
      (s.chains claim.repositoryKey).getLast? ≠ some claim.stamp ∧
        appendCommit claim.stamp (s.chains claim.repositoryKey) =
          s.chains claim.repositoryKey ++ [claim.stamp] := by
  obtain ⟨row, hrow, -, -, hstamp, -, -⟩ := hclaim
  refine GitlleryOutbox.appendCommit_cases fun last hlast hid => ?_
  obtain ⟨other, hother, -, hsame, -⟩ := h.chained _ last hlast
  have hcommit : other.commitId = row.commitId := by
    rw [← hsame, ← hstamp] at hid
    exact hid
  rw [← hsame, ← hstamp]
  exact h.stamp_eq hother hrow hcommit

/-- A claimed target is written. -/
theorem Traced.write [DecidableEq Repository]
    (hclaim : ClaimOf s.targets claim) :
    Traced (writeTarget claim s) ∧
      claim.stamp ∈ (writeTarget claim s).chains claim.repositoryKey := by
  have hchain : ∀ repository stamp, stamp ∈ (writeTarget claim s).chains repository ↔
      stamp ∈ s.chains repository ∨ repository = claim.repositoryKey ∧ stamp = claim.stamp := by
    intro repository stamp
    by_cases hsame : repository = claim.repositoryKey
    · subst hsame
      rw [show (writeTarget claim s).chains claim.repositoryKey = _ from Function.update_self ..]
      rcases h.appendCommit_cases hclaim with ⟨hlast, heq⟩ | ⟨-, heq⟩
      · have hthere := mem_of_mem_getLast? (Option.mem_def.mpr hlast)
        rw [heq]
        exact ⟨.inl, fun hmem => hmem.elim id fun hnew => hnew.2 ▸ hthere⟩
      · simp [heq]
    · rw [show (writeTarget claim s).chains repository = s.chains repository from
        Function.update_of_ne hsame ..]
      exact ⟨.inl, fun hmem => hmem.resolve_right fun hnew => hsame hnew.1⟩
  refine ⟨{ h with complete := ?_, chained := ?_, written := ?_ },
    (hchain _ _).mpr (.inr ⟨rfl, rfl⟩)⟩
  · intro row hrow hstate
    exact (hchain _ _).mpr (.inl (h.complete row hrow hstate))
  · intro repository stamp hstamp
    rcases (hchain repository stamp).mp hstamp with hold | ⟨rfl, rfl⟩
    · exact h.chained repository stamp hold
    · obtain ⟨row, hrow, -, hrepository, hsame, hpositive, hattempts⟩ := hclaim
      exact ⟨row, hrow, hrepository, hsame, hpositive.trans_le hattempts⟩
  · intro w other hother
    exact (hchain _ _).mpr (.inl (h.written w other hother))

/-- Targets are added that nobody has claimed. -/
theorem Traced.add {new : List (Target Repository)} (hkeyed : Keyed (s.targets ++ new))
    (hcommits : ∀ row ∈ new, ⟨row.commitId, row.commitCreatedAt⟩ ∈ s.commits)
    (hpending : ∀ row ∈ new, row.state = .pending) :
    Traced { s with targets := s.targets ++ new } where
  keyed := hkeyed
  commitIds := h.commitIds
  commits := by
    intro row hrow
    rcases mem_append.mp hrow with hold | hnew
    · exact h.commits row hold
    · exact hcommits row hnew
  begun := by
    intro row hrow hstate
    rcases mem_append.mp hrow with hold | hnew
    · exact h.begun row hold hstate
    · rw [hpending row hnew] at hstate
      rcases hstate with hstate | hstate <;> cases hstate
  complete := by
    intro row hrow hstate
    rcases mem_append.mp hrow with hold | hnew
    · exact h.complete row hold hstate
    · rw [hpending row hnew] at hstate
      cases hstate
  chained := by
    intro repository stamp hstamp
    obtain ⟨row, hrow, hfacts⟩ := h.chained repository stamp hstamp
    exact ⟨row, mem_append_left _ hrow, hfacts⟩
  claims := by
    intro w claim hclaim
    obtain ⟨row, hrow, hfacts⟩ := h.claims w claim hclaim
    exact ⟨row, mem_append_left _ hrow, hfacts⟩
  written := h.written

end

end Tracing

section Transitions

variable [DecidableEq Repository]

section

omit [DecidableEq Repository]

theorem claimIntentForPlanning_spec (now : Time) (s : State Repository) :
    ∃ intents, (claimIntentForPlanning now s).1 = { s with intents := intents } := by
  unfold claimIntentForPlanning
  split
  · exact ⟨s.intents, rfl⟩
  · exact ⟨_, rfl⟩

theorem settleIntent_spec (intentId : Uuid) (s : State Repository) :
    ∃ intents, settleIntent intentId s = { s with intents := intents } := by
  unfold settleIntent
  split
  · exact ⟨s.intents, rfl⟩
  · exact ⟨_, rfl⟩

theorem requestGitlleryProjection_spec (commitId : Uuid) (now : Time) (s : State Repository) :
    ∃ intents, requestGitlleryProjection commitId now s = { s with intents := intents } := by
  unfold requestGitlleryProjection
  split
  · exact ⟨s.intents, rfl⟩
  · split
    · exact ⟨_, rfl⟩
    · exact ⟨s.intents, rfl⟩

end

/-- What a plan makes of an intent. -/
def plannedIntent (claim : IntentClaim)
    (repositories : List (Repository × Uuid)) (row : Intent) : Intent :=
  if row.id = claim.id then
    { row with
      state := if repositories = [] then .complete else .processing
      leaseExpiresAt := none }
  else row

/-- A plan adds targets, if its claim still holds. -/
theorem planIntent_cases {claim : IntentClaim} (h : planIntent claim repositories now s = some s') :
    s' = s ∨ ∃ commit ∈ s.commits, commit.id = claim.commitId ∧ FreshRows repositories s ∧
      s.intents.any claim.holds = true ∧
      s' = { s with
        intents := s.intents.map (plannedIntent claim repositories)
        targets := s.targets ++ plannedTargets claim commit repositories now s } := by
  unfold planIntent at h
  split at h
  · cases h
  rename_i commit hfind
  split at h
  · cases h
  rename_i hfresh
  split at h
  next hholds =>
    cases h
    exact .inr ⟨commit, mem_of_find?_eq_some hfind, by simpa using find?_some hfind,
      not_not.mp hfresh, hholds, rfl⟩
  · cases h
    exact .inl rfl

/-- The rows of a plan. -/
theorem mem_plannedTargets {claim : IntentClaim}
    (h : row ∈ plannedTargets claim commit repositories now s) :
    (row.repositoryKey, row.id) ∈ repositories ∧ row.commitId = commit.id ∧
      row.commitCreatedAt = commit.createdAt ∧ row.state = .pending ∧ row.attempts = 0 ∧
      ∀ other ∈ s.targets, other.repositoryKey = row.repositoryKey → other.commitId ≠ commit.id := by
  unfold plannedTargets at h
  obtain ⟨r, hr, rfl⟩ := mem_map.mp h
  obtain ⟨hmem, hnone⟩ := mem_filter.mp hr
  refine ⟨hmem, rfl, rfl, rfl, rfl, fun other hother hrepository hcommit => ?_⟩
  simp only [Bool.not_eq_true', any_eq_false, Bool.and_eq_true, decide_eq_true_eq] at hnone
  exact hnone other hother ⟨hcommit, hrepository⟩

theorem keyed_plannedTargets (h : Keyed s.targets) {claim : IntentClaim}
    (hfresh : FreshRows repositories s) :
    Keyed (s.targets ++ plannedTargets claim commit repositories now s) := by
  obtain ⟨hkeys, hids, hnew⟩ := hfresh
  constructor
  · rw [map_append]
    refine Nodup.append h.ids ?_ ?_
    · unfold plannedTargets
      rw [map_map]
      exact hids.sublist ((filter_sublist).map Prod.snd)
    · intro id hid hnewid
      obtain ⟨row, hrow, rfl⟩ := mem_map.mp hid
      obtain ⟨new, hmem, hsame⟩ := mem_map.mp hnewid
      exact hnew _ (mem_plannedTargets hmem).1 row hrow hsame.symm
  · rw [map_append]
    refine Nodup.append h.pairs ?_ ?_
    · unfold plannedTargets
      rw [map_map]
      have hpairs : (repositories.map fun r => (r.1, commit.id)).Nodup := by
        have hinj : Function.Injective fun key : Repository => (key, commit.id) :=
          fun a b hab => congrArg Prod.fst hab
        have hmap := hkeys.map hinj
        rwa [map_map] at hmap
      exact hpairs.sublist ((filter_sublist).map _)
    · intro pair hpair hnewpair
      obtain ⟨row, hrow, rfl⟩ := mem_map.mp hpair
      obtain ⟨new, hmem, hsame⟩ := mem_map.mp hnewpair
      obtain ⟨-, hcommit, -, -, -, hother⟩ := mem_plannedTargets hmem
      have hfirst := congrArg Prod.fst hsame
      have hsecond := congrArg Prod.snd hsame
      exact hother row hrow hfirst.symm (hsecond.symm.trans hcommit)

/-- What a claim does to the row that it is of. -/
def claimed (token : Uuid) (now : Time) (row : Target Repository) : Target Repository :=
  { row with
    state := .processing
    attempts := row.attempts + 1
    leaseToken := some token
    leaseExpiresAt := some (now + leaseTime) }

/-- A claim is of a row that is not complete and has no earlier one before it. -/
theorem claimTarget_cases (token : Uuid) (now : Time) (s : State Repository) :
    claimTarget token now s = (s, none) ∨
      ∃ row ∈ s.targets, hasEarlier s row = false ∧ row.state ≠ .complete ∧
        claimTarget token now s = (updateTarget row.id (claimed token now) s,
          some ⟨row.id, row.intentId, row.commitId, row.commitCreatedAt, row.repositoryKey,
            row.attempts + 1, token⟩) := by
  unfold claimTarget
  split
  · exact .inl rfl
  rename_i row hrow
  have hmem : row ∈ claimable now s := argmin_mem hrow
  obtain ⟨htarget, hclaimable⟩ := mem_filter.mp hmem
  simp only [Bool.and_eq_true, Bool.not_eq_true'] at hclaimable
  refine .inr ⟨row, htarget, hclaimable.1, fun hcomplete => ?_, rfl⟩
  have hdue := hclaimable.2
  rw [hcomplete] at hdue
  simp [due] at hdue

omit [DecidableEq Repository] in
theorem Traced.create (h : Traced s) (commit : CurationCommit) (intentId : Uuid) (now : Time) :
    Traced (createCommit commit intentId now s) := by
  unfold createCommit
  split
  next hnew =>
    refine { h with
      commitIds := ?_, commits := fun row hrow => mem_append_left _ (h.commits row hrow) }
    rw [map_append]
    refine Nodup.append h.commitIds (nodup_singleton _) fun id hid hsame => ?_
    obtain ⟨other, hother, rfl⟩ := mem_map.mp hid
    exact (hnew.1 other hother).2 (mem_singleton.mp hsame)
  · exact h

theorem Traced.plan (h : Traced s) (claim : IntentClaim) (hcommit : commit ∈ s.commits)
    (hfresh : FreshRows repositories s) (now : Time) :
    Traced { s with targets := s.targets ++ plannedTargets claim commit repositories now s } := by
  refine h.add (keyed_plannedTargets h.keyed hfresh) (fun row hrow => ?_)
    fun row hrow => (mem_plannedTargets hrow).2.2.2.1
  obtain ⟨-, hid, hcreated, -⟩ := mem_plannedTargets hrow
  rw [hid, hcreated]
  exact hcommit

section

omit [DecidableEq Repository]

/-- The row of a claim, and no other. -/
theorem rowKept_claimed (h : Traced s) (hrow : row ∈ s.targets) (hopen : row.state ≠ .complete)
    (token : Uuid) (now : Time) :
    ∀ other ∈ s.targets, RowKept other (if other.id = row.id then claimed token now other
      else other) := by
  intro other hother
  split
  next hid =>
    have heq : other = row := inj_on_of_nodup_map h.keyed.ids hother hrow hid
    subst heq
    exact ⟨rfl, rfl, rfl, rfl, Nat.le_succ _, fun hcomplete => absurd hcomplete hopen⟩
  · exact RowKept.refl other

theorem Traced.taken (h : Traced s) (hrow : row ∈ s.targets) (hopen : row.state ≠ .complete)
    (token : Uuid) (now : Time) :
    Traced (updateTarget row.id (claimed token now) s) ∧
      ClaimOf (updateTarget row.id (claimed token now) s).targets
        ⟨row.id, row.intentId, row.commitId, row.commitCreatedAt, row.repositoryKey,
          row.attempts + 1, token⟩ := by
  have hkept := rowKept_claimed h hrow hopen token now
  constructor
  · refine h.map hkept (fun other hother => ?_) (fun other hother => ?_)
    · split
      · exact fun _ => Nat.succ_pos _
      · exact h.begun other hother
    · split
      · exact nofun
      · exact h.complete other hother
  · exact ⟨claimed token now row, mem_map.mpr ⟨row, hrow, if_pos rfl⟩, rfl, rfl, rfl,
      Nat.succ_pos _, le_rfl⟩

theorem TargetClaim.processing_of_holds {target : TargetClaim Repository}
    (h : target.holds row = true) : row.state = .processing := by
  simp only [TargetClaim.holds, Bool.and_eq_true, decide_eq_true_eq] at h
  exact h.1.1.2

theorem rowKept_finished (target : TargetClaim Repository) (row : Target Repository) :
    RowKept row (if target.holds row then
      { row with state := .complete, leaseToken := none, leaseExpiresAt := none } else row) := by
  split
  · exact ⟨rfl, rfl, rfl, rfl, le_rfl, fun _ => rfl⟩
  · exact RowKept.refl row

theorem rowKept_failed (target : TargetClaim Repository) (availableAt : Time)
    (row : Target Repository) :
    RowKept row (if target.holds row then
      { row with
        state := .failed, leaseToken := none, leaseExpiresAt := none, availableAt := availableAt }
      else row) := by
  split
  next hholds =>
    refine ⟨rfl, rfl, rfl, rfl, le_rfl, fun hcomplete => ?_⟩
    rw [TargetClaim.processing_of_holds hholds] at hcomplete
    cases hcomplete
  · exact RowKept.refl row

theorem Traced.finish (h : Traced s) {target : TargetClaim Repository}
    (hclaim : ClaimOf s.targets target)
    (hwritten : target.stamp ∈ s.chains target.repositoryKey) : Traced (finishTarget target s) := by
  refine h.map (fun row _ => rowKept_finished target row) (fun row hrow => ?_) (fun row hrow => ?_)
  · split
    next hholds => exact fun _ => (h.holds hclaim hrow hholds).2.2.2
    · exact h.begun row hrow
  · split
    next hholds =>
      obtain ⟨hrepository, hstamp, -, -⟩ := h.holds hclaim hrow hholds
      intro _
      rw [hrepository, hstamp]
      exact hwritten
    · exact h.complete row hrow

theorem Traced.fail (h : Traced s) (target : TargetClaim Repository) (now : Time) :
    Traced (failTarget target now s) := by
  refine h.map (fun row _ => rowKept_failed target _ row) (fun row hrow => ?_) (fun row hrow => ?_)
  · split
    · exact fun hstate => hstate.elim nofun nofun
    · exact h.begun row hrow
  · split
    · exact nofun
    · exact h.complete row hrow

end

/-- What a step can do. -/
inductive Moves (s : State Repository) : Action Repository → State Repository → Prop
  | rest (a : Action Repository) : Moves s a s
  | create (commit : CurationCommit) (intentId : Uuid) (now : Time) :
      Moves s (.create commit intentId now) (createCommit commit intentId now s)
  | request (commitId : Uuid) (now : Time) (intents : List Intent) :
      Moves s (.request commitId now) { s with intents := intents }
  /-- the worker has no target, before or after -/
  | free (a : Action Repository) (w : Nat) (intents : List Intent) (phase : Worker Repository)
      (hfree : phase.target = none) : Moves s a (setWorker w phase { s with intents := intents })
  | plan {w left : Nat} {claim : IntentClaim} {repositories : List (Repository × Uuid)} {now : Time}
      {s' : State Repository} (hphase : s.workers w = .planning claim left)
      (hplan : planIntent claim repositories now s = some s') :
      Moves s (.plan w repositories now) (setWorker w (.claiming left) s')
  | claim {w left : Nat} {row : Target Repository} {token : Uuid} {now : Time}
      (hrow : row ∈ s.targets) (hfirst : hasEarlier s row = false) (hopen : row.state ≠ .complete) :
      Moves s (.claim w token now) (setWorker w
        (.writing ⟨row.id, row.intentId, row.commitId, row.commitCreatedAt, row.repositoryKey,
          row.attempts + 1, token⟩ left) (updateTarget row.id (claimed token now) s))
  | write {w left : Nat} {target : TargetClaim Repository}
      (hphase : s.workers w = .writing target left) :
      Moves s (.write w) (setWorker w (.finishing target left) (writeTarget target s))
  | finish {w left : Nat} {target : TargetClaim Repository}
      (hphase : s.workers w = .finishing target left) :
      Moves s (.finish w) (setWorker w (.settling target left) (finishTarget target s))
  | raises {w left : Nat} {target : TargetClaim Repository}
      (hphase : (s.workers w).target = some target) :
      Moves s (.raises w) (setWorker w (.failing target left) s)
  | fail {w left : Nat} {target : TargetClaim Repository} {now : Time}
      (hphase : s.workers w = .failing target left) :
      Moves s (.failTarget w now) (setWorker w (.claiming left) (failTarget target now s))

/-- And it does nothing else. -/
theorem step_moves (s : State Repository) (a : Action Repository) : Moves s a (step s a) := by
  cases a with
  | create commit intentId now => exact .create commit intentId now
  | request commitId now =>
    obtain ⟨intents, heq⟩ := requestGitlleryProjection_spec commitId now s
    rw [step, heq]
    exact .request commitId now intents
  | start w limit now =>
    rw [step]
    split
    · obtain ⟨intents, heq⟩ := claimIntentForPlanning_spec now s
      rcases hclaim : claimIntentForPlanning now s with ⟨next, - | claim⟩
      · rw [hclaim] at heq
        subst heq
        exact .free _ w intents _ rfl
      · rw [hclaim] at heq
        subst heq
        exact .free _ w intents _ rfl
    · exact .rest _
  | plan w repositories now =>
    rw [step]
    split
    next claim left hphase =>
      cases hplan : planIntent claim repositories now s with
      | none => exact .free _ w s.intents _ rfl
      | some next => exact .plan hphase hplan
    · exact .rest _
  | planRaises w | leave w =>
    rw [step]
    split
    · exact .free _ w s.intents _ rfl
    · exact .rest _
  | failIntent w now =>
    rw [step]
    split
    · exact .free _ w _ _ rfl
    · exact .rest _
  | claim w token now =>
    rw [step]
    split
    · rcases claimTarget_cases token now s with heq | ⟨row, hrow, hfirst, hopen, heq⟩
      · rw [heq]
        exact .free _ w s.intents _ rfl
      · rw [heq]
        exact .claim hrow hfirst hopen
    · exact .rest _
  | write w =>
    rw [step]
    split
    next hphase => exact .write hphase
    · exact .rest _
  | finish w =>
    rw [step]
    split
    next hphase => exact .finish hphase
    · exact .rest _
  | settle w =>
    rw [step]
    split
    next target left hphase =>
      obtain ⟨intents, heq⟩ := settleIntent_spec target.intentId s
      rw [heq]
      exact .free _ w intents _ rfl
    · exact .rest _
  | raises w =>
    rw [step]
    split
    next hphase => exact .raises (by rw [hphase]; rfl)
    next hphase => exact .raises (by rw [hphase]; rfl)
    next hphase => exact .raises (by rw [hphase]; rfl)
    · exact .rest _
  | failTarget w now =>
    rw [step]
    split
    next hphase => exact .fail hphase
    · exact .rest _
  | crash w => exact .free _ w s.intents _ rfl

/-- **Every step keeps rows, claims and chains together**, whatever chains those are. -/
theorem Traced.moves_beside {chains : Repository → List Stamp}
    (h : Traced { s with chains := chains }) (hmoves : Moves s a s') :
    ∃ chains', Traced { s' with chains := chains' } ∧ (chains = s.chains → chains' = s'.chains) := by
  cases hmoves with
  | rest => exact ⟨chains, h, id⟩
  | create commit intentId now =>
    have hcreated := h.create commit intentId now
    unfold createCommit at hcreated ⊢
    split
    next hnew =>
      rw [if_pos hnew] at hcreated
      exact ⟨chains, hcreated, id⟩
    · exact ⟨chains, h, id⟩
  | request commitId now intents => exact ⟨chains, h.intents intents, id⟩
  | free _ w intents phase hfree => exact ⟨chains, (h.intents intents).free w hfree, id⟩
  | @plan w left claim _ now _ hphase hplan =>
    rcases planIntent_cases hplan with rfl | ⟨commit, hcommit, -, hfresh, -, rfl⟩
    · exact ⟨chains, h.free w rfl, id⟩
    · exact ⟨chains, ((h.plan claim hcommit hfresh now).intents _).free w rfl, id⟩
  | claim hrow hfirst hopen =>
    obtain ⟨htraced, hclaim⟩ := h.taken hrow hopen _ _
    refine ⟨chains, htraced.worker _ (fun claim hsame => ?_) nofun, id⟩
    cases hsame
    exact hclaim
  | @write w left target hphase =>
    have hclaim := h.claims w target (congrArg Worker.target hphase)
    obtain ⟨htraced, hwritten⟩ := h.write hclaim
    refine ⟨_, htraced.worker w (fun claim hsame => ?_) (fun claim hsame => ?_), ?_⟩
    · cases hsame
      exact hclaim
    · cases hsame
      exact hwritten
    · rintro rfl
      rfl
  | @finish w left target hphase =>
    have hclaim := h.claims w target (congrArg Worker.target hphase)
    have htraced := h.finish hclaim (h.written w target (congrArg Worker.written hphase))
    refine ⟨chains, htraced.worker w (fun claim hsame => ?_) nofun, id⟩
    cases hsame
    exact htraced.claims w target (congrArg Worker.target hphase)
  | @raises w left target hphase =>
    refine ⟨chains, h.worker w (fun claim hsame => ?_) nofun, id⟩
    cases hsame
    exact h.claims w target hphase
  | @fail w left target now hphase => exact ⟨chains, (h.fail target now).free w rfl, id⟩

theorem Traced.moves (h : Traced s) (hmoves : Moves s a s') : Traced s' := by
  have hown : Traced { s with chains := s.chains } := h
  obtain ⟨chains, htraced, hsame⟩ := hown.moves_beside hmoves
  rwa [hsame rfl] at htraced

end Transitions

section Order

variable [DecidableEq Repository]

/-- Before every row that has been claimed, its repository is complete. -/
def SettledBefore (targets : List (Target Repository)) : Prop :=
  ∀ row ∈ targets, 0 < row.attempts → ∀ other ∈ targets,
    other.repositoryKey = row.repositoryKey → other.stamp < row.stamp → other.state = .complete

/-- What holds in a run whose steps are taken in turn. -/
structure Ordered (s : State Repository) : Prop extends Traced s where
  settled : SettledBefore s.targets
  increasing : ∀ repository, (s.chains repository).Pairwise (· < ·)

/-- A step is taken in turn: a plan adds no target to a repository in which a later commit
has been claimed, and a worker writes while its claim holds. -/
def InTurn (s : State Repository) : Action Repository → Prop
  | .plan w repositories _ =>
    match s.workers w with
    | .planning claim _ => s.intents.any claim.holds = true →
        ∀ commit ∈ s.commits, commit.id = claim.commitId →
          ∀ r ∈ repositories, ∀ row ∈ s.targets, row.repositoryKey = r.1 →
            commit.stamp < row.stamp → row.attempts = 0
    | _ => True
  | .write w =>
    match s.workers w with
    | .writing target _ => ∃ row ∈ s.targets, target.holds row = true
    | _ => True
  | _ => True

instance (s : State Repository) (a : Action Repository) : Decidable (InTurn s a) := by
  unfold InTurn
  split
  · split <;> infer_instance
  · split <;> infer_instance
  · infer_instance

omit [DecidableEq Repository] in
theorem SettledBefore.map (h : SettledBefore targets) (hkept : ∀ row ∈ targets, RowKept row (f row))
    (hfirst : ∀ row ∈ targets, 0 < (f row).attempts → 0 < row.attempts ∨
      ∀ other ∈ targets, other.repositoryKey = row.repositoryKey → other.stamp < row.stamp →
        other.state = .complete) : SettledBefore (targets.map f) := by
  intro row' hrow' hattempts other' hother' hrepository hstamp
  obtain ⟨row, hrow, rfl⟩ := mem_map.mp hrow'
  obtain ⟨other, hother, rfl⟩ := mem_map.mp hother'
  rw [(hkept other hother).repositoryKey, (hkept row hrow).repositoryKey] at hrepository
  rw [(hkept other hother).stamp, (hkept row hrow).stamp] at hstamp
  refine (hkept other hother).complete ?_
  rcases hfirst row hrow hattempts with hbegun | hsettled
  · exact h row hrow hbegun other hother hrepository hstamp
  · exact hsettled other hother hrepository hstamp

theorem settledBefore_of_first (h : hasEarlier s row = false) :
    ∀ other ∈ s.targets, other.repositoryKey = row.repositoryKey → other.stamp < row.stamp →
      other.state = .complete := by
  intro other hother hrepository hstamp
  by_contra hopen
  have hnone := any_eq_false.mp h other hother
  simp [hrepository, hstamp, hopen] at hnone

/-- A plan in turn adds nothing before a row that has been claimed. -/
theorem Ordered.settled_plan (h : Ordered s) {w left : Nat} {claim : IntentClaim}
    (hturn : InTurn s (.plan w repositories now)) (hphase : s.workers w = .planning claim left)
    (hholds : s.intents.any claim.holds = true) (hcommit : commit ∈ s.commits)
    (hid : commit.id = claim.commitId) :
    SettledBefore (s.targets ++ plannedTargets claim commit repositories now s) := by
  intro row hrow hattempts other hother hrepository hstamp
  rcases mem_append.mp hrow with hold | hnew
  · rcases mem_append.mp hother with hold' | hnew'
    · exact h.settled row hold hattempts other hold' hrepository hstamp
    · obtain ⟨hmem, hcommitId, hcreated, -, -, -⟩ := mem_plannedTargets hnew'
      have hsame : other.stamp = commit.stamp := by
        unfold Target.stamp
        rw [hcommitId, hcreated]
        rfl
      rw [hsame] at hstamp
      simp only [InTurn, hphase] at hturn
      have hzero := hturn hholds commit hcommit hid _ hmem row hold hrepository.symm hstamp
      omega
  · have hzero := (mem_plannedTargets hnew).2.2.2.2.1
    omega

omit [DecidableEq Repository] in
/-- The commits of a chain are no later than one that is written in turn. -/
theorem Ordered.le_of_holds (h : Ordered s)
    (hclaim : ClaimOf s.targets claim) (hrow : row ∈ s.targets) (hholds : claim.holds row = true) :
    ∀ stamp ∈ s.chains claim.repositoryKey, stamp ≤ claim.stamp := by
  intro stamp hstamp
  obtain ⟨hrepository, hsame, hprocessing, -⟩ := h.holds hclaim hrow hholds
  obtain ⟨other, hother, hrepository', hsame', hattempts⟩ := h.chained _ stamp hstamp
  by_contra hlater
  have hcomplete := h.settled other hother hattempts row hrow (hrepository.trans hrepository'.symm)
    (by rw [hsame, hsame']; exact lt_of_not_ge hlater)
  rw [hprocessing] at hcomplete
  cases hcomplete

/-- The greatest element of an increasing list is its last. -/
theorem getLast?_of_max {α : Type} [Preorder α] {l : List α} (h : l.Pairwise (· < ·)) {x : α}
    (hx : x ∈ l) (hmax : ∀ y ∈ l, y ≤ x) : l.getLast? = some x := by
  induction l using reverseRecOn with
  | nil => cases hx
  | append_singleton init last _ =>
    rw [getLast?_concat]
    rcases mem_append.mp hx with hbefore | hlast
    · have hlt := (pairwise_append.mp h).2.2 x hbefore last mem_cons_self
      exact absurd (hmax last (by simp)) (not_le_of_gt hlt)
    · rw [mem_singleton.mp hlast]

theorem Ordered.increasing_write (h : Ordered s)
    (hclaim : ClaimOf s.targets claim) (hrow : row ∈ s.targets) (hholds : claim.holds row = true)
    (repository : Repository) : ((writeTarget claim s).chains repository).Pairwise (· < ·) := by
  by_cases hrepository : repository = claim.repositoryKey
  · subst hrepository
    rw [show (writeTarget claim s).chains claim.repositoryKey = _ from Function.update_self ..]
    rcases h.appendCommit_cases hclaim with ⟨-, heq⟩ | ⟨hlast, heq⟩
    · rw [heq]
      exact h.increasing _
    rw [heq]
    refine pairwise_append.mpr ⟨h.increasing _, pairwise_singleton _ _, ?_⟩
    intro stamp hstamp new hnew
    rw [mem_singleton.mp hnew]
    have hmax := h.le_of_holds hclaim hrow hholds
    refine lt_of_le_of_ne (hmax stamp hstamp) fun hsame => hlast ?_
    exact getLast?_of_max (h.increasing _) (hsame ▸ hstamp) hmax
  · rw [show (writeTarget claim s).chains repository = s.chains repository from
      Function.update_of_ne hrepository ..]
    exact h.increasing repository

omit [DecidableEq Repository] in
theorem Ordered.of_same (h : Ordered s) (htraced : Traced s') (htargets : s'.targets = s.targets)
    (hchains : s'.chains = s.chains) : Ordered s' :=
  ⟨htraced, by rw [htargets]; exact h.settled, by rw [hchains]; exact h.increasing⟩

/-- **A step in turn keeps the order.** -/
theorem Ordered.moves (h : Ordered s) (hmoves : Moves s a s') (hturn : InTurn s a) : Ordered s' := by
  have htraced := h.toTraced.moves hmoves
  cases hmoves with
  | rest => exact h
  | create commit intentId now =>
    refine h.of_same htraced ?_ ?_ <;> (unfold createCommit; split <;> rfl)
  | request _ _ _ | free _ _ _ _ _ => exact h.of_same htraced rfl rfl
  | plan hphase hplan =>
    rcases planIntent_cases hplan with rfl | ⟨commit, hcommit, hid, -, hholds, rfl⟩
    · exact h.of_same htraced rfl rfl
    · exact ⟨htraced, h.settled_plan hturn hphase hholds hcommit hid, h.increasing⟩
  | @claim w left row token now hrow hfirst hopen =>
    refine ⟨htraced, h.settled.map (rowKept_claimed h.toTraced hrow hopen token now) ?_,
      h.increasing⟩
    intro other hother hattempts
    split at hattempts
    next hid =>
      have heq : other = row := inj_on_of_nodup_map h.keyed.ids hother hrow hid
      rw [heq]
      exact .inr (settledBefore_of_first hfirst)
    · exact .inl hattempts
  | @write w left target hphase =>
    have hclaim := h.claims w target (by rw [hphase]; rfl)
    simp only [InTurn, hphase] at hturn
    obtain ⟨row, hrow, hholds⟩ := hturn
    exact ⟨htraced, h.settled, h.increasing_write hclaim hrow hholds⟩
  | @finish w left target hphase =>
    refine ⟨htraced, h.settled.map (fun row _ => rowKept_finished target row)
      (fun row hrow hattempts => .inl ?_), h.increasing⟩
    split at hattempts
    · exact hattempts
    · exact hattempts
  | raises hphase => exact h.of_same htraced rfl rfl
  | @fail w left target now hphase =>
    refine ⟨htraced, h.settled.map (fun row _ => rowKept_failed target _ row)
      (fun row hrow hattempts => .inl ?_), h.increasing⟩
    split at hattempts
    · exact hattempts
    · exact hattempts

/-- A ledger of which nothing has been planned. -/
structure Start (s : State Repository) : Prop where
  targets : s.targets = []
  chains : ∀ repository, s.chains repository = []
  workers : ∀ w, s.workers w = .idle
  commitIds : (s.commits.map (·.id)).Nodup

omit [DecidableEq Repository] in
theorem Start.ordered (h : Start s) : Ordered s := by
  have hnone : ∀ row, row ∉ s.targets := by
    intro row
    rw [h.targets]
    exact not_mem_nil
  refine ⟨⟨⟨?_, ?_⟩, h.commitIds, fun row hrow => absurd hrow (hnone row),
    fun row hrow => absurd hrow (hnone row), fun row hrow => absurd hrow (hnone row), ?_, ?_, ?_⟩,
    fun row hrow => absurd hrow (hnone row), ?_⟩
  · rw [h.targets]
    exact nodup_nil
  · rw [h.targets]
    exact nodup_nil
  · intro repository stamp hstamp
    rw [h.chains] at hstamp
    cases hstamp
  · intro w claim hclaim
    rw [h.workers] at hclaim
    cases hclaim
  · intro w claim hclaim
    rw [h.workers] at hclaim
    cases hclaim
  · intro repository
    rw [h.chains]
    exact Pairwise.nil

/-- The chains are in the order of the commits. -/
def Increasing (s : State Repository) : Prop :=
  ∀ repository, (s.chains repository).Pairwise (· < ·)

/-- **Order.**  In a run whose steps are all taken in turn the chains are strictly
increasing at any time. -/
theorem chains_increase {run : List (Action Repository)} (hstart : Start s)
    (hturn : AllSteps step InTurn s run) : Throughout step Increasing s run :=
  throughout_of_allSteps (fun _ h => h.increasing)
    (fun s a h hturn => h.moves (step_moves s a) hturn) hstart.ordered hturn

omit [DecidableEq Repository] in
theorem start_emptyState : Start (emptyState : State Repository) :=
  ⟨rfl, fun _ => rfl, fun _ => rfl, nodup_nil⟩

/-- Two commits that are planned and written one after the other. -/
def orderlyRun : List (Action Unit) :=
  [.create ⟨1, 10⟩ 11 0, .create ⟨2, 20⟩ 12 0,
    .start 0 25 100, .plan 0 [((), 21)] 100, .claim 0 31 100, .write 0, .finish 0, .settle 0,
    .leave 0, .start 1 25 100, .plan 1 [((), 22)] 100, .claim 1 32 100, .write 1, .finish 1]

theorem chains_increase_orderlyRun : Throughout step Increasing emptyState orderlyRun :=
  chains_increase start_emptyState (by decide +kernel)

/-- The plan of the first of two commits fails; the second is planned and written before it
is tried again. -/
def lateRun : List (Action Unit) :=
  [.create ⟨1, 10⟩ 11 0, .create ⟨2, 20⟩ 12 0,
    .start 0 25 100, .planRaises 0, .failIntent 0 100, .claim 0 30 100,
    .start 0 25 200, .plan 0 [((), 22)] 200, .claim 0 32 200, .write 0, .finish 0, .settle 0,
    .leave 0, .start 0 25 100000000, .plan 0 [((), 21)] 100000000, .claim 0 31 100000000,
    .write 0]

theorem chain_out_of_order :
    Start (emptyState : State Unit) ∧
      (lateRun.foldl step emptyState).chains () = [toLex (20, 2), toLex (10, 1)] ∧
      ¬ Increasing (lateRun.foldl step emptyState) := by
  have hchain : (lateRun.foldl step emptyState).chains () = [toLex (20, 2), toLex (10, 1)] := by
    decide +kernel
  refine ⟨start_emptyState, hchain, fun hincreasing => ?_⟩
  have hpair := hincreasing ()
  rw [hchain] at hpair
  exact absurd hpair (by decide)

end Order

section Once

variable [DecidableEq Repository]

/-- What is complete is in its chain. -/
def CompleteInChain (s : State Repository) : Prop :=
  ∀ row ∈ s.targets, row.state = .complete → row.stamp ∈ s.chains row.repositoryKey

/-- No commit is twice in a chain. -/
def AppendedOnce (s : State Repository) : Prop :=
  ∀ repository, ((s.chains repository).map fun stamp => (ofLex stamp).2).Nodup

omit [DecidableEq Repository] in
theorem Ordered.appendedOnce (h : Ordered s) : AppendedOnce s := by
  intro repository
  have hnodup : (s.chains repository).Nodup := (h.increasing repository).imp fun hlt => hlt.ne
  refine Nodup.map_on (fun stamp hstamp other hother hid => ?_) hnodup
  obtain ⟨row, hrow, -, rfl, -⟩ := h.chained repository stamp hstamp
  obtain ⟨row', hrow', -, rfl, -⟩ := h.chained repository other hother
  exact h.stamp_eq hrow hrow' hid

/-- **Once.**  In every run what is complete is in its chain; and in a run whose steps are
all taken in turn no commit is appended twice. -/
theorem projected_once (hstart : Start s) (run : List (Action Repository)) :
    Throughout step CompleteInChain s run ∧
      (AllSteps step InTurn s run → Throughout step AppendedOnce s run) := by
  constructor
  · exact throughout_of_allSteps (fun _ h => h.complete)
      (fun s a h _ => h.moves (step_moves s a)) hstart.ordered.toTraced allSteps_true
  · exact fun hturn => throughout_of_allSteps (fun _ h => h.appendedOnce)
      (fun s a h hturn => h.moves (step_moves s a) hturn) hstart.ordered hturn

theorem projected_once_orderlyRun :
    Throughout step CompleteInChain emptyState orderlyRun ∧
      Throughout step AppendedOnce emptyState orderlyRun := by
  obtain ⟨hcomplete, honce⟩ := projected_once start_emptyState orderlyRun
  exact ⟨hcomplete, honce (by decide +kernel)⟩

/-- A worker claims the first of two commits and is slow; another takes over its lease,
writes both, and then the first one writes. -/
def staleRun : List (Action Unit) :=
  [.create ⟨1, 10⟩ 11 0, .create ⟨2, 20⟩ 12 0,
    .start 0 25 100, .plan 0 [((), 21)] 100, .leave 0,
    .start 0 25 100, .plan 0 [((), 22)] 100, .leave 0,
    .start 1 25 100, .claim 1 31 100,
    .start 2 25 400000000, .claim 2 32 400000000, .write 2, .finish 2, .settle 2,
    .claim 2 33 400000000, .write 2, .finish 2, .settle 2,
    .write 1]

theorem commit_appended_twice :
    Start (emptyState : State Unit) ∧
      (staleRun.foldl step emptyState).chains () =
        [toLex (10, 1), toLex (20, 2), toLex (10, 1)] ∧
      ¬ AppendedOnce (staleRun.foldl step emptyState) := by
  have hchain : (staleRun.foldl step emptyState).chains () =
      [toLex (10, 1), toLex (20, 2), toLex (10, 1)] := by
    decide +kernel
  refine ⟨start_emptyState, hchain, fun honce => ?_⟩
  have hpair := honce ()
  rw [hchain] at hpair
  exact absurd hpair (by decide)

end Once

end GitlleryOutbox
