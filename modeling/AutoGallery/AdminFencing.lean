import AutoGallery.AdminOperations
import AutoGallery.Runs

/-!
# Attempts of administrator operations

Whatever the processes do, at most one task of a scope is active, no attempt is claimed
twice, the number of the current attempt never falls and grows with every retry, handoff
and recovery, and a transaction that has passed the fence commits while its attempt is
still the current one (`admin_operations_fenced`).

A process that is about to commit has locked the row that it has read, so that nobody else
has written it since; and if it makes a task active that was not, then it has locked the
scope, so that nobody else has made another task of the scope active since it has looked.
-/

namespace AdminOperations

open PyText ReadCommitted Function Table Option

variable {row : TaskRun} {d : Dispatch} {row' : TaskRun} {scope result : Text} {p : Nat}
  {s s' : State} {q : Nat} {old : TaskRun} {request : Request} {key : Text} {task : Nat}
  {claimed : Option (Nat × Nat)} {phase : Phase} {t u : State} {missing : Outcome}

/-- At most one task of a scope is active. -/
def SingleFlight (rows : List TaskRun) : Prop :=
  ∀ a ∈ rows, ∀ b ∈ rows, ∀ scope, Owns a scope → Owns b scope → a.id = b.id

/-- The column has the number of the current attempt. -/
def Numbered (row : TaskRun) : Prop :=
  ∀ d ∈ row.dispatch, row.attempts = d.attempt

/-! ### What a call may write -/

/-- What a call may make of a row without a look at the others. -/
structure RowChange (old new : TaskRun) : Prop where
  id : new.id = old.id
  kind : new.kind = old.kind
  scope : scopeForTask new = scopeForTask old
  attempt : old.attempt ≤ new.attempt
  active : new.status.Active → old.status.Active
  claimable : new.attempt = old.attempt → new.status.Claimable → old.status.Claimable
  numbered : Numbered old → Numbered new

theorem scopeForTask_dispatch (h : row.dispatch = some d) : scopeForTask row = some d.scopeKey := by
  unfold scopeForTask
  rw [h]

theorem attempt_dispatch (h : row.dispatch = some d) : row.attempt = d.attempt := by
  unfold TaskRun.attempt
  rw [h]
  rfl

section Rows

variable {service : Service} {attempt now : Nat}

variable {d' : Dispatch} {status : Status}

/-- A new attempt of an active task. -/
theorem rowChange_rotated (hd : row.dispatch = some d) (hscope : d'.scopeKey = d.scopeKey)
    (hattempt : d.attempt < d'.attempt) (hactive : row.status.Active) :
    RowChange row (rotated row d') ∧ row.attempt < (rotated row d').attempt := by
  have hless : row.attempt < (rotated row d').attempt := by
    rw [attempt_dispatch hd, attempt_dispatch rfl]
    exact hattempt
  refine ⟨⟨rfl, rfl, ?_, hless.le, fun _ => hactive, fun heq => absurd heq hless.ne', ?_⟩, hless⟩
  · have hscope' : scopeForTask (rotated row d') = some d'.scopeKey := scopeForTask_dispatch rfl
    rw [scopeForTask_dispatch hd, hscope', hscope]
  · intro _ e he
    cases he
    rfl

/-- The dispatch is changed, but not its scope and attempt, and the status is left or ends. -/
theorem rowChange_dispatch (hd : row.dispatch = some d) (hd' : row'.dispatch = some d')
    (hid : row'.id = row.id) (hkind : row'.kind = row.kind)
    (hattempts : row'.attempts = row.attempts) (hscope : d'.scopeKey = d.scopeKey)
    (hattempt : d'.attempt = d.attempt)
    (hstatus : row'.status = row.status ∨ ¬row'.status.Active ∧ ¬row'.status.Claimable) :
    RowChange row row' := by
  have hold : row.attempt = d.attempt := attempt_dispatch hd
  have hnew : row'.attempt = d'.attempt := attempt_dispatch hd'
  refine ⟨hid, hkind, ?_, ?_, ?_, ?_, ?_⟩
  · rw [scopeForTask_dispatch hd, scopeForTask_dispatch hd', hscope]
  · rw [hold, hnew, hattempt]
  · intro hactive
    rcases hstatus with hsame | ⟨hends, -⟩
    · exact hsame ▸ hactive
    · exact absurd hactive hends
  · intro _ hclaimable
    rcases hstatus with hsame | ⟨-, hends⟩
    · exact hsame ▸ hclaimable
    · exact absurd hclaimable hends
  · intro hnumbered e he
    rw [hd'] at he
    cases he
    rw [hattempts, hattempt]
    exact hnumbered d hd

theorem not_claimable_running : ¬Status.running.Claimable := by decide

theorem Status.Claimable.active (h : status.Claimable) : status.Active := by
  rcases h with rfl | rfl <;> decide

theorem handoffRow_change {options : Text} {delaySeconds : Nat}
    (h : handoffRow service row attempt options delaySeconds now = .ok row') :
    RowChange row row' ∧ row.attempt < row'.attempt := by
  unfold handoffRow at h
  split at h
  next last hlast =>
    split_ifs at h with hguard
    split at h
    next => cases h
    rename_i options' _
    push Not at hguard
    obtain ⟨-, hattempt, hactive⟩ := hguard
    cases h
    refine rowChange_rotated hlast rfl ?_ hactive
    change last.attempt < attempt + 1
    omega
  next => cases h

theorem recoveredRow_change {checkedAt : Nat} (hscope : scopeForTask row = some scope)
    (h : recoveredRow service row attempt checkedAt scope = .ok row') :
    RowChange row row' ∧ row.attempt < row'.attempt := by
  unfold recoveredRow at h
  split at h
  next last hlast =>
    split_ifs at h with hguard
    split at h
    next => cases h
    rename_i options' _
    push Not at hguard
    obtain ⟨-, hrunning, hattempt, -⟩ := hguard
    cases h
    have hkey : last.scopeKey = scope := by
      rw [scopeForTask_dispatch hlast] at hscope
      exact some.inj hscope
    have hactive : row.status.Active := by rw [hrunning]; decide
    have hless : last.attempt < attempt + 1 := by omega
    have hchange : RowChange row (rotated row
        { nextDispatch service row last (attempt + 1) scope options' with
          recoveredFromAttempt := some attempt }) ∧ _ :=
      rowChange_rotated hlast hkey.symm hless hactive
    exact ⟨{ hchange.1 with }, hchange.2⟩
  next => cases h

theorem publishRow_change {rq : RqAnswer} (h : publishRow row attempt now rq = .ok (row', result)) :
    RowChange row row' := by
  unfold publishRow at h
  split at h
  next => cases h
  rename_i d hd
  split at h
  next => cases h
  cases rq with
  | error message =>
    cases h
    exact rowChange_dispatch hd rfl rfl rfl rfl rfl rfl (.inl rfl)
  | missing =>
    dsimp only at h
    split at h <;> cases h <;>
      exact rowChange_dispatch hd rfl rfl rfl rfl rfl rfl (.inl rfl)
  | existing status =>
    dsimp only at h
    split at h
    next =>
      cases h
      exact rowChange_dispatch hd rfl rfl rfl rfl rfl rfl (.inl rfl)
    split at h
    next =>
      cases h
      exact rowChange_dispatch hd rfl rfl rfl rfl rfl rfl
        (.inr ⟨(by decide : ¬Status.failed.Active), (by decide : ¬Status.failed.Claimable)⟩)
    next =>
      cases h
      exact rowChange_dispatch hd rfl rfl rfl rfl rfl rfl (.inl rfl)

theorem claimRow_change (h : claimRow service row attempt now = .ok row') :
    RowChange row row' ∧ row.attempt = attempt ∧ row'.attempt = attempt ∧ row.status.Claimable ∧
      ¬row'.status.Claimable := by
  unfold claimRow at h
  split at h
  next => cases h
  rename_i d hd
  split_ifs at h with hguard hclaimable
  push Not at hguard
  split at h
  next => cases h
  next => cases h
  split_ifs at h
  cases h
  have hattempt : row.attempt = attempt := (attempt_dispatch hd).trans hguard.2
  refine ⟨⟨rfl, rfl, rfl, le_rfl, fun _ => hclaimable.active, ?_, fun h => h⟩, hattempt,
    hattempt, hclaimable, not_claimable_running⟩
  exact fun _ hrunning => absurd hrunning not_claimable_running

theorem updateAdminTask_change {error : Option Text} (hclaimable : ¬status.Claimable)
    (h : updateAdminTask row attempt activeStatuses status error = some row') :
    RowChange row row' := by
  unfold updateAdminTask at h
  split_ifs at h with hguard
  cases h
  exact ⟨rfl, rfl, rfl, le_rfl, fun _ => hguard.2, fun _ hc => absurd hc hclaimable, fun h => h⟩

theorem heartbeatRow_change (h : heartbeatRow row attempt now = some row') :
    RowChange row row' := by
  unfold heartbeatRow at h
  split_ifs at h with hguard
  cases h
  exact ⟨rfl, rfl, rfl, le_rfl, fun h => h, fun _ h => h, fun h => h⟩

end Rows

/-! ### What holds between two statements -/

section

variable (s)

/-- The process has locked the scope of the row, and no other task of it is active. -/
def Free (p : Nat) (row : TaskRun) : Prop :=
  ∀ scope, scopeForTask row = some scope →
    s.scopeLock scope = some p ∧ ∀ other ∈ s.table.rows, Owns other scope → other.id = row.id

/-- A committed row, and what is to replace it. -/
structure Replaces (p : Nat) (old new : TaskRun) : Prop where
  kind : new.kind = old.kind
  scope : scopeForTask new = scopeForTask old
  attempt : old.attempt ≤ new.attempt
  active : new.status.Active → old.status.Active ∨ Free s p new
  claimable : new.attempt = old.attempt → new.status.Claimable → old.status.Claimable

/-- What is known of a row that a process has written and not committed. -/
structure Written (p : Nat) (row : TaskRun) : Prop where
  locked : s.table.lock row.id = some p
  numbered : Numbered row
  replaces : ∀ old ∈ s.table.rows, old.id = row.id → Replaces s p old row
  inserts : (∀ old ∈ s.table.rows, old.id ≠ row.id) → Free s p row

structure Writes (p : Nat) : Prop where
  written : ∀ row ∈ s.table.pending p, Written s p row
  unique : ∀ a ∈ s.table.pending p, ∀ b ∈ s.table.pending p, a.id = b.id → a = b
  active : ∀ a ∈ s.table.pending p, ∀ b ∈ s.table.pending p,
    a.status.Active → b.status.Active → a.id = b.id

/-- The process has locked a committed row. -/
def Held (p : Nat) (row : TaskRun) : Prop :=
  row ∈ s.table.rows ∧ s.table.lock row.id = some p

/-- The task is one of the scope. -/
def ScopeOf (task : Nat) (key : Text) : Prop :=
  ∃ row ∈ s.table.rows, row.id = task ∧ scopeForTask row = some key

/-- The call brings about another attempt of its task. -/
def Request.Rotates : Request → Prop
  | .retry _ | .handoff .. | .recovery .. => True
  | _ => False

/-- What a process knows when it is about to commit. -/
structure Commits (p : Nat) (request : Request) (claimed : Option (Nat × Nat)) :
    Prop where
  claims : ∀ c ∈ claimed, ∃ old, Held s p old ∧ old.id = c.1 ∧ old.attempt = c.2 ∧
    old.status.Claimable ∧
      ∃ new ∈ s.table.pending p, new.id = c.1 ∧ new.attempt = c.2 ∧ ¬new.status.Claimable
  rotates : request.Rotates → ∃ old, Held s p old ∧ old.id = request.task ∧
    ∃ new ∈ s.table.pending p, new.id = request.task ∧ old.attempt < new.attempt
  fenced : ∀ task attempt allowed, request = .domain task attempt allowed →
    ∃ row, Held s p row ∧ row.id = task ∧ Fenced row attempt allowed

end

section Machine

variable (service : Service)

/-- The scope that a call locks. -/
def Keyed (s : State) (key : Text) : Request → Prop
  | .prepare prep => key = prep.scopeKey
  | .retry task | .recovery task _ _ => ScopeOf s task key
  | .cancel task cleanup => key = (cleanupPreparation service task cleanup).scopeKey
  | _ => True

/-- What a process knows before its next statement. -/
def Fits (s : State) (p : Nat) (request : Request) : Phase → Prop
  | .start | .executing | .ended _ => s.table.pending p = []
  | .scope key row =>
    s.table.pending p = [] ∧ (∀ r ∈ row, Held s p r ∧ r.id = request.task) ∧
      Keyed service s key request
  | .lease key | .row key =>
    s.table.pending p = [] ∧ s.scopeLock key = some p ∧ Keyed service s key request
  | .owner key row =>
    s.table.pending p = [] ∧ s.scopeLock key = some p ∧
      (∀ r ∈ row, Held s p r ∧ r.id = request.task) ∧ Keyed service s key request
  | .commit _ claimed => Commits s p request claimed

/-- What holds of the committed rows and claims. -/
structure Sound (rows : List TaskRun) (claims : List (Nat × Nat)) : Prop where
  unique : ∀ a ∈ rows, ∀ b ∈ rows, a.id = b.id → a = b
  numbered : ∀ row ∈ rows, Numbered row
  single : SingleFlight rows
  claimed : ∀ c ∈ claims, ∃ row ∈ rows, row.id = c.1 ∧
    (c.2 < row.attempt ∨ c.2 = row.attempt ∧ ¬row.status.Claimable)
  nodup : claims.Nodup

structure Inv (s : State) : Prop where
  sound : Sound s.table.rows s.claims
  writes : ∀ p, Writes s p
  fits : ∀ p process, s.processes p = some process →
    Fits service s p process.request process.phase
  closed : ∀ p, s.processes p = none → s.table.pending p = []

variable {service}

/-! ### What a process relies on -/

/-- What a step leaves as a process knows it: its locks, the rows and the scopes that it has
locked, and the scopes of all tasks. -/
structure Keeps (p : Nat) (s s' : State) : Prop where
  lock : ∀ id, s.table.lock id = some p → s'.table.lock id = some p
  scope : ∀ key, s.scopeLock key = some p → s'.scopeLock key = some p
  rows : ∀ row, s.table.lock row.id = some p → (row ∈ s'.table.rows ↔ row ∈ s.table.rows)
  owners : ∀ key, s.scopeLock key = some p → ∀ row' ∈ s'.table.rows, Owns row' key →
    ∃ row ∈ s.table.rows, row.id = row'.id ∧ Owns row key
  stays : ∀ row ∈ s.table.rows, ∃ row' ∈ s'.table.rows, row'.id = row.id ∧
    scopeForTask row' = scopeForTask row

/-- A step that commits nothing and takes no lock away. -/
theorem keeps_of_rows (hrows : s'.table.rows = s.table.rows)
    (hlock : ∀ id, s.table.lock id = some p → s'.table.lock id = some p)
    (hscope : ∀ key, s.scopeLock key = some p → s'.scopeLock key = some p) : Keeps p s s' where
  lock := hlock
  scope := hscope
  rows row _ := by rw [hrows]
  owners key _ row' hrow' howns := ⟨row', hrows ▸ hrow', rfl, howns⟩
  stays row hrow := ⟨row, hrows ▸ hrow, rfl, rfl⟩

section Stable

section

variable (hkeeps : Keeps p s s')
include hkeeps

theorem Free.keeps (h : Free s p row) : Free s' p row := by
  intro scope hscope
  obtain ⟨hlock, hother⟩ := h scope hscope
  refine ⟨hkeeps.scope scope hlock, fun other hother' howns => ?_⟩
  obtain ⟨before, hbefore, hid, hbowns⟩ := hkeeps.owners scope hlock other hother' howns
  rw [← hid]
  exact hother before hbefore hbowns

theorem Replaces.keeps (h : Replaces s p old row) :
    Replaces s' p old row :=
  { h with active := fun hactive => (h.active hactive).imp_right (Free.keeps hkeeps) }

theorem Written.keeps (h : Written s p row) : Written s' p row := by
  have hsame : ∀ old, old.id = row.id → (old ∈ s'.table.rows ↔ old ∈ s.table.rows) :=
    fun old hid => hkeeps.rows old (hid ▸ h.locked)
  refine ⟨hkeeps.lock _ h.locked, h.numbered, fun old hold hid => ?_, fun hnone => ?_⟩
  · exact (h.replaces old ((hsame old hid).mp hold) hid).keeps hkeeps
  · refine (h.inserts fun old hold hid => ?_).keeps hkeeps
    exact hnone old ((hsame old hid).mpr hold) hid

theorem Writes.keeps (hpending : s'.table.pending p = s.table.pending p)
    (h : Writes s p) : Writes s' p where
  written row hrow := (h.written row (hpending ▸ hrow)).keeps hkeeps
  unique := by
    rw [hpending]
    exact h.unique
  active := by
    rw [hpending]
    exact h.active

theorem Held.keeps (h : Held s p row) : Held s' p row :=
  ⟨(hkeeps.rows row h.2).mpr h.1, hkeeps.lock _ h.2⟩

end

theorem ScopeOf.keeps (hkeeps : Keeps p s s') (h : ScopeOf s task key) : ScopeOf s' task key := by
  obtain ⟨row, hrow, hid, hscope⟩ := h
  obtain ⟨row', hrow', hid', hscope'⟩ := hkeeps.stays row hrow
  exact ⟨row', hrow', hid'.trans hid, hscope'.trans hscope⟩

theorem Keyed.keeps (hkeeps : Keeps p s s') (h : Keyed service s key request) :
    Keyed service s' key request := by
  cases request with
  | retry _ | recovery _ _ _ => exact ScopeOf.keeps hkeeps h
  | _ => exact h

section

variable (hkeeps : Keeps p s s') (hpending : s'.table.pending p = s.table.pending p)
include hkeeps hpending

theorem Commits.keeps (h : Commits s p request claimed) : Commits s' p request claimed where
  claims c hc := by
    obtain ⟨old, hheld, hrest⟩ := h.claims c hc
    exact ⟨old, hheld.keeps hkeeps, hpending ▸ hrest⟩
  rotates hrotates := by
    obtain ⟨old, hheld, hrest⟩ := h.rotates hrotates
    exact ⟨old, hheld.keeps hkeeps, hpending ▸ hrest⟩
  fenced task attempt allowed heq := by
    obtain ⟨row, hheld, hrest⟩ := h.fenced task attempt allowed heq
    exact ⟨row, hheld.keeps hkeeps, hrest⟩

/-- What a process knows survives the steps of the others. -/
theorem Fits.keeps (h : Fits service s p request phase) : Fits service s' p request phase := by
  cases phase with
  | start | executing | ended _ => exact hpending.trans h
  | scope key row =>
    exact ⟨hpending.trans h.1, fun r hr => (h.2.1 r hr).imp_left (Held.keeps hkeeps),
      h.2.2.keeps hkeeps⟩
  | lease key | row key => exact ⟨hpending.trans h.1, hkeeps.scope key h.2.1, h.2.2.keeps hkeeps⟩
  | owner key row =>
    exact ⟨hpending.trans h.1, hkeeps.scope key h.2.1,
      fun r hr => (h.2.2.1 r hr).imp_left (Held.keeps hkeeps), h.2.2.2.keeps hkeeps⟩
  | commit result claimed => exact Commits.keeps hkeeps hpending h

end

end Stable

/-! ### Statements that commit nothing -/

/-- What the others see of such a statement. -/
structure Quiet (q : Nat) (s s' : State) : Prop where
  rows : s'.table.rows = s.table.rows
  claims : s'.claims = s.claims
  pending : ∀ p, p ≠ q → s'.table.pending p = s.table.pending p
  lock : ∀ p, p ≠ q → ∀ id, s.table.lock id = some p → s'.table.lock id = some p
  scope : ∀ p, p ≠ q → ∀ key, s.scopeLock key = some p → s'.scopeLock key = some p
  processes : ∀ p, p ≠ q → s'.processes p = s.processes p

theorem Quiet.keeps (h : Quiet q s s') (hne : p ≠ q) : Keeps p s s' :=
  keeps_of_rows h.rows (h.lock p hne) (h.scope p hne)

theorem Quiet.refl (q : Nat) (s : State) : Quiet q s s :=
  ⟨rfl, rfl, fun _ _ => rfl, fun _ _ _ h => h, fun _ _ _ h => h, fun _ _ => rfl⟩

theorem Quiet.trans (h : Quiet q s t) (h' : Quiet q t u) : Quiet q s u where
  rows := h'.rows.trans h.rows
  claims := h'.claims.trans h.claims
  pending p hne := (h'.pending p hne).trans (h.pending p hne)
  lock p hne id hlock := h'.lock p hne id (h.lock p hne id hlock)
  scope p hne key hscope := h'.scope p hne key (h.scope p hne key hscope)
  processes p hne := (h'.processes p hne).trans (h.processes p hne)

section Operations

theorem quiet_setPhase : Quiet q s (s.setPhase q request phase) :=
  { Quiet.refl q s with processes := fun _ hne => update_of_ne hne _ _ }

theorem keeps_setPhase : Keeps p s (s.setPhase q request phase) :=
  keeps_of_rows rfl (fun _ h => h) fun _ h => h

variable {id : Nat}

theorem quiet_lockLease : Quiet q s (s.lockLease q key) :=
  { Quiet.refl q s with }

theorem keeps_lockScope (hfree : s.scopeLock key = none) : Keeps p s (s.lockScope q key) := by
  refine keeps_of_rows rfl (fun _ h => h) fun other hother => ?_
  have hne : other ≠ key := by
    rintro rfl
    rw [hfree] at hother
    cases hother
  exact (update_of_ne hne _ _).trans hother

theorem quiet_lockScope (hfree : s.scopeLock key = none) : Quiet q s (s.lockScope q key) :=
  { Quiet.refl q s with scope := fun _ _ => (keeps_lockScope hfree).scope }

theorem keeps_lockRow (hfree : ¬s.table.Blocked q id) : Keeps p s (s.lockRow q id) := by
  refine keeps_of_rows rfl (fun other hother => ?_) fun _ h => h
  by_cases hpq : p = q
  · subst hpq
    exact lockRow_mine hother id
  · exact lockRow_other hfree hpq hother

theorem quiet_lockRow (hfree : ¬s.table.Blocked q id) : Quiet q s (s.lockRow q id) :=
  { Quiet.refl q s with lock := fun _ _ => (keeps_lockRow hfree).lock }

theorem keeps_write (hfree : ¬s.table.Blocked q row.id) : Keeps p s (s.write q row) :=
  keeps_of_rows rfl (keeps_lockRow hfree).lock fun _ h => h

theorem quiet_write (hfree : ¬s.table.Blocked q row.id) : Quiet q s (s.write q row) :=
  { Quiet.refl q s with
    pending := fun _ hne => write_pending_other hne
    lock := fun _ _ => (keeps_write hfree).lock }

theorem unlockScopes_other (hne : p ≠ q) (h : s.scopeLock key = some p) :
    s.unlockScopes q key = some p := by
  have hother : s.scopeLock key ≠ some q := by
    rw [h]
    exact fun heq => hne (some.inj heq)
  rw [State.unlockScopes, if_neg hother, h]

theorem quiet_rollback : Quiet q s (s.rollback q) :=
  { Quiet.refl q s with
    pending := fun _ hne => update_of_ne hne _ _
    lock := fun _ hne _ h => unlock_other hne h
    scope := fun _ hne _ h => unlockScopes_other hne h }

theorem rollback_pending : (s.rollback q).table.pending q = [] :=
  update_self ..

theorem writes_of_closed (h : s.table.pending q = []) : Writes s q where
  written row hrow := by rw [h] at hrow; cases hrow
  unique a ha := by rw [h] at ha; cases ha
  active a ha := by rw [h] at ha; cases ha

/-- A statement that commits nothing, and what its process knows after it. -/
structure Advanced (service : Service) (q : Nat) (s s' : State) : Prop extends Quiet q s s' where
  writes : Writes s' q
  fits : ∀ process, s'.processes q = some process →
    Fits service s' q process.request process.phase
  closed : s'.processes q = none → s'.table.pending q = []

theorem Advanced.after (hquiet : Quiet q s t) (h : Advanced service q t u) :
    Advanced service q s u :=
  { h with toQuiet := hquiet.trans h.toQuiet }

/-- The process is gone. -/
theorem Quiet.gone (h : Quiet q s s') (hopen : s'.table.pending q = [])
    (hgone : s'.processes q = none) : Advanced service q s s' where
  toQuiet := h
  writes := writes_of_closed hopen
  fits process hprocess := by
    rw [hgone] at hprocess
    cases hprocess
  closed _ := hopen

theorem setPhase_self : (s.setPhase q request phase).processes q = some ⟨request, phase⟩ :=
  update_self ..

theorem advanced_setPhase (hwrites : Writes s q) (hfits : Fits service s q request phase) :
    Advanced service q s (s.setPhase q request phase) where
  toQuiet := quiet_setPhase
  writes := hwrites.keeps keeps_setPhase rfl
  fits process hprocess := by
    rw [setPhase_self] at hprocess
    cases hprocess
    exact hfits.keeps keeps_setPhase rfl
  closed hnone := by
    rw [setPhase_self] at hnone
    cases hnone

theorem advanced_refuse {outcome : Outcome} :
    Advanced service q s (s.refuse q request outcome) := by
  have hopen : (s.rollback q).table.pending q = [] := rollback_pending
  have hfits : Fits service (s.rollback q) q request (.ended outcome) := hopen
  exact (advanced_setPhase (writes_of_closed hopen) hfits).after quiet_rollback

/-- The process waits. -/
theorem Inv.waits (hinv : Inv service s) : Advanced service q s s :=
  { Quiet.refl q s with
    writes := hinv.writes q
    fits := hinv.fits q
    closed := hinv.closed q }

/-- A process that has written nothing sees the committed rows. -/
theorem current_committed (hopen : s.table.pending q = [])
    (h : s.table.current TaskRun.id q task = some row) : row ∈ s.table.rows ∧ row.id = task := by
  obtain ⟨hview, hid⟩ := current_mem h
  rw [view_of_closed hopen] at hview
  exact ⟨hview, hid⟩

theorem advanced_withRow {found : State → TaskRun → State} (hinv : Inv service s)
    (hopen : s.table.pending q = [])
    (hfound : ∀ row, ¬s.table.Blocked q task → Held (s.lockRow q task) q row → row.id = task →
      Advanced service q (s.lockRow q task) (found (s.lockRow q task) row)) :
    Advanced service q s (withRow s q task request missing found) := by
  unfold withRow
  split
  next => exact hinv.waits
  rename_i hfree
  split
  next => exact advanced_refuse
  next row hcurrent =>
    obtain ⟨hrow, rfl⟩ := current_committed hopen hcurrent
    have hheld : Held (s.lockRow q row.id) q row := ⟨hrow, update_self ..⟩
    exact (hfound row hfree hheld rfl).after (quiet_lockRow hfree)

end Operations

/-! ### What the statements write -/

section Statements

theorem RowChange.replaces (h : RowChange row row') : Replaces s q row row' :=
  ⟨h.kind, h.scope, h.attempt, fun hactive => .inl (h.active hactive), h.claimable⟩

theorem Held.not_blocked (h : Held s q row) : ¬s.table.Blocked q row.id :=
  not_blocked_iff.mpr (.inr h.2)

/-- A write of a row that is not yet written. -/
theorem writes_write (hwrites : Writes s q) (hfree : ¬s.table.Blocked q row.id)
    (hnumbered : Numbered row)
    (hreplaces : ∀ old ∈ s.table.rows, old.id = row.id → Replaces s q old row)
    (hinserts : (∀ old ∈ s.table.rows, old.id ≠ row.id) → Free s q row)
    (hactive : row.status.Active → ∀ other ∈ s.table.pending q, ¬other.status.Active) :
    Writes (s.write q row) q := by
  have hkeeps : Keeps q s (s.write q row) := keeps_write hfree
  have hcases : ∀ r ∈ (s.write q row).table.pending q,
      r = row ∨ r ∈ s.table.pending q ∧ row.id ≠ r.id :=
    fun r hr => mem_write_pending.mp hr
  refine ⟨fun r hr => ?_, fun a ha b hb hid => ?_, fun a ha b hb hacta hactb => ?_⟩
  · rcases hcases r hr with rfl | ⟨hold, -⟩
    · exact ⟨update_self .., hnumbered, fun old hold hid => (hreplaces old hold hid).keeps hkeeps,
        fun hnone => (hinserts hnone).keeps hkeeps⟩
    · exact (hwrites.written r hold).keeps hkeeps
  · rcases hcases a ha with rfl | ⟨haold, hane⟩ <;> rcases hcases b hb with rfl | ⟨hbold, hbne⟩
    · rfl
    · exact absurd hid hbne
    · exact absurd hid.symm hane
    · exact hwrites.unique a haold b hbold hid
  · rcases hcases a ha with rfl | ⟨haold, -⟩ <;> rcases hcases b hb with rfl | ⟨hbold, -⟩
    · rfl
    · exact absurd hactb (hactive hacta b hbold)
    · exact absurd hacta (hactive hactb a haold)
    · exact hwrites.active a haold b hbold hacta hactb


/-- What a call finds out about the row of its task. -/
structure Decided (row : TaskRun) (request : Request) (new : Option TaskRun)
    (claimed : Option (Nat × Nat)) : Prop where
  change : ∀ row' ∈ new, RowChange row row'
  claims : ∀ c ∈ claimed, c = (request.task, row.attempt) ∧ row.status.Claimable ∧
    ∃ row' ∈ new, row'.attempt = row.attempt ∧ ¬row'.status.Claimable
  rotates : request.Rotates → ∃ row' ∈ new, row.attempt < row'.attempt
  fenced : ∀ task attempt allowed, request = .domain task attempt allowed →
    Fenced row attempt allowed

/-- A call that only changes the row. -/
theorem decided_change (h : RowChange row row') (hrotates : ¬request.Rotates)
    (hdomain : ∀ task attempt allowed, request ≠ .domain task attempt allowed) :
    Decided row request (some row') none where
  change r hr := by
    cases hr
    exact h
  claims c hc := by cases hc
  rotates hr := absurd hr hrotates
  fenced task attempt allowed heq := absurd heq (hdomain task attempt allowed)

variable {input : Input} {new : Option TaskRun} {prep : Preparation}

theorem decideRow_ok (h : decideRow service input row request = .ok (new, result, claimed)) :
    Decided row request new claimed := by
  cases request with
  | handoff task attempt options delaySeconds =>
    obtain ⟨row', hrow', hresult⟩ := map_ok h
    cases hresult
    obtain ⟨hchange, hless⟩ := handoffRow_change hrow'
    refine ⟨fun r hr => ?_, nofun, fun _ => ⟨row', rfl, hless⟩, nofun⟩
    cases hr
    exact hchange
  | publish task attempt =>
    obtain ⟨⟨row', text⟩, hrow', hresult⟩ := map_ok h
    cases hresult
    exact decided_change (publishRow_change hrow') id nofun
  | claim task attempt =>
    obtain ⟨row', hrow', hresult⟩ := map_ok h
    cases hresult
    obtain ⟨hchange, hattempt, hattempt', hclaimable, hrunning⟩ := claimRow_change hrow'
    refine ⟨fun r hr => ?_, fun c hc => ?_, fun hr => absurd hr id, nofun⟩
    · cases hr
      exact hchange
    · cases hc
      exact ⟨congrArg _ hattempt.symm, hclaimable, row', rfl, hattempt'.trans hattempt.symm,
        hrunning⟩
  | progress task attempt =>
    simp only [decideRow] at h
    split at h
    next => cases h
    next row' hrow' =>
      cases h
      exact decided_change (updateAdminTask_change not_claimable_running hrow') id nofun
  | finish task attempt error =>
    simp only [decideRow] at h
    split at h
    next => cases h
    next row' hrow' =>
      cases h
      refine decided_change (updateAdminTask_change ?_ hrow') id nofun
      split <;> decide
  | heartbeat task attempt =>
    simp only [decideRow] at h
    split at h
    next => cases h
    next row' hrow' =>
      cases h
      exact decided_change (heartbeatRow_change hrow') id nofun
  | domain task attempt allowed =>
    simp only [decideRow] at h
    split at h
    next hfenced =>
      cases h
      refine ⟨fun r hr => (by cases hr), fun c hc => (by cases hc), fun hr => absurd hr id,
        fun t n a heq => ?_⟩
      cases heq
      exact hfenced
    next => cases h
  | _ => cases h

/-- What has been found out is what is to be committed. -/
theorem Decided.commits (h : Decided row request new claimed) (hheld : Held s q row)
    (hid : row.id = request.task) (hpending : ∀ row' ∈ new, row' ∈ s.table.pending q) :
    Commits s q request claimed where
  claims c hc := by
    obtain ⟨rfl, hclaimable, row', hnew, hattempt, hrunning⟩ := h.claims c hc
    exact ⟨row, hheld, hid, rfl, hclaimable, row', hpending row' hnew,
      (h.change row' hnew).id.trans hid, hattempt, hrunning⟩
  rotates hrotates := by
    obtain ⟨row', hnew, hless⟩ := h.rotates hrotates
    exact ⟨row, hheld, hid, row', hpending row' hnew, (h.change row' hnew).id.trans hid, hless⟩
  fenced task attempt allowed heq := by
    have htask : row.id = task := by rw [hid, heq]; rfl
    exact ⟨row, hheld, htask, h.fenced task attempt allowed heq⟩

theorem mem_pending_write : row ∈ (s.write q row).table.pending q :=
  mem_write_pending.mpr (.inl rfl)

/-- A call writes a row and goes on to its commit. -/
theorem advanced_write (hfree : ¬s.table.Blocked q row.id) (hwrites : Writes (s.write q row) q)
    (hcommits : Commits (s.write q row) q request claimed) :
    Advanced service q s ((s.write q row).setPhase q request (.commit result claimed)) := by
  have hfits : Fits service (s.write q row) q request (.commit result claimed) := hcommits
  exact (advanced_setPhase hwrites hfits).after (quiet_write hfree)

/-- A call writes the row that it has locked. -/
theorem advanced_held (hsound : Sound s.table.rows s.claims) (hopen : s.table.pending q = [])
    (hheld : Held s q row) (hid : row'.id = row.id) (hnumbered : Numbered row')
    (hreplaces : Replaces s q row row')
    (hcommits : Held (s.write q row') q row → row' ∈ (s.write q row').table.pending q →
      Commits (s.write q row') q request claimed) :
    Advanced service q s ((s.write q row').setPhase q request (.commit result claimed)) := by
  have hfree := hid ▸ hheld.not_blocked
  refine advanced_write hfree ?_ (hcommits (hheld.keeps (keeps_write hfree)) mem_pending_write)
  refine writes_write (writes_of_closed hopen) hfree hnumbered ?_ ?_ ?_
  · intro old hold hidold
    rw [hsound.unique old hold row hheld.1 (hidold.trans hid)]
    exact hreplaces
  · intro hnone
    exact absurd hid.symm (hnone row hheld.1)
  · intro _ other hother
    rw [hopen] at hother
    cases hother

/-- The calls that only lock the row of their task. -/
theorem advanced_follow (hinv : Inv service s) (hopen : s.table.pending q = [])
    (htask : request.task = task) :
    Advanced service q s
      (withRow s q task request missing fun s row =>
        follow s q request (decideRow service input row request)) := by
  refine advanced_withRow hinv hopen fun row _ hheld hid => ?_
  have hid' : row.id = request.task := hid.trans htask.symm
  cases hdecide : decideRow service input row request with
  | error outcome => exact advanced_refuse
  | ok decision =>
    obtain ⟨new, result, claimed⟩ := decision
    have hdecided := decideRow_ok hdecide
    cases new with
    | none =>
      have hcommits := hdecided.commits hheld hid' fun r hr => (by cases hr)
      exact advanced_setPhase (writes_of_closed hopen) hcommits
    | some row' =>
      have hchange : RowChange row row' := hdecided.change row' rfl
      refine advanced_held hinv.sound hopen hheld hchange.id
        (hchange.numbered (hinv.sound.numbered row hheld.1)) hchange.replaces fun hheld' hnew => ?_
      refine hdecided.commits hheld' hid' fun r hr => ?_
      cases hr
      exact hnew

/-- The prepared row has the scope that was asked for. -/
theorem checkPreparation_ok (h : checkPreparation service prep = .ok row) :
    row.dispatch.map Dispatch.scopeKey = some prep.scopeKey ∧
      scopeForTask row = some prep.scopeKey ∧ Numbered row := by
  obtain ⟨spec, -, h⟩ := bind_ok h
  split at h
  next => cases h
  dsimp only at h
  generalize (if prep.jobTimeout.getD 0 = 0 then spec.defaultJobTimeout
    else prep.jobTimeout.getD 0) = timeout at h
  split at h
  next => cases h
  cases h
  refine ⟨rfl, rfl, fun d hd => ?_⟩
  cases hd
  rfl

theorem not_owns_of_owner {rows : List TaskRun} {exclude : Option Nat}
    (h : ¬(activeScopeOwner rows scope exclude).isSome) :
    ∀ row ∈ rows, Owns row scope → exclude = some row.id := by
  intro row hrow howns
  by_contra hne
  refine h (List.find?_isSome.mpr ⟨row, hrow, ?_⟩)
  exact decide_eq_true ⟨howns, hne⟩

/-- A prepared task goes into a scope without an active one. -/
theorem advanced_insert {next : State → State} (hinv : Inv service s)
    (hopen : s.table.pending q = []) (hlock : s.scopeLock prep.scopeKey = some q)
    (hprepared : checkPreparation service prep = .ok row)
    (howner : ¬(activeScopeOwner (s.rows q) prep.scopeKey none).isSome)
    (hnext : ¬s.table.Blocked q row.id → (∀ old ∈ s.table.rows, old.id ≠ row.id) →
      Writes (s.write q row) q → Advanced service q (s.write q row) (next (s.write q row))) :
    Advanced service q s (insert s q request row next) := by
  obtain ⟨-, hscope, hnumbered⟩ := checkPreparation_ok hprepared
  have hrows : s.table.view TaskRun.id q = s.table.rows := view_of_closed hopen
  unfold insert
  split
  next => exact hinv.waits
  rename_i hfree
  split
  next => exact advanced_refuse
  rename_i hnone
  have hnew : ∀ old ∈ s.table.rows, old.id ≠ row.id := by
    intro old hold hid
    refine hnone (List.find?_isSome.mpr ⟨old, ?_, decide_eq_true hid⟩)
    exact hrows.symm ▸ hold
  refine (hnext hfree hnew ?_).after (quiet_write hfree)
  refine writes_write (writes_of_closed hopen) hfree hnumbered
    (fun old hold hid => absurd hid (hnew old hold)) (fun _ scope hkey => ?_) ?_
  · rw [hscope] at hkey
    cases hkey
    refine ⟨hlock, fun other hother howns => ?_⟩
    have hview : other ∈ s.rows q := Eq.mpr (congrArg (other ∈ ·) hrows) hother
    cases not_owns_of_owner howner other hview howns
  · intro _ other hother
    rw [hopen] at hother
    cases hother


theorem advanced_begin (hinv : Inv service s) (hopen : s.table.pending q = []) :
    Advanced service q s (begin service s q input request) := by
  have hwrites : Writes s q := writes_of_closed hopen
  cases request with
  | prepare prep =>
    simp only [begin]
    split
    next => exact advanced_refuse
    next => exact advanced_setPhase hwrites ⟨hopen, fun r hr => (by cases hr), rfl⟩
  | retry task =>
    simp only [begin]
    repeat (split; next => exact advanced_refuse)
    rename_i row hcurrent _ _ d hd
    obtain ⟨hrow, hid⟩ := current_committed hopen hcurrent
    exact advanced_setPhase hwrites ⟨hopen, fun r hr => (by cases hr),
      row, hrow, hid, scopeForTask_dispatch hd⟩
  | recovery task attempt checkedAt =>
    simp only [begin]
    split
    next => exact advanced_refuse
    next d hd =>
      obtain ⟨row, hcurrent, hdispatch⟩ := bind_eq_some_iff.mp hd
      obtain ⟨hrow, hid⟩ := current_committed hopen hcurrent
      exact advanced_setPhase hwrites ⟨hopen, fun r hr => (by cases hr),
        row, hrow, hid, scopeForTask_dispatch hdispatch⟩
  | execute task =>
    simp only [begin]
    repeat (split; next => exact advanced_refuse)
    rename_i key _ _ _
    have hleased : Writes (s.lockLease q key) q := writes_of_closed hopen
    refine (advanced_setPhase hleased ?_).after quiet_lockLease
    exact hopen
  | cancel task cleanup =>
    simp only [begin]
    refine advanced_withRow hinv hopen fun row _ hheld hid => ?_
    have hlocked : Writes (s.lockRow q task) q := writes_of_closed hopen
    repeat (split; next => exact advanced_refuse)
    split
    next => exact advanced_setPhase hlocked ⟨nofun, nofun, nofun⟩
    split
    next => exact advanced_refuse
    rename_i prepared hprepared
    refine advanced_setPhase hlocked ⟨hopen, fun r hr => ?_, ?_⟩
    · cases hr
      exact ⟨hheld, hid⟩
    · change (prepared.dispatch.map Dispatch.scopeKey).getD [] = _
      rw [(checkPreparation_ok hprepared).1]
      rfl
  | handoff _ _ _ _ | publish _ _ | claim _ _ | progress _ _ | finish _ _ _ | heartbeat _ _
  | domain _ _ _ => exact advanced_follow hinv hopen rfl

/-- The row of the next attempt of a task that is not active. -/
theorem retriedRow_ok {last : Dispatch} {scan : Option Scan} (hlast : row.dispatch = some last)
    (hscope : scopeForTask row = some scope) (h : retriedRow service row last scope scan = .ok row') :
    row'.id = row.id ∧ row'.kind = row.kind ∧ scopeForTask row' = scopeForTask row ∧
      row.attempt < row'.attempt ∧ Numbered row' := by
  obtain ⟨options, -, rfl⟩ := map_ok h
  refine ⟨rfl, rfl, hscope.symm, ?_, fun d hd => ?_⟩
  · rw [attempt_dispatch hlast]
    change last.attempt < max row.attempts last.attempt + 1
    omega
  · cases hd
    rfl

section

variable (hopen : s.table.pending q = []) (hlock : s.scopeLock key = some q)
  (hkeyed : Keyed service s key request)
include hopen hlock hkeyed

theorem advanced_lockedRow (hsound : Sound s.table.rows s.claims) (hheld : Held s q row)
    (hid : row.id = request.task) :
    Advanced service q s (lockedRow service s q key request row) := by
  cases request with
  | retry task =>
    simp only [lockedRow]
    split
    next => exact advanced_refuse
    next =>
      refine advanced_setPhase (writes_of_closed hopen) ⟨hopen, hlock, fun r hr => ?_, hkeyed⟩
      cases hr
      exact ⟨hheld, hid⟩
  | recovery task attempt checkedAt =>
    simp only [lockedRow]
    split
    next => exact advanced_refuse
    rename_i row' hrow'
    obtain ⟨known, hknown, hknownid, hscope⟩ := hkeyed
    rw [hsound.unique known hknown row hheld.1 (hknownid.trans hid.symm)] at hscope
    obtain ⟨hchange, hless⟩ := recoveredRow_change hscope hrow'
    refine advanced_held hsound hopen hheld hchange.id
      (hchange.numbered (hsound.numbered row hheld.1)) hchange.replaces fun hheld' hnew => ?_
    exact ⟨nofun, fun _ => ⟨row, hheld', hid, row', hnew, hchange.id.trans hid, hless⟩, nofun⟩
  | _ => exact advanced_refuse

theorem advanced_lookForOwner {found : Option TaskRun} (hinv : Inv service s)
    (hfound : ∀ r ∈ found, Held s q r ∧ r.id = request.task) :
    Advanced service q s (lookForOwner service s q input key request found) := by
  cases request with
  | prepare prep =>
    cases hkeyed
    simp only [lookForOwner]
    repeat (split; next => exact advanced_refuse)
    rename_i howner _ prepared hprepared
    refine advanced_insert hinv hopen hlock hprepared howner fun _ _ hwrites => ?_
    exact advanced_setPhase hwrites ⟨nofun, nofun, nofun⟩
  | retry task =>
    cases found with
    | none => exact advanced_refuse
    | some row =>
      obtain ⟨hheld, hid⟩ := hfound row rfl
      simp only [lookForOwner]
      repeat (split; next => exact advanced_refuse)
      rename_i howner _ last hlast _ row' hrow'
      obtain ⟨known, hknown, hknownid, hscope⟩ := hkeyed
      rw [hinv.sound.unique known hknown row hheld.1 (hknownid.trans hid.symm)]
        at hscope
      obtain ⟨hid', hkind, hscope', hless, hnumbered⟩ :=
        retriedRow_ok hlast hscope hrow'
      -- nobody else is active in the scope, which is locked
      have hfreeScope : Free s q row' := by
        intro scope hkey
        rw [hscope', hscope] at hkey
        cases hkey
        refine ⟨hlock, fun other hother howns => ?_⟩
        have hrows : s.rows q = s.table.rows := view_of_closed hopen
        have := not_owns_of_owner howner other (hrows ▸ hother) howns
        rw [hid', hid]
        exact (some.inj this).symm
      have hreplaces : Replaces s q row row' :=
        ⟨hkind, hscope', hless.le, fun _ => .inr hfreeScope, fun heq => absurd heq hless.ne'⟩
      refine advanced_held hinv.sound hopen hheld hid' hnumbered hreplaces fun hheld' hnew => ?_
      exact ⟨nofun, fun _ => ⟨row, hheld', hid, row', hnew, hid'.trans hid, hless⟩, nofun⟩
  | cancel task cleanup =>
    cases found with
    | none => exact advanced_refuse
    | some row =>
      obtain ⟨hheld, -⟩ := hfound row rfl
      cases hkeyed
      simp only [lookForOwner]
      repeat (split; next => exact advanced_refuse)
      rename_i howner _ prepared hprepared
      refine advanced_insert hinv hopen hlock hprepared howner fun hfree hnew hwrites => ?_
      have hkeeps : Keeps q s (s.write q prepared) := keeps_write hfree
      have hheld' : Held (s.write q prepared) q row := hheld.keeps hkeeps
      have hends : ¬Status.cancelled.Active := by decide
      have hnotAgain : ¬Status.cancelled.Claimable := by decide
      have hfree' := hheld'.not_blocked
      refine advanced_write hfree' ?_ ⟨nofun, nofun, nofun⟩
      refine writes_write hwrites hfree' (hinv.sound.numbered row hheld.1)
        (fun old hold hidold => ?_) (fun hnone => absurd rfl (hnone row hheld.1))
        fun hactive => absurd hactive hends
      cases hinv.sound.unique old hold row hheld.1 hidold
      exact ⟨rfl, rfl, le_rfl, fun hactive => absurd hactive hends,
        fun _ hclaimable => absurd hclaimable hnotAgain⟩
  | _ => exact advanced_refuse

end

/-- Every statement but a commit. -/
theorem advanced_advance (hinv : Inv service s) (hprocess : s.processes q = some ⟨request, phase⟩)
    (hphase : ∀ result claimed, phase ≠ .commit result claimed) :
    Advanced service q s (advance service s q input request phase) := by
  have hfits : Fits service s q request phase := hinv.fits q _ hprocess
  cases phase with
  | start => exact advanced_begin hinv hfits
  | scope key row =>
    obtain ⟨hopen, hheld, hkeyed⟩ := hfits
    simp only [advance]
    split
    next => exact hinv.waits
    rename_i hfree
    have hnone : s.scopeLock key = none := by simpa using hfree
    have hkeeps : Keeps q s (s.lockScope q key) := keeps_lockScope hnone
    have hmine : (s.lockScope q key).scopeLock key = some q := update_self ..
    have hwrites : Writes (s.lockScope q key) q := writes_of_closed hopen
    refine (advanced_setPhase hwrites ?_).after (quiet_lockScope hnone)
    have howner : Fits service (s.lockScope q key) q request (.owner key row) :=
      ⟨hopen, hmine, fun r hr => (hheld r hr).imp_left (Held.keeps hkeeps), hkeyed.keeps hkeeps⟩
    have hlease : Fits service (s.lockScope q key) q request (.lease key) :=
      ⟨hopen, hmine, hkeyed.keeps hkeeps⟩
    split
    · exact hlease
    · exact hlease
    · exact howner
  | lease key =>
    simp only [advance]
    split
    next => exact advanced_refuse
    have hkeeps : Keeps q s (s.lockLease q key) :=
      keeps_of_rows rfl (fun _ h => h) fun _ h => h
    have hwrites : Writes (s.lockLease q key) q := writes_of_closed hfits.1
    refine (advanced_setPhase hwrites ?_).after quiet_lockLease
    exact ⟨hfits.1, hfits.2.1, hfits.2.2.keeps hkeeps⟩
  | row key =>
    obtain ⟨hopen, hlock, hkeyed⟩ := hfits
    simp only [advance]
    refine advanced_withRow hinv hopen fun row hfree hheld hid => ?_
    have hkeeps : Keeps q s (s.lockRow q request.task) := keeps_lockRow hfree
    exact advanced_lockedRow hopen (hkeeps.scope key hlock) (hkeyed.keeps hkeeps) hinv.sound
      hheld hid
  | owner key row => exact advanced_lookForOwner hfits.1 hfits.2.1 hfits.2.2.2 hinv hfits.2.2.1
  | commit result claimed => exact absurd rfl (hphase result claimed)
  | executing => exact advanced_setPhase (writes_of_closed hfits) hfits
  | ended outcome =>
    refine Quiet.gone { Quiet.refl q s with processes := ?_ } hfits (update_self ..)
    exact fun _ hne => update_of_ne hne _ _

end Statements

/-! ### Commits -/

section Commit

theorem mem_commit : row ∈ (s.commit q claimed).table.rows ↔
    row ∈ s.table.pending q ∨ row ∈ s.table.rows ∧ ∀ o ∈ s.table.pending q, o.id ≠ row.id :=
  mem_view

/-- A row either replaces a committed one or goes into a scope that is free. -/
theorem Written.cases (h : Written s q row) :
    (∃ old ∈ s.table.rows, old.id = row.id ∧ Replaces s q old row) ∨ Free s q row := by
  by_cases hold : ∃ old ∈ s.table.rows, old.id = row.id
  · obtain ⟨old, hold, hid⟩ := hold
    exact .inl ⟨old, hold, hid, h.replaces old hold hid⟩
  · exact .inr (h.inserts fun old hmem hid => hold ⟨old, hmem, hid⟩)

/-- An active row that is written was active before, or its scope is locked and free. -/
theorem Written.owns (h : Written s q row) (howns : Owns row scope) :
    (∃ old ∈ s.table.rows, old.id = row.id ∧ Owns old scope) ∨ Free s q row := by
  obtain ⟨hkind, hactive, hscope⟩ := howns
  rcases h.cases with ⟨old, hold, hid, hreplaces⟩ | hfree
  · refine (hreplaces.active hactive).imp_left fun hbefore => ?_
    exact ⟨old, hold, hid, hreplaces.kind ▸ hkind, hbefore, hreplaces.scope ▸ hscope⟩
  · exact .inr hfree

/-- A committed row after the commit: it is still there, or replaced. -/
theorem committed_stays (hwrites : Writes s q) (hrow : row ∈ s.table.rows) :
    row ∈ (s.commit q claimed).table.rows ∨
      ∃ new ∈ s.table.pending q, new.id = row.id ∧ Replaces s q row new := by
  by_cases hown : ∃ new ∈ s.table.pending q, new.id = row.id
  · obtain ⟨new, hnew, hid⟩ := hown
    exact .inr ⟨new, hnew, hid, (hwrites.written new hnew).replaces row hrow hid.symm⟩
  · exact .inl (mem_commit.mpr (.inr ⟨hrow, fun o ho hid => hown ⟨o, ho, hid⟩⟩))

theorem keeps_commit (hwrites : Writes s q) (hne : p ≠ q) : Keeps p s (s.commit q claimed) where
  lock id h := unlock_other hne h
  scope key h := unlockScopes_other hne h
  rows row hlock := by
    -- nobody else has written a row that is locked
    have hother : ∀ o ∈ s.table.pending q, o.id ≠ row.id := by
      intro o ho hid
      have := (hwrites.written o ho).locked
      rw [hid, hlock] at this
      exact hne (some.inj this)
    rw [mem_commit]
    refine ⟨fun h => ?_, fun h => .inr ⟨h, hother⟩⟩
    rcases h with hpending | ⟨hrow, -⟩
    · exact absurd rfl (hother row hpending)
    · exact hrow
  owners key hlock row' hrow' howns := by
    rcases mem_commit.mp hrow' with hpending | ⟨hrow, -⟩
    · rcases (hwrites.written row' hpending).owns howns with hbefore | hfree
      · exact hbefore
      · -- nobody else has made a task of a locked scope active
        have := (hfree key howns.2.2).1
        rw [hlock] at this
        exact absurd (some.inj this) hne
    · exact ⟨row', hrow, rfl, howns⟩
  stays row hrow := by
    rcases committed_stays hwrites hrow with hsame | ⟨new, hnew, hid, hreplaces⟩
    · exact ⟨row, hsame, rfl, rfl⟩
    · exact ⟨new, mem_commit.mpr (.inl hnew), hid, hreplaces.scope⟩

theorem singleFlight_commit (hsingle : SingleFlight s.table.rows) (hwrites : Writes s q) :
    SingleFlight (s.commit q claimed).table.rows := by
  -- a row that is written and one that is not
  have hmixed : ∀ a ∈ s.table.pending q, ∀ b ∈ s.table.rows, ∀ scope,
      Owns a scope → Owns b scope → a.id = b.id := by
    intro a ha b hb scope howna hownb
    rcases (hwrites.written a ha).owns howna with ⟨old, hold, hid, hownold⟩ | hfree
    · rw [← hid]
      exact hsingle old hold b hb scope hownold hownb
    · exact ((hfree scope howna.2.2).2 b hb hownb).symm
  intro a ha b hb scope howna hownb
  rcases mem_commit.mp ha with hapend | ⟨harow, -⟩ <;>
    rcases mem_commit.mp hb with hbpend | ⟨hbrow, -⟩
  · exact hwrites.active a hapend b hbpend howna.2.1 hownb.2.1
  · exact hmixed a hapend b hbrow scope howna hownb
  · exact (hmixed b hbpend a harow scope hownb howna).symm
  · exact hsingle a harow b hbrow scope howna hownb

theorem sound_commit (hsound : Sound s.table.rows s.claims) (hwrites : Writes s q)
    (hcommits : Commits s q request claimed) :
    Sound (s.commit q claimed).table.rows (s.commit q claimed).claims where
  unique a ha b hb hid := by
    rcases mem_commit.mp ha with hapend | ⟨harow, haother⟩ <;>
      rcases mem_commit.mp hb with hbpend | ⟨hbrow, hbother⟩
    · exact hwrites.unique a hapend b hbpend hid
    · exact absurd hid (hbother a hapend)
    · exact absurd hid.symm (haother b hbpend)
    · exact hsound.unique a harow b hbrow hid
  numbered row hrow := by
    rcases mem_commit.mp hrow with hpending | ⟨hold, -⟩
    · exact (hwrites.written row hpending).numbered
    · exact hsound.numbered row hold
  single := singleFlight_commit hsound.single hwrites
  claimed c hc := by
    rcases List.mem_append.mp hc with hbefore | hnow
    · obtain ⟨row, hrow, hid, hused⟩ := hsound.claimed c hbefore
      rcases committed_stays hwrites hrow with hsame | ⟨new, hnew, hidnew, hreplaces⟩
      · exact ⟨row, hsame, hid, hused⟩
      refine ⟨new, mem_commit.mpr (.inl hnew), hidnew.trans hid, ?_⟩
      have hle := hreplaces.attempt
      rcases hused with hless | ⟨heq, hnot⟩
      · exact .inl (lt_of_lt_of_le hless hle)
      · -- the same attempt does not become claimable again
        rcases hle.lt_or_eq with hlater | hsame
        · exact .inl (heq ▸ hlater)
        · exact .inr ⟨heq.trans hsame, fun hagain => hnot (hreplaces.claimable hsame.symm hagain)⟩
    · obtain ⟨-, -, -, -, -, new, hnew, hid, hattempt, hrunning⟩ :=
        hcommits.claims c (mem_toList.mp hnow)
      exact ⟨new, mem_commit.mpr (.inl hnew), hid, .inr ⟨hattempt.symm, hrunning⟩⟩
  nodup := by
    have honce : claimed.toList.Nodup := by cases claimed <;> simp
    refine List.nodup_append.mpr ⟨hsound.nodup, honce, fun c hc d hd heq => ?_⟩
    subst heq
    obtain ⟨old, hheld, hid, hattempt, hclaimable, -⟩ :=
      hcommits.claims c (mem_toList.mp hd)
    obtain ⟨row, hrow, hidrow, hused⟩ := hsound.claimed c hc
    cases hsound.unique row hrow old hheld.1 (hidrow.trans hid.symm)
    rcases hused with hless | ⟨-, hnot⟩
    · omega
    · exact hnot hclaimable

end Commit

/-! ### Runs -/

section Runs

/-- A step of one process leaves the others what they know. -/
theorem Inv.of_step (hinv : Inv service s) (hsound : Sound s'.table.rows s'.claims)
    (hothers : ∀ p, p ≠ q → Keeps p s s' ∧ s'.table.pending p = s.table.pending p ∧
      s'.processes p = s.processes p) (hwrites : Writes s' q)
    (hfits : ∀ process, s'.processes q = some process →
      Fits service s' q process.request process.phase)
    (hclosed : s'.processes q = none → s'.table.pending q = []) : Inv service s' where
  sound := hsound
  writes p := by
    by_cases hpq : p = q
    · exact hpq ▸ hwrites
    · obtain ⟨hkeeps, hpending, -⟩ := hothers p hpq
      exact (hinv.writes p).keeps hkeeps hpending
  fits p process hprocess := by
    by_cases hpq : p = q
    · subst hpq
      exact hfits process hprocess
    · obtain ⟨hkeeps, hpending, hsame⟩ := hothers p hpq
      exact (hinv.fits p process (hsame.symm.trans hprocess)).keeps hkeeps hpending
  closed p hnone := by
    by_cases hpq : p = q
    · subst hpq
      exact hclosed hnone
    · obtain ⟨-, hpending, hsame⟩ := hothers p hpq
      exact hpending.trans (hinv.closed p (hsame.symm.trans hnone))

theorem Inv.advanced (hinv : Inv service s) (h : Advanced service q s s') : Inv service s' := by
  refine hinv.of_step ?_ (fun p hne => ⟨h.keeps hne, h.pending p hne, h.processes p hne⟩)
    h.writes h.fits h.closed
  rw [h.rows, h.claims]
  exact hinv.sound

theorem Inv.commit (hinv : Inv service s)
    (hprocess : s.processes q = some ⟨request, .commit result claimed⟩) :
    Inv service ((s.commit q claimed).setPhase q request (.ended (.returned result))) := by
  have hcommits : Commits s q request claimed := hinv.fits q _ hprocess
  have hopen : (s.commit q claimed).table.pending q = [] := update_self ..
  refine hinv.of_step (sound_commit hinv.sound (hinv.writes q) hcommits) (fun p hne => ?_)
    (writes_of_closed hopen) (fun process hprocess => ?_) fun _ => hopen
  · have hkeeps : Keeps p s (s.commit q claimed) := keeps_commit (hinv.writes q) hne
    exact ⟨{ hkeeps with }, update_of_ne hne _ _, update_of_ne hne _ _⟩
  · rw [setPhase_self] at hprocess
    cases hprocess
    exact hopen

/-- The process is about to commit. -/
def Process.Committing (process : Process) : Prop :=
  ∃ result claimed, process.phase = .commit result claimed

/-- Every action but a commit. -/
theorem advanced_step {action : Action} (hinv : Inv service s)
    (h : ∀ p input process, action = .statement p input → s.processes p = some process →
      ¬process.Committing) :
    ∃ q, Advanced service q s (step service s action) := by
  cases action with
  | call q request =>
    refine ⟨q, ?_⟩
    simp only [step]
    split
    next hnone =>
      have hopen := hinv.closed q hnone
      refine advanced_setPhase (writes_of_closed hopen) ?_
      exact hopen
    next => exact hinv.waits
  | statement q input =>
    refine ⟨q, ?_⟩
    simp only [step]
    split
    next => exact hinv.waits
    next process hprocess =>
      refine advanced_advance hinv hprocess fun result claimed hphase => ?_
      exact h q input process rfl hprocess ⟨result, claimed, hphase⟩
  | failure q =>
    refine ⟨q, ?_⟩
    simp only [step]
    split
    next => exact hinv.waits
    next => exact advanced_refuse
  | crash q =>
    refine ⟨q, Quiet.gone { quiet_rollback with processes := ?_ } rollback_pending (update_self ..)⟩
    exact fun _ hne => update_of_ne hne _ _

/-- The task keeps its row, and the number of its attempt does not fall. -/
def AttemptsGrow (s s' : State) : Prop :=
  ∀ row ∈ s.table.rows, (∃ row' ∈ s'.table.rows, row'.id = row.id) ∧
    ∀ row' ∈ s'.table.rows, row'.id = row.id → row.attempt ≤ row'.attempt

/-- A retry, a handoff or a recovery brings about an attempt with a greater number. -/
def Rotated (s s' : State) (process : Process) : Prop :=
  process.request.Rotates → ∃ row ∈ s.table.rows, ∃ row' ∈ s'.table.rows,
    row.id = process.request.task ∧ row'.id = process.request.task ∧ row.attempt < row'.attempt

/-- The attempt of a fenced transaction is the current one and its status is allowed. -/
def FenceHolds (s : State) (process : Process) : Prop :=
  ∀ task attempt allowed, process.request = .domain task attempt allowed →
    ∃ row ∈ s.table.rows, row.id = task ∧ Fenced row attempt allowed

variable (service) in
/-- What is asked of a step. -/
structure StepFenced (s : State) (action : Action) : Prop where
  attempts : AttemptsGrow s (step service s action)
  commits : ∀ p input process, action = .statement p input → s.processes p = some process →
    process.Committing → Rotated s (step service s action) process ∧ FenceHolds s process

theorem attemptsGrow_of_rows (hinv : Inv service s) (h : s'.table.rows = s.table.rows) :
    AttemptsGrow s s' := by
  intro row hrow
  refine ⟨⟨row, h ▸ hrow, rfl⟩, fun row' hrow' hid => ?_⟩
  rw [hinv.sound.unique row' (h ▸ hrow') row hrow hid]

theorem attemptsGrow_commit (hinv : Inv service s) : AttemptsGrow s (s.commit q claimed) := by
  have hwrites := hinv.writes q
  intro row hrow
  refine ⟨?_, fun row' hrow' hid => ?_⟩
  · rcases committed_stays hwrites hrow with hsame | ⟨new, hnew, hid, -⟩
    · exact ⟨row, hsame, rfl⟩
    · exact ⟨new, mem_commit.mpr (.inl hnew), hid⟩
  · rcases mem_commit.mp hrow' with hpending | ⟨hold, -⟩
    · exact ((hwrites.written row' hpending).replaces row hrow hid.symm).attempt
    · rw [hinv.sound.unique row' hold row hrow hid]

theorem Commits.rotated (h : Commits s q request claimed) :
    Rotated s (s.commit q claimed) ⟨request, phase⟩ := by
  intro hrotates
  obtain ⟨old, hheld, hid, new, hnew, hidnew, hless⟩ := h.rotates hrotates
  exact ⟨old, hheld.1, new, mem_commit.mpr (.inl hnew), hid, hidnew, hless⟩

theorem Commits.fenceHolds (h : Commits s q request claimed) : FenceHolds s ⟨request, phase⟩ := by
  intro task attempt allowed heq
  obtain ⟨row, hheld, hrest⟩ := h.fenced task attempt allowed heq
  exact ⟨row, hheld.1, hrest⟩

/-- **Step lemma.** -/
theorem Inv.step (hinv : Inv service s) (action : Action) :
    Inv service (AdminOperations.step service s action) ∧ StepFenced service s action := by
  by_cases hcommit : ∃ p input process, action = .statement p input ∧
      s.processes p = some process ∧ process.Committing
  · obtain ⟨p, input, ⟨request, phase⟩, rfl, hprocess, result, claimed, rfl⟩ := hcommit
    have hcommits : Commits s p request claimed := hinv.fits p _ hprocess
    have hstep : AdminOperations.step service s (.statement p input) =
        (s.commit p claimed).setPhase p request (.ended (.returned result)) := by
      simp only [AdminOperations.step, hprocess, advance]
    refine ⟨hstep ▸ hinv.commit hprocess, ?_, fun p' input' process heq hsome _ => ?_⟩
    · rw [hstep]
      have hgrow : AttemptsGrow s (s.commit p claimed) := attemptsGrow_commit hinv
      exact hgrow
    · cases heq
      cases hprocess.symm.trans hsome
      rw [hstep]
      exact ⟨hcommits.rotated, hcommits.fenceHolds⟩
  · have hnot : ∀ p input process, action = .statement p input → s.processes p = some process →
        ¬process.Committing :=
      fun p input process hp hprocess hc => hcommit ⟨p, input, process, hp, hprocess, hc⟩
    obtain ⟨q, hadvanced⟩ := advanced_step hinv hnot
    refine ⟨hinv.advanced hadvanced, attemptsGrow_of_rows hinv hadvanced.rows, ?_⟩
    exact fun p input process hp hprocess hc => absurd hc (hnot p input process hp hprocess)

/-- A table at rest, with at most one active task of each scope. -/
structure Start (s : State) : Prop where
  unique : ∀ a ∈ s.table.rows, ∀ b ∈ s.table.rows, a.id = b.id → a = b
  numbered : ∀ row ∈ s.table.rows, Numbered row
  single : SingleFlight s.table.rows
  pending : ∀ p, s.table.pending p = []
  processes : ∀ p, s.processes p = none
  claims : s.claims = []

theorem Start.inv (h : Start s) : Inv service s where
  sound := by
    refine ⟨h.unique, h.numbered, h.single, fun c hc => ?_, h.claims ▸ List.nodup_nil⟩
    rw [h.claims] at hc
    cases hc
  writes p := writes_of_closed (h.pending p)
  fits p process hprocess := by
    rw [h.processes p] at hprocess
    cases hprocess
  closed p _ := h.pending p

end Runs

end Machine

open Runs in
/-- Administrator operations are single-flight and fenced.  In every state of every run no
attempt has been claimed twice and at most one task of a scope is active.  In every step the
number of the attempt of a task does not fall; the commit of a retry, a handoff or a recovery
makes it grow; and a transaction behind the fence commits while its attempt is the current
one and its status is one of those it allows. -/
theorem admin_operations_fenced (service : Service) {start : State} (hstart : Start start)
    (run : List Action) :
    Throughout (step service) (fun s => s.claims.Nodup ∧ SingleFlight s.table.rows) start run ∧
      AllSteps (step service) (StepFenced service) start run := by
  have hinv : Inv service start := hstart.inv
  constructor
  · exact throughout_of_allSteps (fun s h => ⟨h.sound.nodup, h.sound.single⟩)
      (fun s action h _ => (h.step action).1) hinv allSteps_true
  · exact allSteps_of_inv (fun s action h => (h.step action).1)
      (fun s action h => (h.step action).2) hinv

/-- Any registered operation, in a scope of its own name. -/
def sampleService : Service where
  idText n := (toString n).toList
  reprText t := t
  registry _ := some ⟨["maintenance".toList], [[]], 60⟩
  validatedOptions t := some t
  scanId _ := none
  withScan t _ _ := t
  cleanupOptions _ := []

def sampleInput : Input := ⟨0, .missing, none, true⟩

def samplePreparation : Preparation where
  task := 7
  operationType := "admin-rebuild".toList
  scopeKey := "library:rebuild:active".toList
  title := "Rebuild".toList
  entity := []
  options := []
  queueName := "maintenance".toList
  jobTimeout := none

def emptyState : State := ⟨⟨[], fun _ => [], fun _ => none⟩, fun _ => none, fun _ => none,
  fun _ => none, []⟩

/-- A task is prepared, its first attempt is delivered twice, and a transaction of the worker
commits behind the fence. -/
def sampleRun : List Action :=
  let statement (p : Nat) : Action := .statement p sampleInput
  [.call 0 (.prepare samplePreparation), statement 0, statement 0, statement 0, statement 0,
    .call 1 (.claim 7 1), .call 2 (.claim 7 1), statement 1, statement 2, statement 1, statement 2,
    .call 3 (.domain 7 1 [.running]), statement 3, statement 3]

theorem admin_operations_fenced_sampleRun :
    (sampleRun.foldl (step sampleService) emptyState).claims = [(7, 1)] ∧
      (Runs.Throughout (step sampleService) (fun s => s.claims.Nodup ∧ SingleFlight s.table.rows)
          emptyState sampleRun ∧
        Runs.AllSteps (step sampleService) (StepFenced sampleService) emptyState sampleRun) := by
  have hnone : ∀ row, row ∉ emptyState.table.rows := fun _ => List.not_mem_nil
  have hstart : Start emptyState :=
    ⟨fun a ha => absurd ha (hnone a), fun a ha => absurd ha (hnone a),
      fun a ha => absurd ha (hnone a), fun _ => rfl, fun _ => rfl, rfl⟩
  exact ⟨by decide +kernel, admin_operations_fenced sampleService hstart sampleRun⟩

end AdminOperations
