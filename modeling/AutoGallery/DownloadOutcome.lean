import AutoGallery.SubscriptionSelection

/-!
# What a finished download does to credentials

A finished job reports a success or a failed login.  The report changes the health of the
credential the job was started with, if that is still the one in use, and of no other
(`outcome_touches_own_credential`).
-/

namespace SubscriptionMembership

open PyText List

structure DownloadJob where
  subscriptionSourceId : Option Uuid
  triggeringUserSubscriptionId : Option Uuid
  triggeringRemoteAccountId : Option Uuid
  triggeringCredentialGeneration : Option Nat

/-- `_private_account_can_accept_outcome`. -/
def privateAccountCanAcceptOutcome (account : RemoteAccount) (generation : Option Nat) : Bool :=
  account.isEnabled && account.authStatus ≠ some "deleted".toList &&
    account.credentialCiphertext.getD [] ≠ [] && generation = some account.credentialGeneration

/-- `_binding_provenance_is_current`. -/
def bindingProvenanceIsCurrent (account : Option RemoteAccount) (binding : UserSubscriptionSource)
    (generation : Option Nat) : Bool :=
  binding.authStatus ≠ some "deleted".toList &&
    match account with
    | none => generation.isNone && binding.remoteAccountId.isNone
    | some account => binding.remoteAccountId = some account.id &&
        binding.userId = account.userId && privateAccountCanAcceptOutcome account generation

def RemoteAccount.isXOauth (account : RemoteAccount) : Bool :=
  account.source = "x".toList && account.authMethod = some "oauth2".toList

def RemoteAccount.anonymousOnly (account : RemoteAccount) : Bool :=
  account.downloadAuthStatus = "anonymous_only".toList

/-- `safe_reason`. -/
def safeReason (casefold : Text → Text) (reason : Text) : Text :=
  let texts := [("401", "HTTP 401 Unauthorized"), ("403", "HTTP 403 Forbidden"),
    ("cookie", "Cookie expired or missing"), ("token", "Token expired or invalid"),
    ("login", "Login required")]
  (((texts.find? fun entry => entry.1.toList <:+: casefold reason).map Prod.snd).getD
    "Authentication failed").toList

/-- The binding is marked unhealthy for this reason. -/
def damaged (now : Time) (reason : Text) (binding : UserSubscriptionSource) :
    UserSubscriptionSource :=
  { binding with
    authHealthy := false
    authStatus := some "unhealthy".toList
    authErrorReason := some reason
    lastAuthCheckedAt := some now }

section Outcomes

variable (now : Time) (job : DownloadJob) (db : Database)

/-- The account the job names, if it is still there. -/
def triggerAccount : Option RemoteAccount :=
  job.triggeringRemoteAccountId.bind fun id => db.accounts.find? (·.id = id)

/-- The job's own binding, with the credential that the job was started with. -/
def provenanceMatches (binding : UserSubscriptionSource) : Bool :=
  job.subscriptionSourceId = some binding.subscriptionSourceId &&
    job.triggeringUserSubscriptionId = some binding.userSubscriptionId &&
    job.triggeringRemoteAccountId = binding.remoteAccountId &&
    bindingProvenanceIsCurrent (triggerAccount job db) binding job.triggeringCredentialGeneration

/-- `mark_source_sync_success`; `nextCheckAt` gives the new due time of a binding. -/
def markSourceSyncSuccess (nextCheckAt : UserSubscriptionSource → Option Time) : Database :=
  -- the bindings of the source, of active members
  let shares row := job.subscriptionSourceId = some row.subscriptionSourceId &&
    row.authStatus ≠ some "deleted".toList &&
    (db.memberships.find? (·.id = row.userSubscriptionId)).any (·.isActive)
  let healed := db.bindings.any fun row => shares row && provenanceMatches job db row
  { db with
    bindings := db.bindings.map fun row =>
      if shares row then
        if provenanceMatches job db row then { row with
          nextSyncAt := nextCheckAt row
          lastSuccessfulAuth := some now
          authHealthy := true
          authStatus := some "healthy".toList
          authErrorReason := none
          lastAuthCheckedAt := some now }
        else { row with nextSyncAt := nextCheckAt row }
      else row
    accounts := db.accounts.map fun row =>
      if healed && (triggerAccount job db).any (·.id = row.id) && !row.isXOauth then { row with
        authStatus := some "healthy".toList
        authErrorReason := none
        lastAuthenticatedAt := some now }
      else row }

/-- `mark_source_auth_failure`; `isProtected` tells of a source whether its creator is, and
`checkedAt` is the time when the bindings of such sources are paused. -/
def markSourceAuthFailure (casefold : Text → Text) (isProtected : Uuid → Bool) (reason : Text)
    (checkedAt : Time) : Database :=
  let account := triggerAccount job db
  if job.triggeringRemoteAccountId.isSome && account.all fun account =>
      !privateAccountCanAcceptOutcome account job.triggeringCredentialGeneration then db
  else if !db.bindings.any (provenanceMatches job db) then db
  else
    let reason := safeReason casefold reason
    let cookie := "download_cookie_required".toList
    { db with
      bindings := db.bindings.map fun row =>
        -- `_pause_protected_x_bindings` comes last and overwrites
        if isProtected row.subscriptionSourceId && account.any fun account =>
            account.isXOauth && !account.anonymousOnly && row.remoteAccountId = some account.id then
          damaged checkedAt cookie row
        else if provenanceMatches job db row then
          damaged now (if account.any fun account => account.isXOauth && account.anonymousOnly
            then cookie else reason) row
        else row
      accounts := db.accounts.map fun row =>
        if account.any (·.id = row.id) then
          if !row.isXOauth then
            { row with authStatus := some "unhealthy".toList, authErrorReason := some reason }
          else if row.anonymousOnly then row
          else { row with downloadAuthStatus := "unhealthy".toList }
        else row }

end Outcomes

section Frame

def RemoteAccount.health (account : RemoteAccount) : Option Text × Option Text × Text :=
  (account.authStatus, account.authErrorReason, account.downloadAuthStatus)

def UserSubscriptionSource.health (binding : UserSubscriptionSource) :
    Bool × Option Text × Option Text × Option Time × Option Time :=
  (binding.authHealthy, binding.authStatus, binding.authErrorReason, binding.lastAuthCheckedAt,
    binding.lastSuccessfulAuth)

variable (job : DownloadJob) (db db' : Database)

/-- The account is the one the job was started with, and still has that credential. -/
structure InUse (account : RemoteAccount) : Prop where
  found : triggerAccount job db = some account
  enabled : account.isEnabled
  notDeleted : account.authStatus ≠ some "deleted".toList
  credential : account.credentialCiphertext.getD [] ≠ []
  generation : job.triggeringCredentialGeneration = some account.credentialGeneration

/-- The binding of the triggering membership on the source, with the job's credential. -/
structure Own (binding : UserSubscriptionSource) : Prop where
  source : job.subscriptionSourceId = some binding.subscriptionSourceId
  membership : job.triggeringUserSubscriptionId = some binding.userSubscriptionId
  credential : (∃ account, InUse job db account ∧ binding.remoteAccountId = some account.id) ∨
    job.triggeringRemoteAccountId = none ∧ job.triggeringCredentialGeneration = none ∧
      binding.remoteAccountId = none

/-- The outcome has changed the health of the job's credential only, after a failure also that
of other bindings of an X account with a download cookie, and nothing if the job's credential
is gone. -/
structure Touches (failure : Prop) : Prop where
  accounts : Forall₂ (fun a a' => a'.health = a.health ∨
    ∃ account, InUse job db account ∧ a.id = account.id) db.accounts db'.accounts
  bindings : Forall₂ (fun b b' => b'.health = b.health ∨ Own job db b ∨ failure ∧
    ∃ account, InUse job db account ∧ account.isXOauth ∧ ¬ account.anonymousOnly ∧
      b.remoteAccountId = some account.id)
    db.bindings db'.bindings
  stale : job.triggeringCredentialGeneration ≠ none → (∀ account, ¬ InUse job db account) →
    db'.accounts.map RemoteAccount.health = db.accounts.map RemoteAccount.health ∧
      db'.bindings.map UserSubscriptionSource.health =
        db.bindings.map UserSubscriptionSource.health

variable {job db} {binding : UserSubscriptionSource} {failure : Prop}

theorem own_of_matches (hmatches : provenanceMatches job db binding) :
    Own job db binding ∧
      ∀ account, triggerAccount job db = some account → InUse job db account := by
  simp only [provenanceMatches, bindingProvenanceIsCurrent, Bool.and_eq_true,
    decide_eq_true_eq] at hmatches
  obtain ⟨⟨⟨hsource, hmembership⟩, haccount⟩, -, hcurrent⟩ := hmatches
  cases hfound : triggerAccount job db with
  | none =>
    simp only [hfound, Bool.and_eq_true, Option.isNone_iff_eq_none] at hcurrent
    exact ⟨⟨hsource, hmembership, .inr ⟨haccount.trans hcurrent.2, hcurrent⟩⟩, nofun⟩
  | some account =>
    simp only [hfound, privateAccountCanAcceptOutcome, Bool.and_eq_true,
      decide_eq_true_eq] at hcurrent
    obtain ⟨⟨hid, -⟩, ⟨⟨henabled, hdeleted⟩, hcredential⟩, hgeneration⟩ := hcurrent
    have hused : InUse job db account := ⟨hfound, henabled, hdeleted, hcredential, hgeneration⟩
    exact ⟨⟨hsource, hmembership, .inl ⟨account, hused, hid⟩⟩, fun _ h => Option.some.inj h ▸ hused⟩

/-- What is changed row by row touches what the rows are allowed to. -/
theorem touches_of {f : RemoteAccount → RemoteAccount}
    {g : UserSubscriptionSource → UserSubscriptionSource}
    (haccounts : ∀ a, (f a).health = a.health ∨ ∃ account, InUse job db account ∧ a.id = account.id)
    (hbindings : ∀ b, (g b).health = b.health ∨ Own job db b ∨ failure ∧
      ∃ account, InUse job db account ∧ account.isXOauth ∧ ¬ account.anonymousOnly ∧
      b.remoteAccountId = some account.id) :
    Touches job db { db with accounts := db.accounts.map f, bindings := db.bindings.map g }
      failure where
  accounts := forall₂_map_right_iff.mpr (forall₂_same.mpr fun a _ => haccounts a)
  bindings := forall₂_map_right_iff.mpr (forall₂_same.mpr fun b _ => hbindings b)
  stale hgeneration hgone := by
    simp only [map_map, map_inj_left, Function.comp_apply]
    refine ⟨fun a _ => (haccounts a).resolve_right fun ⟨account, hused, _⟩ => hgone account hused,
      fun b _ => (hbindings b).resolve_right ?_⟩
    rintro (⟨-, -, ⟨account, hused, -⟩ | ⟨-, hnone, -⟩⟩ | ⟨-, account, hused, -⟩)
    · exact hgone account hused
    · exact hgeneration hnone
    · exact hgone account hused

/-- **A download outcome touches only its own credential**, and nothing if that has been
replaced, disabled or deleted since the job was started. -/
theorem outcome_touches_own_credential (job : DownloadJob) (db : Database) (now : Time)
    (nextCheckAt : UserSubscriptionSource → Option Time) (casefold : Text → Text)
    (isProtected : Uuid → Bool) (reason : Text) (checkedAt : Time) :
    Touches job db (markSourceSyncSuccess now job db nextCheckAt) False ∧
      Touches job db
        (markSourceAuthFailure now job db casefold isProtected reason checkedAt) True := by
  constructor
  · refine touches_of (fun a => ?_) fun b => ?_
    · split_ifs with hchanged
      · simp only [Bool.and_eq_true, any_eq_true, decide_eq_true_eq,
          Option.any_eq_true] at hchanged
        obtain ⟨⟨⟨b, -, -, hmatches⟩, account, hfound, hid⟩, -⟩ := hchanged
        exact .inr ⟨account, (own_of_matches hmatches).2 account hfound, hid.symm⟩
      · exact .inl rfl
    · split_ifs with _ hmatches
      · exact .inr (.inl (own_of_matches hmatches).1)
      · exact .inl rfl
      · exact .inl rfl
  · have hself : Touches job db db True := by
      have hsame := @touches_of job db True id id (fun _ => .inl rfl) fun _ => .inl rfl
      rwa [map_id, map_id] at hsame
    unfold markSourceAuthFailure
    dsimp only
    split
    · exact hself
    split
    · exact hself
    rename_i hsome
    rw [Bool.not_eq_true', Bool.not_eq_false, any_eq_true] at hsome
    obtain ⟨_, -, hmatches⟩ := hsome
    have hused := (own_of_matches hmatches).2
    refine touches_of (fun a => ?_) fun b => ?_
    · split
      next hfound =>
        simp only [Option.any_eq_true, decide_eq_true_eq] at hfound
        obtain ⟨account, hfound, hid⟩ := hfound
        exact .inr ⟨account, hused account hfound, hid.symm⟩
      · exact .inl rfl
    · split
      next hpaused =>
        simp only [Bool.and_eq_true, Option.any_eq_true, decide_eq_true_eq] at hpaused
        obtain ⟨-, account, hfound, ⟨hx, hcookie⟩, hid⟩ := hpaused
        exact .inr (.inr ⟨trivial, account, hused account hfound, hx, by simpa using hcookie, hid⟩)
      split
      · exact .inr (.inl (own_of_matches ‹_›).1)
      · exact .inl rfl

end Frame

end SubscriptionMembership
