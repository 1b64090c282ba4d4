import AutoGallery.PyText
import AutoGallery.ReadCommitted
import Mathlib.Tactic.Common

/-!
# Administrator operations

An operation of an administrator is a row of `task_runs`.  Its dispatch record has the
number of the current attempt.  The transport only carries the id of the task and the
number of an attempt, and may deliver both more than once and long after a newer attempt
has been prepared.  So whatever a worker writes is written under the lock of the row, after
a look at the attempt and the status.

Every call runs in a transaction at read committed.  A transaction that makes a task active
holds an advisory lock on the scope of the operation to its end.  A worker holds another
lock, the lease, for as long as it executes, and so do the transactions that replace its
attempt.  A process may stop between any two statements: its transactions are rolled back
and its locks are free.

Any process may start any of the calls at any time and with any arguments, also those that
only a worker makes.  This covers deliveries that come twice or late.
-/

namespace AdminOperations

open PyText ReadCommitted

inductive Status
  | enqueued
  | running
  | paused
  | recovering
  | complete
  | failed
  | stale
  | cancelled
  deriving DecidableEq

def Status.text : Status → Text
  | enqueued => "enqueued".toList
  | running => "running".toList
  | paused => "paused".toList
  | recovering => "recovering".toList
  | complete => "complete".toList
  | failed => "failed".toList
  | stale => "stale".toList
  | cancelled => "cancelled".toList

/-- `_ACTIVE_ADMIN_STATUSES`. -/
def activeStatuses : List Status := [.enqueued, .running, .paused, .recovering]

def Status.Active (s : Status) : Prop := s ∈ activeStatuses

instance (s : Status) : Decidable s.Active := inferInstanceAs (Decidable (s ∈ activeStatuses))

/-- A claim may start from this status. -/
def Status.Claimable (s : Status) : Prop := s = enqueued ∨ s = recovering

instance (s : Status) : Decidable s.Claimable := inferInstanceAs (Decidable (_ ∨ _))

inductive Publication
  | pending
  | published
  | failed
  deriving DecidableEq

/-- The record under `admin_dispatch` in the meta data of a task. -/
structure Dispatch where
  operationType : Text
  scopeKey : Text
  queueName : Text
  options : Text
  publicationState : Publication
  publicationFailures : Nat
  nextRetryAt : Option Nat
  nextProbeAt : Option Nat
  lastError : Option Text
  attempt : Nat
  rqJobId : Text
  jobTimeout : Nat
  checkpoints : Option Text
  recoveredFromAttempt : Option Nat
  deriving DecidableEq

inductive Kind
  | admin
  | download
  | importing
  deriving DecidableEq

/-- The columns of `task_runs` that the calls read. -/
structure TaskRun where
  id : Nat
  kind : Kind
  operationType : Text
  title : Text
  status : Status
  queueName : Text
  rqJobId : Option Text
  attempts : Nat
  lastHeartbeatAt : Option Nat
  errorLog : Option Text
  /-- `entity`, `repository_id` and `batch_cancel_cleanup_task_id` of the meta data -/
  entity : Option Text
  repositoryId : Option Text
  cleanupTask : Option Nat
  dispatch : Option Dispatch
  deriving DecidableEq

/-- The number of the current attempt. -/
def TaskRun.attempt (row : TaskRun) : Nat := (row.dispatch.map Dispatch.attempt).getD 0

structure Spec where
  queueNames : List Text
  scopePrefixes : List Text
  defaultJobTimeout : Nat

/-- The functions of other modules. -/
structure Service where
  idText : Nat → Text
  reprText : Text → Text
  /-- `ADMIN_OPERATION_REGISTRY.get` -/
  registry : Text → Option Spec
  /-- `_validated_options`, unless it raises -/
  validatedOptions : Text → Option Text
  /-- the scan that the options of a dedup scan name -/
  scanId : Text → Option Nat
  /-- the options with the scan and its generation -/
  withScan : Text → Nat → Nat → Text
  /-- the options of the cleanup of a batch -/
  cleanupOptions : Nat → Text

inductive Refusal
  | unsupportedType (operationType : Text)
  | unsupportedQueue (queue operationType : Text)
  | unsupportedScope (scope operationType : Text)
  | invalidOptions
  | timeoutNotPositive
  | alreadyRunning (title : Text)
  | duplicateTask
  | taskNotFound
  | legacyRetry
  | stillExecuting
  | invalidScan
  | scanMissing
  | scanStatus (status : Text)
  | retryFrom (status : Status)
  | operationRunning
  | notCurrent
  | cannotRunFrom (status : Status)
  | queueNotRegistered
  | noScope
  | liveLease
  | batchTerminal
  | legacyBatch
  /-- what the database raises, a lost connection for example -/
  | unavailable
  deriving DecidableEq

/-- The text that the exception is raised with. -/
def Refusal.message (service : Service) : Refusal → Text
  | unsupportedType t => "Unsupported admin operation type: ".toList ++ t
  | unsupportedQueue q t =>
    "Unsupported queue ".toList ++ service.reprText q ++ " for admin operation ".toList ++ t
  | unsupportedScope s t =>
    "Unsupported scope ".toList ++ service.reprText s ++ " for admin operation ".toList ++ t
  | invalidOptions => "Administrator operation options must be an object".toList
  | timeoutNotPositive => "Administrator operation timeout must be positive".toList
  | alreadyRunning title => title ++ " already running".toList
  | duplicateTask | unavailable => []
  | taskNotFound => "Task not found".toList
  | legacyRetry => "This legacy admin operation cannot be durably retried".toList
  | stillExecuting => "Previous administrator operation attempt is still executing".toList
  | invalidScan => "Asset dedup retry has no valid scan".toList
  | scanMissing => "Asset dedup scan no longer exists".toList
  | scanStatus status =>
    "Asset dedup scan is ".toList ++ status ++ "; retry is unavailable".toList
  | retryFrom status =>
    "Task is ".toList ++ status.text ++ "; retry is only available after failure".toList
  | operationRunning => "Operation already running".toList
  | notCurrent => "Administrator operation attempt is no longer current".toList
  | cannotRunFrom status =>
    "Administrator operation attempt cannot run from ".toList ++ status.text
  | queueNotRegistered => "Administrator operation queue is no longer registered".toList
  | noScope => "Administrator operation has no registered execution scope".toList
  | liveLease => "Administrator operation already has a live execution lease".toList
  | batchTerminal => "Batch is already complete".toList
  | legacyBatch => "Recover this legacy batch first".toList

/-- How a call ends: it raises, or returns something. -/
inductive Outcome
  | raised (reason : Refusal)
  | returned (value : Text)
  deriving DecidableEq

/-! ### Scopes -/

/-- The fixed scopes of rows from before the dispatch record. -/
def legacyScopes : List (Text × Text) :=
  [("admin-rebuild".toList, "library:rebuild:active".toList),
    ("admin-disk-import".toList, "library:disk-import:active".toList),
    ("admin-creator-reenrich".toList, "library:creator-reenrich:active".toList),
    ("danbooru-mapping-refresh".toList, "library:creator-reenrich:active".toList),
    ("admin-search-reindex".toList, "library:search-reindex:active".toList),
    ("admin-curation-backfill".toList, "library:curation-backfill:active".toList),
    ("admin-gitllery-sync".toList, "library:gitllery-sync:active".toList),
    ("hierarchy-delete".toList, "library:hierarchy-delete:active".toList),
    ("asset-dedup-scan".toList, "lock:admin:asset-dedup-scan".toList)]

/-- `_scope_for_task`. -/
def scopeForTask (row : TaskRun) : Option Text :=
  match row.dispatch with
  | some d => some d.scopeKey
  | none =>
    if row.operationType = "admin-clear".toList ∧ row.entity.getD [] ≠ [] then
      some ("library:clear:".toList ++ row.entity.getD [])
    else if row.operationType = "admin-gitllery-verify".toList ∧ row.repositoryId.getD [] ≠ [] then
      some ("gitllery:verify:".toList ++ row.repositoryId.getD [])
    else legacyScopes.lookup row.operationType

/-- The task is an active one of the scope. -/
def Owns (row : TaskRun) (scope : Text) : Prop :=
  row.kind = .admin ∧ row.status.Active ∧ scopeForTask row = some scope

instance (row : TaskRun) (scope : Text) : Decidable (Owns row scope) :=
  inferInstanceAs (Decidable (_ ∧ _ ∧ _))

/-- `_active_scope_owner`; the rows are in the order of their creation. -/
def activeScopeOwner (rows : List TaskRun) (scope : Text) (exclude : Option Nat) :
    Option TaskRun :=
  rows.find? fun row => Owns row scope ∧ exclude ≠ some row.id

/-- `_registered_spec`. -/
def registeredSpec (service : Service) (operationType scope queue : Text) :
    Except Refusal Spec :=
  match service.registry operationType with
  | none => .error (.unsupportedType operationType)
  | some spec =>
    if queue ∉ spec.queueNames then .error (.unsupportedQueue queue operationType)
    else if scope = [] ∨ ∀ start ∈ spec.scopePrefixes, ¬start <+: scope then
      .error (.unsupportedScope scope operationType)
    else .ok spec

/-! ### The rows that the calls write -/

section Rows

variable (service : Service)

/-- `deterministic_admin_rq_job_id`. -/
def rqJobIdFor (task attempt : Nat) : Text :=
  "admin-".toList ++ service.idText task ++ "-attempt-".toList ++
    (toString (max 1 attempt)).toList

/-- `_new_dispatch`. -/
def newDispatch (task attempt : Nat) (operationType scopeKey queueName options : Text)
    (jobTimeout : Nat) : Dispatch where
  operationType
  scopeKey
  queueName
  options
  publicationState := .pending
  publicationFailures := 0
  nextRetryAt := none
  nextProbeAt := none
  lastError := none
  attempt
  rqJobId := rqJobIdFor service task attempt
  jobTimeout
  checkpoints := none
  recoveredFromAttempt := none

/-- The arguments of `prepare_admin_operation`. -/
structure Preparation where
  task : Nat
  operationType : Text
  scopeKey : Text
  title : Text
  entity : Text
  options : Text
  queueName : Text
  jobTimeout : Option Nat
  deriving DecidableEq

/-- The row that `prepare_admin_operation` inserts. -/
def preparedRow (prep : Preparation) (options : Text) (timeout : Nat) : TaskRun :=
  let dispatch :=
    newDispatch service prep.task 1 prep.operationType prep.scopeKey prep.queueName options timeout
  { id := prep.task
    kind := .admin
    operationType := prep.operationType
    title := prep.title
    status := .enqueued
    queueName := prep.queueName
    rqJobId := some dispatch.rqJobId
    attempts := 1
    lastHeartbeatAt := none
    errorLog := none
    entity := some prep.entity
    repositoryId := none
    cleanupTask := none
    dispatch := some dispatch }

/-- What `prepare_admin_operation` does before it locks the scope. -/
def checkPreparation (prep : Preparation) : Except Refusal TaskRun := do
  let spec ← registeredSpec service prep.operationType prep.scopeKey prep.queueName
  match service.validatedOptions prep.options with
  | none => .error .invalidOptions
  | some options =>
    let timeout :=
      if prep.jobTimeout.getD 0 = 0 then spec.defaultJobTimeout else prep.jobTimeout.getD 0
    if timeout = 0 then .error .timeoutNotPositive
    else .ok (preparedRow service prep options timeout)

section

variable (row : TaskRun)

/-- The task goes on with another attempt. -/
def rotated (dispatch : Dispatch) : TaskRun :=
  { row with
    status := .enqueued
    attempts := dispatch.attempt
    rqJobId := some dispatch.rqJobId
    errorLog := some []
    dispatch := some dispatch }

/-- `dict.get(key) or default` for a number. -/
def orDefault (n default : Nat) : Nat := if n = 0 then default else n

/-- `dict.get(key) or other or default` for a text. -/
def firstNonempty (a b default : Text) : Text :=
  if a ≠ [] then a else if b ≠ [] then b else default

/-- The dispatch of the next attempt, with the queue, the timeout and the checkpoints of
the last one. -/
def nextDispatch (last : Dispatch) (attempt : Nat) (scope options : Text) :
    Dispatch :=
  { newDispatch service row.id attempt row.operationType scope
      (firstNonempty last.queueName row.queueName "maintenance".toList) options
      (orDefault last.jobTimeout 14400) with
    checkpoints := last.checkpoints }

/-- The row of an `AssetDedupScan`. -/
structure Scan where
  status : Text
  generation : Nat
  deriving DecidableEq

/-- The options of the next attempt.  A dedup scan goes on from where it is; the source looks
it up before it locks the row of the task. -/
def retryOptions (last : Dispatch) (scan : Option Scan) : Except Refusal Text :=
  match service.validatedOptions last.options with
  | none => .error .invalidOptions
  | some options =>
    if row.operationType ≠ "asset-dedup-scan".toList then .ok options
    else
      match service.scanId last.options with
      | none => .error .invalidScan
      | some id =>
        match scan with
        | none => .error .scanMissing
        | some scan =>
          if scan.status ∉ ["pending".toList, "running".toList, "failed".toList] then
            .error (.scanStatus scan.status)
          else .ok (service.withScan options id scan.generation)

/-- The row of the next attempt of a failed task. -/
def retriedRow (last : Dispatch) (scope : Text) (scan : Option Scan) :
    Except Refusal TaskRun :=
  (retryOptions service row last scan).map fun options =>
    rotated row (nextDispatch service row last (max row.attempts last.attempt + 1) scope options)

/-- `prepare_admin_operation_handoff` on the locked row. -/
def handoffRow (attempt : Nat) (options : Text) (delaySeconds now : Nat) :
    Except Outcome TaskRun :=
  match row.dispatch with
  | some last =>
    if row.kind ≠ .admin ∨ last.attempt ≠ attempt ∨ ¬row.status.Active then
      .error (.returned "None".toList)
    else
      match service.validatedOptions options with
      | none => .error (.raised .invalidOptions)
      | some options =>
        .ok (rotated row
          { newDispatch service row.id (attempt + 1) row.operationType last.scopeKey
              last.queueName options last.jobTimeout with
            nextRetryAt := some (now + max 1 (min delaySeconds 900)) })
  | none => .error (.returned "None".toList)

/-- `last_heartbeat_at` is less than 90 seconds old. -/
def HeartbeatFresh (now : Nat) : Prop :=
  ∃ at' ∈ row.lastHeartbeatAt, now < at' + 90

end

instance (row : TaskRun) (now : Nat) : Decidable (HeartbeatFresh row now) :=
  inferInstanceAs (Decidable (∃ at' ∈ row.lastHeartbeatAt, _))

/-- `_prepare_admin_operation_recovery_locked` on the locked row. -/
def recoveredRow (row : TaskRun) (attempt checkedAt : Nat) (scope : Text) :
    Except Outcome TaskRun :=
  match row.dispatch with
  | some last =>
    if row.kind ≠ .admin ∨ row.status ≠ .running ∨ last.attempt ≠ attempt ∨
        HeartbeatFresh row checkedAt then .error (.returned "None".toList)
    else
      match service.validatedOptions last.options with
      | none => .error (.raised .invalidOptions)
      | some options =>
        .ok { rotated row
            { nextDispatch service row last (attempt + 1) scope options with
              recoveredFromAttempt := some attempt } with
          lastHeartbeatAt := none }
  | none => .error (.returned "None".toList)

inductive RqStatus
  | queued
  | started
  | deferred
  | scheduled
  /-- finished, failed, stopped or canceled -/
  | ended (status : Text)
  deriving DecidableEq

def RqStatus.text : RqStatus → Text
  | queued => "queued".toList
  | started => "started".toList
  | deferred => "deferred".toList
  | scheduled => "scheduled".toList
  | ended status => status

/-- What the queue answers: the job's status, or that there is none, in which case it is
enqueued; any of the calls may fail. -/
inductive RqAnswer
  | existing (status : RqStatus)
  | missing
  | error (message : Text)
  deriving DecidableEq

/-- `_publication_retry_delay`. -/
def publicationRetryDelay (failures : Nat) : Nat :=
  if 5 ≤ failures - 1 then 900 else min 900 (30 * 2 ^ (failures - 1))

def batchOperations : List Text :=
  ["subscription-sync-batch".toList, "subscription-sync-batch-cleanup".toList]

/-- The attempt is acknowledged as published. -/
def publishedDispatch (d : Dispatch) (now : Nat) : Dispatch :=
  { d with
    publicationState := .published
    nextRetryAt := none
    nextProbeAt := some (now + 30)
    lastError := none }

/-- The attempt is to be looked at again. -/
def probedDispatch (d : Dispatch) (error : Text) (now : Nat) : Dispatch :=
  { d with nextProbeAt := some (now + 30), lastError := some error }

/-- The queue cannot be reached. -/
def deferredDispatch (d : Dispatch) (message : Text) (now : Nat) : Dispatch :=
  let failures := d.publicationFailures + 1
  { d with
    publicationState := .pending
    publicationFailures := failures
    lastError := some (message.take 1000)
    nextRetryAt := some (now + publicationRetryDelay failures) }

/-- `publish_admin_operation` on the locked row. -/
def publishRow (row : TaskRun) (attempt now : Nat) (rq : RqAnswer) :
    Except Outcome (TaskRun × Text) :=
  match row.dispatch with
  | none => .error (.returned "skipped".toList)
  | some d =>
    if row.kind ≠ .admin ∨ d.attempt ≠ attempt ∨ row.rqJobId ≠ some d.rqJobId ∨
        ¬row.status.Active then .error (.returned "skipped".toList)
    else
      match rq with
      | .error message =>
        .ok ({ row with dispatch := some (deferredDispatch d message now) }, "deferred".toList)
      | .existing status =>
        if row.operationType ∈ batchOperations ∧ row.status = .running ∧
            status ∉ [.queued, .deferred, .scheduled] then
          let error := "RQ attempt ".toList ++ status.text ++
            " while durable batch is running; checking execution lease".toList
          .ok ({ row with dispatch := some (probedDispatch d error now) },
            if HeartbeatFresh row now then "active".toList else "orphaned".toList)
        else
          match status with
          | .ended text =>
            .ok ({ row with
                status := .failed
                errorLog := some ("RQ attempt ended as ".toList ++ text ++
                  " without a current TaskRun callback".toList)
                dispatch := some { d with publicationState := .failed } },
              "failed".toList)
          | _ =>
            .ok ({ row with dispatch := some (publishedDispatch d now) }, "existing".toList)
      | .missing =>
        if d.publicationState = .published ∧ (row.status = .running ∨ row.status = .paused) then
          let error := "RQ record missing while durable attempt is active".toList
          .ok ({ row with dispatch := some (probedDispatch d error now) },
            if row.status = .paused ∨ HeartbeatFresh row now then "active".toList
            else "missing".toList)
        else
          .ok ({ row with dispatch := some (publishedDispatch d now) }, "published".toList)

/-- `claim_admin_operation` on the locked row. -/
def claimRow (row : TaskRun) (attempt now : Nat) : Except Outcome TaskRun :=
  match row.dispatch with
  | none => .error (.raised .notCurrent)
  | some d =>
    if row.kind ≠ .admin ∨ d.attempt ≠ attempt then .error (.raised .notCurrent)
    else if ¬row.status.Claimable then .error (.raised (.cannotRunFrom row.status))
    else
      match service.validatedOptions d.options,
          registeredSpec service (firstNonempty row.operationType d.operationType [])
            d.scopeKey d.queueName with
      | none, _ => .error (.raised .invalidOptions)
      | _, .error e => .error (.raised e)
      | some _, .ok spec =>
        if row.queueName ∉ spec.queueNames then .error (.raised .queueNotRegistered)
        else .ok { row with status := .running, lastHeartbeatAt := some now }

/-- The row belongs to a task at this attempt. -/
def Current (row : TaskRun) (attempt : Nat) : Prop :=
  row.kind = .admin ∧ row.dispatch.isSome ∧ row.attempt = attempt

instance (row : TaskRun) (attempt : Nat) : Decidable (Current row attempt) :=
  inferInstanceAs (Decidable (_ ∧ _ ∧ _))

/-- `update_admin_task` with the number of an attempt, on the locked row. -/
def updateAdminTask (row : TaskRun) (attempt : Nat) (allowed : List Status) (status : Status)
    (error : Option Text) : Option TaskRun :=
  if Current row attempt ∧ row.status ∈ allowed then some { row with status, errorLog := error }
  else none

/-- `heartbeat_admin_operation` on the locked row. -/
def heartbeatRow (row : TaskRun) (attempt now : Nat) : Option TaskRun :=
  if Current row attempt ∧ row.status = .running then some { row with lastHeartbeatAt := some now }
  else none

/-- The check of `fence_current_admin_operation_transaction` on the locked row. -/
def Fenced (row : TaskRun) (attempt : Nat) (allowed : List Status) : Prop :=
  Current row attempt ∧ row.status ∈ allowed

instance (row : TaskRun) (attempt : Nat) (allowed : List Status) :
    Decidable (Fenced row attempt allowed) :=
  inferInstanceAs (Decidable (_ ∧ _))

/-- The cleanup task that `cancel_batch` prepares. -/
def cleanupPreparation (task cleanup : Nat) : Preparation where
  task := cleanup
  operationType := "subscription-sync-batch-cleanup".toList
  scopeKey := "library:subscription-sync-cancel:".toList ++ service.idText task
  title := "Cancel subscription batch downloads".toList
  entity := "subscription-sync-batch-cleanup".toList
  options := service.cleanupOptions task
  queueName := "operations".toList
  jobTimeout := none

end Rows

/-! ### Processes -/

inductive Request
  | prepare (prep : Preparation)
  | retry (task : Nat)
  | handoff (task attempt : Nat) (options : Text) (delaySeconds : Nat)
  | recovery (task attempt checkedAt : Nat)
  | publish (task attempt : Nat)
  | claim (task attempt : Nat)
  | cancel (task cleanup : Nat)
  /-- `update_current_admin_operation_progress` -/
  | progress (task attempt : Nat)
  /-- the last update of a worker, with the error if it has failed -/
  | finish (task attempt : Nat) (error : Option Text)
  | heartbeat (task attempt : Nat)
  /-- a transaction on other tables that ends with
  `fence_current_admin_operation_transaction` and the commit -/
  | domain (task attempt : Nat) (allowed : List Status)
  /-- `admin_operation_execution_lease` -/
  | execute (task : Nat)
  deriving DecidableEq

/-- The statement that comes next, with what was found before it. -/
inductive Phase
  | start
  /-- lock the scope -/
  | scope (key : Text) (row : Option TaskRun)
  /-- try to take the lease -/
  | lease (key : Text)
  /-- lock the row of the task -/
  | row (key : Text)
  /-- look for an active task of the scope -/
  | owner (key : Text) (row : Option TaskRun)
  /-- commit, with the result to return and the claim that it makes -/
  | commit (result : Text) (claimed : Option (Nat × Nat))
  /-- the worker executes -/
  | executing
  | ended (outcome : Outcome)
  deriving DecidableEq

structure Process where
  request : Request
  phase : Phase
  deriving DecidableEq

/-- What a statement finds outside of the table. -/
structure Input where
  now : Nat
  rq : RqAnswer
  scan : Option Scan
  /-- the batch has a row of its own -/
  batch : Bool

structure State where
  table : Table Nat Nat TaskRun
  scopeLock : Text → Option Nat
  leaseLock : Text → Option Nat
  processes : Nat → Option Process
  /-- the claims that were committed -/
  claims : List (Nat × Nat)

namespace State

variable (s : State) (p : Nat)

def setPhase (request : Request) (phase : Phase) : State :=
  { s with processes := Function.update s.processes p (some ⟨request, phase⟩) }

/-- The end of a transaction frees its advisory locks. -/
def unlockScopes : Text → Option Nat :=
  fun key => if s.scopeLock key = some p then none else s.scopeLock key

def unlockLeases : Text → Option Nat :=
  fun key => if s.leaseLock key = some p then none else s.leaseLock key

/-- The transaction is rolled back. -/
def rollback : State :=
  { s with table := s.table.rollback p, scopeLock := s.unlockScopes p }

/-- The call ends without a commit. -/
def refuse (request : Request) (outcome : Outcome) : State :=
  (s.rollback p).setPhase p request (.ended outcome)

def commit (claimed : Option (Nat × Nat)) : State :=
  { s with
    table := s.table.commit TaskRun.id p
    scopeLock := s.unlockScopes p
    claims := s.claims ++ claimed.toList }

def lockScope (key : Text) : State :=
  { s with scopeLock := Function.update s.scopeLock key (some p) }

def lockLease (key : Text) : State :=
  { s with leaseLock := Function.update s.leaseLock key (some p) }

def lockRow (task : Nat) : State := { s with table := s.table.lockRow p task }

def write (row : TaskRun) : State := { s with table := s.table.write TaskRun.id p row }

/-- What the transaction sees. -/
def rows : List TaskRun := s.table.view TaskRun.id p

end State

section Steps

variable (service : Service)

/-- What a call that only locks the row of its task finds out there: the new row, if it
writes one, the result to return and the claim that it makes. -/
def decideRow (input : Input) (row : TaskRun) :
    Request → Except Outcome (Option TaskRun × Text × Option (Nat × Nat))
  | .handoff _ attempt options delaySeconds =>
    (handoffRow service row attempt options delaySeconds input.now).map fun row' =>
      (some row', [], none)
  | .publish _ attempt =>
    (publishRow row attempt input.now input.rq).map fun result => (some result.1, result.2, none)
  | .claim task attempt =>
    (claimRow service row attempt input.now).map fun row' => (some row', [], some (task, attempt))
  | .progress _ attempt =>
    match updateAdminTask row attempt activeStatuses .running row.errorLog with
    | none => .error (.raised .notCurrent)
    | some row' => .ok (some row', "True".toList, none)
  | .finish _ attempt error =>
    match updateAdminTask row attempt activeStatuses
        (if error.isSome then .failed else .complete) error with
    | none => .error (.returned "False".toList)
    | some row' => .ok (some row', "True".toList, none)
  | .heartbeat _ attempt =>
    match heartbeatRow row attempt input.now with
    | none => .error (.returned "False".toList)
    | some row' => .ok (some row', "True".toList, none)
  | .domain _ attempt allowed =>
    if Fenced row attempt allowed then .ok (none, [], none) else .error (.raised .notCurrent)
  | _ => .error (.raised .unavailable)

section

variable (s : State)

/-- The call ends, or writes the row and goes on to the commit. -/
def follow (p : Nat) (request : Request) :
    Except Outcome (Option TaskRun × Text × Option (Nat × Nat)) → State
  | .error outcome => s.refuse p request outcome
  | .ok (none, result, claimed) => s.setPhase p request (.commit result claimed)
  | .ok (some row', result, claimed) =>
    (s.write p row').setPhase p request (.commit result claimed)

/-- What these calls do without a row. -/
def missingRow : Request → Outcome
  | .handoff .. => .returned "None".toList
  | .publish .. => .returned "skipped".toList
  | .finish .. | .heartbeat .. => .returned "False".toList
  | _ => .raised .notCurrent

/-- `SELECT ... FOR UPDATE` of one row.  It waits while another transaction has the row. -/
def withRow (p task : Nat) (request : Request) (missing : Outcome)
    (found : State → TaskRun → State) : State :=
  if s.table.Blocked p task then s
  else
    match s.table.current TaskRun.id p task with
    | none => s.refuse p request missing
    | some row => found (s.lockRow p task) row

/-- The first statements of a call. -/
def begin (p : Nat) (input : Input) (request : Request) : State :=
  match request with
  | .prepare prep =>
    match checkPreparation service prep with
    | .error e => s.refuse p request (.raised e)
    | .ok _ => s.setPhase p request (.scope prep.scopeKey none)
  | .retry task =>
    match s.table.current TaskRun.id p task with
    | none => s.refuse p request (.raised .taskNotFound)
    | some row =>
      if row.kind ≠ .admin then s.refuse p request (.raised .taskNotFound)
      else
        match row.dispatch with
        | none => s.refuse p request (.raised .legacyRetry)
        | some d => s.setPhase p request (.scope d.scopeKey none)
  | .recovery task _ _ =>
    match (s.table.current TaskRun.id p task).bind TaskRun.dispatch with
    | none => s.refuse p request (.returned "None".toList)
    | some d => s.setPhase p request (.scope d.scopeKey none)
  | .execute task =>
    match s.table.current TaskRun.id p task with
    | none => s.refuse p request (.raised .noScope)
    | some row =>
      match scopeForTask row with
      | none => s.refuse p request (.raised .noScope)
      | some key =>
        if row.kind ≠ .admin ∨ key = [] then s.refuse p request (.raised .noScope)
        else if (s.leaseLock key).isSome then s.refuse p request (.raised .liveLease)
        else (s.lockLease p key).setPhase p request .executing
  | .cancel task cleanup =>
    withRow s p task request (.raised .taskNotFound) fun s row =>
      if row.status = .complete then s.refuse p request (.raised .batchTerminal)
      else if input.batch = false then s.refuse p request (.raised .legacyBatch)
      else if row.cleanupTask.isSome then s.setPhase p request (.commit "cancelled".toList none)
      else
        match checkPreparation service (cleanupPreparation service task cleanup) with
        | .error e => s.refuse p request (.raised e)
        | .ok prepared =>
          s.setPhase p request
            (.scope ((prepared.dispatch.map Dispatch.scopeKey).getD []) (some row))
  | .handoff task .. | .publish task _ | .claim task _ | .progress task _ | .finish task ..
  | .heartbeat task _ | .domain task .. =>
    withRow s p task request (missingRow request) fun s row =>
      follow s p request (decideRow service input row request)

/-- The insert of a prepared task.  Its id is the primary key. -/
def insert (p : Nat) (request : Request) (row : TaskRun) (next : State → State) :
    State :=
  if s.table.Blocked p row.id then s
  else if (s.table.current TaskRun.id p row.id).isSome then s.refuse p request (.raised .duplicateTask)
  else next (s.write p row)

/-- The statement after the row of a retry or a recovery is locked. -/
def lockedRow (p : Nat) (key : Text) (request : Request) (row : TaskRun) : State :=
  match request with
  | .retry _ =>
    if row.status ∉ [.failed, .stale, .cancelled] then
      s.refuse p request (.raised (.retryFrom row.status))
    else s.setPhase p request (.owner key (some row))
  | .recovery _ attempt checkedAt =>
    match recoveredRow service row attempt checkedAt key with
    | .error outcome => s.refuse p request outcome
    | .ok row' => (s.write p row').setPhase p request (.commit [] none)
  | _ => s.refuse p request (.raised .unavailable)

/-- The statement that looks for an active task of the scope, and what is written if there
is none. -/
def lookForOwner (p : Nat) (input : Input) (key : Text) (request : Request)
    (row : Option TaskRun) : State :=
  match request, row with
  | .prepare prep, _ =>
    if (activeScopeOwner (s.rows p) key none).isSome then
      s.refuse p request (.raised (.alreadyRunning prep.title))
    else
      match checkPreparation service prep with
      | .error e => s.refuse p request (.raised e)
      | .ok prepared =>
        insert s p request prepared fun s => s.setPhase p request (.commit [] none)
  | .retry task, some row =>
    if (activeScopeOwner (s.rows p) key (some task)).isSome then
      s.refuse p request (.raised .operationRunning)
    else
      match row.dispatch with
      | none => s.refuse p request (.raised .unavailable)
      | some last =>
        match retriedRow service row last key input.scan with
        | .error e => s.refuse p request (.raised e)
        | .ok row' => (s.write p row').setPhase p request (.commit [] none)
  | .cancel task cleanup, some row =>
    if (activeScopeOwner (s.rows p) key none).isSome then
      s.refuse p request (.raised (.alreadyRunning "Cancel subscription batch downloads".toList))
    else
      match checkPreparation service (cleanupPreparation service task cleanup) with
      | .error e => s.refuse p request (.raised e)
      | .ok prepared =>
        insert s p request prepared fun s =>
          (s.write p { row with status := .cancelled, cleanupTask := some cleanup }).setPhase p
            request (.commit "cancelled".toList none)
  | _, _ => s.refuse p request (.raised .unavailable)

/-- The task of a call that is about one. -/
def Request.task : Request → Nat
  | .prepare prep => prep.task
  | .retry task | .handoff task .. | .recovery task .. | .publish task _ | .claim task _
  | .cancel task _ | .progress task _ | .finish task .. | .heartbeat task _ | .domain task ..
  | .execute task => task

/-- The next statement of a process. -/
def advance (p : Nat) (input : Input) (request : Request) : Phase → State
  | .start => begin service s p input request
  | .scope key row =>
    if (s.scopeLock key).isSome then s
    else
      (s.lockScope p key).setPhase p request
        (match request with
        | .retry _ | .recovery .. => .lease key
        | _ => .owner key row)
  | .lease key =>
    if (s.leaseLock key).isSome then
      s.refuse p request
        (match request with
        | .retry _ => .raised .stillExecuting
        | _ => .returned "None".toList)
    else (s.lockLease p key).setPhase p request (.row key)
  | .row key =>
    withRow s p request.task request
      (match request with
      | .retry _ => .raised .taskNotFound
      | _ => .returned "None".toList)
      fun s row => lockedRow service s p key request row
  | .owner key row => lookForOwner service s p input key request row
  | .commit result claimed =>
    (s.commit p claimed).setPhase p request (.ended (.returned result))
  | .executing => s.setPhase p request (.ended (.returned []))
  | .ended _ =>
    { s with
      leaseLock := s.unlockLeases p
      processes := Function.update s.processes p none }

inductive Action
  /-- a process starts a call -/
  | call (process : Nat) (request : Request)
  /-- the next statement of a process -/
  | statement (process : Nat) (input : Input)
  /-- the statement fails, and the call with it -/
  | failure (process : Nat)
  /-- the process stops -/
  | crash (process : Nat)

def step : Action → State
  | .call p request =>
    match s.processes p with
    | none => s.setPhase p request .start
    | some _ => s
  | .statement p input =>
    match s.processes p with
    | none => s
    | some process => advance service s p input process.request process.phase
  | .failure p =>
    match s.processes p with
    | none => s
    | some process => s.refuse p process.request (.raised .unavailable)
  | .crash p =>
    { s.rollback p with
      leaseLock := s.unlockLeases p
      processes := Function.update s.processes p none }

end

end Steps

end AdminOperations
