import AutoGallery.Runs
import AutoGallery.SegmentCrash
import Mathlib.Data.List.MinMax
import Mathlib.Data.Prod.Lex
import Mathlib.Logic.Function.Basic

/-!
# The outbox of the segment projection

A commit of the ledger leaves an intent.  A worker plans an intent, that is, it adds a
target for every repository that the commit concerns; and it claims a target, appends
its commit to the segment chain of the repository and marks the target complete.  Every
transaction is one step, the append is another; any number of workers take their steps
in any order, and each of them may stop for good after any of its steps.

A worker keeps what it has claimed.  The database checks it again when the worker
finishes or fails a target; the disk does not: the append compares the commit with the
last one of the chain and nothing else.
-/

namespace GitlleryOutbox

variable {Repository : Type} {chain : List Stamp}

abbrev Uuid := Nat

/-- Microseconds. -/
abbrev Time := Nat

/-- `(created_at, id)` of a commit, ordered by the first and then by the second. -/
abbrev Stamp := Time ×ₗ Uuid

section Tables

variable (Repository)

structure CurationCommit where
  id : Uuid
  createdAt : Time
  deriving DecidableEq

inductive RowState where
  | pending
  | processing
  | failed
  | complete
  deriving DecidableEq

/-- A row of `gitllery_projection_outbox`. -/
structure Intent where
  id : Uuid
  commitId : Uuid
  state : RowState
  attempts : Nat
  leaseExpiresAt : Option Time
  availableAt : Time
  deriving DecidableEq

/-- A row of `gitllery_projection_targets`. -/
structure Target where
  id : Uuid
  intentId : Uuid
  commitId : Uuid
  commitCreatedAt : Time
  repositoryKey : Repository
  state : RowState
  attempts : Nat
  leaseToken : Option Uuid
  leaseExpiresAt : Option Time
  availableAt : Time
  deriving DecidableEq

/-- What `_claim_intent_for_planning` returns. -/
structure IntentClaim where
  id : Uuid
  commitId : Uuid
  attempts : Nat
  leaseExpiresAt : Time
  deriving DecidableEq

/-- What `_claim_target` returns. -/
structure TargetClaim where
  id : Uuid
  intentId : Uuid
  commitId : Uuid
  commitCreatedAt : Time
  repositoryKey : Repository
  attempts : Nat
  leaseToken : Uuid
  deriving DecidableEq

/-- Where a worker stands in `process_gitllery_projection_outbox`; `left` is how many
targets it may still claim. -/
inductive Worker where
  | idle
  | planning (claim : IntentClaim) (left : Nat)
  | planningFailed (claim : IntentClaim) (left : Nat)
  | claiming (left : Nat)
  | writing (target : TargetClaim Repository) (left : Nat)
  | finishing (target : TargetClaim Repository) (left : Nat)
  | settling (target : TargetClaim Repository) (left : Nat)
  | failing (target : TargetClaim Repository) (left : Nat)

/-- The tables, the segment chain of each repository, the oldest commit first, and the
workers. -/
structure State where
  commits : List CurationCommit
  intents : List Intent
  targets : List (Target Repository)
  chains : Repository → List Stamp
  workers : Nat → Worker Repository

end Tables

section Transactions

variable [DecidableEq Repository]

def CurationCommit.stamp (commit : CurationCommit) : Stamp := toLex (commit.createdAt, commit.id)

def Target.stamp (target : Target Repository) : Stamp :=
  toLex (target.commitCreatedAt, target.commitId)

def TargetClaim.stamp (target : TargetClaim Repository) : Stamp :=
  toLex (target.commitCreatedAt, target.commitId)

/-- `timedelta(minutes=5)`. -/
def leaseTime : Time := 5 * 60 * 1000000

/-- `timedelta(seconds=min(3600, 15 * (2 ** min(attempts, 8))))`. -/
def backOff (attempts : Nat) : Time := min 3600 (15 * 2 ^ min attempts 8) * 1000000

def updateIntent (id : Uuid) (f : Intent → Intent) (s : State Repository) : State Repository :=
  { s with intents := s.intents.map fun row => if row.id = id then f row else row }

def updateTarget (id : Uuid) (f : Target Repository → Target Repository) (s : State Repository) :
    State Repository :=
  { s with targets := s.targets.map fun row => if row.id = id then f row else row }

/-- `request_gitllery_projection` for a commit that has an intent. -/
def requestGitlleryProjection (commitId : Uuid) (now : Time) (s : State Repository) :
    State Repository :=
  match s.intents.find? (·.commitId = commitId) with
  | none => s
  | some existing =>
    if existing.state = .failed then
      updateIntent existing.id (fun row => { row with state := .pending, availableAt := now }) s
    else s

/-- A commit is created, with its intent, after all that are there. -/
def createCommit (commit : CurationCommit) (intentId : Uuid) (now : Time) (s : State Repository) :
    State Repository :=
  if (∀ other ∈ s.commits, other.stamp < commit.stamp ∧ other.id ≠ commit.id) ∧
      ∀ row ∈ s.intents, row.id ≠ intentId then
    { s with
      commits := s.commits ++ [commit]
      intents := s.intents ++ [⟨intentId, commit.id, .pending, 0, none, now⟩] }
  else s

/-- The row is due: waiting, or left behind by a worker whose lease has run out. -/
def due (now : Time) (state : RowState) (leaseExpiresAt : Option Time) (availableAt : Time) : Bool :=
  (state = .pending || state = .failed ||
    (state = .processing && leaseExpiresAt.any (· < now))) && availableAt ≤ now

/-- `(created_at, id)` of the commit of an intent. -/
def commitStamp (s : State Repository) (commitId : Uuid) : Option Stamp :=
  (s.commits.find? (·.id = commitId)).map CurationCommit.stamp

/-- The intents that may be planned. -/
def plannable (now : Time) (s : State Repository) : List Intent :=
  s.intents.filter fun row =>
    (commitStamp s row.commitId).isSome && !(s.targets.any (·.intentId = row.id)) &&
      due now row.state row.leaseExpiresAt row.availableAt

/-- `_claim_intent_for_planning`. -/
def claimIntentForPlanning (now : Time) (s : State Repository) :
    State Repository × Option IntentClaim :=
  match (plannable now s).argmin fun row => (commitStamp s row.commitId).getD (toLex (0, 0)) with
  | none => (s, none)
  | some row =>
    (updateIntent row.id (fun row => { row with
        state := .processing
        attempts := row.attempts + 1
        leaseExpiresAt := some (now + leaseTime) }) s,
      some ⟨row.id, row.commitId, row.attempts + 1, now + leaseTime⟩)

/-- The row is still as the claim left it. -/
def IntentClaim.holds (claim : IntentClaim) (row : Intent) : Bool :=
  row.id = claim.id && row.state = .processing && row.attempts = claim.attempts &&
    row.leaseExpiresAt = some claim.leaseExpiresAt

/-- The rows that `_plan_intent` inserts: `repositories` are the keys of the slices, each
with the identity of its row. -/
def plannedTargets (claim : IntentClaim) (commit : CurationCommit)
    (repositories : List (Repository × Uuid)) (now : Time) (s : State Repository) :
    List (Target Repository) :=
  (repositories.filter fun r =>
      !(s.targets.any fun row => row.commitId = commit.id && row.repositoryKey = r.1)).map
    fun r => ⟨r.2, claim.id, commit.id, commit.createdAt, r.1, .pending, 0, none, none, now⟩

/-- The keys of the slices are distinct, and the identities of the rows are new. -/
def FreshRows (repositories : List (Repository × Uuid)) (s : State Repository) : Prop :=
  (repositories.map Prod.fst).Nodup ∧ (repositories.map Prod.snd).Nodup ∧
    ∀ r ∈ repositories, ∀ row ∈ s.targets, row.id ≠ r.2

instance (repositories : List (Repository × Uuid)) (s : State Repository) :
    Decidable (FreshRows repositories s) := by
  unfold FreshRows
  infer_instance

/-- `_plan_intent`; `none` if it raises. -/
def planIntent (claim : IntentClaim) (repositories : List (Repository × Uuid)) (now : Time)
    (s : State Repository) : Option (State Repository) :=
  match s.commits.find? (·.id = claim.commitId) with
  | none => none
  | some commit =>
    if ¬ FreshRows repositories s then none
    else if s.intents.any claim.holds then
      some (updateIntent claim.id (fun row => { row with
          state := if repositories = [] then .complete else .processing
          leaseExpiresAt := none })
        { s with targets := s.targets ++ plannedTargets claim commit repositories now s })
    else some s

/-- `_fail_intent`. -/
def failIntent (claim : IntentClaim) (now : Time) (s : State Repository) : State Repository :=
  { s with intents := s.intents.map fun row => if claim.holds row then { row with
      state := .failed
      leaseExpiresAt := none
      availableAt := now + backOff claim.attempts } else row }

/-- `has_earlier`: a target of the same repository with an earlier commit is not complete. -/
def hasEarlier (s : State Repository) (row : Target Repository) : Bool :=
  s.targets.any fun earlier =>
    earlier.repositoryKey = row.repositoryKey && earlier.state ≠ .complete &&
      earlier.stamp < row.stamp

/-- The targets that may be claimed. -/
def claimable (now : Time) (s : State Repository) : List (Target Repository) :=
  s.targets.filter fun row =>
    !hasEarlier s row && due now row.state row.leaseExpiresAt row.availableAt

/-- `_claim_target`. -/
def claimTarget (token : Uuid) (now : Time) (s : State Repository) :
    State Repository × Option (TargetClaim Repository) :=
  match (claimable now s).argmin fun row => toLex (row.stamp, row.id) with
  | none => (s, none)
  | some row =>
    (updateTarget row.id (fun row => { row with
        state := .processing
        attempts := row.attempts + 1
        leaseToken := some token
        leaseExpiresAt := some (now + leaseTime) }) s,
      some ⟨row.id, row.intentId, row.commitId, row.commitCreatedAt, row.repositoryKey,
        row.attempts + 1, token⟩)

/-- `append` of one commit: a repetition of the last one is left out. -/
def appendCommit (stamp : Stamp) (chain : List Stamp) : List Stamp :=
  if chain.getLast?.any fun last => (ofLex last).2 = (ofLex stamp).2 then chain
  else chain ++ [stamp]

/-- The append leaves a commit out just if it is the last one. -/
theorem appendCommit_cases {stamp : Stamp}
    (hinj : ∀ last ∈ chain, (ofLex last).2 = (ofLex stamp).2 → last = stamp) :
    chain.getLast? = some stamp ∧ appendCommit stamp chain = chain ∨
      chain.getLast? ≠ some stamp ∧ appendCommit stamp chain = chain ++ [stamp] := by
  unfold appendCommit
  cases hlast : chain.getLast? with
  | none => exact .inr ⟨nofun, rfl⟩
  | some last =>
    by_cases hid : (ofLex last).2 = (ofLex stamp).2
    · have heq := hinj last (List.mem_of_mem_getLast? (Option.mem_def.mpr hlast)) hid
      exact .inl ⟨by rw [heq], if_pos (by simpa using hid)⟩
    · exact .inr ⟨fun heq => hid (by rw [Option.some.inj heq]), if_neg (by simpa using hid)⟩

section

variable (target : TargetClaim Repository)

/-- `_write_target`. -/
def writeTarget (s : State Repository) : State Repository :=
  { s with
    chains := Function.update s.chains target.repositoryKey
      (appendCommit target.stamp (s.chains target.repositoryKey)) }

/-- The row is still as the claim left it. -/
def TargetClaim.holds (row : Target Repository) : Bool :=
  row.id = target.id && row.state = .processing && row.attempts = target.attempts &&
    row.leaseToken = some target.leaseToken

/-- `_finish_target`. -/
def finishTarget (s : State Repository) : State Repository :=
  { s with targets := s.targets.map fun row => if target.holds row then { row with
      state := .complete
      leaseToken := none
      leaseExpiresAt := none } else row }

/-- `_fail_target`. -/
def failTarget (now : Time) (s : State Repository) :
    State Repository :=
  { s with targets := s.targets.map fun row => if target.holds row then { row with
      state := .failed
      leaseToken := none
      leaseExpiresAt := none
      availableAt := now + backOff target.attempts } else row }

end

/-- `_settle_intent`. -/
def settleIntent (intentId : Uuid) (s : State Repository) : State Repository :=
  if s.targets.any fun row => row.intentId = intentId && row.state ≠ .complete then s
  else updateIntent intentId
    (fun row => { row with state := .complete, leaseExpiresAt := none }) s

end Transactions

section Workers

/-- One step: of the ledger, or of a worker, with what it takes from outside. -/
inductive Action (Repository : Type) where
  | create (commit : CurationCommit) (intentId : Uuid) (now : Time)
  | request (commitId : Uuid) (now : Time)
  | start (worker : Nat) (limit : Nat) (now : Time)
  | plan (worker : Nat) (repositories : List (Repository × Uuid)) (now : Time)
  | planRaises (worker : Nat)
  | failIntent (worker : Nat) (now : Time)
  | claim (worker : Nat) (token : Uuid) (now : Time)
  | leave (worker : Nat)
  | write (worker : Nat)
  | finish (worker : Nat)
  | settle (worker : Nat)
  | raises (worker : Nat)
  | failTarget (worker : Nat) (now : Time)
  | crash (worker : Nat)

def setWorker (worker : Nat) (phase : Worker Repository) (s : State Repository) :
    State Repository :=
  { s with workers := Function.update s.workers worker phase }

@[simp]
theorem workers_setWorker (worker other : Nat) (phase : Worker Repository)
    (s : State Repository) :
    (setWorker worker phase s).workers other = if other = worker then phase else s.workers other :=
  Function.update_apply ..

/-- What a step makes of the state; nothing if the worker stands elsewhere.  The clauses of
a worker are the lines of `process_gitllery_projection_outbox`. -/
def step [DecidableEq Repository] (s : State Repository) : Action Repository → State Repository
  | .create commit intentId now => createCommit commit intentId now s
  | .request commitId now => requestGitlleryProjection commitId now s
  | .start w limit now =>
    match s.workers w with
    | .idle =>
      let left := max 1 (min limit 100)
      match claimIntentForPlanning now s with
      | (s, some claim) => setWorker w (.planning claim left) s
      | (s, none) => setWorker w (.claiming left) s
    | _ => s
  | .plan w repositories now =>
    match s.workers w with
    | .planning claim left =>
      match planIntent claim repositories now s with
      | some s => setWorker w (.claiming left) s
      | none => setWorker w (.planningFailed claim left) s
    | _ => s
  | .planRaises w =>
    match s.workers w with
    | .planning claim left => setWorker w (.planningFailed claim left) s
    | _ => s
  | .failIntent w now =>
    match s.workers w with
    | .planningFailed claim left => setWorker w (.claiming left) (failIntent claim now s)
    | _ => s
  | .claim w token now =>
    match s.workers w with
    | .claiming (left + 1) =>
      match claimTarget token now s with
      | (s, some target) => setWorker w (.writing target left) s
      | (s, none) => setWorker w .idle s
    | _ => s
  | .leave w =>
    match s.workers w with
    | .claiming _ => setWorker w .idle s
    | _ => s
  | .write w =>
    match s.workers w with
    | .writing target left => setWorker w (.finishing target left) (writeTarget target s)
    | _ => s
  | .finish w =>
    match s.workers w with
    | .finishing target left => setWorker w (.settling target left) (finishTarget target s)
    | _ => s
  | .settle w =>
    match s.workers w with
    | .settling target left => setWorker w (.claiming left) (settleIntent target.intentId s)
    | _ => s
  | .raises w =>
    match s.workers w with
    | .writing target left => setWorker w (.failing target left) s
    | .finishing target left => setWorker w (.failing target left) s
    | .settling target left => setWorker w (.failing target left) s
    | _ => s
  | .failTarget w now =>
    match s.workers w with
    | .failing target left => setWorker w (.claiming left) (failTarget target now s)
    | _ => s
  | .crash w => setWorker w .idle s

/-- Empty tables, empty repositories, and no worker running. -/
def emptyState : State Repository :=
  ⟨[], [], [], fun _ => [], fun _ => .idle⟩

end Workers

section Disk

open Gitllery

variable {Value Bytes Digest : Type} [DecidableEq Digest] {C : Codec Value Bytes Digest}
  {str : Uuid → String}

variable (C str) in
/-- The segments on disk hold the commits of a chain; `str` writes their identities. -/
def OnDisk (σ : Store Bytes Digest) (chain : List Stamp) : Prop :=
  ∃ m segs hist blocks, Published C σ m segs hist blocks ∧
    hist.map (·.commitId C) = chain.map fun stamp => str (ofLex stamp).2

omit [DecidableEq Digest] in
theorem lastCommitId_eq (hist : List (Commit Value)) :
    lastCommitId C none hist = (hist.map (·.commitId C)).getLast? := by
  induction hist using List.reverseRecOn with
  | nil => rfl
  | append_singleton init last _ =>
    rw [lastCommitId_append, List.map_append, List.map_singleton, List.getLast?_concat]
    rfl

variable {commit : Commit Value} {p p' : Process Bytes Digest} {now : String}

section

variable (hinj : Function.Injective str) (hnone : ∀ id, str id ≠ "None")
  (hempty : ∀ id, str id ≠ "")
include hinj hnone hempty

omit [DecidableEq Digest] in
/-- The test for a repetition, on disk and on the chain. -/
theorem isRepeat_singleton {hist : List (Commit Value)} {id : Uuid}
    (hchain : hist.map (·.commitId C) = chain.map fun stamp => str (ofLex stamp).2)
    (hid : commit.commitId C = str id) :
    isRepeat C (lastCommitId C none hist) [commit] =
      chain.getLast?.any fun last => (ofLex last).2 = id := by
  have hget : C.strGet (commit.header.lookup "commit_id") = str id := by
    rw [C.strGet_of_strOr (by rw [show C.strOr _ = _ from hid]; exact hempty _)]
    exact hid
  change decide (C.strGet (commit.header.lookup "commit_id") = _) = _
  rw [hget, lastCommitId_eq, hchain, List.getLast?_map]
  cases chain.getLast? with
  | none => exact decide_eq_false (hnone _)
  | some last =>
    refine decide_eq_decide.mpr ⟨fun hsame => (hinj hsame).symm, fun hsame => ?_⟩
    rw [← hsame]
    rfl

/-- `append` on disk is `appendCommit` on the chain. -/
theorem append_onDisk {m : Manifest Digest} {stamp : Stamp} (h : OnDisk C str p.store chain)
    (hid : commit.commitId C = str (ofLex stamp).2)
    (happend : append C now [commit] p = (.ok m, p')) :
    OnDisk C str p'.store (appendCommit stamp chain) := by
  obtain ⟨m₀, segs, hist, blocks, hpublished, hchain⟩ := h
  obtain ⟨segs', blocks', hpublished'⟩ := append_published hpublished happend
  refine ⟨m, segs', _, blocks', hpublished', ?_⟩
  unfold historyAfter appendCommit
  rw [isRepeat_singleton hinj hnone hempty hchain hid]
  split
  · exact hchain
  · rw [List.map_append, List.map_append, hchain, List.map_singleton, List.map_singleton, hid]

end

/-- An `append` that raises leaves the chain as it is. -/
theorem append_raises_onDisk {e : Halt Digest} {commits : List (Commit Value)}
    (h : OnDisk C str p.store chain) (happend : append C now commits p = (.error e, p')) :
    OnDisk C str p'.store chain := by
  obtain ⟨m, segs, hist, blocks, hpublished, hchain⟩ := h
  have hextends := append_error_extends happend
  refine ⟨m, segs, hist, blocks, ?_, hchain⟩
  exact { hpublished with
    manifest := hextends.manifest.trans hpublished.manifest
    config := by
      rw [hextends.config]
      exact hpublished.config
    linked := hpublished.linked.extends hextends }

end Disk

end GitlleryOutbox
