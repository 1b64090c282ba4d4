import AutoGallery.GitllerySettlement
import AutoGallery.Keyset

/-!
# Builds of a generation

A build writes a new generation of all repositories beside the one that is in use: it
remembers the last commit of the ledger, counts what each repository is to hold, appends
the commits up to the remembered one batch by batch, and is then verified.  If nothing
is wrong, the intents of these commits are marked complete; their targets, which may have
been planned already, are left alone.

The outbox goes on meanwhile, and writes to the same generation.  Every transaction and
every access to a repository is one step; the worker that builds may stop after any of
its steps and be started again.
-/

namespace GitlleryBuilds

open GitlleryOutbox CurationCommit

section Rows

variable (Repository : Type)

/-- What `slice_changes` makes of a commit: the repositories that it has changes for, and
how many. -/
structure Slices where
  repositories : Uuid → List Repository
  changes : Uuid → Repository → Nat
  nodup : ∀ id, (repositories id).Nodup

/-- An entry of `repository_counts`, and of `built_repositories`.  The head segment, which
the latter has as well, changes when the number of commits does. -/
structure Count where
  commits : Nat
  changes : Nat
  deriving DecidableEq

inductive BuildState where
  | pending
  | running
  | staged
  | complete
  | failed
  deriving DecidableEq

inductive Phase where
  | planning
  | building
  | awaitingVerification
  | verified
  | verificationFailed
  | failed
  deriving DecidableEq

/-- A row of `gitllery_builds` of kind `build` and scope `full`.  `repositories` are the keys
of `repository_counts`. -/
structure Build where
  state : BuildState
  phase : Phase
  highWater : Option Stamp
  cursor : Option Stamp
  repositories : List Repository
  counts : Repository → Count
  selected : List Repository
  built : List (Repository × Count)
  resumeCount : Nat
  settled : Bool

inductive VerifyError where
  /-- `{key}: cannot read verified manifest: {exc}` -/
  | cannotRead (key : Repository)
  /-- `{key}: Gitllery summary does not match PostgreSQL` -/
  | mismatch (key : Repository)
  /-- `Gitllery build summary changed after staging` -/
  | changed
  deriving DecidableEq

/-- Where the worker stands in `run` or in `verify`. -/
inductive Runner where
  | idle
  | running
  | appending (batch : List CurationCommit) (left : List Repository)
  | summarising (left : List Repository) (summaries : List (Repository × Count))
  | verifying (left : List Repository) (verified : List (Repository × Count))
      (errors : List (VerifyError Repository)) (duplicateFree : Bool)

structure World where
  outbox : State Repository
  build : Option (Build Repository)
  runner : Runner Repository

end Rows

section Gates

/-- The evidence for the activation; nothing where it has no value of the right type. -/
structure Evidence where
  integrityExact : Option Bool
  duplicateFree : Option Bool
  resumeVerified : Option Bool
  restoreDryRunVerified : Option Bool
  workerMemoryMb : Option ℚ
  apiP95RegressionPercent : Option ℚ
  projectedDurationHours : Option ℚ
  projectedStorageBytes : Option ℚ

/-- `{**auto_evidence, **evidence}`. -/
def Evidence.over (evidence auto : Evidence) : Evidence where
  integrityExact := evidence.integrityExact <|> auto.integrityExact
  duplicateFree := evidence.duplicateFree <|> auto.duplicateFree
  resumeVerified := evidence.resumeVerified <|> auto.resumeVerified
  restoreDryRunVerified := evidence.restoreDryRunVerified <|> auto.restoreDryRunVerified
  workerMemoryMb := evidence.workerMemoryMb <|> auto.workerMemoryMb
  apiP95RegressionPercent := evidence.apiP95RegressionPercent <|> auto.apiP95RegressionPercent
  projectedDurationHours := evidence.projectedDurationHours <|> auto.projectedDurationHours
  projectedStorageBytes := evidence.projectedStorageBytes <|> auto.projectedStorageBytes

def gitlleryMaxWorkerMemoryMb : ℚ := 512
def gitlleryMaxApiRegressionPercent : ℚ := 10
def gitlleryMaxBuildHours : ℚ := 24
def gitlleryMaxStorageBytes : ℚ := 2 * 1024 * 1024 * 1024

/-- `evaluate_activation_gates` without the incremental soak: the names of the checks that
fail. -/
def evaluateActivationGates (evidence : Evidence) : List String :=
  let checks : List (String × Bool) :=
    [("integrity_exact", evidence.integrityExact = some true),
      ("duplicate_free", evidence.duplicateFree = some true),
      ("resume_verified", evidence.resumeVerified = some true),
      ("restore_dry_run_verified", evidence.restoreDryRunVerified = some true),
      ("worker_memory_mb", evidence.workerMemoryMb.any (· ≤ gitlleryMaxWorkerMemoryMb)),
      ("api_p95_regression_percent",
        evidence.apiP95RegressionPercent.any (· ≤ gitlleryMaxApiRegressionPercent)),
      ("projected_duration_hours",
        evidence.projectedDurationHours.any (· < gitlleryMaxBuildHours)),
      ("projected_storage_bytes",
        evidence.projectedStorageBytes.any (· < gitlleryMaxStorageBytes))]
  (checks.filter fun check => !check.2).map Prod.fst

/-- What the worker has measured of itself. -/
structure Measured where
  workerMemoryMb : ℚ
  activeHours : ℚ
  storageBytes : ℚ

/-- `auto_evidence`; all repositories are selected, so nothing is to be extrapolated. -/
def autoEvidence (exact duplicateFree : Bool) (resumeCount : Nat) (measured : Measured) :
    Evidence where
  integrityExact := some exact
  duplicateFree := some duplicateFree
  resumeVerified := some (0 < resumeCount)
  restoreDryRunVerified := none
  workerMemoryMb := some measured.workerMemoryMb
  apiP95RegressionPercent := none
  projectedDurationHours := some measured.activeHours
  projectedStorageBytes := some measured.storageBytes

end Gates

section Batches

variable {Repository : Type} [DecidableEq Repository]

/-- The commit is one of those that a build with this mark is about. -/
def covered (highWater : Option Stamp) (stamp : Stamp) : Bool :=
  highWater.any (stamp ≤ ·)

/-- `_commit_batch`. -/
def Build.commitBatch (b : Build Repository) (limit : Nat) (commits : List CurationCommit) :
    List CurationCommit :=
  Keyset.batch stamp (commits.filter fun c => covered b.highWater c.stamp) b.cursor
    limit

/-- `max(1, min(int(batch_size), 100))`. -/
def batchSize (limit : Nat) : Nat := max 1 (min limit 100)

theorem batchSize_pos (limit : Nat) : 0 < batchSize limit :=
  Nat.one_pos.trans_le (le_max_left _ _)

section

variable (slices : Slices Repository)

/-- The counts after one more commit. -/
def countCommit (counts : Repository → Count) (commit : CurationCommit) :
    Repository → Count :=
  fun r =>
    if r ∈ slices.repositories commit.id then
      ⟨(counts r).commits + 1, (counts r).changes + slices.changes commit.id r⟩
    else counts r

/-- The keys of the counts after one more commit. -/
def countKeys (keys : List Repository) (commit : CurationCommit) :
    List Repository :=
  keys ++ (slices.repositories commit.id).filter (· ∉ keys)

/-- The commits of a batch that have changes for the repository. -/
def items (batch : List CurationCommit) (r : Repository) :
    List CurationCommit :=
  batch.filter fun c => r ∈ slices.repositories c.id

/-- The commits of a batch are appended to a repository, unless the last of them is the last
of the chain. -/
def appendItems (items : List CurationCommit) (chain : List Stamp) : List Stamp :=
  if chain.getLast?.any fun last => items.getLast?.any fun item => (ofLex last).2 = item.id then
    chain
  else chain ++ items.map stamp

/-- What a repository holds. -/
def chainCount (r : Repository) (chain : List Stamp) : Count :=
  ⟨chain.length, chain.foldl (fun n stamp => n + slices.changes (ofLex stamp).2 r) 0⟩

end

/-- `_settle_full_build`. -/
def settleFullBuild (b : Build Repository) (s : State Repository) : State Repository :=
  { s with intents := s.intents.map fun row =>
      if (commitStamp s row.commitId).any (covered b.highWater) then
        { row with state := .complete, leaseExpiresAt := none }
      else row }

end Batches

section Steps

variable {Repository : Type} [LinearOrder Repository]

section

variable (slices : Slices Repository)

/-- `_plan_batch`; `catalog` are the repositories of the library. -/
def Build.planBatch (catalog : List Repository) (limit : Nat)
    (commits : List CurationCommit) (b : Build Repository) : Build Repository :=
  let keys := if b.repositories = [] then catalog.dedup else b.repositories
  let batch := b.commitBatch (batchSize limit) commits
  match batch.getLast? with
  | none =>
    { b with
      phase := .building
      repositories := keys
      selected := keys.insertionSort (· ≤ ·)
      cursor := none }
  | some last =>
    { b with
      repositories := batch.foldl (countKeys slices) keys
      counts := batch.foldl (countCommit slices) b.counts
      cursor := some last.stamp }

/-- What `verify` finds of a repository: it is intact, it is damaged, or its manifest cannot
be read. -/
inductive Reading where
  | intact
  | damaged
  | unreadable
  deriving DecidableEq

/-- One step: of the outbox, or of the build, with what it takes from outside. -/
inductive Move (Repository : Type) where
  | outbox (action : Action Repository)
  /-- `create`: the generation is the one that the outbox writes to already, or a new one
  that it writes to from now on -/
  | create (known : Bool)
  | run
  | planBatch (catalog : List Repository) (limit : Nat)
  | buildBatch (limit : Nat)
  | append
  | checkpoint
  | summarise
  | stage
  | raises
  | verify
  | check (reading : Reading)
  | settle (evidence : Evidence) (measured : Measured)
  | stop

/-- `create` of a full build.  The last commit of the ledger is remembered. -/
def create (known : Bool) (s : World Repository) : World Repository :=
  match s.build with
  | some _ => s
  | none =>
    { s with
      outbox := if known then s.outbox else { s.outbox with chains := fun _ => [] }
      build := some
        { state := .pending
          phase := .planning
          highWater := (Keyset.arranged stamp s.outbox.commits).getLast?.map
            stamp
          cursor := none
          repositories := []
          counts := fun _ => ⟨0, 0⟩
          selected := []
          built := []
          resumeCount := 0
          settled := false } }

section

variable (s : World Repository)

/-- `run` takes up a build that waits or has been left. -/
def startRun : World Repository :=
  match s.build, s.runner with
  | some b, .idle =>
    match b.state with
    | .pending => { s with build := some { b with state := .running }, runner := .running }
    | .running =>
      { s with
        build := some { b with resumeCount := b.resumeCount + 1 }
        runner := .running }
    | _ => s
  | _, _ => s

/-- `_plan_batch`. -/
def planBatch (catalog : List Repository) (limit : Nat)
    (s : World Repository) : World Repository :=
  match s.build, s.runner with
  | some b, .running =>
    if b.phase = .planning then
      { s with build := some (b.planBatch slices catalog limit s.outbox.commits) }
    else s
  | _, _ => s

/-- `_build_batch` reads the commits of the next batch. -/
def buildBatch (limit : Nat) (s : World Repository) :
    World Repository :=
  match s.build, s.runner with
  | some b, .running =>
    if b.phase = .building then
      match b.commitBatch (batchSize limit) s.outbox.commits with
      | [] => { s with runner := .summarising b.selected [] }
      | first :: rest =>
        { s with
          runner := .appending (first :: rest)
            (b.selected.filter fun r => items slices (first :: rest) r ≠ []) }
    else s
  | _, _ => s

/-- `_build_batch` appends them to a repository. -/
def append : World Repository :=
  match s.runner with
  | .appending batch (r :: left) =>
    { s with
      outbox := { s.outbox with
        chains := Function.update s.outbox.chains r
          (appendItems (items slices batch r) (s.outbox.chains r)) }
      runner := .appending batch left }
  | _ => s

/-- `_build_batch` sets the cursor. -/
def checkpoint : World Repository :=
  match s.build, s.runner with
  | some b, .appending batch [] =>
    { s with
      build := some { b with cursor := batch.getLast?.map stamp }
      runner := .running }
  | _, _ => s

/-- `_build_batch`, after the last batch, looks at a repository. -/
def summarise : World Repository :=
  match s.runner with
  | .summarising (r :: left) summaries =>
    { s with
      runner := .summarising left (summaries ++ [(r, chainCount slices r (s.outbox.chains r))]) }
  | _ => s

/-- `_build_batch` is done. -/
def stage : World Repository :=
  match s.build, s.runner with
  | some b, .summarising [] summaries =>
    { s with
      build := some { b with
        state := .staged
        phase := .awaitingVerification
        built := summaries
        cursor := none }
      runner := .idle }
  | _, _ => s

/-- `run` after an error. -/
def runRaises : World Repository :=
  match s.build, s.runner with
  | _, .idle => s
  | _, .verifying .. => s
  | some b, _ => { s with build := some { b with state := .failed, phase := .failed }, runner := .idle }
  | none, _ => s

/-- `verify` begins. -/
def startVerify : World Repository :=
  match s.build, s.runner with
  | some b, .idle =>
    if b.state = .staged ∨ b.state = .complete then
      { s with runner := .verifying b.selected [] [] true }
    else s
  | _, _ => s

/-- `verify` reads a repository. -/
def check (reading : Reading) (s : World Repository) :
    World Repository :=
  match s.build, s.runner with
  | some b, .verifying (r :: left) verified errors duplicateFree =>
    let count := chainCount slices r (s.outbox.chains r)
    match reading with
    | .unreadable =>
      { s with runner := .verifying left verified (errors ++ [.cannotRead r]) false }
    | .damaged =>
      { s with
        runner := .verifying left (verified ++ [(r, count)]) (errors ++ [.mismatch r])
          duplicateFree }
    | .intact =>
      { s with
        runner := .verifying left (verified ++ [(r, count)])
          (if count = b.counts r then errors else errors ++ [.mismatch r])
          (duplicateFree &&
            decide ((s.outbox.chains r).map fun stamp => (ofLex stamp).2).Nodup) }
  | _, _ => s

/-- `verify` ends. -/
def settle (evidence : Evidence) (measured : Measured) (s : World Repository) :
    World Repository :=
  match s.build, s.runner with
  | some b, .verifying [] verified errors duplicateFree =>
    let errors := if verified = b.built then errors else errors ++ [.changed]
    let gates := evaluateActivationGates
      (evidence.over (autoEvidence (errors = []) duplicateFree b.resumeCount measured))
    if errors = [] then
      if gates = [] then
        { outbox := settleFullBuild b s.outbox
          build := some { b with state := .complete, phase := .verified, settled := true }
          runner := .idle }
      else { s with build := some { b with state := .complete, phase := .verified }, runner := .idle }
    else
      { s with
        build := some { b with state := .failed, phase := .verificationFailed }
        runner := .idle }
  | _, _ => s

/-- What a step makes of the state; nothing if there is no occasion for it. -/
def step : Move Repository → World Repository
  | .outbox action => { s with outbox := GitlleryOutbox.step s.outbox action }
  | .create known => create known s
  | .run => startRun s
  | .planBatch catalog limit => planBatch slices catalog limit s
  | .buildBatch limit => buildBatch slices limit s
  | .append => append slices s
  | .checkpoint => checkpoint s
  | .summarise => summarise slices s
  | .stage => stage s
  | .raises => runRaises s
  | .verify => startVerify s
  | .check reading => check slices reading s
  | .settle evidence measured => settle evidence measured s
  | .stop => { s with runner := .idle }

end

end

end Steps

section Disk

open Gitllery (Codec Store Process Manifest)

variable {Value Bytes Digest : Type} [DecidableEq Digest] {C : Codec Value Bytes Digest}
  {str : Uuid → String}

variable {commits : List (Gitllery.Commit Value)} {chain : List Stamp}

section

variable (hinj : Function.Injective str) (hnone : ∀ id, str id ≠ "None")
  (hempty : ∀ id, str id ≠ "") {items : List CurationCommit}
  (hids : commits.map (·.commitId C) = items.map fun item => str item.id)
  (hnew : (chain.getLast?.any fun last => items.getLast?.any fun item => (ofLex last).2 = item.id) = false)
include hinj hnone hempty hids hnew

omit [DecidableEq Digest] in
/-- Commits that the build does not skip are not a repetition of the last one. -/
theorem isRepeat_items {hist : List (Gitllery.Commit Value)}
    (hchain : hist.map (·.commitId C) = chain.map fun stamp => str (ofLex stamp).2) :
    Gitllery.isRepeat C (Gitllery.lastCommitId C none hist) commits = false := by
  cases commits with
  | nil => rfl
  | cons commit rest =>
    cases rest with
    | cons other rest => rfl
    | nil =>
      obtain ⟨item, rfl⟩ : ∃ item, items = [item] := by
        have hlength := congrArg List.length hids
        rw [List.length_map, List.length_map] at hlength
        exact List.length_eq_one_iff.mp hlength.symm
      rw [isRepeat_singleton hinj hnone hempty hchain (List.cons.inj hids).1]
      exact hnew

/-- `append` on disk is `appendItems` on the chain, where the build does not skip it. -/
theorem append_onDisk_items {p p' : Process Bytes Digest} {m : Manifest Digest} {now : String}
    (h : OnDisk C str p.store chain)
    (happend : Gitllery.append C now commits p = (.ok m, p')) :
    OnDisk C str p'.store (appendItems items chain) := by
  obtain ⟨m₀, segs, hist, blocks, hpublished, hchain⟩ := h
  obtain ⟨segs', blocks', hpublished'⟩ := Gitllery.append_published hpublished happend
  refine ⟨m, segs', _, blocks', hpublished', ?_⟩
  unfold Gitllery.historyAfter appendItems
  rw [isRepeat_items hinj hnone hempty hids hnew hchain, hnew]
  rw [if_neg Bool.false_ne_true, if_neg Bool.false_ne_true, List.map_append, List.map_append,
    hchain, hids, List.map_map]
  rfl

end

end Disk

end GitlleryBuilds
