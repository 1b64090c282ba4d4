import AutoGallery.PyText

/-!
# Completion of import batches

A recovery of files on disk publishes its imports in bounded batches: one download
job is the parent, each batch is an import job.  Every batch that settles reports to
the parent, and closing the publication does so too; each report is one transaction
that holds the row of the parent.  A report adds up what the batches did, and the one
that finds everything settled has to finish the parent.

The reports may come in any order.  Until the last of them something is still open, so
the status of the parent is that of an active job (`Progress`); hence the last report,
and no other, finds a terminal status that differs from it (`parentCompletion_last`).
-/

namespace ImportLifecycle

open PyText List

section Model

/-- The statuses of download and import jobs. -/
inductive JobStatus where
  | enqueued
  | downloading
  | downloaded
  | importing
  | running
  | recovering
  | complete
  | paused
  | cancelled
  | failed
  | stale
  deriving DecidableEq, Repr

/-- `BOUNDED_SETTLED_STATUSES`. -/
def boundedSettledStatuses : List JobStatus :=
  [.complete, .cancelled, .failed, .stale]

/-- `PARENT_TERMINAL_STATUSES`. -/
def parentTerminalStatuses : List JobStatus :=
  [.complete, .cancelled, .failed]

/-- What an import counts. -/
inductive StatKey where
  | works
  | assets
  | multiPage
  | skipped
  | existing
  deriving DecidableEq, Repr

/-- The statistics of an import; a key may be missing. -/
abbrev Stats := StatKey → Option Int

/-- `int(stats.get(key) or 0)`. -/
def Stats.count (stats : Stats) (key : StatKey) : Int :=
  (stats key).getD 0

variable {JobId : Type} [DecidableEq JobId]

/-- What the manifest of the parent keeps of one batch. -/
structure BatchResult where
  status : JobStatus
  stats : Stats
  totalGroups : Int
  message : Option Text

/-- An entry of `manifest["events"]`. -/
structure Event (JobId : Type) where
  time : Text
  event : Text
  fromStatus : JobStatus
  toStatus : JobStatus
  importJobId : Option JobId

/-- The manifest of a download job. -/
structure Manifest (JobId : Type) where
  diskImportRecovery : Bool
  publicationOpen : Bool
  batches : List (JobId × BatchResult)
  recoveryClaim : Option Text
  recoveryClaimedAt : Option Text
  events : List (Event JobId)

/-- The row of the parent.  `providerFailure` is the reason that
`unresolved_provider_failure` reads off the evidence in its manifest. -/
structure DownloadJob (JobId : Type) where
  status : JobStatus
  errorLog : Option Text
  providerFailure : Option Text
  manifest : Manifest JobId

/-- The row of a batch. -/
structure ImportJob (JobId : Type) where
  id : JobId
  status : JobStatus
  deriving DecidableEq

/-- What a report returns. -/
structure ImportParentCompletion where
  shouldFinalize : Bool
  status : JobStatus
  message : Text
  stats : Stats
  totalGroups : Int

/-- `batch_results[id] = result`. -/
def setBatch (id : JobId) (result : BatchResult) :
    List (JobId × BatchResult) → List (JobId × BatchResult)
  | [] => [(id, result)]
  | (key, value) :: rest =>
    if key = id then (id, result) :: rest else (key, value) :: setBatch id result rest

/-- `append_manifest_event`: the last two hundred events are kept. -/
def appendManifestEvent (job : DownloadJob JobId) (event : Event JobId) : DownloadJob JobId :=
  let events := job.manifest.events ++ [event]
  { job with manifest := { job.manifest with events := events.drop (events.length - 200) } }

/-- The status the children give their parent. -/
def aggregateStatus (publicationOpen : Bool) (childStatuses : List JobStatus) : JobStatus :=
  let active := childStatuses.any fun s => s ∉ boundedSettledStatuses ∧ s ≠ .paused
  if publicationOpen ∨ active then .importing
  else if .paused ∈ childStatuses then .paused
  else if .failed ∈ childStatuses then .failed
  else if .stale ∈ childStatuses then .stale
  else if .cancelled ∈ childStatuses then .cancelled
  else if childStatuses ≠ [] ∧ ∀ s ∈ childStatuses, s ∈ boundedSettledStatuses then .complete
  else .importing

/-- The message that goes with the status. -/
def aggregateMessage (status : JobStatus) (batches : Nat) (works : Int) (fallback : Text) : Text :=
  match status with
  | .complete =>
    if batches = 1 then fallback
    else "Imported ".toList ++ (toString works).toList ++ " works across ".toList ++
      (toString batches).toList ++ " bounded batches".toList
  | .cancelled => "One or more bounded import batches were cancelled".toList
  | .failed => "One or more bounded import batches failed".toList
  | .stale => "One or more bounded import batches lost its worker".toList
  | .paused => "All active bounded import batches are paused".toList
  | _ => "Bounded import publication or child batches remain active".toList

section

variable (childStatuses : List JobStatus)

section

variable (parent : DownloadJob JobId)

/-- `_bounded_parent_completion`. -/
def boundedParentCompletion (batchResults : List (JobId × BatchResult)) (fallbackMessage : Text) :
    ImportParentCompletion :=
  let publicationOpen := parent.manifest.publicationOpen
  let allSettled := childStatuses ≠ [] ∧ ∀ s ∈ childStatuses, s ∈ boundedSettledStatuses
  let total (key : StatKey) := (batchResults.map fun entry => entry.2.stats.count key).sum
  let status := aggregateStatus publicationOpen childStatuses
  { shouldFinalize := decide (allSettled ∧ publicationOpen = false ∧ parent.status ≠ status)
    status := status
    message := aggregateMessage status childStatuses.length (total .works) fallbackMessage
    stats := fun key => some (total key)
    totalGroups := (batchResults.map fun entry => entry.2.totalGroups).sum }

/-- `_apply_bounded_parent_aggregate`, with the default `error=None`. -/
def applyBoundedParentAggregate (completion : ImportParentCompletion)
    (event : Text) (importJobId : Option JobId) (now : Text) : DownloadJob JobId :=
  if parent.status = completion.status then parent
  else
    appendManifestEvent
      { parent with
        status := completion.status
        errorLog := if completion.status ∈ [JobStatus.failed, .stale] then some completion.message
          else none }
      ⟨now, event, parent.status, completion.status, importJobId⟩

/-- `ALLOWED_DOWNLOAD_TRANSITIONS`. -/
def allowedDownloadTransitions : JobStatus → List JobStatus
  | .enqueued => [.downloading, .paused, .cancelled, .failed, .stale]
  | .downloading => [.downloaded, .paused, .cancelled, .failed, .stale]
  | .downloaded => [.importing, .complete, .paused, .cancelled, .failed, .stale]
  | .importing => [.complete, .paused, .cancelled, .failed, .stale]
  | .paused => [.enqueued, .importing, .cancelled, .failed, .stale]
  | .failed => [.enqueued, .cancelled, .importing]
  | .stale => [.enqueued, .cancelled, .importing]
  | .complete => [.enqueued]
  | _ => []

/-- `transition_download_job`; an invalid transition is an error that names both statuses. -/
def transitionDownloadJob (job : DownloadJob JobId) (newStatus : JobStatus) (errorLog : Text) :
    Except (JobStatus × JobStatus) (DownloadJob JobId) :=
  if job.status = newStatus then .ok { job with errorLog := some errorLog }
  else if newStatus ∈ allowedDownloadTransitions job.status then
    .ok { job with status := newStatus, errorLog := some errorLog }
  else .error (job.status, newStatus)

/-- What a batch reports when it settles. -/
structure Settlement where
  status : JobStatus
  stats : Stats
  totalGroups : Int
  message : Text
  now : Text

/-- What the manifest keeps of a settled batch. -/
def Settlement.batch (result : Settlement) : BatchResult :=
  ⟨result.status, result.stats, result.totalGroups, some result.message⟩

/-- `update_manifest(parent, bounded_import_batches=...)` with the result of one batch. -/
def recordBatch (id : JobId) (result : Settlement) :
    DownloadJob JobId :=
  { parent with manifest := { parent.manifest with
      batches := setBatch id result.batch parent.manifest.batches } }

/-- `update_manifest(parent, bounded_import_publication_open=False, ...)`. -/
def closePublication : DownloadJob JobId :=
  { parent with manifest := { parent.manifest with
      publicationOpen := false, recoveryClaim := none, recoveryClaimedAt := none } }

/-- The end of both reports: aggregate, and give the parent the status unless the caller
has to finish it. -/
def concludeReport (fallbackMessage event : Text) (importJobId : Option JobId) (now : Text) :
    DownloadJob JobId × ImportParentCompletion :=
  let completion :=
    boundedParentCompletion childStatuses parent parent.manifest.batches fallbackMessage
  (if completion.shouldFinalize then parent
    else applyBoundedParentAggregate parent completion event importJobId now, completion)

/-- `coordinate_import_parent_completion`, with the row of the parent locked.  The
statuses are those of its import jobs, that of the caller included. -/
def coordinateImportParentCompletion (importJobId : JobId) (result : Settlement) :
    Except (JobStatus × JobStatus) (DownloadJob JobId × ImportParentCompletion) :=
  if parent.manifest.diskImportRecovery then
    .ok (concludeReport childStatuses (recordBatch parent importJobId result) result.message
      "import_aggregate".toList (some importJobId) result.now)
  else
    let shouldFinalize := decide (parent.status ∉ parentTerminalStatuses)
    match parent.providerFailure with
    | some reason =>
      if result.status = .complete then do
        let parent ← if shouldFinalize then transitionDownloadJob parent .failed reason
          else .ok parent
        return (parent, ⟨shouldFinalize, .failed, reason, result.stats, result.totalGroups⟩)
      else
        .ok (parent, ⟨shouldFinalize, result.status, result.message, result.stats,
          result.totalGroups⟩)
    | none =>
      .ok (parent, ⟨shouldFinalize, result.status, result.message, result.stats,
        result.totalGroups⟩)

/-- `close_bounded_import_publication`, with the row of the parent locked. -/
def closeBoundedImportPublication
    (now : Text) : Option (DownloadJob JobId × ImportParentCompletion) :=
  if parent.manifest.diskImportRecovery then
    some (concludeReport childStatuses (closePublication parent)
      "Bounded import publication complete".toList "bounded_import_publication_closed".toList
      none now)
  else none

end

end

/-- The parent and its batches. -/
structure World (JobId : Type) where
  parent : DownloadJob JobId
  children : List (ImportJob JobId)

/-- A report to the parent. -/
inductive Report (JobId : Type) where
  | settle (id : JobId)
  | close
  deriving DecidableEq

/-- A batch gets its status. -/
def setStatus (id : JobId) (status : JobStatus) (children : List (ImportJob JobId)) :
    List (ImportJob JobId) :=
  children.map fun child => if child.id = id then { child with status := status } else child

/-- The caller that is told to finish the parent gives it the status of the report. -/
def finishParent (reported : DownloadJob JobId × ImportParentCompletion) : DownloadJob JobId :=
  if reported.2.shouldFinalize then { reported.1 with status := reported.2.status }
  else reported.1

/-- One report; the transaction of a batch sets its own status first. -/
def report (results : JobId → Settlement) (closedAt : Text) (w : World JobId) :
    Report JobId → Option (World JobId × ImportParentCompletion)
  | .settle id => do
    let children := setStatus id (results id).status w.children
    let reported ← (coordinateImportParentCompletion (children.map (·.status))
      w.parent id (results id)).toOption
    return (⟨finishParent reported, children⟩, reported.2)
  | .close => do
    let reported ← closeBoundedImportPublication (w.children.map (·.status)) w.parent closedAt
    return (⟨finishParent reported, w.children⟩, reported.2)

/-- Reports one after the other, with what each of them returns. -/
def runReports (results : JobId → Settlement) (closedAt : Text) (w : World JobId) :
    List (Report JobId) → Option (World JobId × List ImportParentCompletion)
  | [] => some (w, [])
  | call :: calls => do
    let (w, completion) ← report results closedAt w call
    let (w, rest) ← runReports results closedAt w calls
    return (w, completion :: rest)

/-- The status of settled batches: it only depends on which statuses occur. -/
def settledStatus (statuses : Multiset JobStatus) : JobStatus :=
  if .failed ∈ statuses then .failed
  else if .stale ∈ statuses then .stale
  else if .cancelled ∈ statuses then .cancelled
  else .complete

end Model

variable {JobId : Type} {ids : List JobId} {children : List (ImportJob JobId)}
  {reported : DownloadJob JobId × ImportParentCompletion}

section Aggregation

variable {statuses : List JobStatus}

theorem aggregateStatus_open : aggregateStatus true statuses = .importing := by
  simp [aggregateStatus]

/-- While a batch is not settled the parent is importing or paused. -/
theorem aggregateStatus_unsettled (publicationOpen : Bool) {s : JobStatus} (hs : s ∈ statuses)
    (hunsettled : s ∉ boundedSettledStatuses) :
    aggregateStatus publicationOpen statuses = .importing ∨
      aggregateStatus publicationOpen statuses = .paused := by
  unfold aggregateStatus
  by_cases hpaused : s = .paused
  · subst hpaused
    simp only [if_pos hs]
    split
    · exact .inl rfl
    · exact .inr rfl
  · have hactive : (statuses.any fun s => s ∉ boundedSettledStatuses ∧ s ≠ .paused) = true :=
      any_eq_true.mpr ⟨s, hs, by simp [hunsettled, hpaused]⟩
    rw [if_pos (.inr hactive)]
    exact .inl rfl

/-- Once the publication is closed and every batch settled, the statuses of the batches
decide. -/
theorem aggregateStatus_settled (hne : statuses ≠ [])
    (hsettled : ∀ s ∈ statuses, s ∈ boundedSettledStatuses) :
    aggregateStatus false statuses = settledStatus statuses := by
  have hactive : (statuses.any fun s => s ∉ boundedSettledStatuses ∧ s ≠ .paused) = false := by
    rw [any_eq_false]
    intro s hs
    simp [hsettled s hs]
  have hpaused : JobStatus.paused ∉ statuses := by
    intro h
    exact absurd (hsettled _ h) (by decide)
  unfold aggregateStatus settledStatus
  simp only [hactive, hpaused, Multiset.mem_coe, if_false, Bool.false_eq_true, or_self,
    if_pos (And.intro hne hsettled)]

theorem settledStatus_mem (statuses : Multiset JobStatus) :
    settledStatus statuses ∈ boundedSettledStatuses := by
  unfold settledStatus
  split_ifs <;> decide

/-- Settled batches make a complete parent if, and only if, all of them are complete. -/
theorem settledStatus_eq_complete_iff {statuses : Multiset JobStatus}
    (hsettled : ∀ s ∈ statuses, s ∈ boundedSettledStatuses) :
    settledStatus statuses = .complete ↔ ∀ s ∈ statuses, s = .complete := by
  constructor
  · intro h s hs
    unfold settledStatus at h
    split_ifs at h with hfailed hstale hcancelled
    have hcases := hsettled s hs
    simp only [boundedSettledStatuses, mem_cons, not_mem_nil, or_false] at hcases
    rcases hcases with rfl | rfl | rfl | rfl
    · rfl
    · exact absurd hs hcancelled
    · exact absurd hs hfailed
    · exact absurd hs hstale
  · intro h
    have hnot : ∀ s, s ≠ JobStatus.complete → s ∉ statuses := fun s hs hmem => hs (h s hmem)
    simp [settledStatus, hnot]

end Aggregation

section Batches

variable [DecidableEq JobId]

/-- The entry of a batch. -/
def batchOf (id : JobId) (batches : List (JobId × BatchResult)) : Option BatchResult :=
  batches.lookup id

theorem assigns_setBatch (id : JobId) (result : BatchResult) :
    Assigns (setBatch id result) id result := by
  refine ⟨rfl, fun first old rest => ?_⟩
  by_cases hfirst : first = id <;> simp [setBatch, hfirst]

variable {batches : List (JobId × BatchResult)}

theorem batchOf_eq_of_mem (hnodup : (batches.map Prod.fst).Nodup) {entry : JobId × BatchResult}
    (hentry : entry ∈ batches) : batchOf entry.1 batches = some entry.2 := by
  induction batches with
  | nil => cases hentry
  | cons head rest ih =>
    rw [map_cons, nodup_cons] at hnodup
    unfold batchOf at ih ⊢
    rcases mem_cons.mp hentry with rfl | hrest
    · rw [lookup_cons, beq_self_eq_true]
    · have hne : entry.1 ≠ head.1 := fun h => hnodup.1 (h ▸ mem_map_of_mem hrest)
      rw [lookup_cons, beq_false_of_ne hne]
      exact ih hnodup.2 hrest

/-- A sum over the entries of the batches is the sum over the jobs they belong to. -/
theorem sum_batches (hkeys : (batches.map Prod.fst).Perm ids) (hnodup : ids.Nodup)
    (value : BatchResult → Int) {of : JobId → BatchResult}
    (hof : ∀ id ∈ ids, batchOf id batches = some (of id)) :
    (batches.map fun entry => value entry.2).sum = (ids.map fun id => value (of id)).sum := by
  have hentry : ∀ entry ∈ batches, entry.2 = of entry.1 := by
    intro entry hentry
    have hlookup := batchOf_eq_of_mem (hkeys.nodup_iff.mpr hnodup) hentry
    rw [hof entry.1 (hkeys.mem_iff.mp (mem_map_of_mem hentry))] at hlookup
    exact (Option.some.inj hlookup).symm
  calc (batches.map fun entry => value entry.2).sum
      = ((batches.map Prod.fst).map fun id => value (of id)).sum := by
        rw [map_map]
        congr 1
        exact map_congr_left fun entry h => by rw [Function.comp, hentry entry h]
    _ = (ids.map fun id => value (of id)).sum := (hkeys.map _).sum_eq

end Batches

section Reports

variable [DecidableEq JobId] {results : JobId → Settlement} {w : World JobId}

/-- What a report does to a parent, and what it returns. -/
structure Concluded (childStatuses : List JobStatus) (parent : DownloadJob JobId)
    (reported : DownloadJob JobId × ImportParentCompletion) : Prop where
  status : reported.2.status = aggregateStatus parent.manifest.publicationOpen childStatuses
  finalize : reported.2.shouldFinalize = true ↔
    (childStatuses ≠ [] ∧ ∀ s ∈ childStatuses, s ∈ boundedSettledStatuses) ∧
      parent.manifest.publicationOpen = false ∧ parent.status ≠ reported.2.status
  stats : ∀ key, reported.2.stats key =
    some ((parent.manifest.batches.map fun entry => entry.2.stats.count key).sum)
  totalGroups : reported.2.totalGroups =
    (parent.manifest.batches.map fun entry => entry.2.totalGroups).sum
  parentStatus : (finishParent reported).status = reported.2.status
  manifest : ∃ events,
    (finishParent reported).manifest = { parent.manifest with events := events }

omit [DecidableEq JobId] in
/-- Whoever gives the parent its status, it is that of the report; besides the trace
nothing else of the manifest changes. -/
theorem concludeReport_spec (childStatuses : List JobStatus) (parent : DownloadJob JobId)
    (fallbackMessage event : Text) (importJobId : Option JobId) (now : Text) :
    Concluded childStatuses parent
      (concludeReport childStatuses parent fallbackMessage event importJobId now) := by
  refine ⟨rfl, by simp [concludeReport, boundedParentCompletion], fun key => rfl, rfl, ?_, ?_⟩
  · unfold finishParent concludeReport
    dsimp only
    by_cases hfinal : (boundedParentCompletion childStatuses parent parent.manifest.batches
        fallbackMessage).shouldFinalize
    · rw [if_pos hfinal]
    · rw [if_neg hfinal, if_neg hfinal, applyBoundedParentAggregate]
      split
      · assumption
      · rfl
  · unfold finishParent concludeReport
    dsimp only
    by_cases hfinal : (boundedParentCompletion childStatuses parent parent.manifest.batches
        fallbackMessage).shouldFinalize
    · rw [if_pos hfinal, if_pos hfinal]
      exact ⟨_, rfl⟩
    · rw [if_neg hfinal, if_neg hfinal, applyBoundedParentAggregate]
      split
      · exact ⟨_, rfl⟩
      · exact ⟨_, rfl⟩

section

variable (results : JobId → Settlement)

/-- The parent as a report aggregates it. -/
def parentBefore (parent : DownloadJob JobId) :
    Report JobId → DownloadJob JobId
  | .settle id => recordBatch parent id (results id)
  | .close => closePublication parent

/-- The children as a report aggregates them. -/
def childrenBefore (children : List (ImportJob JobId)) :
    Report JobId → List (ImportJob JobId)
  | .settle id => setStatus id (results id).status children
  | .close => children

/-- **A report to a bounded parent succeeds.** -/
theorem exists_report (closedAt : Text) (hbounded : w.parent.manifest.diskImportRecovery = true)
    (call : Report JobId) :
    ∃ reported, report results closedAt w call =
        some (⟨finishParent reported, childrenBefore results w.children call⟩, reported.2) ∧
      Concluded ((childrenBefore results w.children call).map (·.status))
        (parentBefore results w.parent call) reported := by
  cases call with
  | settle id =>
    refine ⟨_, ?_, concludeReport_spec _ _ (results id).message "import_aggregate".toList
      (some id) (results id).now⟩
    simp only [report, coordinateImportParentCompletion, if_pos hbounded, Except.toOption]
    rfl
  | close =>
    refine ⟨_, ?_, concludeReport_spec _ _ "Bounded import publication complete".toList
      "bounded_import_publication_closed".toList none closedAt⟩
    simp only [report, closeBoundedImportPublication, if_pos hbounded]
    rfl

theorem setStatus_ids (id : JobId) (status : JobStatus)
    (children : List (ImportJob JobId)) :
    (setStatus id status children).map (·.id) = children.map (·.id) := by
  unfold setStatus
  rw [map_map]
  refine map_congr_left fun child _ => ?_
  dsimp only [Function.comp]
  split <;> rfl

theorem mem_setStatus {id : JobId} {status : JobStatus} {child : ImportJob JobId}
    (h : child ∈ setStatus id status children) :
    (child.id = id ∧ child.status = status) ∨ (child.id ≠ id ∧ child ∈ children) := by
  obtain ⟨old, hold, heq⟩ := mem_map.mp h
  split at heq
  next hid => exact .inl ⟨heq ▸ hid, heq ▸ rfl⟩
  next hid => exact .inr ⟨heq ▸ hid, heq ▸ hold⟩

/-- What holds between two reports, when those of `pending` are still to come. -/
structure Progress (ids : List JobId) (w : World JobId)
    (pending : List (Report JobId)) : Prop where
  bounded : w.parent.manifest.diskImportRecovery = true
  children : w.children.map (·.id) = ids
  publication : w.parent.manifest.publicationOpen = true ↔ .close ∈ pending
  waiting : ∀ child ∈ w.children, .settle child.id ∈ pending →
    child.status ∉ boundedSettledStatuses
  settled : ∀ child ∈ w.children, .settle child.id ∉ pending →
    child.status = (results child.id).status
  keys : ∀ key ∈ w.parent.manifest.batches.map Prod.fst, key ∈ ids
  keysNodup : (w.parent.manifest.batches.map Prod.fst).Nodup
  recorded : ∀ id ∈ ids, .settle id ∉ pending →
    batchOf id w.parent.manifest.batches = some (results id).batch

end

variable {call : Report JobId} {pending : List (Report JobId)}

/-- One report keeps the account of what is still to come. -/
theorem Progress.report (h : Progress results ids w (call :: pending))
    (hnodup : (call :: pending).Nodup) (hcall : ∀ id, call = .settle id → id ∈ ids)
    (hreported : Concluded ((childrenBefore results w.children call).map (·.status))
      (parentBefore results w.parent call) reported) :
    Progress results ids ⟨finishParent reported, childrenBefore results w.children call⟩
      pending := by
  obtain ⟨events, hmanifest⟩ := hreported.manifest
  rw [nodup_cons] at hnodup
  cases call with
  | settle id =>
    have hid := hcall id rfl
    have hstill : ∀ other, other ≠ id → .settle other ∉ pending →
        Report.settle other ∉ .settle id :: pending :=
      fun other hne hpending => by simp [hne, hpending]
    refine ⟨?_, ?_, ?_, ?_, ?_, ?_, ?_, ?_⟩ <;> dsimp only
    · rw [hmanifest]
      exact h.bounded
    · rw [childrenBefore, setStatus_ids]
      exact h.children
    · rw [hmanifest]
      simpa [parentBefore, recordBatch] using h.publication
    · intro child hchild hpending
      rcases mem_setStatus hchild with ⟨rfl, -⟩ | ⟨-, hold⟩
      · exact absurd hpending hnodup.1
      · exact h.waiting child hold (mem_cons_of_mem _ hpending)
    · intro child hchild hpending
      rcases mem_setStatus hchild with ⟨rfl, hstatus⟩ | ⟨hne, hold⟩
      · exact hstatus
      · exact h.settled child hold (hstill _ hne hpending)
    · rw [hmanifest]
      intro key hkey
      simp only [parentBefore, recordBatch, (assigns_setBatch _ _).keys] at hkey
      split at hkey
      · exact h.keys key hkey
      · rcases mem_append.mp hkey with hold | hnew
        · exact h.keys key hold
        · rw [mem_singleton.mp hnew]
          exact hid
    · rw [hmanifest]
      exact (assigns_setBatch _ _).nodup h.keysNodup
    · rw [hmanifest]
      intro other hother hpending
      simp only [parentBefore, recordBatch, batchOf, (assigns_setBatch _ _).lookup]
      split
      next heq => rw [heq]
      next hne => exact h.recorded other hother (hstill other hne hpending)
  | close =>
    have hiff : ∀ id, Report.settle id ∈ Report.close :: pending ↔ Report.settle id ∈ pending :=
      fun id => by simp
    refine ⟨?_, h.children, ?_, ?_, ?_, ?_, ?_, ?_⟩ <;> dsimp only
    · rw [hmanifest]
      exact h.bounded
    · rw [hmanifest]
      simpa [parentBefore, closePublication] using hnodup.1
    · exact fun child hchild hpending => h.waiting child hchild ((hiff _).mpr hpending)
    · exact fun child hchild hpending => h.settled child hchild fun hmem =>
        hpending ((hiff _).mp hmem)
    · rw [hmanifest]
      exact h.keys
    · rw [hmanifest]
      exact h.keysNodup
    · rw [hmanifest]
      exact fun id hid hpending => h.recorded id hid fun hmem => hpending ((hiff _).mp hmem)

variable {parent : DownloadJob JobId}

/-- A report that is not the last leaves the parent active and does not finish it. -/
theorem Concluded.not_last {next : Report JobId}
    (hreported : Concluded (children.map (·.status)) parent reported)
    (h : Progress results ids ⟨finishParent reported, children⟩ (next :: pending))
    (hnext : ∀ id, next = .settle id → id ∈ ids) :
    reported.2.shouldFinalize = false ∧ reported.2.status ∉ boundedSettledStatuses := by
  obtain ⟨events, hmanifest⟩ := hreported.manifest
  have hpublication := h.publication
  simp only [hmanifest] at hpublication
  rw [← Bool.not_eq_true, hreported.finalize, hreported.status]
  cases next with
  | close =>
    have hopen := hpublication.mpr mem_cons_self
    rw [hopen, aggregateStatus_open]
    exact ⟨fun hfinal => absurd hfinal.2.1 (by decide), by decide⟩
  | settle id =>
    have hid := hnext id rfl
    rw [← h.children] at hid
    obtain ⟨child, hchild, rfl⟩ := mem_map.mp hid
    have hstatus := h.waiting child hchild mem_cons_self
    have hmem : child.status ∈ children.map (·.status) := mem_map_of_mem hchild
    refine ⟨fun hfinal => hstatus (hfinal.1.2 _ hmem), ?_⟩
    rcases aggregateStatus_unsettled parent.manifest.publicationOpen hmem hstatus with heq | heq
    · rw [heq]
      decide
    · rw [heq]
      decide

/-- When nothing is to come, every batch has its entry. -/
theorem Progress.keys_perm (h : Progress results ids w []) (hids : ids.Nodup) :
    (w.parent.manifest.batches.map Prod.fst).Perm ids := by
  refine (perm_ext_iff_of_nodup h.keysNodup hids).mpr fun id => ⟨h.keys id, fun hid => ?_⟩
  obtain ⟨before, after, hsplit, -⟩ :=
    lookup_eq_some_iff.mp (h.recorded id hid not_mem_nil)
  rw [hsplit]
  simp

variable (results ids) in
/-- The parent is to be finished, with the status and the sums of all batches. -/
structure Elected (last : ImportParentCompletion) : Prop where
  final : last.shouldFinalize = true
  status : last.status = settledStatus (ids.map fun id => (results id).status)
  stats : ∀ key, last.stats key = some (ids.map fun id => (results id).stats.count key).sum
  totalGroups : last.totalGroups = (ids.map fun id => (results id).totalGroups).sum

/-- The last report finishes the parent. -/
theorem Concluded.last (hreported : Concluded (children.map (·.status)) parent reported)
    (h : Progress results ids ⟨finishParent reported, children⟩ [])
    (hids : ids.Nodup) (hne : ids ≠ [])
    (hterminal : ∀ id ∈ ids, (results id).status ∈ boundedSettledStatuses)
    (hparent : parent.status ∉ boundedSettledStatuses) : Elected ids results reported.2 := by
  obtain ⟨events, hmanifest⟩ := hreported.manifest
  have hclosed : parent.manifest.publicationOpen = false := by
    have hpublication := h.publication
    simp only [hmanifest, not_mem_nil, iff_false, Bool.not_eq_true] at hpublication
    exact hpublication
  have hstatuses : children.map (·.status) = ids.map fun id => (results id).status := by
    rw [← h.children, map_map]
    exact map_congr_left fun child hchild => h.settled child hchild not_mem_nil
  have hsettled : ∀ s ∈ children.map (·.status), s ∈ boundedSettledStatuses := by
    rw [hstatuses]
    intro s hs
    obtain ⟨id, hid, rfl⟩ := mem_map.mp hs
    exact hterminal id hid
  have hnonempty : children.map (·.status) ≠ [] := by
    rw [hstatuses]
    simpa using hne
  have hstatus : reported.2.status = settledStatus (ids.map fun id => (results id).status) := by
    rw [hreported.status, hclosed, aggregateStatus_settled hnonempty hsettled, hstatuses]
  have hbatches : parent.manifest.batches = (finishParent reported).manifest.batches := by
    rw [hmanifest]
  refine ⟨?_, hstatus, fun key => ?_, ?_⟩
  · rw [hreported.finalize]
    refine ⟨⟨hnonempty, hsettled⟩, hclosed, fun heq => hparent ?_⟩
    rw [heq, hstatus]
    exact settledStatus_mem _
  · rw [hreported.stats key, hbatches]
    exact congrArg some (sum_batches (h.keys_perm hids) hids (·.stats.count key)
      fun id hid => h.recorded id hid not_mem_nil)
  · rw [hreported.totalGroups, hbatches]
    exact sum_batches (h.keys_perm hids) hids (·.totalGroups)
      fun id hid => h.recorded id hid not_mem_nil

theorem parentBefore_status (call : Report JobId) :
    (parentBefore results parent call).status = parent.status := by
  cases call <;> rfl

/-- **The reports of a run**: all but the last leave the parent open, the last finishes
it.  By induction on the reports still to come, with `Progress` between them. -/
theorem runReports_elects (closedAt : Text) (hids : ids.Nodup) (hne : ids ≠ [])
    (hterminal : ∀ id ∈ ids, (results id).status ∈ boundedSettledStatuses)
    (hnodup : (call :: pending).Nodup) (hcalls : ∀ id, .settle id ∈ call :: pending → id ∈ ids)
    (h : Progress results ids w (call :: pending))
    (hstatus : pending = [] → w.parent.status ∉ boundedSettledStatuses) :
    ∃ w' earlier last,
      runReports results closedAt w (call :: pending) = some (w', earlier ++ [last]) ∧
      (∀ completion ∈ earlier, completion.shouldFinalize = false) ∧ Elected ids results last := by
  induction pending generalizing call w with
  | nil =>
    obtain ⟨reported, hreport, hconcluded⟩ :=
      exists_report results closedAt h.bounded call
    have hprogress := h.report hnodup (fun id heq => hcalls id (heq ▸ mem_cons_self)) hconcluded
    refine ⟨⟨finishParent reported, childrenBefore results w.children call⟩, [], reported.2, ?_,
      by simp, ?_⟩
    · simp only [runReports, hreport]
      rfl
    · exact hconcluded.last hprogress hids hne hterminal
        (by rw [parentBefore_status]; exact hstatus rfl)
  | cons next pending ih =>
    obtain ⟨reported, hreport, hconcluded⟩ :=
      exists_report results closedAt h.bounded call
    have hprogress := h.report hnodup (fun id heq => hcalls id (heq ▸ mem_cons_self)) hconcluded
    have hrest : ∀ id, .settle id ∈ next :: pending → id ∈ ids :=
      fun id hid => hcalls id (mem_cons_of_mem _ hid)
    obtain ⟨hfinal, hactive⟩ := hconcluded.not_last hprogress
      fun id heq => hrest id (heq ▸ mem_cons_self)
    obtain ⟨w', earlier, last, hrun, hearlier, hlast⟩ := ih (nodup_cons.mp hnodup).2 hrest
      hprogress fun _ => by rw [hconcluded.parentStatus]; exact hactive
    refine ⟨w', reported.2 :: earlier, last, ?_, forall_mem_cons.mpr ⟨hfinal, hearlier⟩, hlast⟩
    rw [runReports, hreport]
    simp only [Option.bind_eq_bind, Option.bind_some, hrun]
    rfl

end Reports

section Election

variable [DecidableEq JobId]

/-- A parent whose batches are being published: the publication is open, no batch has
settled yet, and the manifest only has entries of its own batches. -/
structure Published (w : World JobId) : Prop where
  bounded : w.parent.manifest.diskImportRecovery = true
  publication : w.parent.manifest.publicationOpen = true
  childIds : (w.children.map (·.id)).Nodup
  children : w.children ≠ []
  unsettled : ∀ child ∈ w.children, child.status ∉ boundedSettledStatuses
  keys : ∀ key ∈ w.parent.manifest.batches.map Prod.fst, key ∈ w.children.map (·.id)
  keysNodup : (w.parent.manifest.batches.map Prod.fst).Nodup

/-- **One report finishes the parent.**  In whatever order the batches settle and the
publication is closed, the last report and no other has to finish the parent; its
status depends on the statuses of the batches only, and it has the sums of all of
them. -/
theorem parentCompletion_last (results : JobId → Settlement) (closedAt : Text) (w : World JobId)
    (hw : Published w)
    (hterminal : ∀ child ∈ w.children, (results child.id).status ∈ boundedSettledStatuses)
    (calls : List (Report JobId))
    (hcalls : calls.Perm (.close :: w.children.map fun child => .settle child.id)) :
    ∃ w' earlier last, runReports results closedAt w calls = some (w', earlier ++ [last]) ∧
      (∀ completion ∈ earlier, completion.shouldFinalize = false) ∧
      last.shouldFinalize = true ∧
      last.status = settledStatus (w.children.map fun child => (results child.id).status) ∧
      (last.status = .complete ↔
        ∀ child ∈ w.children, (results child.id).status = .complete) ∧
      (∀ key, last.stats key =
        some (w.children.map fun child => (results child.id).stats.count key).sum) ∧
      last.totalGroups = (w.children.map fun child => (results child.id).totalGroups).sum := by
  have hmem : ∀ id, .settle id ∈ calls ↔ id ∈ w.children.map (·.id) := by
    intro id
    rw [hcalls.mem_iff]
    simp
  have hnodup : calls.Nodup := by
    rw [hcalls.nodup_iff, nodup_cons]
    refine ⟨by simp, ?_⟩
    have hmap : (w.children.map fun child => Report.settle child.id) =
        (w.children.map (·.id)).map .settle := by
      rw [map_map]
      rfl
    rw [hmap]
    exact hw.childIds.map fun _ _ heq => Report.settle.inj heq
  have hprogress : Progress results (w.children.map (·.id)) w calls := by
    refine ⟨hw.bounded, rfl, ?_, fun child hchild _ => hw.unsettled child hchild, ?_, hw.keys,
      hw.keysNodup, ?_⟩
    · rw [hcalls.mem_iff]
      simp [hw.publication]
    · exact fun child hchild hnot => absurd ((hmem _).mpr (mem_map_of_mem hchild)) hnot
    · exact fun id hid hnot => absurd ((hmem id).mpr hid) hnot
  cases calls with
  | nil => exact absurd hcalls.symm (by simp)
  | cons call pending =>
    have hpending : pending ≠ [] := by
      intro hnil
      have hlength := hcalls.length_eq
      rw [hnil] at hlength
      simp only [length_cons, length_nil, length_map] at hlength
      exact hw.children (eq_nil_of_length_eq_zero (by omega))
    obtain ⟨w', earlier, last, hrun, hearlier, hfinal, hstatus, hstats, htotal⟩ :=
      runReports_elects closedAt hw.childIds (by simpa using hw.children) (fun id hid => by
          obtain ⟨child, hchild, rfl⟩ := mem_map.mp hid
          exact hterminal child hchild)
        hnodup (fun id hid => (hmem id).mp hid) hprogress (fun hnil => absurd hnil hpending)
    simp only [map_map, Function.comp_def] at hstatus hstats htotal
    refine ⟨w', earlier, last, hrun, hearlier, hfinal, hstatus, ?_, hstats, htotal⟩
    rw [hstatus, settledStatus_eq_complete_iff]
    · simp
    · simpa using hterminal

/-- Two batches, one of them complete and one stale, with the publication closed in
between. -/
theorem parentCompletion_last_stale :
    let results : Nat → Settlement := fun id =>
      ⟨if id = 1 then .complete else .stale, fun key => if key = .works then some 3 else none,
        4, "done".toList, "now".toList⟩
    let w : World Nat :=
      ⟨⟨.downloaded, none, none, ⟨true, true, [], none, none, []⟩⟩, [⟨1, .running⟩, ⟨2, .paused⟩]⟩
    ∃ w' earlier last, runReports results "now".toList w [.settle 1, .close, .settle 2] =
        some (w', earlier ++ [last]) ∧
      last.status = .stale ∧ last.stats .works = some 6 ∧ last.totalGroups = 8 := by
  intro results w
  obtain ⟨w', earlier, last, hrun, -, -, hstatus, -, hstats, htotal⟩ :=
    parentCompletion_last results "now".toList w
      ⟨rfl, rfl, by decide, by decide, by decide, by decide, by decide⟩ (by decide)
      [.settle 1, .close, .settle 2] (by decide)
  exact ⟨w', earlier, last, hrun, hstatus.trans (by decide), (hstats .works).trans (by decide),
    htotal.trans (by decide)⟩

end Election

end ImportLifecycle
