import AutoGallery.StagePlanning

/-!
# Promotion can be stopped anywhere

From the files of a new stage one can say for every completed file what is to become of it:
it is linked, it is there already, or it replaces meta data (`Task`); otherwise there is a
conflict.  So one can say what the canonical tree will be (`goal`).

A stage is in one of three phases (`Phase`).  Nothing has been touched; or a batch is
prepared, and each canonical path is as it was or as it will be; or the batch is promoted,
and all of them are as they will be.  A call of `promote` keeps to the phases with every
write, and it returns if and only if nothing is in the way of the promotion (`Clear`).
-/

namespace DownloadStage

open PyText Stoppable List Function

section Phases

variable {Bytes Digest : Type}

/-- A completed file of the stage. -/
def Completed (start : Disk Digest) (path : Path) (identity : Nat) : Prop :=
  isIncomplete path = false ∧ start.staged.lookup path = some (.file identity)

/-- A file with this content was in the place of the completed one. -/
def Replaced (host : Host Bytes Digest) (start : Disk Digest) (path : Path) (identity : Nat) :
    Prop :=
  ∃ target, start.canonical path = some (.file target) ∧ ¬FilesEqual host identity target

/-- What the promotion makes of a canonical path. -/
def goal [DecidableEq Bytes] (host : Host Bytes Digest) (start : Disk Digest) (path : Path) : Option Node :=
  if isIncomplete path then start.canonical path
  else
    match start.staged.lookup path, start.canonical path with
    | some (.file identity), none => some (.file identity)
    | some (.file identity), some (.file target) =>
      if FilesEqual host identity target then some (.file target) else some (.file identity)
    | _, target => target

variable (host : Host Bytes Digest) (source : Option Text) (provider : Option (Provider Bytes))
  (start : Disk Digest)

/-- What is to be done with a completed file, and the entry that says so. -/
inductive Task (path : Path) (identity : Nat) : Entry Digest → Prop
  | link (htarget : start.canonical path = none) :
      Task path identity ⟨identity, .link, none, false, none⟩
  | keep {target : Nat} {action : Action} (htarget : start.canonical path = some (.file target))
      (hequal : FilesEqual host identity target)
      (haction : action = .recoveredLink ∨ action = .acceptExisting) :
      Task path identity ⟨identity, action, some target, false, none⟩
  | replace {target : Nat} {update : Update Digest}
      (htarget : start.canonical path = some (.file target))
      (hunequal : ¬FilesEqual host identity target)
      (hupdate : safeMetadataUpdate host source provider path identity target = some update) :
      Task path identity ⟨identity, .replaceMetadata, none, true, some update.replacementSha⟩

/-- Nothing is in the way of the promotion. -/
structure Clear : Prop where
  regular : AllRegular start.staged
  tasks : ∀ path identity, Completed start path identity →
    ∃ entry, Task host source provider start path identity entry
  retained : ∀ path identity, Completed start path identity → Replaced host start path identity →
    ∀ node, start.retained path = some node → ∃ copy, node = .file copy ∧
      FilesEqual host identity copy

variable {host source provider start} {path : Path} {identity : Nat}

variable {first second target : Nat} {entry : Entry Digest}

theorem filesEqual_iff_sha : FilesEqual host first second ↔ host.sha first = host.sha second :=
  host.sha256_injective.eq_iff.symm

theorem FilesEqual.symm (h : FilesEqual host first second) :
    FilesEqual host second first := Eq.symm h

theorem FilesEqual.trans {third : Nat} (h : FilesEqual host first second)
    (h' : FilesEqual host second third) : FilesEqual host first third := Eq.trans h h'

section

variable [DecidableEq Bytes] (hcompleted : Completed start path identity)
include hcompleted

theorem goal_of_missing (htarget : start.canonical path = none) :
    goal host start path = some (.file identity) := by
  simp only [goal, hcompleted.1, hcompleted.2, htarget, Bool.false_eq_true, if_false]

theorem goal_of_equal (htarget : start.canonical path = some (.file target))
    (hequal : FilesEqual host identity target) : goal host start path = some (.file target) := by
  simp only [goal, hcompleted.1, hcompleted.2, htarget, Bool.false_eq_true, if_false, if_pos hequal]

theorem goal_of_replaced (hreplaced : Replaced host start path identity) :
    goal host start path = some (.file identity) := by
  obtain ⟨target, htarget, hunequal⟩ := hreplaced
  simp only [goal, hcompleted.1, hcompleted.2, htarget, Bool.false_eq_true, if_false,
    if_neg hunequal]

/-- The target is a file with the content of the completed one. -/
theorem Task.goal_eq (h : Task host source provider start path identity entry) :
    ∃ target, goal host start path = some (.file target) ∧ FilesEqual host identity target := by
  cases h with
  | link htarget => exact ⟨identity, goal_of_missing hcompleted htarget, rfl⟩
  | keep htarget hequal _ => exact ⟨_, goal_of_equal hcompleted htarget hequal, hequal⟩
  | replace htarget hunequal _ =>
    exact ⟨identity, goal_of_replaced hcompleted ⟨_, htarget, hunequal⟩, rfl⟩

end

/-- A path without a completed file stays as it is. -/
theorem goal_of_rest [DecidableEq Bytes] (h : ∀ identity, ¬Completed start path identity) :
    goal host start path = start.canonical path := by
  unfold goal
  by_cases hincomplete : isIncomplete path = true
  · rw [if_pos hincomplete]
  rw [if_neg hincomplete]
  have hnot : ∀ n, start.staged.lookup path ≠ some (.file n) :=
    fun n hn => h n ⟨Bool.eq_false_iff.mpr hincomplete, hn⟩
  split
  · exact absurd ‹_› (hnot _)
  · exact absurd ‹_› (hnot _)
  · rfl

theorem Completed.unique {other : Nat} (h : Completed start path identity)
    (h' : Completed start path other) : identity = other := by
  have := h.2.symm.trans h'.2
  injection this with this
  injection this

section

variable (h : Task host source provider start path identity entry)
include h

theorem Task.not_metadata
    (haction : entry.action.isMetadata = false) : ¬Replaced host start path identity := by
  rintro ⟨target, htarget, hunequal⟩
  cases h with
  | link hnone =>
    rw [hnone] at htarget
    cases htarget
  | keep hfile hequal _ =>
    cases hfile.symm.trans htarget
    exact hunequal hequal
  | replace => cases haction

theorem Task.metadata (haction : entry.action.isMetadata = true) :
    ∃ target update, start.canonical path = some (.file target) ∧
      ¬FilesEqual host identity target ∧
      safeMetadataUpdate host source provider path identity target = some update ∧
      entry.replacementSha = some update.replacementSha := by
  cases h with
  | link => cases haction
  | keep _ _ hkind =>
    rcases hkind with rfl | rfl <;> cases haction
  | replace htarget hunequal hupdate => exact ⟨_, _, htarget, hunequal, hupdate, rfl⟩

theorem Task.planned :
    entry.plannedIdentity = identity := by
  cases h <;> rfl

end

/-- An update names the digests of the two versions. -/
theorem safeMetadataUpdate_sha {update : Update Digest}
    (h : safeMetadataUpdate host source provider path identity target = some update) :
    update.previousSha = host.sha target ∧ update.replacementSha = host.sha identity := by
  unfold safeMetadataUpdate at h
  cases provider with
  | none => cases h
  | some provider =>
    simp only [Option.bind_eq_bind, Option.bind_some] at h
    split_ifs at h
    obtain ⟨⟨_, _⟩, -, h⟩ := Option.bind_eq_some_iff.mp h
    obtain ⟨⟨_, _⟩, -, h⟩ := Option.bind_eq_some_iff.mp h
    dsimp only at h
    split_ifs at h
    cases h
    exact ⟨rfl, rfl⟩

/-! ### The three phases -/

variable (host) in
/-- There is a retained copy of the file. -/
def Copied (d : Disk Digest) (path : Path) (identity : Nat) : Prop :=
  ∃ copy, d.retained path = some (.file copy) ∧ FilesEqual host identity copy

variable (start) in
/-- Nothing has been touched. -/
structure Untouched (d : Disk Digest) : Prop where
  staged : d.staged = start.staged
  retained : d.retained = start.retained
  canonical : d.canonical = start.canonical
  manifest : ∀ m, d.manifest = some m → m.promotionBatch = none ∧
    ∀ path identity, m.planned.lookup path = some identity → Completed start path identity

variable (host source provider start) in
/-- The entries of a batch are the tasks of the stage. -/
structure Tasks (batch : Batch Digest) : Prop where
  entry : ∀ path identity, Completed start path identity → ∃ entry,
    batch.entries.lookup path = some entry ∧ Task host source provider start path identity entry
  only : ∀ path entry, batch.entries.lookup path = some entry →
    ∃ identity, Completed start path identity

theorem Tasks.of_lookup {batch : Batch Digest} (h : Tasks host source provider start batch)
    (hentry : batch.entries.lookup path = some entry) : ∃ identity,
      Completed start path identity ∧ Task host source provider start path identity entry := by
  obtain ⟨identity, hcompleted⟩ := h.only path entry hentry
  obtain ⟨e, he, htask⟩ := h.entry path identity hcompleted
  cases hentry.symm.trans he
  exact ⟨identity, hcompleted, htask⟩

variable (start) in
theorem completed_or (path : Path) :
    (∃ identity, Completed start path identity) ∨ ∀ identity, ¬Completed start path identity :=
  (Classical.em _).imp_right not_exists.mp

variable (host start) in
/-- The manifest has the digests of the versions that replace each other. -/
def Updates (m : Manifest Digest) : Prop :=
  ∀ path identity target, Completed start path identity →
    start.canonical path = some (.file target) → ¬FilesEqual host identity target →
      ∃ update, m.metadataUpdates.lookup path = some update ∧
        update.previousSha = host.sha target ∧ update.replacementSha = host.sha identity

variable [DecidableEq Bytes]

variable (host start) in
/-- The files while a batch is promoted.  Each canonical path is as it was or as it will be,
and a staged file is only gone when it has arrived. -/
structure Halfway (d : Disk Digest) : Prop where
  rest : ∀ path, (∀ identity, ¬Completed start path identity) →
    d.staged.lookup path = start.staged.lookup path ∧ d.canonical path = start.canonical path
  target : ∀ path identity, Completed start path identity →
    d.canonical path = start.canonical path ∨ d.canonical path = goal host start path
  source : ∀ path identity, Completed start path identity →
    d.staged.lookup path = some (.file identity) ∨
      Replaced host start path identity ∧ d.staged.lookup path = none ∧
        d.canonical path = goal host start path ∧ Copied host d path identity
  retained : ∀ path, d.retained path = start.retained path ∨
    start.retained path = none ∧ ∃ identity, Completed start path identity ∧
      Copied host d path identity

variable (host source provider start) in
/-- A batch is prepared. -/
def Underway (d : Disk Digest) : Prop :=
  ∃ m batch, d.manifest = some m ∧ m.promotionBatch = some batch ∧ batch.promoted = false ∧
    Tasks host source provider start batch ∧ Updates host start m ∧ AllRegular start.staged ∧
      Halfway host start d

variable (host start) in
/-- The files when a batch is promoted. -/
structure Arrived (m : Manifest Digest) (d : Disk Digest) : Prop where
  canonical : d.canonical = goal host start
  promoted : ∀ path identity, Completed start path identity → ∃ target,
    d.canonical path = some (.file target) ∧ m.promoted.lookup path = some target
  staged : ∀ path, d.staged.lookup path = start.staged.lookup path ∨
    (∃ identity, Completed start path identity) ∧ d.staged.lookup path = none
  retained : ∀ path identity, Completed start path identity → Replaced host start path identity →
    d.retained path = none ∨ Copied host d path identity

variable (host source provider start) in
/-- A batch is promoted. -/
def Promoted (d : Disk Digest) : Prop :=
  ∃ m batch, d.manifest = some m ∧ m.promotionBatch = some batch ∧ batch.promoted = true ∧
    Tasks host source provider start batch ∧ Clear host source provider start ∧
      Arrived host start m d

variable (host source provider start) in
def Phase (d : Disk Digest) : Prop :=
  Untouched start d ∨ Underway host source provider start d ∨ Promoted host source provider start d

/-! ### What the writes do -/

section Writes

variable {d : Disk Digest}

omit [DecidableEq Bytes] in
theorem Copied.linkRetained {other : Path} {n copy : Nat} (h : Copied host d other n)
    (hnone : d.retained path = none) : Copied host (d.linkRetained path copy) other n := by
  obtain ⟨c, hc, hequal⟩ := h
  have hne : other ≠ path := by
    rintro rfl
    rw [hnone] at hc
    cases hc
  exact ⟨c, (update_of_ne hne _ _).trans hc, hequal⟩

theorem Halfway.linkRetained {copy : Nat} (h : Halfway host start d)
    (hcompleted : Completed start path identity) (hnone : d.retained path = none)
    (hcopy : FilesEqual host identity copy) : Halfway host start (d.linkRetained path copy) := by
  refine ⟨h.rest, h.target, fun p n hp => ?_, fun p => ?_⟩
  · refine (h.source p n hp).imp_right fun ⟨hreplaced, hgone, hgoal, hcopied⟩ => ?_
    exact ⟨hreplaced, hgone, hgoal, hcopied.linkRetained hnone⟩
  · by_cases hp : p = path
    · subst hp
      refine .inr ⟨?_, identity, hcompleted, copy, update_self .., hcopy⟩
      rcases h.retained p with hsame | ⟨hstart, -⟩
      · exact hsame ▸ hnone
      · exact hstart
    · refine (h.retained p).imp (update_of_ne hp _ _).trans fun ⟨hstart, n, hn, hcopied⟩ => ?_
      exact ⟨hstart, n, hn, hcopied.linkRetained hnone⟩

/-- A path that gets its target leaves the others as they are. -/
theorem goal_of_update {canonical : Path → Option Node} {node : Option Node} {p : Path}
    (hgoal : goal host start path = node) (hp : canonical p = goal host start p) :
    update canonical path node p = goal host start p := by
  by_cases hpath : p = path
  · subst hpath
    exact (update_self ..).trans hgoal.symm
  · exact (update_of_ne hpath _ _).trans hp

theorem Halfway.linkCanonical (h : Halfway host start d)
    (hcompleted : Completed start path identity) (hnone : start.canonical path = none) :
    Halfway host start (d.linkCanonical path identity) := by
  have hother : ∀ p, p ≠ path → (d.linkCanonical path identity).canonical p = d.canonical p :=
    fun p hne => update_of_ne hne _ _
  have hgoal : goal host start path = _ := goal_of_missing hcompleted hnone
  refine ⟨fun p hp => ?_, fun p n hp => ?_, fun p n hp => ?_, h.retained⟩
  · have hne : p ≠ path := by
      rintro rfl
      exact hp identity hcompleted
    exact ⟨(h.rest p hp).1, (hother p hne).trans (h.rest p hp).2⟩
  · by_cases hpath : p = path
    · subst hpath
      exact .inr ((update_self ..).trans hgoal.symm)
    · rw [hother p hpath]
      exact h.target p n hp
  · refine (h.source p n hp).imp_right fun ⟨hreplaced, hgone, hthere, hcopied⟩ => ?_
    exact ⟨hreplaced, hgone, goal_of_update hgoal hthere, hcopied⟩

/-- A staged file takes the place of its target. -/
theorem replaceStaged_eq {path' : Path} {node : Node} (hstaged : d.staged.lookup path = some node)
    (hne : d.canonical path' ≠ some node) :
    d.replaceStaged path path' =
      { d with
        staged := d.staged.erase path
        canonical := Function.update d.canonical path' (some node) } := by
  simp only [Disk.replaceStaged, hstaged, if_neg hne]

theorem Halfway.replaceStaged (h : Halfway host start d)
    (hcompleted : Completed start path identity) (hreplaced : Replaced host start path identity)
    (hstaged : d.staged.lookup path = some (.file identity))
    (hne : d.canonical path ≠ some (.file identity)) (hcopied : Copied host d path identity) :
    Halfway host start (d.replaceStaged path path) := by
  rw [replaceStaged_eq hstaged hne]
  have hgoal := goal_of_replaced hcompleted hreplaced
  have hthere : update d.canonical path (some (.file identity)) path = goal host start path :=
    (update_self ..).trans hgoal.symm
  refine ⟨fun p hp => ?_, fun p n hp => ?_, fun p n hp => ?_, h.retained⟩
  · have hpath : p ≠ path := by
      rintro rfl
      exact hp identity hcompleted
    obtain ⟨hs, hc⟩ := h.rest p hp
    exact ⟨(AList.lookup_erase_ne hpath).trans hs, (update_of_ne hpath _ _).trans hc⟩
  · by_cases hpath : p = path
    · exact .inr (hpath ▸ hthere)
    · exact (h.target p n hp).imp (update_of_ne hpath _ _).trans (goal_of_update hgoal)
  · by_cases hpath : p = path
    · subst hpath
      cases hcompleted.unique hp
      exact .inr ⟨hreplaced, AList.lookup_erase _ _, hthere, hcopied⟩
    · have hsame : (d.staged.erase path).lookup p = d.staged.lookup p := AList.lookup_erase_ne hpath
      exact (h.source p n hp).imp hsame.trans fun ⟨hr, hgone, hthere, hcopy⟩ =>
        ⟨hr, hsame.trans hgone, goal_of_update hgoal hthere, hcopy⟩

end Writes

/-! ### Retaining copies -/

/-- The exception is a conflict. -/
def StageError.IsConflict (e : StageError Digest) : Prop :=
  ∃ conflicts details, e = .conflict conflicts details

section Calls

variable {d : Disk Digest} {m : Manifest Digest} {batch : Batch Digest}

variable {I : Disk Digest → Prop} {fail : StageError Digest → Disk Digest → Prop} {copied : Nat}
  {rest : List Path} {entry : Entry Digest} {m' : Manifest Digest} {promoted : Dict Nat}
  {completed : List Path}

/-- A copy is retained, unless another file is in the way. -/
theorem meets_ensureRetainedCopy {post : Unit → Disk Digest → Prop} {relative : Path}
    (hnone : d.retained relative = none →
      I (d.linkRetained relative copied) ∧ post () (d.linkRetained relative copied))
    (hthere : ∀ copy, d.retained relative = some (.file copy) → FilesEqual host copied copy →
      post () d)
    (hother : ∀ node e, d.retained relative = some node →
      (∀ copy, node = .file copy → ¬FilesEqual host copied copy) → ¬e.IsConflict → fail e d) :
    Meets I (ensureRetainedCopy host relative copied) post fail d := by
  unfold ensureRetainedCopy
  refine meets_bind (meets_get ?_)
  cases hretained : d.retained relative with
  | none => exact meets_write (hnone hretained).1 (hnone hretained).2
  | some node =>
    refine meets_bind (meets_lift (fun copy hcopy => ?_) fun e he => ?_)
    · cases validateRegularFile_ok hcopy
      split
      · exact meets_pure (hthere copy hretained ‹_›)
      · refine meets_raise (hother _ _ hretained (fun c hc => ?_) ?_)
        · cases hc
          exact ‹_›
        · rintro ⟨_, _, h⟩
          cases h
    · obtain ⟨hnot, rfl⟩ := validateRegularFile_error he
      refine hother node _ hretained (fun c hc => absurd hc (hnot c)) ?_
      rintro ⟨_, _, h⟩
      cases h

variable (host source provider start) in
/-- Something is in the way, and it is no conflict. -/
def InTheWay (e : StageError Digest) (d : Disk Digest) : Prop :=
  Underway host source provider start d ∧ ¬Clear host source provider start ∧ ¬e.IsConflict

variable (host source provider start) in
/-- How a call fails: something is in the way, and a conflict is found before anything is
touched. -/
def Fails (e : StageError Digest) (d : Disk Digest) : Prop :=
  ¬Clear host source provider start ∧
    (Untouched start d ∨ Underway host source provider start d ∧ ¬e.IsConflict)

theorem Underway.fails {e : StageError Digest} (h : InTheWay host source provider start e d) :
    Fails host source provider start e d :=
  ⟨h.2.1, .inr ⟨h.1, h.2.2⟩⟩

variable (host source provider start m batch) in
/-- The manifest of a batch that is being promoted. -/
structure Batched : Prop where
  current : m.promotionBatch = some batch
  prepared : batch.promoted = false
  tasks : Tasks host source provider start batch
  updates : Updates host start m
  regular : AllRegular start.staged

theorem Batched.underway (h : Batched host source provider start m batch)
    (hmanifest : d.manifest = some m) (hfiles : Halfway host start d) :
    Underway host source provider start d :=
  ⟨m, batch, hmanifest, h.current, h.prepared, h.tasks, h.updates, h.regular, hfiles⟩

/-- The file that a replacement is recovered from. -/
theorem Halfway.recovery (h : Halfway host start d) (hcompleted : Completed start path identity) :
    ∃ copied, recoverySource d path = some (.file copied) ∧ FilesEqual host identity copied := by
  unfold recoverySource
  rcases h.source path identity hcompleted with hkept | ⟨-, hgone, -, copy, hcopy, hequal⟩
  · exact ⟨identity, by rw [hkept]; rfl, rfl⟩
  · exact ⟨copy, by rw [hgone]; exact hcopy, hequal⟩

/-- A file that is in the way of a copy was there from the start. -/
theorem Halfway.not_clear {node : Node} (h : Halfway host start d)
    (hcompleted : Completed start path identity) (hreplaced : Replaced host start path identity)
    (hcopied : FilesEqual host identity copied) (hnode : d.retained path = some node)
    (hother : ∀ copy, node = .file copy → ¬FilesEqual host copied copy) :
    ¬Clear host source provider start := by
  intro hclear
  rcases h.retained path with hsame | ⟨-, n, hn, copy, hcopy, hequal⟩
  · obtain ⟨copy, rfl, hequal⟩ :=
      hclear.retained path identity hcompleted hreplaced node (hsame.symm.trans hnode)
    exact hother copy rfl (hcopied.symm.trans hequal)
  · cases hcompleted.unique hn
    cases hnode.symm.trans hcopy
    exact hother copy rfl (hcopied.symm.trans hequal)

variable (host start) in
/-- The replacements that are not among these paths have a second name. -/
def CopiedBut (paths : List Path) (d : Disk Digest) : Prop :=
  ∀ path identity, Completed start path identity → Replaced host start path identity →
    path ∉ paths → Copied host d path identity

omit [DecidableEq Bytes] in
theorem CopiedBut.tail (h : CopiedBut host start (path :: rest) d)
    (hpath : ∀ n, Completed start path n → Replaced host start path n → Copied host d path n) :
    CopiedBut host start rest d := by
  intro p n hp hr hrest
  by_cases hp' : p = path
  · exact hp' ▸ hpath n (hp' ▸ hp) (hp' ▸ hr)
  · exact h p n hp hr fun hmem => (mem_cons.mp hmem).elim hp' hrest

theorem meets_retainCopy [DecidableEq Digest] (hbatch : Batched host source provider start m batch)
    (hmanifest : d.manifest = some m) (hfiles : Halfway host start d)
    (hcopied : CopiedBut host start (path :: rest) d) :
    Meets (Phase host source provider start) (retainCopy host m batch.entries path)
      (fun _ t => t.manifest = some m ∧ Halfway host start t ∧ CopiedBut host start rest t)
      (InTheWay host source provider start) d := by
  unfold retainCopy
  -- the path needs no copy
  have hskip : (∀ n, Completed start path n → ¬Replaced host start path n) →
      CopiedBut host start rest d :=
    fun hnot => hcopied.tail fun n hn hr => absurd hr (hnot n hn)
  cases hentry : batch.entries.lookup path with
  | none =>
    refine meets_pure ⟨hmanifest, hfiles, hskip fun n hn => ?_⟩
    obtain ⟨e, he, -⟩ := hbatch.tasks.entry path n hn
    rw [hentry] at he
    cases he
  | some entry =>
    obtain ⟨identity, hcompleted, htask⟩ := hbatch.tasks.of_lookup hentry
    dsimp only
    split
    next hfile =>
      refine meets_pure ⟨hmanifest, hfiles, hskip fun n hn => ?_⟩
      cases hcompleted.unique hn
      exact htask.not_metadata hfile
    next hmeta =>
      obtain ⟨target, update, htarget, hunequal, hupdate, hsha⟩ :=
        htask.metadata (by simpa using hmeta)
      have hreplaced : Replaced host start path identity := ⟨target, htarget, hunequal⟩
      refine meets_bind (meets_get ?_)
      obtain ⟨copied, hrecovery, hequal⟩ := hfiles.recovery hcompleted
      rw [hrecovery]
      refine meets_lift_ok ?_
      have hreplacement : entry.replacementSha = some (host.sha copied) := by
        rw [hsha, (safeMetadataUpdate_sha hupdate).2, filesEqual_iff_sha.mp hequal]
      rw [if_neg (not_not.mpr hreplacement)]
      refine meets_ensureRetainedCopy (fun hnone => ?_) (fun copy hcopy hsame => ?_)
        fun node e hnode hother hconflict => ?_
      · have hnext := hfiles.linkRetained hcompleted hnone hequal
        refine ⟨.inr (.inl (hbatch.underway hmanifest hnext)), hmanifest, hnext, ?_⟩
        refine CopiedBut.tail (fun p n hp hr hnot => (hcopied p n hp hr hnot).linkRetained hnone)
          fun n hn _ => ?_
        cases hcompleted.unique hn
        exact ⟨copied, update_self .., hequal⟩
      · refine ⟨hmanifest, hfiles, hcopied.tail fun n hn _ => ?_⟩
        cases hcompleted.unique hn
        exact ⟨copy, hcopy, hequal.trans hsame⟩
      · exact ⟨hbatch.underway hmanifest hfiles,
          hfiles.not_clear hcompleted hreplaced hequal hnode hother, hconflict⟩

/-! ### Applying the entries -/

variable (host start) in
/-- What the second loop keeps while these paths are still to come. -/
structure Applying (m : Manifest Digest) (paths : List Path) (progress : Progress Digest)
    (d : Disk Digest) : Prop where
  manifest : d.manifest = some m
  files : Halfway host start d
  copies : CopiedBut host start [] d
  updates : Updates host start progress.manifest
  arrived : ∀ path identity, Completed start path identity → path ∉ paths →
    d.canonical path = goal host start path ∧
      ∃ target, goal host start path = some (.file target) ∧
        progress.promoted.lookup path = some target

variable (host start) in
/-- What an entry has brought about. -/
structure Brought (m : Manifest Digest) (path : Path) (d t : Disk Digest) : Prop where
  manifest : t.manifest = some m
  files : Halfway host start t
  copies : CopiedBut host start [] t
  there : t.canonical path = goal host start path
  stays : ∀ p, d.canonical p = goal host start p → t.canonical p = goal host start p

section

variable (hbatch : Batched host source provider start m batch) (hmanifest : d.manifest = some m)
  (hfiles : Halfway host start d) (hcopies : CopiedBut host start [] d)
include hbatch hmanifest hfiles hcopies

section

variable (hcompleted : Completed start path identity)
include hcompleted

theorem meets_applyFilePromotion (htask : Task host source provider start path identity entry)
    (hfile : entry.action.isMetadata = false) :
    Meets (Phase host source provider start) (applyFilePromotion host m' path entry)
      (fun _ t => Brought host start m path d t ∧ t.staged.lookup path = some (.file identity))
      fail d := by
  have hstaged : d.staged.lookup path = some (.file identity) := by
    rcases hfiles.source path identity hcompleted with hkept | ⟨hreplaced, -⟩
    · exact hkept
    · exact absurd hreplaced (htask.not_metadata hfile)
  have hdone : d.canonical path = goal host start path →
      Brought host start m path d d ∧ d.staged.lookup path = some (.file identity) :=
    fun hgoal => ⟨⟨hmanifest, hfiles, hcopies, hgoal, fun _ h => h⟩, hstaged⟩
  have hsame : ¬identity ≠ entry.plannedIdentity := not_not.mpr htask.planned.symm
  unfold applyFilePromotion
  refine meets_bind (meets_get ?_)
  rw [hstaged]
  refine meets_lift_ok ?_
  rw [if_neg hsame]
  cases htask with
  | link hnone =>
    have hgoal : goal host start path = some (.file identity) :=
      goal_of_missing hcompleted hnone
    rcases hfiles.target path identity hcompleted with hstart | hthere
    · rw [hstart, hnone]
      have hnext := hfiles.linkCanonical hcompleted hnone
      refine meets_write (.inr (.inl (hbatch.underway hmanifest hnext))) ?_
      refine ⟨⟨hmanifest, hnext, hcopies, ?_, fun p hp => goal_of_update hgoal hp⟩, hstaged⟩
      exact (update_self ..).trans hgoal.symm
    · rw [hthere, hgoal]
      have hequal : FilesEqual host identity identity := rfl
      dsimp only
      rw [if_pos hequal]
      exact meets_pure (hdone hthere)
  | keep htarget hequal _ =>
    have hgoal := goal_of_equal hcompleted htarget hequal
    have hthere : d.canonical path = goal host start path := by
      rcases hfiles.target path identity hcompleted with hstart | hthere
      · rw [hstart, htarget, hgoal]
      · exact hthere
    rw [hthere, hgoal]
    dsimp only
    rw [if_pos hequal]
    exact meets_pure (hdone hthere)
  | replace => cases hfile

theorem meets_replaceTarget (hreplaced : Replaced host start path identity)
    (hstaged : d.staged.lookup path = some (.file identity))
    (hne : d.canonical path ≠ some (.file identity)) :
    Meets (Phase host source provider start) (replaceTarget host path identity)
      (fun _ t => Brought host start m path d t) fail d := by
  have hcopied : Copied host d path identity :=
    hcopies path identity hcompleted hreplaced not_mem_nil
  have hgoal := goal_of_replaced hcompleted hreplaced
  unfold replaceTarget
  refine meets_bind (meets_ensureRetainedCopy (fun hnone => ?_) (fun _ _ _ => ?_)
    fun node e hnode hother _ => ?_)
  · obtain ⟨c, hc, -⟩ := hcopied
    rw [hnone] at hc
    cases hc
  · refine meets_bind ?_
    unfold linkBack
    refine meets_bind (meets_get ?_)
    rw [hstaged]
    refine meets_pure ?_
    have hnext := hfiles.replaceStaged hcompleted hreplaced hstaged hne hcopied
    have heq := replaceStaged_eq hstaged hne
    have hsame : (d.replaceStaged path path).manifest = some m := by
      rw [heq]
      exact hmanifest
    refine meets_write (.inr (.inl (hbatch.underway hsame hnext)))
      ⟨hsame, hnext, ?_, ?_, fun p hp => ?_⟩
    · rw [heq]
      exact hcopies
    · rw [heq, hgoal]
      exact update_self ..
    · rw [heq]
      exact goal_of_update hgoal hp
  · obtain ⟨c, hc, hequal⟩ := hcopied
    cases hnode.symm.trans hc
    exact absurd hequal (hother c rfl)

theorem meets_applyMetadataPromotion [DecidableEq Digest] (hupdates : Updates host start m')
    (htask : Task host source provider start path identity entry)
    (hmeta : entry.action.isMetadata = true) :
    Meets (Phase host source provider start) (applyMetadataPromotion host source provider m' path)
      (fun _ t => Brought host start m path d t) fail d := by
  obtain ⟨target, update, htarget, hunequal, hupdate, -⟩ := htask.metadata hmeta
  have hreplaced : Replaced host start path identity := ⟨target, htarget, hunequal⟩
  have hgoal := goal_of_replaced hcompleted hreplaced
  obtain ⟨expected, hexpected, hprevious, hreplacement⟩ :=
    hupdates path identity target hcompleted htarget hunequal
  obtain ⟨copied, hrecovery, hequal⟩ := hfiles.recovery hcompleted
  have hsha : host.sha copied = expected.replacementSha := by
    rw [hreplacement, filesEqual_iff_sha.mp hequal]
  unfold applyMetadataPromotion
  refine meets_bind (meets_get ?_)
  dsimp only
  rw [hrecovery, hexpected]
  refine meets_lift_ok ?_
  rw [if_neg (by simp [hsha])]
  rcases hfiles.target path identity hcompleted with hstart | hthere
  · -- the old version is still there, so the new one is still staged
    have hunsha : host.sha target ≠ expected.replacementSha := by
      rw [hreplacement]
      exact fun heq => hunequal (filesEqual_iff_sha.mpr heq.symm)
    have hne : d.canonical path ≠ some (.file identity) := by
      rw [hstart, htarget]
      intro heq
      cases heq
      exact hunequal rfl
    have hstaged : d.staged.lookup path = some (.file identity) := by
      rcases hfiles.source path identity hcompleted with hkept | ⟨-, -, hthere, -⟩
      · exact hkept
      · exact absurd (hthere.trans hgoal) hne
    have hcopied : copied = identity := by
      unfold recoverySource at hrecovery
      rw [hstaged] at hrecovery
      cases hrecovery
      rfl
    subst hcopied
    rw [hstart, htarget]
    dsimp only
    rw [if_neg hunsha, if_neg (not_not.mpr hprevious.symm), hupdate]
    exact meets_replaceTarget hbatch hmanifest hfiles hcopies hcompleted hreplaced hstaged hne
  · rw [hthere, hgoal]
    dsimp only
    rw [if_pos hreplacement.symm]
    exact meets_pure ⟨hmanifest, hfiles, hcopies, hthere, fun _ h => h⟩

end

end

omit [DecidableEq Bytes] in
theorem updates_markApplied (h : Updates host start m') :
    Updates host start (markApplied m' path entry) := by
  unfold markApplied
  split
  next update hupdate =>
    split
    · intro p n t hp ht hne
      obtain ⟨u, hu, hprevious, hreplacement⟩ := h p n t hp ht hne
      by_cases hpath : p = path
      · subst hpath
        cases hupdate.symm.trans hu
        exact ⟨_, AList.lookup_insert _, hprevious, hreplacement⟩
      · exact ⟨u, (AList.lookup_insert_ne hpath).trans hu, hprevious, hreplacement⟩
    · exact h
  next => exact h

theorem meets_applyEntry [DecidableEq Digest] {progress : Progress Digest}
    (hbatch : Batched host source provider start m batch)
    (h : Applying host start m (path :: rest) progress d) :
    Meets (Phase host source provider start)
      (applyEntry host source provider batch.entries progress path)
      (Applying host start m rest) fail d := by
  unfold applyEntry
  cases hentry : batch.entries.lookup path with
  | none =>
    refine meets_pure { h with arrived := fun p n hp hrest => h.arrived p n hp fun hmem => ?_ }
    rcases mem_cons.mp hmem with rfl | hlater
    · obtain ⟨e, he, -⟩ := hbatch.tasks.entry p n hp
      rw [hentry] at he
      cases he
    · exact hrest hlater
  | some entry =>
    obtain ⟨identity, hcompleted, htask⟩ := hbatch.tasks.of_lookup hentry
    obtain ⟨target, hgoal, hequal⟩ := htask.goal_eq hcompleted
    -- the two kinds of entries bring their target about
    have hbrought : Meets (Phase host source provider start)
        (applyPromotion host source provider progress.manifest path entry)
        (fun _ t => Brought host start m path d t ∧
          differs host (t.staged.lookup path) entry target = false) fail d := by
      unfold applyPromotion
      cases hkind : entry.action.isMetadata with
      | true =>
        refine (meets_applyMetadataPromotion hbatch h.manifest h.files h.copies hcompleted
          h.updates htask hkind).mono (fun _ t ht => ⟨ht, ?_⟩) fun _ _ h => h
        unfold differs
        split
        · rw [hkind]
          rfl
        · rfl
      | false =>
        refine (meets_applyFilePromotion hbatch h.manifest h.files h.copies hcompleted htask
          hkind).mono (fun _ t ht => ⟨ht.1, ?_⟩) fun _ _ h => h
        rw [ht.2]
        simp [differs, hequal]
    refine hbrought.bind fun _ t ⟨hthere, hdiffers⟩ => meets_bind ?_
    unfold recordTarget
    refine meets_bind (meets_get ?_)
    rw [hthere.there, hgoal]
    dsimp only
    rw [hdiffers]
    refine meets_pure (meets_pure ?_)
    refine ⟨hthere.manifest, hthere.files, hthere.copies, updates_markApplied h.updates,
      fun p n hp hrest => ?_⟩
    by_cases hpath : p = path
    · subst hpath
      exact ⟨hthere.there, target, hgoal, AList.lookup_insert _⟩
    · obtain ⟨hbefore, t', hgoal', hpromoted⟩ :=
        h.arrived p n hp fun hmem => (mem_cons.mp hmem).elim hpath hrest
      exact ⟨hthere.stays p hbefore, t', hgoal', (AList.lookup_insert_ne hpath).trans hpromoted⟩

/-! ### Finishing a batch -/

section

omit [DecidableEq Bytes]

/-- The check of a target that is the promoted one. -/
theorem meets_checkPromoted {target : Nat} (hthere : d.canonical path = some (.file target))
    (hpromoted : promoted.lookup path = some target) :
    Meets I (checkPromoted host m promoted path) (fun _ t => t = d) fail d := by
  unfold checkPromoted
  refine meets_bind (meets_get ?_)
  rw [hthere, hpromoted]
  dsimp only
  rw [if_pos rfl]
  exact meets_pure rfl

end

/-- All the targets of a batch pass it. -/
theorem meets_checkAll (htasks : Tasks host source provider start batch)
    (hfiles : Arrived host start m d) :
    Meets I (Call.each (checkPromoted host m' m.promoted) (sortedKeys batch.entries))
      (fun _ t => t = d) fail d := by
  refine meets_each_mem (fun path hpath t ht => ?_) rfl
  subst ht
  obtain ⟨entry, hentry⟩ := mem_sortedKeys.mp hpath
  obtain ⟨identity, hcompleted⟩ := htasks.only path entry hentry
  obtain ⟨target, hthere, hpromoted⟩ := hfiles.promoted path identity hcompleted
  exact meets_checkPromoted hthere hpromoted

variable (host source provider start) in
/-- The manifest of a batch that is promoted. -/
structure Finished (m : Manifest Digest) (batch : Batch Digest) : Prop where
  current : m.promotionBatch = some batch
  promoted : batch.promoted = true
  tasks : Tasks host source provider start batch
  clear : Clear host source provider start

theorem Finished.done (h : Finished host source provider start m batch)
    (hmanifest : d.manifest = some m) (hfiles : Arrived host start m d) :
    Promoted host source provider start d :=
  ⟨m, batch, hmanifest, h.current, h.promoted, h.tasks, h.clear, hfiles⟩

theorem Arrived.unlinkStaged (h : Arrived host start m d)
    (hcompleted : Completed start path identity) : Arrived host start m (d.unlinkStaged path) where
  canonical := h.canonical
  promoted := h.promoted
  staged p := by
    by_cases hpath : p = path
    · subst hpath
      exact .inr ⟨⟨identity, hcompleted⟩, AList.lookup_erase _ _⟩
    · have hsame : (d.unlinkStaged path).staged.lookup p = d.staged.lookup p :=
        AList.lookup_erase_ne hpath
      rw [hsame]
      exact h.staged p
  retained := h.retained

theorem Arrived.unlinkRetained (h : Arrived host start m d) :
    Arrived host start m (d.unlinkRetained path) where
  canonical := h.canonical
  promoted := h.promoted
  staged := h.staged
  retained p n hp hr := by
    by_cases hpath : p = path
    · subst hpath
      exact .inl (update_self ..)
    · have hsame : (d.unlinkRetained path).retained p = d.retained p :=
        update_of_ne hpath _ _
      refine (h.retained p n hp hr).imp hsame.trans ?_
      rintro ⟨c, hc, hequal⟩
      exact ⟨c, hsame.trans hc, hequal⟩

section

variable (hfinished : Finished host source provider start m batch) (hmanifest : d.manifest = some m)
  (hfiles : Arrived host start m d)
include hfinished hmanifest hfiles

theorem meets_cleanupSource (hentry : batch.entries.lookup path = some entry) :
    Meets (Phase host source provider start) (cleanupSource batch.entries path)
      (fun _ t => t.manifest = some m ∧ Arrived host start m t) fail d := by
  obtain ⟨identity, hcompleted, htask⟩ := hfinished.tasks.of_lookup hentry
  unfold cleanupSource
  have hstaged : Meets (Phase host source provider start)
      (cleanupStaged path : Call (Disk Digest) (StageError Digest) Unit)
      (fun _ t => t.manifest = some m ∧ Arrived host start m t) fail d := by
    unfold cleanupStaged
    refine meets_bind (meets_get ?_)
    rcases hfiles.staged path with hsame | ⟨-, hnone⟩
    · rw [hsame, hcompleted.2]
      refine meets_lift_ok ?_
      have hnext := hfiles.unlinkStaged hcompleted
      exact meets_write (.inr (.inr (hfinished.done hmanifest hnext))) ⟨hmanifest, hnext⟩
    · rw [hnone]
      exact meets_pure ⟨hmanifest, hfiles⟩
  refine hstaged.bind fun _ t ⟨htmanifest, htfiles⟩ => ?_
  rw [hentry]
  split
  next hretains =>
    -- only a replacement has a retained copy
    have hreplaced : Replaced host start path identity := by
      cases htask with
      | link | keep => cases hretains
      | replace htarget hunequal _ => exact ⟨_, htarget, hunequal⟩
    unfold cleanupRetained
    refine meets_bind (meets_get ?_)
    rcases htfiles.retained path identity hcompleted hreplaced with hnone | ⟨c, hc, -⟩
    · rw [hnone]
      exact meets_pure ⟨htmanifest, htfiles⟩
    · rw [hc]
      refine meets_lift_ok ?_
      have hnext : Arrived host start m (t.unlinkRetained path) := htfiles.unlinkRetained
      exact meets_write (.inr (.inr (hfinished.done htmanifest hnext))) ⟨htmanifest, hnext⟩
  next => exact meets_pure ⟨htmanifest, htfiles⟩

theorem meets_cleanup {preserve : List Path} :
    Meets (Phase host source provider start) (cleanupPromotedSources batch.entries preserve)
      (fun _ t => t.manifest = some m ∧ Arrived host start m t) fail d := by
  unfold cleanupPromotedSources
  refine meets_each_mem (fun path hpath t ht => ?_) ⟨hmanifest, hfiles⟩
  obtain ⟨entry, hentry⟩ := mem_sortedKeys.mp (mem_of_mem_filter hpath)
  exact meets_cleanupSource hfinished ht.1 ht.2 hentry

end

/-- A staged file is still there, or its task is done. -/
theorem Halfway.sub (h : Halfway host start d) (path : Path) :
    d.staged.lookup path = start.staged.lookup path ∨
      (∃ identity, Completed start path identity) ∧ d.staged.lookup path = none := by
  rcases completed_or start path with ⟨identity, hcompleted⟩ | hnot
  · rcases h.source path identity hcompleted with hkept | ⟨-, hgone, -⟩
    · exact .inl (hkept.trans hcompleted.2.symm)
    · exact .inr ⟨⟨identity, hcompleted⟩, hgone⟩
  · exact .inl (h.rest path hnot).1

/-- The two loops have brought every target about. -/
theorem Applying.arrived_all {progress : Progress Digest}
    (h : Applying host start m [] progress d) :
    Arrived host start (progress.checkpoint batch) d where
  canonical := by
    funext path
    rcases completed_or start path with ⟨identity, hcompleted⟩ | hnot
    · exact (h.arrived path identity hcompleted not_mem_nil).1
    · rw [goal_of_rest hnot]
      exact (h.files.rest path hnot).2
  promoted path identity hcompleted := by
    obtain ⟨hthere, target, hgoal, hpromoted⟩ :=
      h.arrived path identity hcompleted not_mem_nil
    exact ⟨target, hthere.trans hgoal, hpromoted⟩
  staged := h.files.sub
  retained path identity hcompleted hreplaced :=
    .inr (h.copies path identity hcompleted hreplaced not_mem_nil)

/-- When every replacement has a second name then no file was in the way. -/
theorem Halfway.clear (hfiles : Halfway host start d) (hcopies : CopiedBut host start [] d)
    (hbatch : Batched host source provider start m batch) : Clear host source provider start where
  regular := hbatch.regular
  tasks path identity hcompleted := by
    obtain ⟨entry, -, htask⟩ := hbatch.tasks.entry path identity hcompleted
    exact ⟨entry, htask⟩
  retained path identity hcompleted hreplaced node hnode := by
    obtain ⟨copy, hcopy, hequal⟩ := hcopies path identity hcompleted hreplaced not_mem_nil
    rcases hfiles.retained path with hsame | ⟨hnone, -⟩
    · rw [hsame, hnode] at hcopy
      cases hcopy
      exact ⟨copy, rfl, hequal⟩
    · rw [hnone] at hnode
      cases hnode

theorem meets_executePromotionBatch [DecidableEq Digest] (hbatch : Batched host source provider start m batch)
    (hmanifest : d.manifest = some m) (hfiles : Halfway host start d) :
    Meets (Phase host source provider start) (executePromotionBatch host source provider m batch)
      (fun _ t => Promoted host source provider start t) (Fails host source provider start) d := by
  have hkeys : ∀ path identity, Completed start path identity → path ∈ sortedKeys batch.entries := by
    intro path identity hcompleted
    obtain ⟨entry, hentry, -⟩ := hbatch.tasks.entry path identity hcompleted
    exact mem_sortedKeys.mpr ⟨entry, hentry⟩
  unfold executePromotionBatch
  -- every replacement gets a second name
  refine (meets_each (L := fun rest t => t.manifest = some m ∧ Halfway host start t ∧
      CopiedBut host start rest t) (fun path rest t ht => ?_) ⟨hmanifest, hfiles, ?_⟩).bind
    fun _ t ⟨htmanifest, htfiles, htcopies⟩ => ?_
  · exact (meets_retainCopy hbatch ht.1 ht.2.1 ht.2.2).mono (fun _ _ h => h)
      fun _ _ h => Underway.fails h
  · exact fun path identity hcompleted _ hnot => absurd (hkeys path identity hcompleted) hnot
  -- every entry brings its target about
  refine (meets_fold (L := Applying host start m)
    (fun path rest progress u hu => meets_applyEntry hbatch hu)
    ⟨htmanifest, htfiles, htcopies, hbatch.updates, ?_⟩).bind fun progress u hu => ?_
  · exact fun path identity hcompleted hnot => absurd (hkeys path identity hcompleted) hnot
  have hclear : Clear host source provider start := hu.files.clear hu.copies hbatch
  have harrived : Arrived host start (progress.checkpoint batch) u := hu.arrived_all
  -- which is checked, and recorded
  refine (meets_checkAll hbatch.tasks harrived).bind fun _ v hv => ?_
  subst hv
  have hfinished : Finished host source provider start (progress.checkpoint batch)
      { batch with promoted := true } :=
    ⟨rfl, rfl, ⟨hbatch.tasks.entry, hbatch.tasks.only⟩, hclear⟩
  have hwritten : Arrived host start (progress.checkpoint batch)
      { v with manifest := some (progress.checkpoint batch) } :=
    { harrived with }
  refine meets_bind (meets_write (.inr (.inr (hfinished.done rfl hwritten))) ?_)
  exact (meets_cleanup hfinished rfl hwritten).bind fun _ w hw =>
    meets_pure (hfinished.done hw.1 hw.2)

/-! ### Preparing a batch -/

variable (host source provider m) in
/-- The plan of a completed file is its task, or there is a conflict. -/
theorem planPath_completed [DecidableEq Digest] (hstaged : d.staged = start.staged)
    (hcanonical : d.canonical = start.canonical) (hcompleted : Completed start path identity) :
    (∃ entry update, planPath host source provider d m path identity = .entry entry update ∧
      Task host source provider start path identity entry ∧
      ∀ target, start.canonical path = some (.file target) → ¬FilesEqual host identity target →
        ∃ u, update = some u ∧ safeMetadataUpdate host source provider path identity target = some u) ∨
    (∃ detail, planPath host source provider d m path identity = .conflict detail ∧
      ∀ entry, ¬Task host source provider start path identity entry) := by
  unfold planPath
  rw [hstaged, hcanonical, hcompleted.2]
  cases htarget : start.canonical path with
  | none =>
    refine .inl ⟨_, _, rfl, .link htarget, fun t ht => ?_⟩
    cases ht
  | some node =>
    cases node with
    | file target =>
      by_cases hequal : FilesEqual host identity target
      · refine .inl ⟨_, _, if_pos hequal, .keep htarget hequal ?_, fun t ht hne => ?_⟩
        · by_cases hsame : identity = target
          · exact .inl (if_pos hsame)
          · exact .inr (if_neg hsame)
        · cases ht
          exact absurd hequal hne
      · cases hupdate : safeMetadataUpdate host source provider path identity target with
        | none =>
          refine .inr ⟨conflictDetail host path (some (.file identity)) (some (.file target)),
            ?_, fun entry htask => ?_⟩
          · simp only [validateRegularFile, if_neg hequal, hupdate]
          cases htask with
          | link hnone => cases htarget.symm.trans hnone
          | keep hfile hsame _ =>
            cases htarget.symm.trans hfile
            exact hequal hsame
          | replace hfile _ hsome =>
            cases htarget.symm.trans hfile
            cases hupdate.symm.trans hsome
        | some update =>
          refine .inl ⟨_, some update, ?_, .replace htarget hequal hupdate, fun t ht _ => ?_⟩
          · simp only [validateRegularFile, if_neg hequal, hupdate]
          · cases ht
            exact ⟨update, rfl, hupdate⟩
    | symlink | other =>
      refine .inr ⟨_, rfl, fun entry htask => ?_⟩
      cases htask with
      | link h | keep h | replace h => cases htarget.symm.trans h

theorem Untouched.halfway (h : Untouched start d) : Halfway host start d where
  rest path _ := by
    rw [h.staged, h.canonical]
    exact ⟨rfl, rfl⟩
  target path _ _ := .inl (by rw [h.canonical])
  source path identity hcompleted := .inl (by rw [h.staged, hcompleted.2])
  retained path := .inl (by rw [h.retained])

theorem meets_preparePromotionBatch [DecidableEq Digest] (h : Untouched start d) (hmanifest : d.manifest = some m)
    (hregular : AllRegular start.staged)
    (hcompleted : ∀ path, path ∈ completed ↔
      isIncomplete path = false ∧ ∃ identity, start.staged.lookup path = some (.file identity)) :
    Meets (Phase host source provider start)
      (preparePromotionBatch host source provider m completed)
      (fun prepared t => Batched host source provider start prepared.1 prepared.2 ∧
        t.manifest = some prepared.1 ∧ Halfway host start t)
      (Fails host source provider start) d := by
  obtain ⟨hnobatch, hplannedFits⟩ := h.manifest m hmanifest
  unfold preparePromotionBatch
  refine meets_bind (meets_get ?_)
  dsimp only
  generalize hplanned : plannedWith d.staged completed m.planned = planned
  -- what is planned are the completed files
  have hlookup : ∀ path identity, planned.lookup path = some identity ↔
      Completed start path identity := by
    intro path identity
    rw [← hplanned, plannedWith_lookup, h.staged]
    constructor
    · intro hsome
      split at hsome
      next n hn =>
        split at hsome
        next hmem =>
          cases hsome
          exact ⟨((hcompleted path).mp hmem).1, hn⟩
        next => exact hplannedFits path identity hsome
      next => exact hplannedFits path identity hsome
    · intro hc
      rw [hc.2]
      exact if_pos ((hcompleted path).mpr ⟨hc.1, identity, hc.2⟩)
  have hkeys : ∀ path, path ∈ sortedKeys planned ↔ ∃ identity, Completed start path identity := by
    intro path
    rw [mem_sortedKeys]
    exact exists_congr fun identity => hlookup path identity
  have hplan : ∀ path identity, Completed start path identity →
      planPath host source provider d m path ((planned.lookup path).getD 0) =
        planPath host source provider d m path identity := by
    intro path identity hc
    rw [(hlookup path identity).mpr hc]
    rfl
  refine meets_bind (meets_lift (fun planning hplanning => ?_) fun e he => ?_)
  · have hcollected := collected_of_fold sortedKeys_nodup hplanning
    split
    next hconflicts =>
      -- a conflict is in the way, and only the manifest is written
      have hnext : ∀ m' : Manifest Digest, m'.promotionBatch = none → m'.planned = planned →
          Untouched start { d with manifest := some m' } := by
        intro m' hbatch' hplanned'
        refine ⟨h.staged, h.retained, h.canonical, fun m'' hm'' => ?_⟩
        cases hm''
        exact ⟨hbatch', fun p n hp => (hlookup p n).mp (hplanned' ▸ hp)⟩
      refine meets_bind (meets_write (.inl (hnext _ hnobatch rfl))
        (meets_raise ⟨fun hclear => ?_, .inl (hnext _ hnobatch rfl)⟩))
      obtain ⟨detail, hdetail⟩ := exists_mem_of_ne_nil _
        (fun hnil => hconflicts (by rw [hnil]; rfl) : planning.conflictDetails ≠ [])
      rcases (hcollected.details detail).mp hdetail with hnone | ⟨p, hp, hconflict⟩
      · cases hnone
      obtain ⟨n, hn⟩ := (hkeys p).mp hp
      rw [hplan p n hn] at hconflict
      obtain ⟨entry, htask⟩ := hclear.tasks p n hn
      rcases planPath_completed host source provider m h.staged h.canonical hn with ⟨_, _, hentry, -⟩ | ⟨_, -, hnot⟩
      · cases hentry.symm.trans hconflict
      · exact hnot entry htask
    next hconflicts =>
      have hnodetails : planning.conflictDetails = [] := by simpa using hconflicts
      -- without a conflict every completed file has its entry
      have hentry : ∀ path identity, Completed start path identity → ∃ entry update,
          planPath host source provider d m path ((planned.lookup path).getD 0) =
            .entry entry update ∧
          Task host source provider start path identity entry ∧
          ∀ target, start.canonical path = some (.file target) →
            ¬FilesEqual host identity target → ∃ u, update = some u ∧
              safeMetadataUpdate host source provider path identity target = some u := by
        intro p n hn
        rw [hplan p n hn]
        rcases planPath_completed host source provider m h.staged h.canonical hn with hsome | ⟨detail, hconflict, -⟩
        · exact hsome
        · have : detail ∈ planning.conflictDetails :=
            (hcollected.details detail).mpr (.inr ⟨p, (hkeys p).mpr ⟨n, hn⟩,
              (hplan p n hn).trans hconflict⟩)
          rw [hnodetails] at this
          cases this
      have hbatched : Batched host source provider start
          { m with
            planned
            metadataUpdates := planning.metadataUpdates
            conflicts := []
            conflictDetails := []
            promotionBatch := some ⟨false, planning.entries⟩ } ⟨false, planning.entries⟩ := by
        refine ⟨rfl, rfl, ⟨fun p n hn => ?_, fun p entry hp => ?_⟩, fun p n t hn ht hne => ?_,
          hregular⟩
        · obtain ⟨entry, update, hp, htask, -⟩ := hentry p n hn
          exact ⟨entry, hcollected.entry p ((hkeys p).mpr ⟨n, hn⟩) entry update hp, htask⟩
        · by_contra hnot
          have := (hcollected.others p fun hmem => hnot ((hkeys p).mp hmem)).1
          change planning.entries.lookup p = some entry at hp
          rw [this] at hp
          cases hp
        · obtain ⟨entry, update, hp, -, hupdate⟩ := hentry p n hn
          obtain ⟨u, rfl, hu⟩ := hupdate t ht hne
          exact ⟨u, hcollected.updates p ((hkeys p).mpr ⟨n, hn⟩) entry u hp,
            safeMetadataUpdate_sha hu⟩
      have hfiles : Halfway host start d := h.halfway
      refine meets_bind (meets_write (.inr (.inl (hbatched.underway rfl ?_)))
        (meets_pure ⟨hbatched, rfl, ?_⟩))
      all_goals exact { hfiles with }
  · obtain ⟨p, hp, herror⟩ := error_of_fold he
    obtain ⟨n, hn⟩ := (hkeys p).mp hp
    rw [hplan p n hn] at herror
    rcases planPath_completed host source provider m h.staged h.canonical hn with ⟨_, _, hentry, -⟩ | ⟨_, hconflict, -⟩
    · cases hentry.symm.trans herror
    · cases hconflict.symm.trans herror

/-! ### A call of `promote` -/

/-- What is left of a stage with regular files are regular files. -/
theorem allRegular_of_sub (h : AllRegular start.staged)
    (hsub : ∀ path, d.staged.lookup path = start.staged.lookup path ∨
      (∃ identity, Completed start path identity) ∧ d.staged.lookup path = none) :
    AllRegular d.staged := by
  intro path node hnode hcomplete
  rcases hsub path with hsame | ⟨-, hnone⟩
  · exact h path node (hsame ▸ hnode) hcomplete
  · cases hnone.symm.trans hnode

/-- All that is still staged is of the promoted batch. -/
theorem no_newPaths (htasks : Tasks host source provider start batch)
    (hfiles : Arrived host start m d)
    (hcompleted : ∀ path, path ∈ completed ↔
      isIncomplete path = false ∧ ∃ identity, d.staged.lookup path = some (.file identity)) :
    newPathsAfterPromotedBatch batch d completed = [] := by
  refine filter_eq_nil_iff.mpr fun path hpath => ?_
  obtain ⟨hcomplete, identity, hidentity⟩ := (hcompleted path).mp hpath
  rcases hfiles.staged path with hsame | ⟨-, hnone⟩
  · obtain ⟨entry, hentry, htask⟩ :=
      htasks.entry path identity ⟨hcomplete, hsame.symm.trans hidentity⟩
    simp [hentry, hidentity, htask.planned]
  · cases hnone.symm.trans hidentity

theorem meets_finishPromotedBatch (hfinished : Finished host source provider start m batch)
    (hmanifest : d.manifest = some m) (hfiles : Arrived host start m d) :
    Meets (Phase host source provider start) (finishPromotedBatch host m batch)
      (fun _ t => Promoted host source provider start t) (Fails host source provider start) d := by
  unfold finishPromotedBatch validatePromotedBatch
  refine (meets_checkAll hfinished.tasks hfiles).bind fun _ t ht => ?_
  subst ht
  exact (meets_cleanup hfinished hmanifest hfiles).bind fun _ t ht =>
    meets_pure (hfinished.done ht.1 ht.2)

section

variable (h : Phase host source provider start d)
include h

/-- A call finds a manifest, or makes one. -/
theorem meets_loadOrInitialize :
    Meets (Phase host source provider start) loadOrInitialize
      (fun m t => t.manifest = some m ∧ Phase host source provider start t) fail d := by
  unfold loadOrInitialize
  refine meets_bind (meets_get ?_)
  cases hmanifest : d.manifest with
  | some m => exact meets_pure ⟨hmanifest, h⟩
  | none =>
    have huntouched : Untouched start d := by
      rcases h with huntouched | ⟨m, _, hm, -⟩ | ⟨m, _, hm, -⟩
      · exact huntouched
      · cases hmanifest.symm.trans hm
      · cases hmanifest.symm.trans hm
    have hnext : Untouched start { d with manifest := some (.initial Digest) } := by
      refine ⟨huntouched.staged, huntouched.retained, huntouched.canonical, fun m hm => ?_⟩
      cases hm
      exact ⟨rfl, fun path identity hlookup => by cases hlookup⟩
    exact meets_bind (meets_write (.inl hnext) (meets_pure ⟨rfl, .inl hnext⟩))

/-- **One call.**  It keeps to the phases, and fails only if something is in the way. -/
theorem meets_promote [DecidableEq Digest] :
    Meets (Phase host source provider start) (promote host source provider)
      (fun _ t => Promoted host source provider start t) (Fails host source provider start) d := by
  unfold promote
  refine (meets_loadOrInitialize h).bind fun m t ⟨hmanifest, hphase⟩ => ?_
  refine meets_bind (meets_get ?_)
  rcases @completedStagedFiles_cases Digest t.staged with
    ⟨hregular, completed, hok, hcompleted⟩ | ⟨hnot, _, herror⟩
  · rw [hok]
    refine meets_lift_ok ?_
    rcases hphase with huntouched | ⟨m', batch, hm', hcurrent, hprepared, htasks, hupdates,
      hregular, hfiles⟩ | ⟨m', batch, hm', hcurrent, hpromoted, htasks, hclear, hfiles⟩
    · -- nothing has been touched: a batch is prepared
      rw [(huntouched.manifest m hmanifest).1]
      rw [huntouched.staged] at hregular hcompleted
      refine (meets_preparePromotionBatch huntouched hmanifest hregular hcompleted).bind
        fun prepared u hu => ?_
      exact meets_executePromotionBatch hu.1 hu.2.1 hu.2.2
    · -- a batch is prepared: it is executed from its start
      cases hmanifest.symm.trans hm'
      rw [hcurrent]
      dsimp only
      rw [if_pos hprepared]
      exact meets_executePromotionBatch ⟨hcurrent, hprepared, htasks, hupdates, hregular⟩ hmanifest
        hfiles
    · -- a batch is promoted: its files are removed from the stage
      cases hmanifest.symm.trans hm'
      rw [hcurrent]
      dsimp only
      rw [if_neg (by rw [hpromoted]; decide), if_pos (no_newPaths htasks hfiles hcompleted)]
      exact meets_finishPromotedBatch ⟨hcurrent, hpromoted, htasks, hclear⟩ hmanifest hfiles
  · rw [herror]
    refine meets_bind (meets_lift nofun fun e _ => ?_)
    rcases hphase with huntouched | ⟨_, _, -, -, -, -, -, hregular, hfiles⟩ |
      ⟨_, _, -, -, -, -, hclear, hfiles⟩
    · rw [huntouched.staged] at hnot
      exact ⟨fun hclear => hnot hclear.regular, .inl huntouched⟩
    · exact absurd (allRegular_of_sub hregular hfiles.sub) hnot
    · exact absurd (allRegular_of_sub hclear.regular hfiles.staged) hnot

theorem phase_of_restarts [DecidableEq Digest] {t : Disk Digest}
    (hrestarts : Restarts (· = promote host source provider) d t) :
    Phase host source provider start t := by
  refine hrestarts.holds (fun call hcall s hs => ?_) h
  subst hcall
  refine (meets_promote hs).mono (fun _ _ h => .inr (.inr h)) fun _ _ hfails => ?_
  rcases hfails.2 with huntouched | ⟨hunderway, -⟩
  · exact .inl huntouched
  · exact .inr (.inl hunderway)

end

end Calls

/-! ### What promotion keeps -/

section Kept

variable (host source provider) in
/-- A canonical file is as it was, unless an accepted update of meta data has replaced it. -/
def Preserved (start d : Disk Digest) : Prop :=
  ∀ path node, start.canonical path = some node → d.canonical path = some node ∨
    lower (suffix path) = ".json".toList ∧ ∃ identity target update,
      Completed start path identity ∧ node = .file target ∧
      safeMetadataUpdate host source provider path identity target = some update ∧
      d.canonical path = some (.file identity)

variable (host) in
/-- The bytes of a completed file are in the stage, in its retained copy, or at its canonical
path. -/
def NothingLost (start d : Disk Digest) : Prop :=
  ∀ path identity, Completed start path identity → ∃ copy, FilesEqual host identity copy ∧
    (d.staged.lookup path = some (.file copy) ∨ d.retained path = some (.file copy) ∨
      d.canonical path = some (.file copy))

variable {d : Disk Digest}

omit [DecidableEq Bytes] in
theorem safeMetadataUpdate_json {target : Nat} {update : Update Digest}
    (h : safeMetadataUpdate host source provider path identity target = some update) :
    lower (suffix path) = ".json".toList := by
  cases provider with
  | none => cases h
  | some provider =>
    by_contra hjson
    cases (if_pos hjson).symm.trans h

/-- What the promotion makes of a canonical file. -/
theorem Task.keeps {entry : Entry Digest} (h : Task host source provider start path identity entry)
    (hcompleted : Completed start path identity) {node : Node}
    (hnode : start.canonical path = some node) :
    goal host start path = some node ∨
      lower (suffix path) = ".json".toList ∧ ∃ identity target update,
        Completed start path identity ∧ node = .file target ∧
        safeMetadataUpdate host source provider path identity target = some update ∧
        goal host start path = some (.file identity) := by
  cases h with
  | link hnone => cases hnode.symm.trans hnone
  | keep htarget hequal _ =>
    cases hnode.symm.trans htarget
    exact .inl (goal_of_equal hcompleted htarget hequal)
  | replace htarget hunequal hupdate =>
    cases hnode.symm.trans htarget
    exact .inr ⟨safeMetadataUpdate_json hupdate, identity, _, _, hcompleted, rfl, hupdate,
      goal_of_replaced hcompleted ⟨_, htarget, hunequal⟩⟩

/-- A canonical path that is as it was or as it will be. -/
theorem preserved_of (htasks : ∀ path identity, Completed start path identity →
      ∃ entry, Task host source provider start path identity entry)
    (h : ∀ path, d.canonical path = start.canonical path ∨ d.canonical path = goal host start path) :
    Preserved host source provider start d := by
  intro path node hnode
  rcases h path with hsame | hgoal
  · exact .inl (hsame.trans hnode)
  rw [hgoal]
  rcases completed_or start path with ⟨identity, hcompleted⟩ | hnot
  · obtain ⟨entry, htask⟩ := htasks path identity hcompleted
    exact htask.keeps hcompleted hnode
  · rw [goal_of_rest hnot]
    exact .inl hnode

theorem Phase.preserved (h : Phase host source provider start d) :
    Preserved host source provider start d := by
  rcases h with huntouched | ⟨_, batch, -, -, -, htasks, -, -, hfiles⟩ |
    ⟨_, _, -, -, -, -, hclear, hfiles⟩
  · intro path node hnode
    rw [huntouched.canonical]
    exact .inl hnode
  · refine preserved_of (fun path identity hcompleted => ?_) fun path => ?_
    · obtain ⟨entry, -, htask⟩ := htasks.entry path identity hcompleted
      exact ⟨entry, htask⟩
    · rcases completed_or start path with ⟨identity, hcompleted⟩ | hnot
      · exact hfiles.target path identity hcompleted
      · exact .inl (hfiles.rest path hnot).2
  · exact preserved_of hclear.tasks fun path => .inr (congrFun hfiles.canonical path)

/-- What the promotion makes of a completed file has its content. -/
theorem Clear.arrives (h : Clear host source provider start)
    (hcompleted : Completed start path identity) :
    ∃ target, goal host start path = some (.file target) ∧ FilesEqual host identity target := by
  obtain ⟨entry, htask⟩ := h.tasks path identity hcompleted
  exact htask.goal_eq hcompleted

theorem Phase.nothingLost (h : Phase host source provider start d) :
    NothingLost host start d := by
  intro path identity hcompleted
  rcases h with huntouched | ⟨_, batch, -, -, -, htasks, -, -, hfiles⟩ |
    ⟨_, _, -, -, -, -, hclear, hfiles⟩
  · refine ⟨identity, rfl, .inl ?_⟩
    rw [huntouched.staged, hcompleted.2]
  · rcases hfiles.source path identity hcompleted with hkept | ⟨-, -, -, copy, hcopy, hequal⟩
    · exact ⟨identity, rfl, .inl hkept⟩
    · exact ⟨copy, hequal, .inr (.inl hcopy)⟩
  · obtain ⟨target, hgoal, hequal⟩ := hclear.arrives hcompleted
    refine ⟨target, hequal, .inr (.inr ?_)⟩
    rw [hfiles.canonical, hgoal]

end Kept

section Restarted

variable {d : Disk Digest}

/-- A call from any phase returns if nothing is in the way, and then it has brought the
canonical tree about. -/
theorem promote_returns [DecidableEq Digest] (h : Phase host source provider start d)
    (hclear : Clear host source provider start) :
    ∃ promotion, (promote host source provider d).result = .ok promotion ∧
      (promote host source provider d).state.canonical = goal host start := by
  have hmeets := (meets_promote h).mono (fun _ _ h => h)
    fun _ _ hfails => hfails.1 hclear
  obtain ⟨promotion, hok, _, _, -, -, -, -, -, hfiles⟩ := hmeets.returns
  exact ⟨promotion, hok, hfiles.canonical⟩

theorem clear_of_returns [DecidableEq Digest] (h : Phase host source provider start d) {promotion : StagePromotion Digest}
    (hok : (promote host source provider d).result = .ok promotion) :
    Clear host source provider start := by
  obtain ⟨_, _, -, -, -, -, hclear, -⟩ := (meets_promote h).ok hok
  exact hclear

/-- A new stage: nothing has been promoted yet. -/
def Disk.New (start : Disk Digest) : Prop :=
  start.manifest = none ∨ start.manifest = some (.initial Digest)

omit [DecidableEq Bytes] in
theorem Disk.New.untouched (h : start.New) : Untouched start start := by
  refine ⟨rfl, rfl, rfl, fun m hm => ?_⟩
  rcases h with hnone | hinitial
  · cases hnone.symm.trans hm
  · cases hinitial.symm.trans hm
    exact ⟨rfl, fun path identity hlookup => by cases hlookup⟩

/-- **Promotion can be stopped anywhere.**  From a new stage, after any number of calls that
were stopped between two steps: no canonical file is overwritten but by an accepted update of
meta data, and no download is lost.  A further call returns if and only if one that is never
stopped does.  Then every completed file is in the canonical tree with its content, and the
tree is the one that the call that is never stopped makes.  A conflict leaves the canonical
tree unchanged. -/
theorem promotion_restartable [DecidableEq Digest] (host : Host Bytes Digest) (source : Option Text)
    (provider : Option (Provider Bytes)) {start d : Disk Digest} (hnew : start.New)
    (hrestarts : Restarts (· = promote host source provider) start d) :
    Preserved host source provider start d ∧ NothingLost host start d ∧
      ((∃ promotion, (promote host source provider d).result = .ok promotion) ↔
        ∃ promotion, (promote host source provider start).result = .ok promotion) ∧
      (∀ promotion, (promote host source provider d).result = .ok promotion →
        (∀ path identity, Completed start path identity → ∃ target,
          (promote host source provider d).state.canonical path = some (.file target) ∧
            FilesEqual host identity target) ∧
        (promote host source provider d).state.canonical =
          (promote host source provider start).state.canonical) ∧
      ∀ conflicts details,
        (promote host source provider d).result = .error (.conflict conflicts details) →
          (promote host source provider d).state.canonical = start.canonical := by
  have hstart : Phase host source provider start start := .inl hnew.untouched
  have hphase : Phase host source provider start d := phase_of_restarts hstart hrestarts
  refine ⟨hphase.preserved, hphase.nothingLost, ⟨?_, ?_⟩, fun promotion hok => ?_,
    fun conflicts details herror => ?_⟩
  · rintro ⟨promotion, hok⟩
    obtain ⟨promotion', hok', -⟩ := promote_returns hstart (clear_of_returns hphase hok)
    exact ⟨promotion', hok'⟩
  · rintro ⟨promotion, hok⟩
    obtain ⟨promotion', hok', -⟩ := promote_returns hphase (clear_of_returns hstart hok)
    exact ⟨promotion', hok'⟩
  · have hclear := clear_of_returns hphase hok
    obtain ⟨_, -, hcanonical⟩ := promote_returns hphase hclear
    obtain ⟨_, -, hcanonical'⟩ := promote_returns hstart hclear
    rw [hcanonical, hcanonical']
    exact ⟨fun path identity hcompleted => hclear.arrives hcompleted, rfl⟩
  · rcases ((meets_promote hphase).error herror).2 with huntouched | ⟨-, hnot⟩
    · exact huntouched.canonical
    · exact absurd ⟨conflicts, details, rfl⟩ hnot

end Restarted

end Phases

/-! A stage with a new file and new meta data, stopped after the first of the two has
arrived. -/

def sampleHost : Host Nat Nat := ⟨id, fun _ => 0, id, fun _ _ h => h, id⟩

def sampleProvider : Provider Nat := ⟨"pixiv".toList, fun _ => some ("7".toList, "9".toList)⟩

def samplePicture : Path := "7_p0.jpg".toList

def sampleMetadata : Path := "7_p0.json".toList

def sampleStart : Disk Nat where
  staged := ((∅ : Dict Node).insert samplePicture (.file 10)).insert sampleMetadata (.file 11)
  retained _ := none
  canonical := Function.update (fun _ => none) sampleMetadata (some (.file 1))
  manifest := none

def sampleStopped : Disk Nat :=
  (promote sampleHost none (some sampleProvider)).stopped 4 sampleStart

theorem sampleStopped_restarts :
    Restarts (· = promote sampleHost none (some sampleProvider)) sampleStart sampleStopped :=
  @restarts_stopped _ _ _ _ (· = promote sampleHost none (some sampleProvider)) rfl 4 sampleStart

theorem promotion_restartable_sample :
    sampleStopped.canonical samplePicture = some (.file 10) ∧
      sampleStopped.canonical sampleMetadata = some (.file 1) ∧
      ∃ promotion, (promote sampleHost none (some sampleProvider) sampleStopped).result =
        .ok promotion := by
  refine ⟨by decide +kernel, by decide +kernel, ?_⟩
  have hstart : (promote sampleHost none (some sampleProvider) sampleStart).result.toBool := by
    decide +kernel
  refine (promotion_restartable sampleHost none (some sampleProvider) (.inl rfl)
    sampleStopped_restarts).2.2.1.mpr ?_
  cases hresult : (promote sampleHost none (some sampleProvider) sampleStart).result with
  | ok promotion => exact ⟨promotion, rfl⟩
  | error e =>
    rw [hresult] at hstart
    cases hstart

end DownloadStage
