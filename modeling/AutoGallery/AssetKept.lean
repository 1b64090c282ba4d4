import AutoGallery.AssetPlacement
import AutoGallery.Runs

/-!
# No image is lost by deduplication

In every run of the reconciliation and the storage workers the image of every member of a
group is still there, wherever a worker stops and however often an event is delivered,
until a purge removes a quarantined file (`kept_iff`).

The purge removes the file before it marks the asset as purged.  A worker that stops in
between leaves an asset without any file that the database has as quarantined, and every
later delivery of the event refuses to run (`quarantined_without_file`).
-/

namespace AssetStorage

open AssetReconciliation PyText Function

variable {Content : Type} (host : Host Content)

/-! ### The property -/

section Property

variable (files₀ : Text → Option Nat) (s : State)

/-- The path leads to the bytes that the asset had in the beginning. -/
def HasOwnBytes (a : Asset) (path : Text) : Prop :=
  (s.files path).isSome ∧ (s.files path).map host.data = (files₀ a.filePath).map host.data

/-- The path of the asset leads to the file of the representative, and both had the same
hash in the beginning. -/
def Linked (a r : Asset) : Prop :=
  (s.files a.filePath).isSome ∧ s.files a.filePath = s.files r.filePath ∧
    (files₀ a.filePath).map host.hash = (files₀ r.filePath).map host.hash

def MemberKept (a r : Asset) : Prop :=
  HasOwnBytes host files₀ s a a.filePath ∨
    HasOwnBytes host files₀ s a (quarantinePath host.library a) ∨
    Linked host files₀ s a r ∨ ∃ row ∈ s.db.storage a.id, row.storageState = .purged

/-- No image is lost. -/
def Kept : Prop :=
  ∀ g ∈ s.db.groups, ∃ r ∈ host.library.assets, r.id = g.representative ∧
    ⟨g.id, r.id⟩ ∈ s.db.members ∧ (∃ row ∈ s.db.storage r.id, row.servedBy = none) ∧
    HasOwnBytes host files₀ s r r.filePath ∧
    ∀ m ∈ s.db.members, m.group = g.id →
      ∃ a ∈ host.library.assets, a.id = m.asset ∧ MemberKept host files₀ s a r

variable [DecidableEq Content]

instance (a : Asset) (path : Text) : Decidable (HasOwnBytes host files₀ s a path) :=
  inferInstanceAs (Decidable (_ ∧ _))

instance (a r : Asset) : Decidable (Linked host files₀ s a r) :=
  inferInstanceAs (Decidable (_ ∧ _ ∧ _))

instance (a r : Asset) : Decidable (MemberKept host files₀ s a r) :=
  inferInstanceAs (Decidable (_ ∨ _ ∨ _ ∨ ∃ row ∈ s.db.storage a.id, _))

instance : Decidable (Kept host files₀ s) :=
  inferInstanceAs (Decidable (∀ g ∈ s.db.groups, ∃ r ∈ host.library.assets, _ ∧ _ ∧
    (∃ row ∈ s.db.storage r.id, _) ∧ _ ∧ ∀ m ∈ s.db.members, _))

end Property

/-- The step is that a purge removes a quarantined file. -/
def removes (s : State) : Action → Bool
  | .work worker _ false =>
    match s.workers worker with
    | some (.running _ _ _ (.purgeUnlink _ path _)) => (s.files path).isSome
    | _ => false
  | _ => false

/-- Nothing was merged yet, and every asset has its file. -/
structure Start (s : State) : Prop where
  files : ∀ a ∈ host.library.assets, ∃ inode, s.files a.filePath = some inode ∧
    ∀ hash ∈ a.sha256, host.hash inode = hash
  quarantine : ∀ a ∈ host.library.assets, s.files (quarantinePath host.library a) = none
  groups : s.db.groups = []
  members : s.db.members = []
  outbox : s.db.outbox = []
  storage : ∀ id, ∀ row ∈ s.db.storage id, ¬row.storageState.Gone
  workers : ∀ worker, s.workers worker = none

/-! ### Every step keeps the invariant -/

section Steps

variable {host} {own : Asset → Nat} {s : State}

variable {worker : Nat} {job : Option Job} {db : Database}

theorem jobs_update {P : Job → Prop} {workers : Nat → Option Job}
    (h : ∀ w j, workers w = some j → P j) (hjob : ∀ j, job = some j → P j) :
    ∀ w j, update workers worker job w = some j → P j := by
  intro w j hj
  by_cases hself : w = worker
  · rw [hself, update_self] at hj
    exact hjob j hj
  · rw [update_of_ne hself] at hj
    exact h w j hj

/-- A worker goes to a point where it may be. -/
theorem Intact.setJob (h : Intact host own s) (worker : Nat)
    (hjob : ∀ j, job = some j → JobFits host own s.db s.files j) :
    Intact host own { s with workers := update s.workers worker job } :=
  ⟨h.grouped, h.placed, jobs_update h.jobs hjob⟩

theorem Intact.clearJob (h : Intact host own s) (worker : Nat) :
    Intact host own { s with workers := update s.workers worker none } := by
  refine h.setJob worker fun j hj => ?_
  cases hj

theorem Intact.endJob (h : Intact host own s) (worker : Nat) (d : Delivery)
    (error : Option StorageError) :
    Intact host own
      { s with workers := update s.workers worker (some (.ended d error)) } := by
  refine h.setJob worker fun j hj => ?_
  cases hj
  trivial

/-- The events are changed, but not their types and payloads. -/
theorem Intact.mapOutbox (h : Intact host own s) (f : Event → Event)
    (hf : ∀ e, (f e).eventType = e.eventType ∧ (f e).payload = e.payload) :
    Intact host own { s with db := { s.db with outbox := s.db.outbox.map f } } := by
  refine ⟨{ h.grouped with events := ?_ }, { h.placed with }, ?_⟩
  · intro e he
    obtain ⟨before, hbefore, rfl⟩ := List.mem_map.mp he
    rw [(hf before).1, (hf before).2]
    exact h.grouped.events before hbefore
  · intro worker job hjob
    have hfits := h.jobs worker job hjob
    cases job with
    | claimed d => exact hfits
    | running d a r point => exact { hfits with }
    | ended d error => trivial

theorem Placed.extends {db' : Database} {files : Text → Option Nat} (h : Placed host own db files)
    (hgrouped : Grouped host.library db') (he : Extends db db') : Placed host own db' files := by
  constructor
  case free =>
    exact fun a ha hnone => h.free a ha fun r hr => hnone r (hr.extends he)
  case copy =>
    intro a ha r hr hserved hexact
    rcases hgrouped.newly_served he hserved with hbefore | hnone
    · exact h.copy a ha r hr hbefore hexact
    · exact .inl (h.free a ha hnone)
  case variant =>
    intro a ha r hr hserved hvariant
    rcases hgrouped.newly_served he hserved with hbefore | hnone
    · exact h.variant a ha r hr hbefore hvariant
    · exact .inl (h.free a ha hnone)
  case quarantine => exact h.quarantine
  case rows =>
    intro a ha row' hrow'
    constructor
    · intro hpurged
      obtain ⟨row, hrow, hstate, -⟩ := he.rows a.id row' hrow' (.inr hpurged)
      exact (h.rows a ha row hrow).1 (hstate.trans hpurged)
    · intro hquarantined
      obtain ⟨row, hrow, hstate, hpath⟩ := he.rows a.id row' hrow' (.inl hquarantined)
      obtain ⟨hmoved, hown⟩ := (h.rows a ha row hrow).2 (hstate.trans hquarantined)
      exact ⟨hmoved, hpath ▸ hown⟩

/-- A call of the reconciliation. -/
theorem Intact.reconcile (h : Intact host own s) (hpaths : Apart host.library)
    (action : AssetReconciliation.Action) :
    Intact host own { s with db := AssetReconciliation.step host.library s.db action } := by
  obtain ⟨hgrouped, hextends⟩ := h.grouped.step hpaths.ids action
  refine ⟨hgrouped, h.placed.extends hgrouped hextends, ?_⟩
  intro worker job hjob
  have hfits := h.jobs worker job hjob
  cases job with
  | claimed d => exact Fits.extends hfits hextends
  | running d a r point => exact { hfits with fits := hfits.fits.extends hextends }
  | ended d error => trivial

/-- What is loaded are the assets of the payload.  Their row is there, so that none is
inserted. -/
theorem loadStorageSubjects_ok (hgrouped : Grouped host.library s.db) {d : Delivery} {a r : Asset}
    (hfits : Fits host.library s.db d.eventType d.payload)
    (h : loadStorageSubjects host.library s.db d.payload = .ok (db, a, r)) :
    db = s.db ∧ a ∈ host.library.assets ∧ r ∈ host.library.assets ∧
      a.id = d.payload.asset ∧ r.id = d.payload.representative := by
  obtain ⟨g, hg, -, hmem, -⟩ := hfits.1
  obtain ⟨row, hrow, -⟩ := hgrouped.servedBy g hg _ hmem rfl
  unfold loadStorageSubjects at h
  split at h
  next => cases h
  split at h
  next asset representative hasset hrep =>
    split at h
    next => cases h
    split at h
    next => cases h
    split at h
    next => cases h
    split at h
    next => cases h
    simp only [hrow] at h
    split at h
    next => cases h
    cases h
    exact ⟨rfl, List.mem_of_find?_eq_some hasset, List.mem_of_find?_eq_some hrep,
      by simpa using List.find?_some hasset,
      by simpa using List.find?_some hrep⟩
  next => cases h

theorem firstPoint_ofType (t : EventType) : (firstPoint t).OfType t := by
  cases t <;> simp [firstPoint, Point.OfType]

theorem Intact.work (h : Intact host own s) (hpaths : Apart host.library) {now : Nat} {job : Job}
    (hjob : JobFits host own s.db s.files job)
    (hkeeps : ∀ d a r row path reclaimed,
      job = .running d a r (.purgeUnlink row path reclaimed) → s.files path = none) :
    Intact host own (work host s worker now job) := by
  cases job with
  | claimed d =>
    simp only [AssetStorage.work]
    split
    next e _ => exact h.endJob worker d (some e)
    rename_i db a r hload
    obtain ⟨rfl, ha, hr, haid, hrid⟩ := loadStorageSubjects_ok h.grouped hjob hload
    refine h.setJob worker fun j hj => ?_
    cases hj
    have htype := firstPoint_ofType d.eventType
    refine ⟨hjob, ha, hr, haid, hrid, htype, ?_, ?_, ?_⟩ <;>
      cases d.eventType <;> simp [firstPoint, Point.Hashed, Point.InQuarantine, Point.HasLink]
  | running d a r point =>
    have hsound : Sound host own s.db s.files d a r (advance host s.db s.files d a r now point) :=
      sound_advance hpaths h.grouped h.placed hjob
        fun row path reclaimed hpoint => hkeeps d a r row path reclaimed (by rw [hpoint])
    simp only [AssetStorage.work]
    generalize advance host s.db s.files d a r now point = result at hsound
    obtain ⟨heffect, hnext⟩ := hsound
    refine ⟨heffect.grouped h.grouped hjob.subjects,
      heffect.placed hpaths h.grouped hjob.subjects h.placed, ?_⟩
    refine jobs_update ?_ fun j hj => by cases hj; exact hnext
    exact fun w j hj => heffect.jobFits hpaths h.grouped hjob.subjects h.placed (h.jobs w j hj)
  | ended d error =>
    have hended : Intact host own { s with db := endEvent s.db d error now } := by
      refine h.mapOutbox _ fun e => ?_
      split_ifs
      · cases error <;> exact ⟨rfl, rfl⟩
      · exact ⟨rfl, rfl⟩
    exact hended.clearJob worker

/-- Every step but the removal of a quarantined file keeps the invariant. -/
theorem Intact.step (h : Intact host own s) (hpaths : Apart host.library) {action : Action}
    (hkeeps : removes s action = false) : Intact host own (step host s action) := by
  cases action with
  | reconcile action => exact h.reconcile hpaths action
  | crash worker => exact h.clearJob worker
  | claim worker id now =>
    unfold AssetStorage.step
    dsimp only
    split
    next event _ hevent =>
      split_ifs
      · have hclaimed : Intact host own { s with db := claimEvent s.db event now } := by
          refine h.mapOutbox _ fun e => ?_
          split_ifs <;> exact ⟨rfl, rfl⟩
        refine hclaimed.setJob worker fun j hj => ?_
        cases hj
        exact h.grouped.events event (List.mem_of_find?_eq_some hevent)
      · exact h
    next => exact h
  | work worker now fails =>
    unfold AssetStorage.step
    dsimp only
    split
    next => exact h
    rename_i job hjob
    split_ifs with hfails
    · cases job with
      | claimed d | running d _ _ _ => exact h.endJob worker d _
      | ended d error => exact h.clearJob worker
    · refine h.work hpaths (h.jobs worker job hjob) ?_
      rintro d a r row path reclaimed rfl
      rw [eq_false_of_ne_true hfails] at hkeeps
      simpa [removes, hjob] using hkeeps

end Steps

/-! ### Runs -/

section Runs

variable {host} {s₀ s : State}

/-- The inode that the asset had in the beginning. -/
def firstInode (s₀ : State) (a : Asset) : Nat := (s₀.files a.filePath).getD 0

variable {a : Asset} {action : Action}

theorem Start.inode (h : Start host s₀) (ha : a ∈ host.library.assets) :
    s₀.files a.filePath = some (firstInode s₀ a) := by
  obtain ⟨inode, hinode, -⟩ := h.files a ha
  rw [firstInode, hinode]
  rfl

theorem Start.intact (h : Start host s₀) : Intact host (firstInode s₀) s₀ := by
  have hserved : ∀ a r, ¬Served s₀.db a r := by
    rintro a r ⟨g, hg, -⟩
    rw [h.groups] at hg
    cases hg
  refine ⟨?_, ?_, ?_⟩
  · constructor <;> simp [h.groups, h.members, h.outbox]
  · constructor
    · exact fun a ha _ => h.inode ha
    · exact fun a _ r _ hr => absurd hr (hserved a.id r.id)
    · exact fun a _ r _ hr => absurd hr (hserved a.id r.id)
    · exact fun a ha => .inl (h.quarantine a ha)
    · intro a ha row hrow
      have hthere := h.storage a.id row hrow
      exact ⟨fun hp => hthere (.inr hp), fun hq => absurd (.inl hq) hthere⟩
  · intro worker job hjob
    rw [h.workers worker] at hjob
    cases hjob

theorem hasOwnBytes_of_inode (h : Start host s₀) (ha : a ∈ host.library.assets) {path : Text}
    (hpath : s.files path = some (firstInode s₀ a)) : HasOwnBytes host s₀.files s a path := by
  unfold HasOwnBytes
  rw [hpath, h.inode ha]
  exact ⟨rfl, rfl⟩

/-- The invariant is more than that no image is lost. -/
theorem Intact.kept (h : Intact host (firstInode s₀) s) (hpaths : Apart host.library)
    (hstart : Start host s₀) : Kept host s₀.files s := by
  intro g hg
  have hmember := h.grouped.representative g hg
  obtain ⟨r, hr, hid⟩ := h.grouped.memberAsset _ hmember
  change r.id = g.representative at hid
  have hrep : s.files r.filePath = some (firstInode s₀ r) :=
    h.placed.free r hr fun r' hr' => h.grouped.representative_not_served hg (hid ▸ hr')
  refine ⟨r, hr, hid, hid ▸ hmember, ?_, hasOwnBytes_of_inode hstart hr hrep, ?_⟩
  · obtain ⟨row, hrow, hserved⟩ := h.grouped.servedBy g hg _ hmember rfl
    rw [server, if_pos rfl] at hserved
    exact ⟨row, hid ▸ hrow, hserved⟩
  intro m hm hgroup
  obtain ⟨a, ha, hasset⟩ := h.grouped.memberAsset m hm
  refine ⟨a, ha, hasset, ?_⟩
  by_cases hself : a.id = r.id
  · rw [List.inj_on_of_nodup_map hpaths.ids ha hr hself]
    exact .inl (hasOwnBytes_of_inode hstart hr hrep)
  have hserved : Served s.db a.id r.id := by
    refine ⟨g, hg, hid.symm, ?_, hself⟩
    rw [hasset, ← hgroup]
    exact hm
  by_cases hexact : Exact a r
  · rcases h.placed.copy a ha r hr hserved hexact with hown | ⟨hlink, hhash⟩
    · exact .inl (hasOwnBytes_of_inode hstart ha hown)
    · refine .inr (.inr (.inl ⟨?_, ?_, ?_⟩))
      · rw [hlink]
        rfl
      · rw [hlink, hrep]
      · rw [hstart.inode ha, hstart.inode hr]
        exact congrArg some hhash
  · rcases h.placed.variant a ha r hr hserved hexact with hown | hmoved
    · exact .inl (hasOwnBytes_of_inode hstart ha hown)
    · exact .inr (.inl (hasOwnBytes_of_inode hstart ha hmoved.2))

/-- The removal of a quarantined file. -/
theorem removes_cases (h : removes s action = true) :
    ∃ worker now d a r row path reclaimed, action = .work worker now false ∧
      s.workers worker = some (.running d a r (.purgeUnlink row path reclaimed)) ∧
      (s.files path).isSome := by
  cases action with
  | reconcile | claim | crash => cases h
  | work worker now fails =>
    cases fails with
    | true => cases h
    | false =>
      unfold removes at h
      dsimp only at h
      split at h
      next d a r row path reclaimed hjob =>
        exact ⟨worker, now, d, a, r, row, path, reclaimed, rfl, hjob, h⟩
      next => cases h

/-- After the removal the asset has no file, and is not marked as purged. -/
theorem Intact.lost (h : Intact host (firstInode s₀) s) (hpaths : Apart host.library)
    (hremoves : removes s action = true) :
    ¬Kept host s₀.files (AssetStorage.step host s action) := by
  obtain ⟨worker, now, d, a, r, row, path, reclaimed, rfl, hjob, hthere⟩ := removes_cases hremoves
  have hrun := h.jobs worker _ hjob
  have hpath : path = quarantinePath host.library a := hrun.hashed
  have hmoved := hrun.moved trivial
  obtain ⟨inode, hinode⟩ := Option.isSome_iff_exists.mp hthere
  have hstep : (AssetStorage.step host s (.work worker now false)).db = s.db ∧
      (AssetStorage.step host s (.work worker now false)).files = update s.files path none := by
    simp only [AssetStorage.step, hjob, AssetStorage.work, advance, hinode]
    exact ⟨rfl, rfl⟩
  obtain ⟨hdb, hfiles⟩ := hstep
  intro hkept
  obtain ⟨g, hg, hrep, hmem, hne⟩ := hrun.subjects.served
  obtain ⟨r', hr', hid', -, -, -, hmembers⟩ := hkept g (hdb ▸ hg)
  obtain ⟨a', ha', hasset, hlast⟩ := hmembers ⟨g.id, a.id⟩ (hdb ▸ hmem) rfl
  have hsame : a' = a := List.inj_on_of_nodup_map hpaths.ids ha' hrun.asset hasset
  subst hsame
  have hfile : (AssetStorage.step host s (.work worker now false)).files a'.filePath = none := by
    rw [hfiles, hpath, update_of_ne (hpaths.quarantine_file a' ha' a' ha').symm]
    exact hmoved.1
  have hquarantine : (AssetStorage.step host s (.work worker now false)).files
      (quarantinePath host.library a') = none := by
    rw [hfiles, hpath, update_self]
  rcases hlast with ⟨hsome, -⟩ | ⟨hsome, -⟩ | ⟨hsome, -⟩ | ⟨last, hlast, hpurged⟩
  · rw [hfile] at hsome
    cases hsome
  · rw [hquarantine] at hsome
    cases hsome
  · rw [hfile] at hsome
    cases hsome
  · rw [hdb] at hlast
    exact (h.placed.rows a' ha' last hlast).1 hpurged

end Runs

/-- In a run of the reconciliation and the storage workers no image is ever lost just if no
purge gets to remove a quarantined file. -/
theorem kept_iff (s₀ : State) (run : List Action) (hpaths : Apart host.library)
    (hstart : Start host s₀) :
    Runs.Throughout (step host) (Kept host s₀.files) s₀ run ↔
      Runs.AllSteps (step host) (fun s action => removes s action = false) s₀ run := by
  refine Runs.throughout_iff_allSteps (fun s h => h.kept hpaths hstart)
    (fun s action h _ hkeeps => h.step hpaths hkeeps) (fun s action h _ hkept => ?_)
    hstart.intact Runs.allSteps_true
  cases hremoves : removes s action with
  | false => rfl
  | true => exact absurd hkept (h.lost hpaths hremoves)

/-! ### Two versions of an image -/

section Versions

private def version (id : Nat) (path digest : String) : Asset where
  id
  fileName := path.toList
  filePath := path.toList
  fileSize := some 1
  sha256 := some digest.toList
  phash := some "ff".toList
  mimeType := "image/jpeg".toList
  width := some 1
  height := some 1

private def first : Asset := version 1 "a.jpg" "1"

private def second : Asset := version 2 "b.jpg" "2"

/-- Two assets that look alike, of two works from two sources.  The content of an inode is
its number, and the hash of a content its decimal digits. -/
private def versions : Host Nat where
  library :=
    { assets := [first, second]
      bindings := [⟨1, 11, 21, "pixiv".toList⟩, ⟨2, 12, 22, "x".toList⟩]
      lower := id
      sourceKeyForExtractor := id
      idText := fun n => (toString n).toList }
  data := id
  device := fun _ => 0
  size := fun _ => 1
  sha256 := fun n => (toString n).toList
  versionedPhashDistance := fun _ _ => some 0
  structuralSimilarity := fun _ _ => 1

private def beginning : State where
  db :=
    { evidence := []
      cases := []
      decisions := []
      groups := []
      members := []
      storage := fun _ => none
      outbox := []
      nextId := 100 }
  files := fun path =>
    if path = "a.jpg".toList then some 1 else if path = "b.jpg".toList then some 2 else none
  workers := fun _ => none

private theorem temporaryPath_first (event : Nat) :
    temporaryPath versions.library first event =
      '.' :: 'a' :: (".jpg.dedup-".toList ++ versions.library.idText event) := rfl

private theorem temporaryPath_second (event : Nat) :
    temporaryPath versions.library second event =
      '.' :: 'b' :: (".jpg.dedup-".toList ++ versions.library.idText event) := rfl

private theorem mem_versions {a : Asset} (h : a ∈ versions.library.assets) :
    a = first ∨ a = second := by
  simpa [versions] using h

private theorem versions_apart : Apart versions.library where
  ids := by decide +kernel
  file := by decide +kernel
  quarantine := by decide +kernel
  quarantine_file := by decide +kernel
  temporary := by
    intro a ha b hb e f h
    rcases mem_versions ha with rfl | rfl <;> rcases mem_versions hb with rfl | rfl
    · rfl
    · rw [temporaryPath_first, temporaryPath_second] at h
      cases h
    · rw [temporaryPath_first, temporaryPath_second] at h
      cases h
    · rfl
  temporary_file := by
    intro a ha b hb e h
    rcases mem_versions ha with rfl | rfl <;> rcases mem_versions hb with rfl | rfl <;> cases h
  temporary_quarantine := by
    intro a ha b hb e h
    rcases mem_versions ha with rfl | rfl <;> rcases mem_versions hb with rfl | rfl <;> cases h

private theorem beginning_start : Start versions beginning where
  files := by
    intro a ha
    rcases mem_versions ha with rfl | rfl
    · exact ⟨1, rfl, by decide +kernel⟩
    · exact ⟨2, rfl, by decide +kernel⟩
  quarantine := by decide +kernel
  groups := rfl
  members := rfl
  outbox := rfl
  storage := nofun
  workers := fun _ => rfl

private def alike : EvidenceFacts where
  inputDigest := "pair".toList
  sha256Equal := false
  hardGatePassed := true
  totalScore := 80
  phashMaxDistance := 4
  ssimMinScore := 98 / 100
  quarantineDays := 30

private def calls (call : Call) : Action :=
  .reconcile
    { policy := ⟨true, 95, 70⟩
      validate := fun _ _ => alike
      now := 0
      call }

/-- The two are merged, which leaves the event 103 for the second. -/
private def merging : List Action :=
  [calls (.evaluateAsset true 1 [(second, alike)]),
    calls (.decide
      { caseId := 101
        expectedRevision := 1
        action := .merge
        representative := some 1
        reason := none
        actorType := .user
        idempotencyKey := "merge".toList })]

/-- A worker takes an event, and runs some steps. -/
private def delivered (worker event now steps : Nat) : List Action :=
  .claim worker event now :: List.replicate steps (.work worker now false)

/-- Thirty days. -/
private def retention : Nat := 30 * 86400

/-- The second file is moved to the quarantine.  The worker of the purge, event 104, stops
after it has removed the file, and the event is delivered again. -/
private def purging : List Action :=
  merging ++ delivered 0 103 0 8 ++ delivered 0 104 retention 5 ++ [.crash 0] ++
    delivered 0 104 (retention + 900) 5

/-- The asset is quarantined by its row, and has no file. -/
theorem quarantined_without_file :
    Apart versions.library ∧ Start versions beginning ∧
      ¬Runs.Throughout (step versions) (Kept versions beginning.files) beginning purging ∧
      ((purging.foldl (step versions) beginning).db.storage 2).map Storage.storageState =
        some .quarantined ∧
      (purging.foldl (step versions) beginning).files second.filePath = none ∧
      (purging.foldl (step versions) beginning).files
        (quarantinePath versions.library second) = none :=
  ⟨versions_apart, beginning_start, by decide +kernel, by decide +kernel, by decide +kernel,
    by decide +kernel⟩

/-- The worker of the quarantine stops between the move and its commit, and another one
takes over. -/
theorem kept_interruptedMove :
    Runs.Throughout (step versions) (Kept versions beginning.files) beginning
      (merging ++ delivered 0 103 0 6 ++ [.crash 0] ++ delivered 1 103 900 7) :=
  (kept_iff versions beginning _ versions_apart beginning_start).mpr (by decide +kernel)

end Versions

end AssetStorage
