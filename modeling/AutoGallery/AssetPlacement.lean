import AutoGallery.AssetGroups
import AutoGallery.AssetStorage

/-!
# Where the files of the assets are

The file of a representative is never touched.  The file of another member is at its path
or in the quarantine directory, or it has been replaced by a link to the representative's
file with the same hash (`Placed`).  One step of a worker is one of a few effects on the
rows and files of its asset (`Effect`), and each of them keeps this for all assets and
keeps what the other workers have found out.

The exception is the step in which a purge removes a file from the quarantine.
-/

namespace AssetStorage

open AssetReconciliation PyText Function

variable {Content : Type} (host : Host Content)

variable {own : Asset → Nat} {db : Database} {files : Text → Option Nat} {d : Delivery}
  {a r : Asset} {point : Point}

/-- The rows are of different assets, and no two files are at the same path: not those of
the assets, and not those that the workers make, whose names have the id of the asset or
of the event in them. -/
structure Apart (L : Library) : Prop where
  ids : (L.assets.map Asset.id).Nodup
  file : ∀ a ∈ L.assets, ∀ b ∈ L.assets, a.filePath = b.filePath → a = b
  quarantine : ∀ a ∈ L.assets, ∀ b ∈ L.assets, quarantinePath L a = quarantinePath L b → a = b
  quarantine_file : ∀ a ∈ L.assets, ∀ b ∈ L.assets, quarantinePath L a ≠ b.filePath
  temporary : ∀ a ∈ L.assets, ∀ b ∈ L.assets, ∀ e f,
    temporaryPath L a e = temporaryPath L b f → a = b
  temporary_file : ∀ a ∈ L.assets, ∀ b ∈ L.assets, ∀ e, temporaryPath L a e ≠ b.filePath
  temporary_quarantine : ∀ a ∈ L.assets, ∀ b ∈ L.assets, ∀ e,
    temporaryPath L a e ≠ quarantinePath L b

/-! ### The invariant -/

section Invariant

variable (own) (db) (files)

/-- The file of the asset is in quarantine. -/
def Moved (a : Asset) : Prop :=
  files a.filePath = none ∧ files (quarantinePath host.library a) = some (own a)

/-- Where the files are, by the groups and the rows. -/
structure Placed : Prop where
  free : ∀ a ∈ host.library.assets, (∀ r, ¬Served db a.id r) → files a.filePath = some (own a)
  copy : ∀ a ∈ host.library.assets, ∀ r ∈ host.library.assets, Served db a.id r.id → Exact a r →
    files a.filePath = some (own a) ∨
      files a.filePath = some (own r) ∧ host.hash (own a) = host.hash (own r)
  variant : ∀ a ∈ host.library.assets, ∀ r ∈ host.library.assets, Served db a.id r.id →
    ¬Exact a r → files a.filePath = some (own a) ∨ Moved host own files a
  quarantine : ∀ a ∈ host.library.assets,
    files (quarantinePath host.library a) = none ∨ Moved host own files a
  rows : ∀ a ∈ host.library.assets, ∀ row, db.storage a.id = some row →
    row.storageState ≠ .purged ∧ (row.storageState = .quarantined →
      Moved host own files a ∧ row.quarantinePath = some (quarantinePath host.library a))

/-- The point belongs to the work on an event of this type. -/
def Point.OfType : Point → EventType → Prop
  | .linkSource, t | .linkRepresentative _, t | .linkStat, t | .linkTemporary _, t | .link _, t
  | .linkReplace _, t | .linkCommit _, t => t = .hardlink
  | _, t => t ≠ .hardlink

/-- What was found out about the hashes before the point. -/
def Point.Hashed (a r : Asset) : Point → Prop
  | .linkRepresentative sourceHash => sourceHash = host.hash (own a)
  | .linkStat | .linkTemporary _ | .link _ | .linkReplace _ =>
    host.hash (own a) = host.hash (own r)
  | .purgeFile _ path | .purgeUnlink _ path _ => path = quarantinePath host.library a
  | .purgeCommit _ _ => False
  | _ => True

/-- The file is in quarantine at this point. -/
def Point.InQuarantine : Point → Prop
  | .visualHash _ fromSource | .visualGate _ fromSource _ => fromSource = false
  | .visualCommit _ _ | .purgeFile _ _ | .purgeUnlink _ _ _ => True
  | _ => False

/-- The temporary link is made at this point. -/
def Point.HasLink : Point → Prop
  | .linkReplace _ => True
  | _ => False

structure RunFits (d : Delivery) (a r : Asset) (point : Point) : Prop where
  fits : Fits host.library db d.eventType d.payload
  asset : a ∈ host.library.assets
  representative : r ∈ host.library.assets
  assetId : a.id = d.payload.asset
  representativeId : r.id = d.payload.representative
  type : point.OfType d.eventType
  hashed : point.Hashed host own a r
  moved : point.InQuarantine → Moved host own files a
  linked : point.HasLink → ∀ i ∈ files (temporaryPath host.library a d.id), i = own r

def JobFits : Job → Prop
  | .claimed d => Fits host.library db d.eventType d.payload
  | .running d a r point => RunFits host own db files d a r point
  | .ended _ _ => True

/-- What every step keeps, up to the removal of a quarantined file. -/
structure Intact (s : State) : Prop where
  grouped : Grouped host.library s.db
  placed : Placed host own s.db s.files
  jobs : ∀ worker job, s.workers worker = some job → JobFits host own s.db s.files job

/-- The two assets that a step of a worker is about. -/
structure Subjects (a r : Asset) : Prop where
  asset : a ∈ host.library.assets
  representative : r ∈ host.library.assets
  served : Served db a.id r.id

/-- What one step of a worker can do to the rows and the files. -/
inductive Effect (d : Delivery) (a r : Asset) : Database → (Text → Option Nat) → Prop
  | quiet : Effect d a r db files
  | temporary (inode : Option Nat) (hinode : ∀ i ∈ inode, i = own r) :
      Effect d a r db (Function.update files (temporaryPath host.library a d.id) inode)
  | linked (hexact : Exact a r) (hhash : host.hash (own a) = host.hash (own r)) :
      Effect d a r db (Function.update (Function.update files a.filePath (some (own r)))
        (temporaryPath host.library a d.id) none)
  | moved (hvariant : ¬Exact a r) :
      Effect d a r db (Function.update (Function.update files (quarantinePath host.library a)
        (some (own a))) a.filePath none)
  | row (row : Storage) (events : List Event) (nextId : Nat) (hnext : db.nextId ≤ nextId)
      (hserved : row.servedBy = some r.id) (hpurged : row.storageState ≠ .purged)
      (hquarantined : row.storageState = .quarantined →
        Moved host own files a ∧ row.quarantinePath = some (quarantinePath host.library a))
      (hevents : ∀ e ∈ events, Fits host.library db e.eventType e.payload) :
      Effect d a r { setStorage db a.id row with outbox := db.outbox ++ events, nextId } files

end Invariant

/-! ### What an effect keeps -/

section Effects

variable {host} {db' : Database} {files' : Text → Option Nat} {b : Asset}

theorem RunFits.subjects (h : RunFits host own db files d a r point) : Subjects host db a r :=
  ⟨h.asset, h.representative, h.assetId ▸ h.representativeId ▸ h.fits.1⟩

/-- A file that is moved to its own place in the quarantine is there. -/
theorem Apart.moved (hpaths : Apart host.library) (ha : a ∈ host.library.assets) :
    Moved host own (update (update files (quarantinePath host.library a) (some (own a)))
      a.filePath none) a := by
  refine ⟨update_self _ _ _, ?_⟩
  rw [update_of_ne (hpaths.quarantine_file a ha a ha), update_self]

/-- Hard links are for exact copies only. -/
theorem RunFits.exact_iff (h : RunFits host own db files d a r point) :
    d.eventType = .hardlink ↔ Exact a r :=
  h.fits.2 a h.asset r h.representative h.assetId h.representativeId

section

variable (h : Effect host own db files d a r db' files')
include h

theorem Effect.groups : db'.groups = db.groups := by
  cases h <;> rfl

theorem Effect.members :
    db'.members = db.members := by
  cases h <;> rfl

theorem Effect.served {x y : Nat} :
    Served db' x y ↔ Served db x y := by
  unfold Served
  rw [h.groups, h.members]

/-- A step only writes to the three paths of its asset. -/
theorem Effect.untouched {path : Text} (hfile : path ≠ a.filePath)
    (htemporary : path ≠ temporaryPath host.library a d.id)
    (hquarantine : path ≠ quarantinePath host.library a) : files' path = files path := by
  cases h with
  | quiet | row => rfl
  | temporary => exact update_of_ne htemporary _ _
  | linked => rw [update_of_ne htemporary, update_of_ne hfile]
  | moved => rw [update_of_ne hfile, update_of_ne hquarantine]

section

variable (hpaths : Apart host.library)
include hpaths

section

variable (ha : a ∈ host.library.assets) (hb : b ∈ host.library.assets) (hne : b ≠ a)
include ha hb hne

/-- The file of another asset stays where it is. -/
theorem Effect.path_other : files' b.filePath = files b.filePath :=
  h.untouched (fun heq => hne (hpaths.file b hb a ha heq))
    (hpaths.temporary_file a ha b hb d.id).symm (hpaths.quarantine_file a ha b hb).symm

theorem Effect.quarantine_other :
    files' (quarantinePath host.library b) = files (quarantinePath host.library b) :=
  h.untouched (hpaths.quarantine_file b hb a ha) (hpaths.temporary_quarantine a ha b hb d.id).symm
    fun heq => hne (hpaths.quarantine b hb a ha heq)

end

/-- What the step does to the file of its own asset. -/
theorem Effect.path_own (ha : a ∈ host.library.assets) :
    files' a.filePath = files a.filePath ∨
      Exact a r ∧ files' a.filePath = some (own r) ∧ host.hash (own a) = host.hash (own r) ∨
      ¬Exact a r ∧ Moved host own files' a := by
  have htemporary : a.filePath ≠ temporaryPath host.library a d.id :=
    (hpaths.temporary_file a ha a ha d.id).symm
  cases h with
  | quiet | row => exact .inl rfl
  | temporary => exact .inl (update_of_ne htemporary _ _)
  | linked hexact hhash =>
    refine .inr (.inl ⟨hexact, ?_, hhash⟩)
    rw [update_of_ne htemporary, update_self]
  | moved hvariant => exact .inr (.inr ⟨hvariant, hpaths.moved ha⟩)

/-- A file that is in quarantine stays there. -/
theorem Effect.moved_kept (hplaced : Placed host own db files)
    (hsubjects : Subjects host db a r) (hb : b ∈ host.library.assets)
    (hmoved : Moved host own files b) : Moved host own files' b := by
  have ha := hsubjects.asset
  by_cases hself : b = a
  · subst hself
    cases h with
    | quiet | row => exact hmoved
    | temporary =>
      unfold Moved
      rw [update_of_ne (hpaths.temporary_file b hb b hb d.id).symm,
        update_of_ne (hpaths.temporary_quarantine b hb b hb d.id).symm]
      exact hmoved
    | linked hexact =>
      -- the file of a copy is never moved away
      rcases hplaced.copy b hb r hsubjects.representative hsubjects.served hexact with
        hthere | ⟨hthere, -⟩ <;>
      · rw [hmoved.1] at hthere
        cases hthere
    | moved => exact hpaths.moved hb
  · exact ⟨(h.path_other hpaths ha hb hself).trans hmoved.1,
      (h.quarantine_other hpaths ha hb hself).trans hmoved.2⟩

/-- An empty place in the quarantine is filled by the file that belongs there only. -/
theorem Effect.quarantine_kept (ha : a ∈ host.library.assets)
    (hb : b ∈ host.library.assets) (hempty : files (quarantinePath host.library b) = none) :
    files' (quarantinePath host.library b) = none ∨ Moved host own files' b := by
  by_cases hself : b = a
  · subst hself
    have htemporary : quarantinePath host.library b ≠ temporaryPath host.library b d.id :=
      (hpaths.temporary_quarantine b hb b hb d.id).symm
    cases h with
    | quiet | row => exact .inl hempty
    | temporary => exact .inl ((update_of_ne htemporary _ _).trans hempty)
    | linked =>
      left
      rw [update_of_ne htemporary, update_of_ne (hpaths.quarantine_file b hb b hb)]
      exact hempty
    | moved => exact .inr (hpaths.moved hb)
  · exact .inl ((h.quarantine_other hpaths ha hb hself).trans hempty)

section

variable (hgrouped : Grouped host.library db) (hsubjects : Subjects host db a r)
include hgrouped hsubjects

/-- A temporary link leads to the representative of its asset, whoever makes it. -/
theorem Effect.linked_kept {r' : Asset} {event : Nat} (hother : Subjects host db b r')
    (hlinked : ∀ i ∈ files (temporaryPath host.library b event), i = own r') :
    ∀ i ∈ files' (temporaryPath host.library b event), i = own r' := by
  have ha := hsubjects.asset
  have hb := hother.asset
  have hfile := hpaths.temporary_file b hb a ha event
  by_cases hsame : temporaryPath host.library b event = temporaryPath host.library a d.id
  · have hself : b = a := hpaths.temporary b hb a ha event d.id hsame
    subst hself
    have hrep : r' = r := List.inj_on_of_nodup_map hpaths.ids hother.representative
      hsubjects.representative (hgrouped.served_unique hother.served hsubjects.served)
    subst hrep
    cases h with
    | quiet | row => exact hlinked
    | temporary inode hinode =>
      rw [hsame, update_self]
      exact hinode
    | linked =>
      rw [hsame, update_self]
      exact fun i hi => by cases hi
    | moved =>
      rw [update_of_ne hfile, update_of_ne (hpaths.temporary_quarantine b hb b hb event)]
      exact hlinked
  · rw [h.untouched hfile hsame (hpaths.temporary_quarantine b hb a ha event)]
    exact hlinked

theorem Effect.placed (hplaced : Placed host own db files) : Placed host own db' files' := by
  have ha := hsubjects.asset
  have hmoved : ∀ b ∈ host.library.assets, Moved host own files b → Moved host own files' b :=
    fun b hb => h.moved_kept hpaths hplaced hsubjects hb
  have hserver : ∀ r' ∈ host.library.assets, Served db a.id r'.id → r' = r := by
    intro r' hr' hserved
    exact List.inj_on_of_nodup_map hpaths.ids hr' hsubjects.representative
      (hgrouped.served_unique hserved hsubjects.served)
  constructor
  case free =>
    intro b hb hnone
    have hne : b ≠ a := by
      rintro rfl
      exact hnone _ (h.served.mpr hsubjects.served)
    rw [h.path_other hpaths ha hb hne]
    exact hplaced.free b hb fun r' hr' => hnone r' (h.served.mpr hr')
  case copy =>
    intro b hb r' hr' hserved hexact
    have hserved := h.served.mp hserved
    have hbefore := hplaced.copy b hb r' hr' hserved hexact
    by_cases hself : b = a
    · subst hself
      have hrep := hserver r' hr' hserved
      subst hrep
      rcases h.path_own hpaths hb with hsame | ⟨-, hlink⟩ | ⟨hvariant, -⟩
      · rw [hsame]
        exact hbefore
      · exact .inr hlink
      · exact absurd hexact hvariant
    · rw [h.path_other hpaths ha hb hself]
      exact hbefore
  case variant =>
    intro b hb r' hr' hserved hvariant
    have hserved := h.served.mp hserved
    rcases hplaced.variant b hb r' hr' hserved hvariant with hthere | hgone
    · by_cases hself : b = a
      · subst hself
        have hrep := hserver r' hr' hserved
        subst hrep
        rcases h.path_own hpaths hb with hsame | ⟨hexact, -⟩ | ⟨-, hgone⟩
        · exact .inl (hsame.trans hthere)
        · exact absurd hexact hvariant
        · exact .inr hgone
      · exact .inl ((h.path_other hpaths ha hb hself).trans hthere)
    · exact .inr (hmoved b hb hgone)
  case quarantine =>
    intro b hb
    rcases hplaced.quarantine b hb with hempty | hgone
    · exact h.quarantine_kept hpaths ha hb hempty
    · exact .inr (hmoved b hb hgone)
  case rows =>
    have hold : ∀ b ∈ host.library.assets, ∀ row, db.storage b.id = some row →
        row.storageState ≠ .purged ∧ (row.storageState = .quarantined →
          Moved host own files' b ∧
            row.quarantinePath = some (quarantinePath host.library b)) := by
      intro b hb row hrow
      obtain ⟨hpurged, hquarantined⟩ := hplaced.rows b hb row hrow
      exact ⟨hpurged, fun hq => ⟨hmoved b hb (hquarantined hq).1, (hquarantined hq).2⟩⟩
    cases h with
    | row row events nextId hnext hserved hpurged hquarantined =>
      intro b hb row' hrow'
      have hrow : update db.storage a.id (some row) b.id = some row' := hrow'
      by_cases hself : b.id = a.id
      · rw [hself, update_self] at hrow
        cases hrow
        rw [List.inj_on_of_nodup_map hpaths.ids hb ha hself]
        exact ⟨hpurged, hquarantined⟩
      · rw [update_of_ne hself] at hrow
        exact hold b hb row' hrow
    | quiet | temporary | linked | moved => exact hold

theorem Effect.jobFits (hplaced : Placed host own db files) {job : Job}
    (hjob : JobFits host own db files job) : JobFits host own db' files' job := by
  have hfits : ∀ {eventType : EventType} {payload : EventPayload},
      Fits host.library db eventType payload → Fits host.library db' eventType payload :=
    fun hbefore => ⟨h.served.mpr hbefore.1, hbefore.2⟩
  cases job with
  | claimed d' => exact hfits hjob
  | ended d' error => trivial
  | running d' a' r' point =>
    exact { hjob with
      fits := hfits hjob.fits
      moved := fun hp => h.moved_kept hpaths hplaced hsubjects hjob.asset (hjob.moved hp)
      linked := fun hp =>
        h.linked_kept hpaths hgrouped hsubjects hjob.subjects (hjob.linked hp) }

end

end

theorem Effect.grouped (hgrouped : Grouped host.library db) (hsubjects : Subjects host db a r) :
    Grouped host.library db' := by
  cases h with
  | quiet | temporary | linked | moved => exact hgrouped
  | row row events nextId hnext hserved hpurged hquarantined hevents =>
    refine ⟨fun g hg => (hgrouped.groupUsed g hg).trans_le hnext, hgrouped.groupUnique,
      hgrouped.memberGroup, hgrouped.memberAsset, hgrouped.memberUnique,
      hgrouped.representative, ?_, ?_⟩
    · intro g hg m hm hgroup
      by_cases hself : m.asset = a.id
      · -- the new row names the representative of the one group of the asset
        have hrep : g.representative = r.id := by
          by_cases hown : a.id = g.representative
          · exact absurd (hown ▸ hsubjects.served) (hgrouped.representative_not_served hg)
          · refine hgrouped.served_unique ⟨g, hg, rfl, ?_, hown⟩ hsubjects.served
            rw [← hself, ← hgroup]
            exact hm
        have hne : a.id ≠ r.id := by
          obtain ⟨-, -, -, -, hne⟩ := hsubjects.served
          exact hne
        refine ⟨row, ?_, ?_⟩
        · rw [hself]
          exact update_self _ _ _
        · rw [hself, hrep, server, if_neg hne]
          exact hserved
      · obtain ⟨row', hrow', hserved'⟩ := hgrouped.servedBy g hg m hm hgroup
        exact ⟨row', (update_of_ne hself _ _).trans hrow', hserved'⟩
    · intro e he
      rcases List.mem_append.mp he with hold | hnew
      · exact hgrouped.events e hold
      · exact hevents e hnew

end

end Effects

/-! ### A step of a worker -/

section Steps

variable {host} {now : Nat}

/-- The file of a representative is its own. -/
theorem Subjects.representative_path (h : Subjects host db a r)
    (hgrouped : Grouped host.library db) (hplaced : Placed host own db files) :
    files r.filePath = some (own r) := by
  refine hplaced.free r h.representative fun r' hr' => ?_
  obtain ⟨g, hg, hrep, -⟩ := h.served
  exact hgrouped.representative_not_served hg (hrep ▸ hr')

variable (host own db files d a r) in
/-- The step is one of the known effects, and leaves its worker at a point where it may be. -/
def Sound (result : Database × (Text → Option Nat) × Job) : Prop :=
  Effect host own db files d a r result.1 result.2.1 ∧
    JobFits host own result.1 result.2.1 result.2.2

/-- The work goes on, and nothing has changed. -/
theorem RunFits.goOn (h : RunFits host own db files d a r point) (next : Point)
    (htype : next.OfType d.eventType) (hhashed : next.Hashed host own a r)
    (hmoved : next.InQuarantine → Moved host own files a) (hlink : ¬next.HasLink) :
    Sound host own db files d a r (db, files, .running d a r next) :=
  ⟨.quiet, { h with
    type := htype
    hashed := hhashed
    moved := hmoved
    linked := fun hp => absurd hp hlink }⟩

/-- The work ends, and nothing has changed. -/
theorem sound_ended (error : Option StorageError) :
    Sound host own db files d a r (db, files, .ended d error) :=
  ⟨.quiet, trivial⟩

/-- The file of a variant that is not at its path is in quarantine. -/
theorem RunFits.moved_of_none (h : RunFits host own db files d a r point)
    (hplaced : Placed host own db files) (hvariant : ¬Exact a r) (hnone : files a.filePath = none) :
    Moved host own files a := by
  rcases hplaced.variant a h.asset r h.representative h.subjects.served hvariant with
    hthere | hmoved
  · rw [hnone] at hthere
    cases hthere
  · exact hmoved

variable {reclaimed days : Nat} {hash : Text}

/-- `os.link` of the representative's file. -/
theorem sound_link (hgrouped : Grouped host.library db) (hplaced : Placed host own db files)
    (h : RunFits host own db files d a r (.link reclaimed)) :
    Sound host own db files d a r (advance host db files d a r now (.link reclaimed)) := by
  simp only [advance, h.subjects.representative_path hgrouped hplaced]
  split
  next inode _ hinode _ =>
    cases hinode
    have heffect : Effect host own db files d a r db
        (update files (temporaryPath host.library a d.id) (some (own r))) :=
      .temporary (some (own r)) fun i hi => (Option.mem_some_iff.mp hi).symm
    refine ⟨heffect, { h with hashed := h.hashed, type := h.type, moved := nofun, linked := ?_ }⟩
    intro _ i hi
    have hlink := update_self (temporaryPath host.library a d.id) (some (own r)) files
    exact (Option.mem_some_iff.mp (hlink ▸ hi)).symm
  next => exact sound_ended _

/-- `os.replace` of the file by the link. -/
theorem sound_linkReplace (h : RunFits host own db files d a r (.linkReplace reclaimed)) :
    Sound host own db files d a r (advance host db files d a r now (.linkReplace reclaimed)) := by
  simp only [advance]
  split
  next => exact sound_ended _
  rename_i inode hinode
  have hlink : inode = own r := h.linked trivial inode hinode
  unfold replace
  split_ifs
  · exact h.goOn _ h.type trivial nofun nofun
  · rw [hinode, hlink]
    exact ⟨.linked (h.exact_iff.mp h.type) h.hashed,
      { h with type := h.type, hashed := trivial, moved := nofun, linked := nofun }⟩

/-- `os.replace` of the file into the quarantine. -/
theorem sound_visualMove (hpaths : Apart host.library) (hplaced : Placed host own db files)
    (h : RunFits host own db files d a r (.visualMove days hash)) :
    Sound host own db files d a r (advance host db files d a r now (.visualMove days hash)) := by
  have hvariant : ¬Exact a r := fun hexact => h.type (h.exact_iff.mpr hexact)
  have hnotMoved : ∀ {inode : Nat}, files a.filePath = some inode → ¬Moved host own files a := by
    intro inode hinode hmoved
    rw [hmoved.1] at hinode
    cases hinode
  simp only [advance]
  split
  next => exact sound_ended _
  rename_i inode hinode
  have hown : inode = own a := by
    rcases hplaced.variant a h.asset r h.representative h.subjects.served hvariant with
      hthere | hmoved
    · rw [hinode] at hthere
      cases hthere
      rfl
    · exact absurd hmoved (hnotMoved hinode)
  have hempty : files (quarantinePath host.library a) = none :=
    (hplaced.quarantine a h.asset).resolve_right (hnotMoved hinode)
  have hreplace : replace files a.filePath (quarantinePath host.library a) =
      update (update files (quarantinePath host.library a) (some (own a))) a.filePath none := by
    unfold replace
    rw [hinode, hempty, if_neg nofun, hown]
  rw [hreplace]
  exact ⟨.moved hvariant, { h with
    type := h.type
    hashed := trivial
    moved := fun _ => hpaths.moved h.asset
    linked := nofun }⟩

theorem mem_purgeEvents {payload : EventPayload} {purgeAfter : Option Nat} {e : Event}
    (h : e ∈ purgeEvents db payload a r purgeAfter now) :
    e.eventType = .purge ∧ e.payload = payload := by
  unfold purgeEvents at h
  split_ifs at h
  · cases h
  · rw [List.mem_singleton.mp h]
    exact ⟨rfl, rfl⟩

/-- The transaction at the end of `_run_quarantine`. -/
theorem sound_visualCommit (h : RunFits host own db files d a r (.visualCommit days hash)) :
    Sound host own db files d a r (advance host db files d a r now (.visualCommit days hash)) := by
  simp only [advance]
  split
  next => exact sound_ended _
  rename_i row hrow
  refine ⟨.row _ _ _ (Nat.le_add_right _ _) rfl nofun (fun _ => ⟨h.moved trivial, rfl⟩) ?_, trivial⟩
  intro e he
  obtain ⟨htype, hpayload⟩ := mem_purgeEvents he
  rw [htype, hpayload]
  refine ⟨h.fits.1, ?_⟩
  intro a' ha' r' hr' hid hid'
  have hhardlink := h.fits.2 a' ha' r' hr' hid hid'
  exact ⟨nofun, fun hexact => absurd (hhardlink.mpr hexact) h.type⟩

/-- The transaction of `_run_purge` finds the row of a file that is in quarantine. -/
theorem sound_purgeRow (hplaced : Placed host own db files)
    (h : RunFits host own db files d a r .purgeRow) :
    Sound host own db files d a r (advance host db files d a r now .purgeRow) := by
  simp only [advance]
  split
  next => exact sound_ended _
  rename_i row hrow
  split_ifs with hpurged hstate hafter
  · exact sound_ended _
  · exact sound_ended _
  · exact sound_ended _
  · push Not at hstate
    obtain ⟨hmoved, hpath⟩ := (hplaced.rows a h.asset row hrow).2 hstate.1
    refine h.goOn _ h.type ?_ (fun _ => hmoved) nofun
    rw [hpath]
    rfl

/-- A step of `_run_hardlink`, `_run_quarantine` or `_run_purge` that does not remove a
quarantined file. -/
theorem sound_advance (hpaths : Apart host.library) (hgrouped : Grouped host.library db)
    (hplaced : Placed host own db files) (h : RunFits host own db files d a r point)
    (hkeeps : ∀ row path reclaimed, point = .purgeUnlink row path reclaimed → files path = none) :
    Sound host own db files d a r (advance host db files d a r now point) := by
  have hrep := h.subjects.representative_path hgrouped hplaced
  have htype := h.type
  have hhashed := h.hashed
  cases point with
  | linkSource =>
    simp only [advance]
    split
    next => exact sound_ended _
    rename_i inode hinode
    refine h.goOn _ htype ?_ nofun nofun
    rcases hplaced.copy a h.asset r h.representative h.subjects.served
        (h.exact_iff.mp htype) with hown | ⟨hlink, hhash⟩
    · rw [hown] at hinode
      cases hinode
      rfl
    · rw [hlink] at hinode
      cases hinode
      exact hhash.symm
  | linkRepresentative sourceHash =>
    simp only [advance, hrep]
    split_ifs with hdiffers
    · exact sound_ended _
    · exact h.goOn _ htype (hhashed.symm.trans (not_not.mp hdiffers)) nofun nofun
  | linkStat =>
    simp only [advance]
    split
    next =>
      split_ifs
      · exact h.goOn _ htype trivial nofun nofun
      · exact sound_ended _
      · exact h.goOn _ htype hhashed nofun nofun
    next => exact sound_ended _
  | linkTemporary reclaimed =>
    exact ⟨.temporary none nofun,
      { h with type := htype, hashed := hhashed, moved := nofun, linked := nofun }⟩
  | link reclaimed => exact sound_link hgrouped hplaced h
  | linkReplace reclaimed => exact sound_linkReplace h
  | linkCommit reclaimed =>
    simp only [advance]
    split
    next => exact sound_ended _
    rename_i row hrow
    have heffect : Effect host own db files d a r
        { setStorage db a.id (hardlinkedRow row r reclaimed) with
          outbox := db.outbox ++ []
          nextId := db.nextId } files :=
      .row _ [] _ le_rfl rfl nofun nofun nofun
    rw [List.append_nil] at heffect
    exact ⟨heffect, trivial⟩
  | visualRepresentative =>
    simp only [advance, hrep]
    exact h.goOn _ htype trivial nofun nofun
  | visualCandidate limits =>
    simp only [advance]
    split
    next => exact sound_ended _
    next =>
      refine h.goOn _ htype trivial (fun hsource => ?_) nofun
      exact h.moved_of_none hplaced (fun hexact => htype (h.exact_iff.mpr hexact))
        (by simpa [Point.InQuarantine] using hsource)
  | visualHash limits fromSource =>
    simp only [advance]
    split
    next => exact sound_ended _
    next =>
      split_ifs
      · exact sound_ended _
      · exact h.goOn _ htype trivial h.moved nofun
  | visualGate limits fromSource candidateHash =>
    simp only [advance, hrep]
    split
    next =>
      split_ifs with hchanged hphash hssim hsource
      · exact sound_ended _
      · exact sound_ended _
      · exact sound_ended _
      · exact h.goOn _ htype trivial nofun nofun
      · exact h.goOn _ htype trivial (fun _ => h.moved (eq_false_of_ne_true hsource)) nofun
    next => exact sound_ended _
  | visualMove days candidateHash => exact sound_visualMove hpaths hplaced h
  | visualCommit days candidateHash => exact sound_visualCommit h
  | purgeRepresentative =>
    simp only [advance, hrep]
    split_ifs
    · exact sound_ended _
    · exact h.goOn _ htype trivial nofun nofun
  | purgeRow => exact sound_purgeRow hplaced h
  | purgeFile row path =>
    simp only [advance]
    split
    next => exact sound_ended _
    next =>
      have hnext : ∀ reclaimed, Sound host own db files d a r
          (db, files, .running d a r (.purgeUnlink row path reclaimed)) :=
        fun reclaimed => h.goOn _ htype hhashed (fun _ => h.moved trivial) nofun
      split_ifs <;> first | exact sound_ended _ | exact hnext _
  | purgeUnlink row path reclaimed =>
    simp only [advance, hkeeps row path reclaimed rfl]
    exact sound_ended _
  | purgeCommit row reclaimed => exact absurd hhashed id

end Steps

end AssetStorage
