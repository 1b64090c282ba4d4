import AutoGallery.AssetReconciliation
import AutoGallery.WorkDatabase

/-!
# Purging works

A purge takes trashed works, and removes the files of the assets that only these works
use.  An asset can also be used through its group: the representative of a group stands
in for members whose own files are gone.  A representative is kept if another work has a
member of its group through an asset source.

Another work's thumbnail is looked at for the asset itself, but not for the members of
its group.  So a purge can remove the representative that serves the thumbnail of a work
that stays (`thumbnail_representative_purged`).  It keeps what the other works show just
if every representative that they need, and that only purged works use, is also
needed through an asset source (`purge_keeps_iff`).
-/

namespace CurationPurge

open PyText List
open WorkDatabase (Visibility)
open AssetReconciliation (Group Member Storage)

/-! ### Tables -/

structure Work where
  id : Nat
  thumbnailAssetId : Option Nat
  deriving DecidableEq

/-- An entry of `files` in the metadata of an upload.  The name is empty if there is none,
and the size is missing if it is no number. -/
structure FileEntry where
  name : Text
  size : Option Int
  deriving DecidableEq

/-- What is read of `raw_metadata`. -/
structure UploadMetadata where
  files : List FileEntry
  uploadedByUserId : Option Int
  uploadedBy : Text
  deriving DecidableEq

structure WorkSource where
  id : Nat
  workId : Nat
  source : Text
  sourceCreatorId : Option Text
  metadata : UploadMetadata
  deriving DecidableEq

structure AssetSource where
  assetId : Nat
  workSourceId : Nat
  sourceAssetId : Option Text
  deriving DecidableEq

structure Asset where
  id : Nat
  fileName : Text
  deriving DecidableEq

structure User where
  id : Nat
  username : Text
  deriving DecidableEq

/-- The tables that a purge only reads, with the keys that it relies on. -/
structure Gallery where
  works : List Work
  workSources : List WorkSource
  assetSources : List AssetSource
  assets : List Asset
  groups : List Group
  members : List Member
  users : List User
  workSource_nodup : (workSources.map WorkSource.id).Nodup
  workSource_work : ∀ source ∈ workSources, ∃ work ∈ works, work.id = source.workId
  assetSource_asset : ∀ link ∈ assetSources, ∃ asset ∈ assets, asset.id = link.assetId
  thumbnail_asset : ∀ work ∈ works, ∀ id ∈ work.thumbnailAssetId, ∃ asset ∈ assets, asset.id = id

/-- The rows that a purge changes. -/
structure State where
  visibility : Nat → Visibility
  storage : Nat → Option Storage
  uploadUsedBytes : Nat → Int

inductive PurgeError
  | idsRequired
  | tooManyWorks
  | noTrashedWorks
  | multipleResults
  | fileCleanup
  deriving DecidableEq

def commitWorkLimit : Nat := 25

/-- The detail that the request is refused with, or the text of the exception. -/
def PurgeError.message : PurgeError → Text
  | idsRequired => "purge requires an explicit list of 1 to 25 work ids".toList
  | tooManyWorks => "at most 25 works per purge commit".toList
  | noTrashedWorks => "No trashed works are eligible for purge".toList
  | multipleResults => "Multiple rows were found when one or none was required".toList
  | fileCleanup => "Unable to delete managed asset file".toList

/-- What removing the files of an asset comes to: the bytes that it frees, and whether a
file is outside of the managed storage or cannot be removed. -/
structure Files where
  reclaimed : Nat → Nat
  refused : Nat → Bool

def State.Purged (s : State) (asset : Nat) : Prop :=
  ∃ row ∈ s.storage asset, row.storageState = .purged

instance (s : State) (asset : Nat) : Decidable (s.Purged asset) :=
  inferInstanceAs (Decidable (∃ row ∈ s.storage asset, _))

/-- The storage row of the asset names this representative. -/
def State.ServedBy (s : State) (asset representative : Nat) : Prop :=
  ∃ row ∈ s.storage asset, row.servedBy = some representative

instance (s : State) (asset representative : Nat) : Decidable (s.ServedBy asset representative) :=
  inferInstanceAs (Decidable (∃ row ∈ s.storage asset, _))

namespace Gallery

variable (G : Gallery)

/-- The work has the asset through an asset source. -/
def HasAsset (work asset : Nat) : Prop :=
  ∃ link ∈ G.assetSources, link.assetId = asset ∧
    ∃ source ∈ G.workSources, source.id = link.workSourceId ∧ source.workId = work

instance (work asset : Nat) : Decidable (G.HasAsset work asset) :=
  inferInstanceAs (Decidable (∃ link ∈ G.assetSources, _ ∧ ∃ source ∈ G.workSources, _ ∧ _))

def HasThumbnail (work asset : Nat) : Prop :=
  ∃ row ∈ G.works, row.id = work ∧ row.thumbnailAssetId = some asset

instance (work asset : Nat) : Decidable (G.HasThumbnail work asset) :=
  inferInstanceAs (Decidable (∃ row ∈ G.works, _ ∧ _))

/-- The work shows the asset. -/
def Reaches (work asset : Nat) : Prop :=
  G.HasAsset work asset ∨ G.HasThumbnail work asset

instance (work asset : Nat) : Decidable (G.Reaches work asset) :=
  inferInstanceAs (Decidable (_ ∨ _))

/-- The works of the sources that have the asset. -/
def assetWorks (asset : Nat) : List Nat :=
  (G.assetSources.filter (·.assetId = asset)).flatMap fun link =>
    (G.workSources.filter (·.id = link.workSourceId)).map WorkSource.workId

/-- The works with this thumbnail. -/
def thumbnailWorks (asset : Nat) : List Nat :=
  (G.works.filter (·.thumbnailAssetId = some asset)).map Work.id

variable {work asset : Nat}

@[simp]
theorem mem_assetWorks : work ∈ G.assetWorks asset ↔ G.HasAsset work asset := by
  simp only [assetWorks, HasAsset, mem_flatMap, mem_map, mem_filter, decide_eq_true_eq, and_assoc]

@[simp]
theorem mem_thumbnailWorks : work ∈ G.thumbnailWorks asset ↔ G.HasThumbnail work asset := by
  simp only [thumbnailWorks, HasThumbnail, mem_map, mem_filter, decide_eq_true_eq,
    and_right_comm, and_assoc]

/-- An asset that a work shows has a row. -/
theorem Reaches.exists_asset (h : G.Reaches work asset) : ∃ row ∈ G.assets, row.id = asset := by
  rcases h with ⟨link, hlink, rfl, -⟩ | ⟨row, hrow, -, hthumbnail⟩
  · exact G.assetSource_asset link hlink
  · exact G.thumbnail_asset row hrow asset (by simp [hthumbnail])

/-! ### The candidates -/

/-- `_purge_candidate_works` for a list of ids. -/
def purgeCandidateWorks (s : State) (workIds : List Nat) : List Nat :=
  (G.works.filter fun work => work.id ∈ workIds ∧ s.visibility work.id = .trashed).map Work.id

/-- A work outside of these uses the asset. -/
def UsedOutside (owners : List Nat) (asset : Nat) : Prop :=
  (∃ work ∈ G.assetWorks asset, work ∉ owners) ∨ ∃ work ∈ G.thumbnailWorks asset, work ∉ owners

instance (owners : List Nat) (asset : Nat) : Decidable (G.UsedOutside owners asset) :=
  inferInstanceAs (Decidable (_ ∨ _))

/-- The groups that the asset represents. -/
def represented (asset : Nat) : List Group :=
  G.groups.filter (·.representative = asset)

/-- A work outside of these has, through an asset source, a member of a group that the
asset represents. -/
def GroupUsedOutside (owners : List Nat) (asset : Nat) : Prop :=
  ∃ group ∈ G.represented asset, ∃ m ∈ G.members, m.group = group.id ∧
    ∃ work ∈ G.assetWorks m.asset, work ∉ owners

instance (owners : List Nat) (asset : Nat) : Decidable (G.GroupUsedOutside owners asset) :=
  inferInstanceAs (Decidable (∃ group ∈ G.represented asset, ∃ m ∈ G.members, _ ∧ _))

/-- The assets of the works that are not purged yet and that no other work uses. -/
def ownedAssets (s : State) (works owners : List Nat) : List Nat :=
  (G.assets.map Asset.id).filter fun asset =>
    (∃ work ∈ works, G.Reaches work asset) ∧ ¬s.Purged asset ∧ ¬G.UsedOutside owners asset

/-- `set(ownership_work_ids or work_ids)`. -/
def owners (works : List Nat) (scope : Option (List Nat)) : List Nat :=
  match scope with
  | some (work :: rest) => work :: rest
  | _ => works

/-- `_purge_candidate_assets`. -/
def purgeCandidateAssets (s : State) (works : List Nat) (scope : Option (List Nat)) :
    Except PurgeError (List Nat) :=
  let owners := owners works scope
  if ∃ asset ∈ G.ownedAssets s works owners, 1 < (G.represented asset).length then
    .error .multipleResults
  else
    .ok ((G.ownedAssets s works owners).filter fun asset => ¬G.GroupUsedOutside owners asset)

/-! ### The quota of manual uploads -/

/-- The bytes of an upload that a purge returns to its user. -/
structure Charge where
  workSource : Nat
  user : Nat
  amount : Int
  deriving DecidableEq

variable
  -- `Path(name).stem`
  (stem : Text → Text)
  (lower : Text → Text)

/-- The names under which a source has assets that are purged. -/
def eligibleNames (workSource : Nat) (assets : List Nat) : List Text :=
  (G.assetSources.filter fun link => link.workSourceId = workSource ∧ link.assetId ∈ assets).flatMap
    fun link =>
      (link.sourceAssetId.toList.filter (· ≠ [])) ++
        ((G.assets.filter fun asset => asset.id = link.assetId ∧ asset.fileName ≠ []).map fun asset =>
          stem asset.fileName)

/-- The entry is returned, with this many bytes. -/
def returnedSize (allowed : List Text) (entry : FileEntry) : Int :=
  if entry.name = [] ∨ stem entry.name ∉ allowed then 0 else max (entry.size.getD 0) 0

/-- The user that an upload was charged to. -/
def uploader (metadata : UploadMetadata) : Option Nat :=
  match metadata.uploadedByUserId with
  | some id =>
    if 0 < id then (G.users.find? fun user => (user.id : Int) = id).map User.id
    else byName metadata.uploadedBy
  | none => byName metadata.uploadedBy
where
  byName (name : Text) : Option Nat :=
    if strip name = [] then none
    else (G.users.find? fun user => user.username = strip name).map User.id

/-- The charge of one source: it is manual and of one of the works, has something to
return, and its user still exists. -/
def sourceCharge (works assets : List Nat) (source : WorkSource) : Option Charge :=
  let allowed := G.eligibleNames stem source.id assets
  let amount := (source.metadata.files.map (returnedSize stem allowed)).sum
  if source.workId ∈ works ∧ lower source.source = "manual".toList ∧ 0 < amount then
    (G.uploader source.metadata).map fun user => ⟨source.id, user, amount⟩
  else none

/-- The charges of `_release_manual_upload_quota`. -/
def manualCharges (works assets : List Nat) : List Charge :=
  G.workSources.filterMap (G.sourceCharge stem lower works assets)

/-- The bytes that the charges return to a user. -/
def returnedTo (charges : List Charge) (user : Nat) : Int :=
  ((charges.filter (·.user = user)).map Charge.amount).sum

/-! ### The purge -/

/-- `greatest(upload_used_bytes - amount, 0)` for the users that have charges. -/
def releaseQuota (charges : List Charge) (used : Nat → Int) : Nat → Int := fun user =>
  if charges.any (·.user = user) then max (used user - returnedTo charges user) 0 else used user

/-- The storage row of a purged asset. -/
def purgedRow (reclaimed : Nat) (row : Option Storage) : Storage :=
  let row := row.getD .inserted
  { row with
    storageState := .purged
    bytesReclaimed := max row.bytesReclaimed reclaimed
    quarantinePath := none
    quarantineSha256 := none }

/-- The rows after the works and the assets are marked. -/
def markPurged (files : Files) (works assets : List Nat) (charges : List Charge) (s : State) :
    State where
  visibility := fun work => if work ∈ works then .purged else s.visibility work
  storage := fun asset =>
    if asset ∈ assets then some (purgedRow (files.reclaimed asset) (s.storage asset))
    else s.storage asset
  uploadUsedBytes := releaseQuota charges s.uploadUsedBytes

/-- `CurationService.purge`. -/
def purge (files : Files) (workIds : List Nat) (strictFileCleanup : Bool)
    (scope : Option (List Nat)) (s : State) : Except PurgeError State := do
  if workIds = [] then .error .idsRequired
  else if commitWorkLimit < workIds.length then .error .tooManyWorks
  else
    let works := G.purgeCandidateWorks s workIds
    if works = [] then .error .noTrashedWorks
    else
      let assets ← G.purgeCandidateAssets s works scope
      if strictFileCleanup = true ∧ ∃ asset ∈ assets, files.refused asset = true then
        .error .fileCleanup
      else .ok (markPurged files works assets (G.manualCharges stem lower works assets) s)

end Gallery

open Gallery

/-! ### What a purge does -/

section Purge

variable {G : Gallery} {stem lower : Text → Text} {files : Files} {s s' : State}
  {workIds : List Nat}

theorem mem_purgeCandidateWorks {work : Nat} (h : work ∈ G.purgeCandidateWorks s workIds) :
    work ∈ workIds ∧ s.visibility work = .trashed := by
  obtain ⟨row, hrow, rfl⟩ := mem_map.mp h
  simpa using (mem_filter.mp hrow).2

variable {asset : Nat} {works assets : List Nat} {scope : Option (List Nat)} {strict : Bool}

theorem usedOutside_iff {owners : List Nat} :
    G.UsedOutside owners asset ↔ ∃ work, G.Reaches work asset ∧ work ∉ owners := by
  simp only [UsedOutside, mem_assetWorks, mem_thumbnailWorks,
    Reaches, or_and_right, exists_or]

theorem mem_ownedAssets {owners : List Nat} :
    asset ∈ G.ownedAssets s works owners ↔ (∃ work ∈ works, G.Reaches work asset) ∧
      ¬s.Purged asset ∧ ∀ work, G.Reaches work asset → work ∈ owners := by
  simp only [ownedAssets, mem_filter, decide_eq_true_eq, usedOutside_iff, not_exists,
    not_and, not_not]
  constructor
  · rintro ⟨-, hreached, hpurged, houtside⟩
    exact ⟨hreached, hpurged, houtside⟩
  · rintro ⟨⟨work, hwork, hreaches⟩, hpurged, houtside⟩
    obtain ⟨row, hrow, rfl⟩ := hreaches.exists_asset
    exact ⟨mem_map_of_mem hrow, ⟨work, hwork, hreaches⟩, hpurged, houtside⟩

/-- The assets that are purged with the works: shown by one of them, shown by no other
work, and not needed for a group. -/
theorem mem_purgeCandidateAssets (h : G.purgeCandidateAssets s works scope = .ok assets) :
    asset ∈ assets ↔ (∃ work ∈ works, G.Reaches work asset) ∧ ¬s.Purged asset ∧
      (∀ work, G.Reaches work asset → work ∈ owners works scope) ∧
      ¬G.GroupUsedOutside (owners works scope) asset := by
  unfold purgeCandidateAssets at h
  dsimp only at h
  split at h
  · cases h
  · cases h
    simp only [mem_filter, mem_ownedAssets, decide_eq_true_eq, and_assoc]

variable (G s workIds scope) in
/-- What a purge that succeeds does. -/
structure Purges (s' : State) : Prop where
  visibility : ∀ work, s'.visibility work =
    if work ∈ G.purgeCandidateWorks s workIds then .purged else s.visibility work
  purged : ∀ asset, s'.Purged asset ↔ s.Purged asset ∨
    (∃ work ∈ G.purgeCandidateWorks s workIds, G.Reaches work asset) ∧
      (∀ work, G.Reaches work asset →
        work ∈ owners (G.purgeCandidateWorks s workIds) scope) ∧
      ¬G.GroupUsedOutside (owners (G.purgeCandidateWorks s workIds) scope) asset

theorem purged_markPurged {charges : List Charge} :
    (markPurged files works assets charges s).Purged asset ↔
      asset ∈ assets ∨ s.Purged asset := by
  by_cases hmem : asset ∈ assets
  · simp [State.Purged, markPurged, purgedRow, hmem]
  · simp [State.Purged, markPurged, hmem]

/-- A purge that succeeds has passed its checks, and marks its works and assets. -/
theorem purge_eq_ok (h : G.purge stem lower files workIds strict scope s = .ok s') :
    workIds ≠ [] ∧ workIds.length ≤ commitWorkLimit ∧ G.purgeCandidateWorks s workIds ≠ [] ∧
      ∃ assets, G.purgeCandidateAssets s (G.purgeCandidateWorks s workIds) scope = .ok assets ∧
        s' = markPurged files (G.purgeCandidateWorks s workIds) assets
          (G.manualCharges stem lower (G.purgeCandidateWorks s workIds) assets) s := by
  unfold purge at h
  dsimp only at h
  split_ifs at h with hids hlimit hworks
  obtain ⟨assets, hassets, h⟩ := bind_ok h
  split_ifs at h
  exact ⟨hids, not_lt.mp hlimit, hworks, assets, hassets, (Except.ok.inj h).symm⟩

theorem purge_purges (h : G.purge stem lower files workIds strict scope s = .ok s') :
    Purges G s workIds scope s' := by
  obtain ⟨-, -, -, assets, hassets, rfl⟩ := purge_eq_ok h
  constructor
  · intro work
    rfl
  · intro asset
    rw [purged_markPurged, mem_purgeCandidateAssets hassets]
    by_cases hpurged : s.Purged asset <;> simp [hpurged]

/-! ### What the other works show -/

/-- Every work outside of the list still has what it showed: the assets that were not
purged, and the representatives that serve them. -/
def KeepsOthers (G : Gallery) (s s' : State) (workIds : List Nat) : Prop :=
  ∀ work, work ∉ workIds → ∀ asset, G.Reaches work asset → ¬s.Purged asset →
    ¬s'.Purged asset ∧
      ∀ representative, s.ServedBy asset representative → ¬s.Purged representative →
        ¬s'.Purged representative

/-- A representative that a work outside of the list needs, and that only works of the
purge use, represents a group with a member that a work which is not purged has through
an asset source. -/
def NeededThroughSources (G : Gallery) (s : State) (workIds : List Nat) : Prop :=
  ∀ work, work ∉ workIds → ∀ asset, G.Reaches work asset → ¬s.Purged asset →
    ∀ representative, s.ServedBy asset representative → ¬s.Purged representative →
      (∃ purged ∈ G.purgeCandidateWorks s workIds, G.Reaches purged representative) →
      (∀ user, G.Reaches user representative → user ∈ G.purgeCandidateWorks s workIds) →
      ∃ group ∈ G.groups, group.representative = representative ∧
        ∃ m ∈ G.members, m.group = group.id ∧
          ∃ user, G.HasAsset user m.asset ∧ user ∉ G.purgeCandidateWorks s workIds

theorem groupUsedOutside_iff {owners : List Nat} :
    G.GroupUsedOutside owners asset ↔ ∃ group ∈ G.groups, group.representative = asset ∧
      ∃ m ∈ G.members, m.group = group.id ∧ ∃ user, G.HasAsset user m.asset ∧ user ∉ owners := by
  simp only [GroupUsedOutside, represented, mem_filter, decide_eq_true_eq,
    mem_assetWorks, and_assoc]

/-- A purge keeps what the works outside of its list show just if every representative that
they need, and that only purged works use, is needed through an asset source. -/
theorem purge_keeps_iff {strict : Bool}
    (h : G.purge stem lower files workIds strict none s = .ok s') :
    KeepsOthers G s s' workIds ↔ NeededThroughSources G s workIds := by
  have hpurges := purge_purges h
  constructor
  · intro hkeeps work hout asset hreaches hasset representative hserved hpresent hused honly
    by_contra hnone
    refine (hkeeps work hout asset hreaches hasset).2 representative hserved hpresent ?_
    refine (hpurges.purged representative).mpr (.inr ⟨hused, honly, ?_⟩)
    rwa [groupUsedOutside_iff]
  · intro hneeded work hout asset hreaches hasset
    constructor
    · intro hpurged
      rcases (hpurges.purged asset).mp hpurged with hbefore | ⟨-, honly, -⟩
      · exact hasset hbefore
      · exact hout (mem_purgeCandidateWorks (honly work hreaches)).1
    · intro representative hserved hpresent hpurged
      rcases (hpurges.purged representative).mp hpurged with hbefore | ⟨hused, honly, hgroup⟩
      · exact hpresent hbefore
      · exact hgroup (groupUsedOutside_iff.mpr
          (hneeded work hout asset hreaches hasset representative hserved hpresent hused honly))

end Purge

/-! ### A thumbnail that is served by a representative -/

section Thumbnail

def noUpload : UploadMetadata := ⟨[], none, []⟩

/-- The assets 10 and 11 are one image, of the works 1 and 2, and are shown from asset 10.
Work 3 has asset 12, and `thumbnail` as its thumbnail. -/
def pairGallery (thumbnail : Nat) (h : thumbnail ∈ [10, 11, 12]) : Gallery where
  works := [⟨1, some 10⟩, ⟨2, some 11⟩, ⟨3, some thumbnail⟩]
  workSources :=
    [⟨21, 1, "pixiv".toList, none, noUpload⟩, ⟨22, 2, "x".toList, none, noUpload⟩,
      ⟨23, 3, "danbooru".toList, none, noUpload⟩]
  assetSources := [⟨10, 21, none⟩, ⟨11, 22, none⟩, ⟨12, 23, none⟩]
  assets := [⟨10, []⟩, ⟨11, []⟩, ⟨12, []⟩]
  groups := [⟨30, 10⟩]
  members := [⟨30, 10⟩, ⟨30, 11⟩]
  users := []
  workSource_nodup := by decide
  workSource_work := by simp
  assetSource_asset := by decide
  thumbnail_asset := by
    intro work hwork id hid
    simp only [mem_cons, not_mem_nil, or_false] at hwork h
    rcases hwork with rfl | rfl | rfl <;> cases hid
    · exact ⟨⟨10, []⟩, by simp, rfl⟩
    · exact ⟨⟨11, []⟩, by simp, rfl⟩
    · rcases h with rfl | rfl | rfl
      · exact ⟨⟨10, []⟩, by simp, rfl⟩
      · exact ⟨⟨11, []⟩, by simp, rfl⟩
      · exact ⟨⟨12, []⟩, by simp, rfl⟩

/-- The works 1 and 2 are in the trash, and the file of asset 11 is in quarantine. -/
private def trashedPair : State where
  visibility := fun work => if work = 3 then .visible else .trashed
  storage := fun asset =>
    if asset = 11 then
      some { Storage.inserted with storageState := .quarantined, servedBy := some 10 }
    else if asset = 10 then some Storage.inserted
    else none
  uploadUsedBytes := fun _ => 0

private def noFiles : Files := ⟨fun _ => 0, fun _ => false⟩

/-- Work 3 has asset 11 as its thumbnail.  The purge of the works 1 and 2 succeeds and
purges asset 10, from which asset 11 is shown. -/
theorem thumbnail_representative_purged :
    ∃ s', (pairGallery 11 (by decide)).purge id id noFiles [1, 2] false none trashedPair = .ok s' ∧
      ¬KeepsOthers (pairGallery 11 (by decide)) trashedPair s' [1, 2] := by
  refine ⟨_, rfl, ?_⟩
  intro hkeeps
  have hthumbnail := hkeeps 3 (by decide) 11 (by decide) (by decide)
  exact hthumbnail.2 10 (by decide) (by decide) (by decide)

/-- With asset 12 as the thumbnail of work 3 the same purge keeps what work 3 shows. -/
theorem purge_keeps_own_thumbnail :
    ∃ s', (pairGallery 12 (by decide)).purge id id noFiles [1, 2] false none trashedPair = .ok s' ∧
      KeepsOthers (pairGallery 12 (by decide)) trashedPair s' [1, 2] := by
  obtain ⟨s', hpurge⟩ : ∃ s', (pairGallery 12 (by decide)).purge id id noFiles [1, 2] false none
      trashedPair = .ok s' := ⟨_, rfl⟩
  refine ⟨s', hpurge, (purge_keeps_iff hpurge).mpr ?_⟩
  rintro work hout asset hreaches - representative hserved - - -
  -- only asset 11 is served from another one, and only work 2 shows it
  have hasset : asset = 11 := by
    by_contra hne
    by_cases hten : asset = 10 <;>
      simp [State.ServedBy, trashedPair, Storage.inserted, hne, hten] at hserved
  have hwork : 2 = work := by
    subst hasset
    simpa [Reaches, HasAsset, HasThumbnail, pairGallery] using hreaches
  simp [← hwork] at hout

end Thumbnail

end CurationPurge
