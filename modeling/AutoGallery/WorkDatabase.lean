import AutoGallery.ShuffleRing

/-!
# Works in the database

The tables that the two filter compilers and the document builder read, with the
columns they read.  Foreign keys and uniqueness are part of the type, as they are
of the schema.
-/

namespace WorkDatabase

open PyText SearchFilters ShuffleRing List

/-- The values of `work_curation_states.visibility`. -/
inductive Visibility
  | visible | trashed | purged
deriving DecidableEq

def Visibility.text : Visibility → Text
  | .visible => "visible".toList
  | .trashed => "trashed".toList
  | .purged => "purged".toList

/-- A row of `works`.  Instants are microseconds since the epoch; the shuffle key is
computed by the database and masked to 63 bits. -/
structure Work where
  id : Uuid
  title : Option Text
  description : Option Text
  postedAt : Option Int
  createdAt : Int
  updatedAt : Int
  isNsfw : Bool
  isAiGenerated : Bool
  isFavorite : Bool
  heatScore : Option ℚ
  shuffleKey : ShuffleKey
deriving DecidableEq

structure WorkSource where
  id : Uuid
  workId : Uuid
  source : Text
  sourceWorkId : Text
  sourceCreatorId : Option Text
  sourceUrl : Option Text
deriving DecidableEq

structure SourceCreator where
  source : Text
  sourceCreatorId : Text
  creatorId : Option Uuid
deriving DecidableEq

structure SubscriptionSource where
  id : Uuid
  source : Text
  sourceCreatorId : Option Text
  sourceUrl : Option Text
deriving DecidableEq

structure Tag where
  id : Uuid
  normalizedName : Text
deriving DecidableEq

structure WorkTag where
  workId : Uuid
  tagId : Uuid
deriving DecidableEq

structure WorkSourceTag where
  workSourceId : Uuid
  tagId : Uuid
deriving DecidableEq

structure Asset where
  id : Uuid
  mimeType : Option Text
  fileName : Text
deriving DecidableEq

structure AssetSource where
  assetId : Uuid
  workSourceId : Option Uuid
  role : Text
deriving DecidableEq

structure WorkCurationState where
  workId : Uuid
  visibility : Visibility
deriving DecidableEq

structure Database where
  works : List Work
  workSources : List WorkSource
  sourceCreators : List SourceCreator
  subscriptionSources : List SubscriptionSource
  tags : List Tag
  workTags : List WorkTag
  workSourceTags : List WorkSourceTag
  assets : List Asset
  assetSources : List AssetSource
  curationStates : List WorkCurationState
  curation_unique : (curationStates.map WorkCurationState.workId).Nodup
  workTag_tag : ∀ row ∈ workTags, row.tagId ∈ tags.map Tag.id
  workSourceTag_tag : ∀ row ∈ workSourceTags, row.tagId ∈ tags.map Tag.id
  assetSource_asset : ∀ row ∈ assetSources, row.assetId ∈ assets.map Asset.id

namespace Database

variable (db : Database)

section

variable (workId : Uuid)

/-- The rows of `work_sources` of a work. -/
def sourcesOf : List WorkSource :=
  db.workSources.filter fun row => row.workId = workId

/-- The rows joined with a work source on source and creator. -/
def creatorsOf (row : WorkSource) : List SourceCreator :=
  db.sourceCreators.filter fun creator =>
    creator.source = row.source ∧ some creator.sourceCreatorId = row.sourceCreatorId

/-- The rows of `work_tags` of a work. -/
def workTagsOf : List WorkTag :=
  db.workTags.filter fun row => row.workId = workId

/-- The rows of `work_source_tags` that belong to the sources of a work. -/
def workSourceTagsOf : List WorkSourceTag :=
  (db.sourcesOf workId).flatMap fun source =>
    db.workSourceTags.filter fun row => row.workSourceId = source.id

/-- The names joined with a tag identifier. -/
def tagNames (tagId : Uuid) : List Text :=
  (db.tags.filter fun tag => tag.id = tagId).map Tag.normalizedName

/-- The names of the tags of a work and of its sources. -/
def tagNamesOf : List Text :=
  (db.workTagsOf workId).flatMap (fun row => db.tagNames row.tagId) ++
    (db.workSourceTagsOf workId).flatMap fun row => db.tagNames row.tagId

/-- The rows of `asset_sources` that belong to the sources of a work. -/
def assetSourcesOf : List AssetSource :=
  (db.sourcesOf workId).flatMap fun source =>
    db.assetSources.filter fun row => row.workSourceId = some source.id

/-- The same rows, joined with `assets`. -/
def assetsOf : List (AssetSource × Asset) :=
  (db.assetSourcesOf workId).flatMap fun row =>
    (db.assets.filter fun asset => asset.id = row.assetId).map fun asset => (row, asset)

theorem tagNames_ne_nil {tagId : Uuid} (h : tagId ∈ db.tags.map Tag.id) : db.tagNames tagId ≠ [] := by
  obtain ⟨tag, hmem, hid⟩ := mem_map.mp h
  apply ne_nil_of_mem (a := tag.normalizedName)
  exact mem_map_of_mem (mem_filter.mpr ⟨hmem, decide_eq_true hid⟩)

/-- The join with `assets` loses no asset. -/
theorem mem_assetIds_iff (workId assetId : Uuid) :
    assetId ∈ (db.assetsOf workId).map (fun row => row.2.id) ↔
      assetId ∈ (db.assetSourcesOf workId).map AssetSource.assetId := by
  simp only [assetsOf, mem_map, mem_flatMap, mem_filter, decide_eq_true_eq]
  constructor
  · intro h
    obtain ⟨pair, ⟨row, hrow, asset, ⟨_, hid⟩, rfl⟩, rfl⟩ := h
    exact ⟨row, hrow, hid.symm⟩
  intro h
  obtain ⟨row, hrow, rfl⟩ := h
  have hstored : row ∈ db.assetSources := by
    obtain ⟨source, _, hmem⟩ := mem_flatMap.mp hrow
    exact (mem_filter.mp hmem).1
  obtain ⟨asset, hasset, hid⟩ := mem_map.mp (db.assetSource_asset row hstored)
  exact ⟨(row, asset), ⟨row, hrow, asset, ⟨hasset, hid⟩, rfl⟩, hid⟩

/-- The visibility of a work: that of its curation state, visible without one. -/
def visibilityOf : Visibility :=
  ((db.curationStates.find? fun state => state.workId = workId).map
    WorkCurationState.visibility).getD .visible

end

/-- The curation states of a work say what its visibility is. -/
theorem visibility_of_state {state : WorkCurationState} (h : state ∈ db.curationStates) :
    db.visibilityOf state.workId = state.visibility := by
  unfold visibilityOf
  rw [find?_of_nodup db.curation_unique h]
  rfl

/-- A work without a curation state is visible. -/
theorem exists_state_of_visibility_ne {workId : Uuid} (h : db.visibilityOf workId ≠ .visible) :
    ∃ state ∈ db.curationStates, state.workId = workId := by
  unfold visibilityOf at h
  cases hfind : db.curationStates.find? (fun state => state.workId = workId) with
  | none =>
    rw [hfind] at h
    exact absurd rfl h
  | some state =>
    exact ⟨state, mem_of_find?_eq_some hfind, by simpa using find?_some hfind⟩

end Database

end WorkDatabase
