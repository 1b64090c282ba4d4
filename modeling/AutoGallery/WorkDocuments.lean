import AutoGallery.WorkDatabase

/-!
# Documents of works

The document that `_build_work_documents` makes of a work, as far as filters and
sorts look at it.  The source sorts its sets into lists; a filter only asks what
they contain.
-/

namespace WorkDocuments

open PyText SearchFilters ShuffleRing WorkDatabase Meili

/-- The fields of a work's document that filters and sorts look at. -/
structure WorkDocument where
  id : Uuid
  repositoryIds : List Uuid
  creatorIds : List Uuid
  tags : List Text
  sources : List Text
  sourceCreatorKeys : List Text
  sourceWorkKeys : List Text
  isNsfw : Bool
  isAiGenerated : Bool
  isFavorite : Bool
  shuffleParts : List Nat
  visibility : Visibility
  hasTags : Bool
  hasDescription : Bool
  hasMultipleAssets : Bool
  hasImage : Bool
  hasAnimation : Bool
  hasVideo : Bool
  postedTs : Option Int
  createdTs : Int
  updatedTs : Int
deriving DecidableEq

/-- An optional column that is neither `NULL` nor empty. -/
def truthy (column : Option Text) : Option Text :=
  column.filter fun t => t ≠ []

theorem truthy_eq_some {column : Option Text} {t : Text} :
    truthy column = some t ↔ column = some t ∧ t ≠ [] := by
  cases column with
  | none => simp [truthy]
  | some s =>
    simp only [truthy, Option.filter_some, Option.some.injEq]
    by_cases hs : s = []
    · rw [if_neg (by simpa using hs)]
      constructor
      · intro h
        cases h
      · intro h
        exact absurd (h.1 ▸ hs) h.2
    · rw [if_pos (by simpa using hs)]
      constructor
      · intro h
        exact ⟨Option.some.inj h, Option.some.inj h ▸ hs⟩
      · intro h
        rw [h.1]

/-- `f"{source}/{identity}"`. -/
def sourceKey (source identity : Text) : Text :=
  source ++ '/' :: identity

section Media

/-- The kinds of media that are told apart by what their files are called. -/
structure FileKind where
  mime : Text → Bool
  suffixes : List Text

/-- `has_video`. -/
def videoFiles : FileKind :=
  ⟨fun mime => startswith mime "video/".toList, [".mp4".toList, ".webm".toList]⟩

/-- `has_animation`. -/
def animationFiles : FileKind :=
  ⟨fun mime => mime ∈ ["image/gif".toList, "image/apng".toList], [".gif".toList, ".zip".toList]⟩

/-- `has_image`. -/
def imageFiles : FileKind :=
  ⟨fun mime => startswith mime "image/".toList, []⟩

/-- Whether the document builder takes an asset for one of a kind. -/
def FileKind.matches (M : CaseMap) (kind : FileKind) (asset : Asset) : Bool :=
  ((truthy asset.mimeType).any fun mime => kind.mime (M.lower mime)) ||
    decide (suffix (M.lower asset.fileName) ∈ kind.suffixes)

end Media

section Repositories

/-- `_normalize_url`. -/
def normalizeUrl (M : CaseMap) (url : Text) : Text :=
  M.lower (rstrip (strip url) '/')

/-- `repository_by_identity.get((source, source_creator_id), [])`. -/
def repositoryByIdentity (db : Database) (source creatorId : Text) : List Uuid :=
  (db.subscriptionSources.filter fun repo =>
    repo.source = source ∧ truthy repo.sourceCreatorId = some creatorId).map SubscriptionSource.id

/-- `repository_by_url.get(url, [])`. -/
def repositoryByUrl (M : CaseMap) (db : Database) (url : Text) : List Uuid :=
  (db.subscriptionSources.filter fun repo =>
    (truthy repo.sourceUrl).map (normalizeUrl M) = some url).map SubscriptionSource.id

/-- The repositories a row of `work_sources` belongs to. -/
def repositoriesOf (M : CaseMap) (db : Database) (row : WorkSource) : List Uuid :=
  (truthy row.sourceCreatorId).elim [] (repositoryByIdentity db row.source) ++
    (truthy row.sourceUrl).elim [] fun url => repositoryByUrl M db (normalizeUrl M url)

end Repositories

/-- One document of `_build_work_documents`. -/
def buildWorkDocument (E : FilterRuntime) (db : Database) (work : Work) : WorkDocument :=
  let rows := db.sourcesOf work.id
  let assets := (db.assetsOf work.id).map Prod.snd
  let tags := db.tagNamesOf work.id
  { id := work.id
    repositoryIds := rows.flatMap (repositoriesOf E.toCaseMap db)
    creatorIds := rows.flatMap fun row => (db.creatorsOf row).filterMap SourceCreator.creatorId
    tags := tags
    sources := rows.map WorkSource.source
    sourceCreatorKeys := rows.filterMap fun row =>
      (truthy row.sourceCreatorId).map (sourceKey row.source)
    sourceWorkKeys := rows.map fun row => sourceKey row.source row.sourceWorkId
    isNsfw := work.isNsfw
    isAiGenerated := work.isAiGenerated
    isFavorite := work.isFavorite
    shuffleParts := meiliShuffleParts work.shuffleKey work.id
    visibility := db.visibilityOf work.id
    hasTags := tags ≠ []
    hasDescription := strip (work.description.getD []) ≠ []
    hasMultipleAssets := (assets.map Asset.id).dedup.length > 1
    hasImage := assets.any (imageFiles.matches E.toCaseMap)
    hasAnimation := assets.any (animationFiles.matches E.toCaseMap)
    hasVideo := assets.any (videoFiles.matches E.toCaseMap)
    postedTs := work.postedAt.map E.timestamp
    createdTs := E.timestamp work.createdAt
    updatedTs := E.timestamp work.updatedAt }

/-- The six shuffle fields of a document. -/
def WorkDocument.shufflePart (document : WorkDocument) (index : Nat) : Value :=
  document.shuffleParts[index]?.elim .null fun n => .one (.number n)

/-- A document as the index sees it; the fields of other kinds of documents are
absent. -/
def WorkDocument.field (document : WorkDocument) : Field → Value
  | .id => .one (.ident document.id.val)
  | .repositoryIds => .many (document.repositoryIds.map fun (i : Uuid) => .ident i.val)
  | .creatorIds => .many (document.creatorIds.map fun (i : Uuid) => .ident i.val)
  | .tags => .many (document.tags.map .text)
  | .sources => .many (document.sources.map .text)
  | .sourceCreatorKeys => .many (document.sourceCreatorKeys.map .text)
  | .sourceWorkKeys => .many (document.sourceWorkKeys.map .text)
  | .isNsfw => .one (.bool document.isNsfw)
  | .isAiGenerated => .one (.bool document.isAiGenerated)
  | .isFavorite => .one (.bool document.isFavorite)
  | .visibility => .one (.text document.visibility.text)
  | .hasTags => .one (.bool document.hasTags)
  | .hasDescription => .one (.bool document.hasDescription)
  | .hasMultipleAssets => .one (.bool document.hasMultipleAssets)
  | .hasImage => .one (.bool document.hasImage)
  | .hasAnimation => .one (.bool document.hasAnimation)
  | .hasVideo => .one (.bool document.hasVideo)
  | .postedTs => document.postedTs.elim .null fun n => .one (.number n)
  | .createdTs => .one (.number document.createdTs)
  | .updatedTs => .one (.number document.updatedTs)
  | .shuffleHigh => document.shufflePart 0
  | .shuffleLow => document.shufflePart 1
  | .shuffleId0 => document.shufflePart 2
  | .shuffleId1 => document.shufflePart 3
  | .shuffleId2 => document.shufflePart 4
  | .shuffleId3 => document.shufflePart 5
  | _ => .null

end WorkDocuments
