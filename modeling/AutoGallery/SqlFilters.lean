import AutoGallery.SqlLogic
import AutoGallery.WorkDocuments

/-!
# Filters for the database

The compiler from the qualifiers of a query to conditions on rows of `works`
(`search_sql_filters.py`).  A condition is a function of the database and the row;
joins and subqueries are evaluated over the tables.
-/

namespace SqlFilters

open PyText SourceIdentity SearchLanguage SearchFilters WorkDatabase WorkDocuments Sql Truth WorkSource

/-- A condition on a row of `works`. -/
abbrev Condition := Database → Work → Truth

section Dates

/-- `datetime.fromtimestamp(seconds, tz=timezone.utc)` in microseconds; a
`ValueError` outside of the years 1 to 9999. -/
def fromTimestamp (seconds : Int) : Except FilterError Int :=
  if -62135596800 ≤ seconds ∧ seconds < 253402300800 then .ok (seconds * 1000000)
  else .error .valueError

/-- `fromtimestamp(end) if end else None`: zero counts as no end. -/
def fromTimestampOpt : Option Int → Except FilterError (Option Int)
  | none => .ok none
  | some seconds => if seconds = 0 then .ok none else (fromTimestamp seconds).map some

/-- The comparison of `_sql_date_expression` once the bounds are known. -/
def dateCondition (operator : Meili.Comparison) (start : Int) (stop : Option Int)
    (column : Option Int) : Truth :=
  match operator, stop with
  | .eq, some stop =>
    (compare (fun x y => decide (x ≥ y)) column (some start)).and
      (compare (fun x y => decide (x ≤ y)) column (some stop))
  | .gt, _ => compare (fun x y => decide (x > y)) column (some start)
  | .ge, _ => compare (fun x y => decide (x ≥ y)) column (some start)
  | .lt, _ => compare (fun x y => decide (x < y)) column (some start)
  | .le, _ => compare (fun x y => decide (x ≤ y)) column (some start)
  | _, _ => compare (fun x y => decide (x = y)) column (some start)

/-- `_sql_date_expression`. -/
def sqlDateExpression (E : FilterRuntime) (column : Work → Option Int) (raw : Text) :
    Except FilterError Condition :=
  match dateBounds E raw with
  | .error e => .error e
  | .ok bounds =>
    match fromTimestamp bounds.start, fromTimestampOpt bounds.stop with
    | .ok start, .ok stop =>
      .ok fun _ work => dateCondition bounds.operator start stop (column work)
    | _, _ => .error .valueError

end Dates

section Expressions

/-- `_work_visibility_expressions`, the first. -/
def visibleExpression : Condition := fun db work =>
  (existsRow db.curationStates fun state =>
    (of (state.workId = work.id)).and (.of (state.visibility ≠ .visible))).not

/-- `_work_visibility_expressions`, the second. -/
def trashedExpression : Condition := fun db work =>
  existsRow db.curationStates fun state =>
    (of (state.workId = work.id)).and (.of (state.visibility = .trashed))

/-- `_work_has_tags_expression`. -/
def hasTagsExpression : Condition := fun db work =>
  (existsRow (db.workTagsOf work.id) fun _ => .true).or
    (existsRow (db.workSourceTagsOf work.id) fun _ => .true)

/-- `multi_asset_ids`. -/
def multiAssetIds (db : Database) : List Uuid :=
  (db.workSources.map workId).filter fun workId =>
    ((db.assetSourcesOf workId).map AssetSource.assetId).dedup.length > 1

/-- A kind of media as `media_exists` tells it apart: by the role of the file, its
MIME type or the end of its name. -/
structure MediaKind where
  roles : List Text
  mime : Text → Bool
  endings : List Text

def imageMedia : MediaKind :=
  ⟨[], fun mime => startswith mime "image/".toList, []⟩

def videoMedia : MediaKind :=
  ⟨["video".toList], fun mime => startswith mime "video/".toList, [".mp4".toList, ".webm".toList]⟩

def animationMedia : MediaKind :=
  ⟨["animation".toList, "archive".toList],
    fun mime => mime ∈ ["image/gif".toList, "image/apng".toList], [".gif".toList, ".zip".toList]⟩

/-- `media_condition`. -/
def MediaKind.condition (E : FilterRuntime) (kind : MediaKind) (row : AssetSource × Asset) : Truth :=
  ((of (E.sqlLower row.1.role ∈ kind.roles)).or
      (.of (kind.mime (E.sqlLower (row.2.mimeType.getD []))))).or
    (.of (kind.endings.any fun ending => endswith (E.sqlLower row.2.fileName) ending))

/-- `media_exists`. -/
def mediaExists (E : FilterRuntime) (kind : MediaKind) : Condition := fun db work =>
  existsRow (db.assetsOf work.id) (kind.condition E)

/-- `source:`. -/
def sourceCondition (value : Text) : Condition := fun db work =>
  isIn work.id ((selectWhere db.workSources fun row => .of (row.source = value)).map
    workId)

/-- `uid:` and `pid:`, on the column with the identity. -/
def identityCondition (column : WorkSource → Option Text) (source identity : Text) : Condition :=
  fun db work =>
    isIn work.id ((selectWhere db.workSources fun row =>
      (of (row.source = source)).and
        (compare (fun x y => decide (x = y)) (column row) (some identity))).map workId)

/-- `url:`. -/
def urlCondition (identities : List Uuid) : Condition := fun _ work =>
  isIn work.id identities

/-- `creator:`. -/
def creatorCondition (creator : Uuid) : Condition := fun db work =>
  isIn work.id ((selectWhere db.workSources fun row =>
    existsRow (db.creatorsOf row) fun joined =>
      compare (fun x y => decide (x = y)) joined.creatorId (some creator)).map workId)

/-- `lower(rtrim(btrim(url), '/'))`. -/
def sqlNormalizedUrl (E : FilterRuntime) (url : Text) : Text :=
  E.sqlLower (rtrim (btrim url) '/')

/-- The join of `work_sources` and `subscription_sources` for `repo:`. -/
def repositoryJoin (E : FilterRuntime) (row : WorkSource) (repo : SubscriptionSource) : Truth :=
  ((((of row.sourceCreatorId.isSome).and (.of repo.sourceCreatorId.isSome)).and
        (.of (repo.source = row.source))).and
      (compare (fun x y => decide (x = y)) repo.sourceCreatorId row.sourceCreatorId)).or
    (((of row.sourceUrl.isSome).and (.of repo.sourceUrl.isSome)).and
      (compare (fun x y => decide (x = y)) (repo.sourceUrl.map (sqlNormalizedUrl E))
        (row.sourceUrl.map (sqlNormalizedUrl E))))

/-- `repo:`. -/
def repositoryCondition (E : FilterRuntime) (repository : Uuid) : Condition := fun db work =>
  existsRow (db.sourcesOf work.id) fun row =>
    existsRow db.subscriptionSources fun repo =>
      (repositoryJoin E row repo).and (.of (repo.id = repository))

/-- `tag:`. -/
def tagCondition (value : Text) : Condition := fun db work =>
  (existsRow (db.workTagsOf work.id) fun row =>
      existsRow (db.tagNames row.tagId) fun name => .of (name = value)).or
    (existsRow (db.workSourceTagsOf work.id) fun row =>
      existsRow (db.tagNames row.tagId) fun name => .of (name = value))

/-- `is:`; no condition for other values. -/
def isCondition (value : Text) : Option Condition :=
  [("favorite".toList, fun _ work => of work.isFavorite),
    ("nsfw".toList, fun _ work => of work.isNsfw),
    ("sfw".toList, fun _ work => of !work.isNsfw),
    ("ai".toList, fun _ work => of work.isAiGenerated),
    ("human".toList, fun _ work => of !work.isAiGenerated),
    ("visible".toList, visibleExpression),
    ("trashed".toList, trashedExpression)].lookup value

/-- `has:`; no condition for other values. -/
def hasCondition (E : FilterRuntime) (value : Text) : Option Condition :=
  [("tags".toList, hasTagsExpression),
    ("description".toList, fun _ work =>
      of ((btrim (work.description.getD [])).length > 0)),
    ("multiple-assets".toList, fun db work => isIn work.id (multiAssetIds db)),
    ("image".toList, mediaExists E imageMedia),
    ("animation".toList, mediaExists E animationMedia),
    ("video".toList, mediaExists E videoMedia)].lookup value

end Expressions

section Compiler

variable (E : FilterRuntime) (resolved : Resolution)

/-- The expression for one qualifier; none for a key without one. -/
def qualifierCondition (q : Qualifier) : Except FilterError (Option Condition) :=
  match q.key with
  | .source => .ok (some (sourceCondition q.value))
  | .uid | .pid =>
    match parseSourceIdentity E.toCaseMap q.value with
    | .error _ => .error .valueError
    | .ok (source, identity) =>
      .ok (some (identityCondition
        (if q.key = .uid then sourceCreatorId
          else fun row => some row.sourceWorkId) source identity))
  | .url => .ok (some (urlCondition (resolved.url q.value).workIds))
  | .creator => .ok (some (creatorCondition (resolved.creator q.value)))
  | .repo => .ok (some (repositoryCondition E (resolved.repo q.value)))
  | .tag => .ok (some (tagCondition (resolved.tag q.value)))
  | .is => .ok (isCondition q.value)
  | .has => .ok (hasCondition E q.value)
  | .posted => (sqlDateExpression E Work.postedAt q.value).map some
  | .created => (sqlDateExpression E (fun work => some work.createdAt) q.value).map some
  | .updated => (sqlDateExpression E (fun work => some work.updatedAt) q.value).map some
  | _ => .ok none

/-- The condition of a group; none if no member has an expression. -/
def groupCondition (group : Group) : Except FilterError (Option Condition) :=
  (group.members.mapM (qualifierCondition E resolved)).map fun found =>
    let expressions := found.reduceOption
    if expressions = [] then none
    else if group.negated then
      some fun db work => all (expressions.map fun e => (e db work).not)
    else some fun db work => any (expressions.map fun e => e db work)

/-- The conditions that do not come from a group. -/
def baseConditions (query : SearchQuery) (forceSfw : Bool) : List Condition :=
  (if requestedVisibility query ≠ [] ∧ ∀ v ∈ requestedVisibility query, v = "trashed".toList then
      trashedExpression else visibleExpression) ::
    if forceSfw then [fun _ work => of !work.isNsfw] else []

/-- `_work_filter_conditions`. -/
def workFilterConditions (query : SearchQuery) (forceSfw : Bool) :
    Except FilterError (List Condition) :=
  ((groupedQualifiers query .works).mapM (groupCondition E resolved)).map fun found =>
    baseConditions query forceSfw ++ found.reduceOption

/-- Whether a row satisfies all conditions. -/
def selects (conditions : List Condition) (db : Database) (work : Work) : Bool :=
  conditions.all fun condition => (condition db work).holds

end Compiler

section Compatibility

/-- The keys that `_works_db_compatible` supports. -/
def supportedKeys : List Key :=
  [.type, .source, .creator, .repo, .tag, .is, .has, .posted, .created, .updated, .sort, .uid, .pid,
    .url]

/-- The `has:` values that `_works_db_compatible` supports. -/
def supportedHas : List Text :=
  ["tags".toList, "description".toList, "multiple-assets".toList, "image".toList,
    "animation".toList, "video".toList]

/-- `_works_db_compatible`. -/
def worksDbCompatible (query : SearchQuery) : Bool :=
  decide ((requestedVisibility query).dedup.length ≤ 1) &&
    (queryQualifiers query).all fun q =>
      decide (q.key ∈ supportedKeys) && (q.key ≠ .has || decide (q.value ∈ supportedHas))

end Compatibility

end SqlFilters
