import AutoGallery.SearchLanguage
import AutoGallery.MeiliFilter

/-!
# Filters for the search index

The compiler from the qualifiers of a query to a Meilisearch filter
(`search_filters.py`).  The filter is kept as an expression; the text the source
builds is its fully parenthesised spelling.  Qualifiers of one key and one
polarity form a group: positive values are alternatives, negative values must all
be absent.
-/

namespace SearchFilters

open PyText SourceIdentity SearchLanguage Meili

/-- The fields of index documents that filters and sorts look at. -/
inductive Field
  | id | subscriptionId | repositoryIds | creatorIds | creatorId | tags | normalizedName
  | sources | source | sourceCreatorKeys | sourceWorkKeys
  | postedTs | createdTs | updatedTs | syncedTs
  | isFavorite | isNsfw | isAiGenerated | visibility | isActive | isEnabled | authState
  | syncEnabled | neverSynced
  | hasTags | hasDescription | hasMultipleAssets | hasImage | hasAnimation | hasVideo
  | hasSubscription | hasRepository | hasDanbooru | hasLastSync | hasSourceCreatorId
  | shuffleHigh | shuffleLow | shuffleId0 | shuffleId1 | shuffleId2 | shuffleId3
deriving DecidableEq

/-- A UUID. -/
abbrev Uuid := Fin (2 ^ 128)

instance uuidNeZero : NeZero (2 ^ 128) :=
  ⟨by decide⟩

section Tables

/-- `MEILI_FIELD`. -/
def meiliField : List (SearchTarget × List (Key × Field)) :=
  [(.works,
      [(.repo, .repositoryIds), (.creator, .creatorIds), (.tag, .tags), (.source, .sources),
        (.uid, .sourceCreatorKeys), (.pid, .sourceWorkKeys), (.posted, .postedTs),
        (.created, .createdTs), (.updated, .updatedTs)]),
    (.creators,
      [(.creator, .id), (.source, .sources), (.uid, .sourceCreatorKeys), (.created, .createdTs),
        (.updated, .updatedTs)]),
    (.tags, [(.tag, .normalizedName), (.created, .createdTs), (.updated, .updatedTs)]),
    (.repositories,
      [(.repo, .id), (.creator, .creatorId), (.source, .source), (.uid, .sourceCreatorKeys),
        (.created, .createdTs), (.updated, .updatedTs), (.synced, .syncedTs)]),
    (.subscriptions,
      [(.repo, .repositoryIds), (.creator, .creatorId), (.source, .sources),
        (.uid, .sourceCreatorKeys), (.created, .createdTs), (.updated, .updatedTs),
        (.synced, .syncedTs)])]

/-- `IS_FIELD`. -/
def isField : List (SearchTarget × List (Text × Field × Scalar)) :=
  [(.works,
      [("favorite".toList, .isFavorite, .bool true), ("nsfw".toList, .isNsfw, .bool true),
        ("sfw".toList, .isNsfw, .bool false), ("ai".toList, .isAiGenerated, .bool true),
        ("human".toList, .isAiGenerated, .bool false),
        ("visible".toList, .visibility, .text "visible".toList),
        ("trashed".toList, .visibility, .text "trashed".toList)]),
    (.creators,
      [("favorite".toList, .isFavorite, .bool true), ("active".toList, .isActive, .bool true),
        ("inactive".toList, .isActive, .bool false)]),
    (.repositories,
      [("enabled".toList, .isEnabled, .bool true), ("disabled".toList, .isEnabled, .bool false),
        ("auth-ok".toList, .authState, .text "healthy".toList),
        ("auth-error".toList, .authState, .text "unhealthy".toList)]),
    (.subscriptions,
      [("active".toList, .isActive, .bool true), ("inactive".toList, .isActive, .bool false),
        ("sync-enabled".toList, .syncEnabled, .bool true),
        ("sync-disabled".toList, .syncEnabled, .bool false),
        ("never-synced".toList, .neverSynced, .bool true)])]

/-- `HAS_FIELD`. -/
def hasField : List (SearchTarget × List (Text × Field)) :=
  [(.works,
      [("tags".toList, .hasTags), ("description".toList, .hasDescription),
        ("multiple-assets".toList, .hasMultipleAssets), ("image".toList, .hasImage),
        ("animation".toList, .hasAnimation), ("video".toList, .hasVideo)]),
    (.creators,
      [("subscription".toList, .hasSubscription), ("repository".toList, .hasRepository),
        ("danbooru".toList, .hasDanbooru)]),
    (.repositories,
      [("last-sync".toList, .hasLastSync), ("source-creator-id".toList, .hasSourceCreatorId)]),
    (.subscriptions, [("last-sync".toList, .hasLastSync)])]

end Tables

/-- The runtime of the two filter compilers: the parser's, `int(d.timestamp())` of
an instant in microseconds since the epoch, PostgreSQL's `lower` and the case
folding of Meilisearch.  A time of day is less than a day.  The division by a million
is done in floating point: it is monotone and exact at whole seconds.  Both
conversions of case are the familiar one on ASCII. -/
structure FilterRuntime extends Runtime where
  timeOfDay : ∀ t d, fromisoformat t = some d → d.micros < 86400000000
  timestamp : Int → Int
  timestamp_mono : ∀ s t, s ≤ t → timestamp s ≤ timestamp t
  timestamp_second : ∀ s, timestamp (s * 1000000) = s
  sqlLower : Text → Text
  sqlLower_ascii : ∀ t, (∀ c ∈ t, c.toNat < 128) → sqlLower t = t.map Char.toLower
  foldCase : Text → Text
  foldCase_ascii : ∀ t, (∀ c ∈ t, c.toNat < 128) → foldCase t = t.map Char.toLower

/-- The exceptions of the compilers. -/
inductive FilterError
  | keyError
  | valueError
deriving DecidableEq

section Dates

/-- The comparison a date value starts with; equality if it starts with none. -/
def dateOperator (operator : Text) : Comparison :=
  if operator = "<=".toList then .le
  else if operator = ">=".toList then .ge
  else if operator = "<".toList then .lt
  else if operator = ">".toList then .gt
  else .eq

/-- The instant of a date and time in microseconds since the epoch; without an
offset it is UTC. -/
def instant (d : IsoDateTime) : Int :=
  d.day * 86400000000 + d.micros - d.offset.getD 0

/-- `datetime.combine(parsed.date(), time.max, tzinfo=parsed.tzinfo)`. -/
def endOfDay (d : IsoDateTime) : IsoDateTime :=
  { d with micros := 86399999999 }

/-- What `_date_bounds` returns. -/
structure DateBounds where
  operator : Comparison
  start : Int
  stop : Option Int
deriving DecidableEq

/-- `_date_bounds`. -/
def dateBounds (E : FilterRuntime) (raw : Text) : Except FilterError DateBounds :=
  let (operator, value) := splitOperator raw
  match E.fromisoformat (replaceZulu value) with
  | none => .error .valueError
  | some parsed =>
    .ok ⟨dateOperator operator, E.timestamp (instant parsed),
      if 'T' ∈ E.upper value then none else some (E.timestamp (instant (endOfDay parsed)))⟩

/-- `_date_expression`. -/
def dateExpression (field : Field) (bounds : DateBounds) : Expression Field :=
  match bounds.operator, bounds.stop with
  | .eq, some stop =>
    .and (.compare field .ge (.number bounds.start)) (.compare field .le (.number stop))
  | operator, _ => .compare field operator (.number bounds.start)

end Dates

section Qualifiers

/-- The property `qualifiers` of a query. -/
def queryQualifiers (query : SearchQuery) : List Qualifier :=
  qualifiersOf (query.tokens.map Token.body)

/-- Whether `_grouped_qualifiers` keeps a qualifier. -/
def groupable (target : SearchTarget) (q : Qualifier) : Bool :=
  match q.key with
  | .type | .sort => false
  | .is => target ∈ (isTargets.lookup q.value).getD []
  | .has => target ∈ (hasTargets.lookup q.value).getD []
  | _ => true

/-- A group of qualifiers that have their key and their polarity in common. -/
structure Group where
  key : Key
  negated : Bool
  members : List Qualifier

/-- `_grouped_qualifiers`, in the order in which the groups begin. -/
def groupedQualifiers (query : SearchQuery) (target : SearchTarget) : List Group :=
  let kept := (queryQualifiers query).filter (groupable target)
  (kept.map fun q => (q.key, q.negated)).eraseDups.map fun head =>
    ⟨head.1, head.2, kept.filter fun q => (q.key, q.negated) = head⟩

/-- `ResolvedSourceURL` without the parsed URL. -/
structure ResolvedSourceUrl where
  workIds : List Uuid
  creatorIds : List Uuid
  repositoryIds : List Uuid
  subscriptionIds : List Uuid

/-- `ids_for`. -/
def ResolvedSourceUrl.idsFor (url : ResolvedSourceUrl) : SearchTarget → List Uuid
  | .works => url.workIds
  | .creators => url.creatorIds
  | .repositories => url.repositoryIds
  | .subscriptions => url.subscriptionIds
  | _ => []

/-- What `_resolve_qualifiers` found for the values of a query.  It has an entry
for every `creator:`, `repo:`, `tag:` and `url:` value or raises. -/
structure Resolution where
  creator : Text → Uuid
  repo : Text → Uuid
  tag : Text → Text
  url : Text → ResolvedSourceUrl

/-- `_resolved_value`. -/
def resolvedValue (resolved : Resolution) (q : Qualifier) : Scalar :=
  match q.key with
  | .creator => .ident (resolved.creator q.value).val
  | .repo => .ident (resolved.repo q.value).val
  | .tag => .text (resolved.tag q.value)
  | _ => .text q.value

end Qualifiers

section Compiler

variable (E : FilterRuntime) (target : SearchTarget) (resolved : Resolution)

/-- The expression for one `is:` value. -/
def isExpression (q : Qualifier) : Except FilterError (Expression Field) :=
  match (isField.lookup target).bind (·.lookup q.value) with
  | none => .error .keyError
  | some (field, value) => .ok (.compare field (if q.negated then .ne else .eq) value)

/-- The expression for one `has:` value. -/
def hasExpression (q : Qualifier) : Except FilterError (Expression Field) :=
  match (hasField.lookup target).bind (·.lookup q.value) with
  | none => .error .keyError
  | some field => .ok (.compare field .eq (.bool !q.negated))

/-- `f"NOT ({expression})" if negated else expression`. -/
def negateIf (negated : Bool) (expression : Expression Field) : Expression Field :=
  if negated then .not expression else expression

/-- The expression for one date. -/
def dateQualifier (fields : List (Key × Field)) (q : Qualifier) :
    Except FilterError (Expression Field) :=
  match fields.lookup q.key with
  | none => .error .keyError
  | some field =>
    (dateBounds E q.value).map fun bounds => negateIf q.negated (dateExpression field bounds)

/-- The expression for one URL. -/
def urlExpression (identityField : Field) (q : Qualifier) : Expression Field :=
  let identities := (resolved.url q.value).idsFor target
  let expression := Expression.joinOr (identities.map fun (i : Uuid) =>
    .compare identityField .eq (.ident i.val))
  negateIf q.negated
    (expression.getD (.compare identityField .eq (.text "__source_url_no_match__".toList)))

/-- The expression for one qualifier; none for a key without a field. -/
def qualifierExpression (fields : List (Key × Field)) (identityField : Field) (q : Qualifier) :
    Except FilterError (Option (Expression Field)) :=
  match q.key with
  | .is => (isExpression target q).map some
  | .has => (hasExpression target q).map some
  | .posted | .created | .updated | .synced => (dateQualifier E fields q).map some
  | .url => .ok (some (urlExpression target resolved identityField q))
  | key =>
    .ok ((fields.lookup key).map fun field =>
      .compare field (if q.negated then .ne else .eq) (resolvedValue resolved q))

/-- A group as one part of the filter; none if it has no expressions. -/
def groupPart (fields : List (Key × Field)) (identityField : Field) (group : Group) :
    Except FilterError (Option (Expression Field)) :=
  (group.members.mapM (qualifierExpression E target resolved fields identityField)).map fun found =>
    if group.negated then Expression.joinAnd found.reduceOption
    else Expression.joinOr found.reduceOption

/-- The values `visible` and `trashed` that a query asks for. -/
def requestedVisibility (query : SearchQuery) : List Text :=
  ((queryQualifiers query).filter fun q =>
      q.key = .is ∧ q.negated = false ∧ q.value ∈ ["visible".toList, "trashed".toList]).map
    Qualifier.value

/-- The parts that every filter for works has. -/
def visibilityParts (query : SearchQuery) (forceSfw : Bool) : List (Expression Field) :=
  (if requestedVisibility query = [] then
      [.compare .visibility .eq (.text "visible".toList)] else []) ++
    if forceSfw then [.compare .isNsfw .eq (.bool false)] else []

/-- `_compile_meili_filter`. -/
def compileMeiliFilter (query : SearchQuery) (forceSfw : Bool) (identityField : Field) :
    Except FilterError (Option (Expression Field)) :=
  match meiliField.lookup target with
  | none => .error .keyError
  | some fields =>
    ((groupedQualifiers query target).mapM (groupPart E target resolved fields identityField)).map
      fun parts => Expression.joinAnd (parts.reduceOption ++
        if target = .works then visibilityParts query forceSfw else [])

end Compiler

end SearchFilters
