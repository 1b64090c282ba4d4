import AutoGallery.SearchLexer
import AutoGallery.SourceIdentity

/-!
# The search language

Tables, tokens and the parser `parse_search_query`.  A token is a body (a free
text term, or a qualifier with key, value and negation) with a quoted flag and a
place in the query.  Reading one lexeme looks at its characters only
(`readLexeme`); checking a query looks at the bodies of its tokens only
(`checkQuery`); the places enter when an error is reported.
-/

namespace SearchLanguage

open PyText SourceIdentity

inductive SearchScope
  | global | works | creators | tags | repositories | subscriptions | tasks | scheduler
  | creatorPicker
deriving DecidableEq

def SearchScope.text : SearchScope → Text
  | .global => "global".toList
  | .works => "works".toList
  | .creators => "creators".toList
  | .tags => "tags".toList
  | .repositories => "repositories".toList
  | .subscriptions => "subscriptions".toList
  | .tasks => "tasks".toList
  | .scheduler => "scheduler".toList
  | .creatorPicker => "creator-picker".toList

inductive SearchTarget
  | works | creators | tags | repositories | subscriptions | tasks | scheduler
deriving DecidableEq

/-- `SCOPE_TARGETS`. -/
def scopeTargets : SearchScope → List SearchTarget
  | .global => [.works, .creators, .tags, .repositories, .subscriptions]
  | .works => [.works]
  | .creators => [.creators]
  | .tags => [.tags]
  | .repositories => [.repositories]
  | .subscriptions => [.subscriptions]
  | .tasks => [.tasks]
  | .scheduler => [.scheduler]
  | .creatorPicker => [.creators]

/-- `TYPE_TARGETS`. -/
def typeTargets : List (Text × SearchTarget) :=
  [("work".toList, .works), ("creator".toList, .creators), ("tag".toList, .tags),
    ("repo".toList, .repositories), ("subscription".toList, .subscriptions)]

/-- `TYPE_ALIASES`. -/
def typeAliases : List (Text × Text) :=
  [("works".toList, "work".toList), ("creators".toList, "creator".toList),
    ("tags".toList, "tag".toList), ("repository".toList, "repo".toList),
    ("repositories".toList, "repo".toList), ("repos".toList, "repo".toList),
    ("subscriptions".toList, "subscription".toList)]

/-- `QUALIFIER_KEYS`. -/
inductive Key
  | type | repo | creator | tag | source | is | has | status | kind | posted | created | updated
  | synced | sort | uid | pid | url
deriving DecidableEq

def Key.text : Key → Text
  | .type => "type".toList
  | .repo => "repo".toList
  | .creator => "creator".toList
  | .tag => "tag".toList
  | .source => "source".toList
  | .is => "is".toList
  | .has => "has".toList
  | .status => "status".toList
  | .kind => "kind".toList
  | .posted => "posted".toList
  | .created => "created".toList
  | .updated => "updated".toList
  | .synced => "synced".toList
  | .sort => "sort".toList
  | .uid => "uid".toList
  | .pid => "pid".toList
  | .url => "url".toList

def qualifierKeys : List Key :=
  [.type, .repo, .creator, .tag, .source, .is, .has, .status, .kind, .posted, .created, .updated,
    .synced, .sort, .uid, .pid, .url]

def Key.ofText (text : Text) : Option Key :=
  qualifierKeys.find? fun key => key.text = text

/-- `NEGATABLE_KEYS`. -/
def negatableKeys : List Key :=
  [.repo, .creator, .tag, .source, .is, .has, .uid, .pid, .url]

/-- `IS_TARGETS`. -/
def isTargets : List (Text × List SearchTarget) :=
  [("favorite".toList, [.works, .creators]), ("nsfw".toList, [.works]), ("sfw".toList, [.works]),
    ("ai".toList, [.works]), ("human".toList, [.works]), ("visible".toList, [.works]),
    ("trashed".toList, [.works]), ("active".toList, [.creators, .subscriptions]),
    ("inactive".toList, [.creators, .subscriptions]), ("enabled".toList, [.repositories]),
    ("disabled".toList, [.repositories, .scheduler]), ("auth-ok".toList, [.repositories]),
    ("auth-error".toList, [.repositories]), ("sync-enabled".toList, [.subscriptions]),
    ("sync-disabled".toList, [.subscriptions]), ("never-synced".toList, [.subscriptions]),
    ("due".toList, [.scheduler]), ("blocked".toList, [.scheduler]),
    ("waiting".toList, [.scheduler]), ("manual".toList, [.scheduler])]

/-- `HAS_TARGETS`. -/
def hasTargets : List (Text × List SearchTarget) :=
  [("tags".toList, [.works]), ("description".toList, [.works]),
    ("multiple-assets".toList, [.works]), ("image".toList, [.works]),
    ("animation".toList, [.works]), ("video".toList, [.works]),
    ("subscription".toList, [.creators]), ("repository".toList, [.creators]),
    ("danbooru".toList, [.creators]), ("last-sync".toList, [.repositories, .subscriptions]),
    ("source-creator-id".toList, [.repositories])]

/-- `SORT_TARGETS`. -/
def sortTargets : List (Text × List SearchTarget) :=
  let dated : List SearchTarget :=
    [.works, .creators, .tags, .repositories, .subscriptions, .tasks]
  let named : List SearchTarget := [.creators, .tags, .repositories, .subscriptions]
  [("relevance".toList, scopeTargets .global ++ [.tasks, .scheduler]),
    ("heat-desc".toList, [.works]), ("random".toList, [.works]), ("posted-desc".toList, [.works]),
    ("posted-asc".toList, [.works]), ("created-desc".toList, dated), ("created-asc".toList, dated),
    ("updated-desc".toList, dated), ("updated-asc".toList, dated), ("name-asc".toList, named),
    ("name-desc".toList, named), ("usage-desc".toList, [.tags]),
    ("last-sync-desc".toList, [.repositories, .subscriptions]),
    ("last-sync-asc".toList, [.repositories, .subscriptions]), ("title-asc".toList, [.works]),
    ("title-desc".toList, [.works])]

/-- `QUALIFIER_TARGETS.get(key)`. -/
def qualifierTargets : Key → Option (List SearchTarget)
  | .repo => some [.works, .repositories, .subscriptions, .tasks, .scheduler]
  | .creator => some [.works, .creators, .repositories, .subscriptions, .tasks, .scheduler]
  | .tag => some [.works, .tags]
  | .source => some [.works, .repositories, .subscriptions, .tasks, .scheduler]
  | .status => some [.tasks]
  | .kind => some [.tasks]
  | .posted => some [.works]
  | .created => some [.works, .creators, .tags, .repositories, .subscriptions, .tasks]
  | .updated => some [.works, .creators, .tags, .repositories, .subscriptions, .tasks]
  | .synced => some [.repositories, .subscriptions]
  | .uid => some [.works, .creators, .repositories, .subscriptions]
  | .pid => some [.works]
  | .url => some [.works, .creators, .repositories, .subscriptions]
  | .type | .is | .has | .sort => none

/-- `TASK_STATUSES`. -/
def taskStatuses : List Text :=
  ["enqueued".toList, "pending".toList, "running".toList, "downloading".toList,
    "downloaded".toList, "importing".toList, "complete".toList, "failed".toList, "stale".toList,
    "paused".toList, "cancelled".toList]

/-- `TASK_KINDS`. -/
def taskKinds : List Text :=
  ["download".toList, "import".toList, "admin".toList]

/-- `CONFLICTING_IS_VALUES`, each pair sorted. -/
def conflictingIsValues : List (Text × Text) :=
  [("nsfw".toList, "sfw".toList), ("ai".toList, "human".toList),
    ("trashed".toList, "visible".toList), ("active".toList, "inactive".toList),
    ("disabled".toList, "enabled".toList), ("auth-error".toList, "auth-ok".toList),
    ("sync-disabled".toList, "sync-enabled".toList)]

/-- What `datetime.fromisoformat` returns: the day counted from 1970-01-01, the
microseconds since its midnight and the offset from UTC in microseconds, if the
text has one. -/
structure IsoDateTime where
  day : Int
  micros : Nat
  offset : Option Int
deriving DecidableEq

/-- The runtime of the parser: case conversion, URLs, the decimal digits of
regular expressions and `datetime.fromisoformat`. -/
structure Runtime extends UrlRuntime where
  isdecimal : Char → Bool
  fromisoformat : Text → Option IsoDateTime

structure Qualifier where
  key : Key
  value : Text
  negated : Bool
deriving DecidableEq

/-- The part of a token that has a meaning. -/
inductive Body
  | term (value : Text)
  | qualifier (q : Qualifier)
deriving DecidableEq

/-- `SearchTerm` and `SearchQualifier`. -/
structure Token where
  body : Body
  quoted : Bool
  start : Nat
  stop : Nat
deriving DecidableEq

structure SearchQuery where
  raw : Text
  canonical : Text
  scope : SearchScope
  tokens : List Token
  targets : List SearchTarget
deriving DecidableEq

/-- What stops the reading of a lexeme: a fault to be reported there, or a
`ValueError` of the URL library. -/
inductive QueryFault
  | fault (f : Fault)
  | valueError (message : Text)
deriving DecidableEq

/-- `SearchQueryError`, or a `ValueError` of the URL library. -/
inductive QueryError
  | diagnostic (d : SearchDiagnostic)
  | valueError (message : Text)
deriving DecidableEq

section Values

/-- `KEY_RE`.  A key is cut from a lexeme outside quotes and has no line break, so
that `$` is the end of the text. -/
def keyRe : Text → Bool
  | [] => false
  | first :: rest =>
    isLetter first && rest.all fun c => isLetter c || ('0' ≤ c && c ≤ '9') || c = '-'
where
  isLetter (c : Char) : Bool :=
    ('A' ≤ c && c ≤ 'Z') || ('a' ≤ c && c ≤ 'z')

/-- The comparison operators of `DATE_RE`, in its order. -/
def dateOperators : List Text :=
  ["<=".toList, ">=".toList, "<".toList, ">".toList, "=".toList]

/-- The operator at the start of a date value, and the rest. -/
def splitOperator (value : Text) : Text × Text :=
  match dateOperators.find? (startswith value) with
  | none => ([], value)
  | some operator => (operator, value.drop operator.length)

/-- The group `value` of `DATE_RE.match`; values are stripped before they are
matched, so that `$` is the end of the text. -/
def dateRe (R : Runtime) (value : Text) : Option Text :=
  let date := (splitOperator value).2
  match date with
  | y₁ :: y₂ :: y₃ :: y₄ :: '-' :: m₁ :: m₂ :: '-' :: d₁ :: d₂ :: rest =>
    if [y₁, y₂, y₃, y₄, m₁, m₂, d₁, d₂].all R.isdecimal && timeRe rest then some date else none
  | _ => none
where
  timeRe : Text → Bool
    | [] => true
    | t :: time => (t = 'T' || t = 't') && !time.isEmpty && !time.any isspace

/-- `date_value.replace("Z", "+00:00").replace("z", "+00:00")`. -/
def replaceZulu (date : Text) : Text :=
  replaceChar (replaceChar date 'Z' "+00:00".toList) 'z' "+00:00".toList

/-- `_parse_date`. -/
def parseDate (R : Runtime) (value : Text) : Except QueryFault Unit :=
  match dateRe R value with
  | none =>
    .error (.fault ⟨.invalidDate,
      "Date qualifiers use an ISO date with an optional comparison operator.".toList,
      [">=2026-01-01".toList, "<2026-08-01".toList]⟩)
  | some date =>
    match R.fromisoformat (replaceZulu date) with
    | none =>
      .error (.fault ⟨.invalidDate, "Search date is not a valid ISO date.".toList, []⟩)
    | some _ => .ok ()

/-- The checks against a fixed set of values. -/
def knownValue (R : Runtime) (complaint : Text) (values : List Text) (value : Text) :
    Except QueryFault Text :=
  let lowered := R.lower (strip value)
  if lowered ∈ values then .ok lowered
  else .error (.fault ⟨.invalidValue, complaint ++ value, values⟩)

/-- `parse_source_url` for the value of a `url:` qualifier. -/
def urlValue (R : Runtime) (value : Text) : Except QueryFault Text :=
  match parseSourceUrl R.toUrlRuntime value with
  | .error e => .error (.valueError e)
  | .ok none =>
    .error (.fault ⟨.unsupportedUrl, "URL is not a supported creator or work URL.".toList, []⟩)
  | .ok (some url) => .ok url.normalizedUrl

/-- `_validate_value`: the value the token gets. -/
def validateValue (R : Runtime) (key : Key) (value : Text) : Except QueryFault Text :=
  match key with
  | .type =>
    let lowered := R.lower (strip value)
    let named := (typeAliases.lookup lowered).getD lowered
    if named ∈ typeTargets.map Prod.fst then .ok named
    else
      .error (.fault ⟨.invalidValue, "Unknown search type: ".toList ++ value,
        typeTargets.map Prod.fst⟩)
  | .is => knownValue R "Unknown is: value: ".toList (isTargets.map Prod.fst) value
  | .has => knownValue R "Unknown has: value: ".toList (hasTargets.map Prod.fst) value
  | .sort => knownValue R "Unknown sort order: ".toList (sortTargets.map Prod.fst) value
  | .status => knownValue R "Unknown task status: ".toList taskStatuses value
  | .kind => knownValue R "Unknown task kind: ".toList taskKinds value
  | .posted | .created | .updated | .synced =>
    (parseDate R (strip value)).map fun _ => strip value
  | .source =>
    let lowered := R.lower (strip value)
    .ok (if lowered = "twitter".toList then "x".toList else lowered)
  | .uid | .pid =>
    match parseSourceIdentity R.toCaseMap (strip value) with
    | .error message =>
      .error (.fault ⟨.invalidIdentity, message,
        ["bilibili/123".toList, "danbooru/123".toList, "iwara/123".toList,
          "lofter/123".toList, "pinterest/123".toList]⟩)
    | .ok (source, identity) => .ok (source ++ '/' :: identity)
  | .url => urlValue R (strip value)
  | .repo | .creator | .tag => .ok (strip value)

end Values

section Lexemes

/-- The test with which a lexeme is recognised as a qualifier: negation, key and
the text after the colon. -/
def splitQualifier (R : Runtime) (raw : Text) : Option (Bool × Text × Text) :=
  let negated := startswith raw ['-']
  let keyStart := if negated then 1 else 0
  match findColon raw with
  | none => none
  | some colonAt =>
    if colonAt > keyStart then
      let key := R.lower ((raw.take colonAt).drop keyStart)
      if keyRe key then some (negated, key, raw.drop (colonAt + 1)) else none
    else none

/-- `lexeme.raw[1:] if lexeme.raw.startswith("-") else lexeme.raw`. -/
def dropDash (raw : Text) : Text :=
  if startswith raw ['-'] then raw.tail else raw

/-- A lexeme that is a qualifier. -/
def readQualifier (R : Runtime) (negated : Bool) (key rest : Text) :
    Except QueryFault (Body × Bool) :=
  match Key.ofText key with
  | none =>
    .error (.fault ⟨.unknownQualifier, "Unknown search qualifier: ".toList ++ key,
      qualifierKeys.map Key.text⟩)
  | some k =>
    if negated ∧ k ∉ negatableKeys then
      .error (.fault ⟨.invalidNegation, key ++ ": cannot be negated.".toList, []⟩)
    else
      match decodeValue rest with
      | .error f => .error (.fault f)
      | .ok (value, quoted) =>
        (validateValue R k value).map fun v => (.qualifier ⟨k, v, negated⟩, quoted)

/-- A lexeme that is free text. -/
def readTerm (R : Runtime) (raw : Text) : Except QueryFault (Body × Bool) :=
  match decodeValue raw with
  | .error f => .error (.fault f)
  | .ok (value, quoted) =>
    if quoted = false ∧ R.upper value = "OR".toList then
      .error (.fault ⟨.unsupportedOperator,
        "Explicit OR is not supported; repeat one qualifier for OR semantics.".toList, []⟩)
    else if quoted = false ∧ ('(' ∈ value ∨ ')' ∈ value) then
      .error (.fault ⟨.unsupportedGrouping,
        "Parenthesized search expressions are not supported.".toList, []⟩)
    else .ok (.term value, quoted)

/-- The body of the loop of `parse_search_query`: what one lexeme means, and
whether its value was quoted. -/
def readLexeme (R : Runtime) (raw : Text) : Except QueryFault (Body × Bool) :=
  match parseSourceUrl R.toUrlRuntime (dropDash raw) with
  | .error e => .error (.valueError e)
  | .ok parsedUrl =>
    if isHttp R.toCaseMap (dropDash raw) then
      match parsedUrl with
      | none =>
        .error (.fault ⟨.unsupportedUrl,
          "URL is not a supported creator or work URL.".toList, []⟩)
      | some url =>
        .ok (.qualifier ⟨.url, url.normalizedUrl, startswith raw ['-']⟩, true)
    else
      match splitQualifier R raw with
      | some (negated, key, rest) => readQualifier R negated key rest
      | none => readTerm R raw

/-- `_error` at a lexeme. -/
def QueryFault.at (lexeme : Lexeme) : QueryFault → QueryError
  | .fault f => .diagnostic (f.at lexeme)
  | .valueError message => .valueError message

def parseLexemes (R : Runtime) : List Lexeme → Except QueryError (List Token)
  | [] => .ok []
  | lexeme :: rest =>
    match readLexeme R lexeme.raw with
    | .error f => .error (f.at lexeme)
    | .ok (body, quoted) =>
      (parseLexemes R rest).map (⟨body, quoted, lexeme.start, lexeme.stop⟩ :: ·)

end Lexemes

section Printing

/-- `f"{prefix}{token.key}:"`. -/
def qualifierStart (q : Qualifier) : Text :=
  (if q.negated then ['-'] else []) ++ q.key.text ++ [':']

/-- The value of a qualifier as `_canonical_token` prints it. -/
def printedValue (q : Qualifier) : Text :=
  let value := canonicalValue q.value
  if q.key = .url ∧ ¬startswith value ['"'] then '"' :: q.value ++ ['"'] else value

/-- `_canonical_token`. -/
def canonicalToken (body : Body) (quoted : Bool) : Text :=
  match body with
  | .term value =>
    if quoted = true ∨ value.any isspace = true then canonicalValue value else value
  | .qualifier q => qualifierStart q ++ printedValue q

/-- `" ".join(_canonical_token(token) for token in token_tuple)`. -/
def canonicalText (tokens : List Token) : Text :=
  [' '].intercalate (tokens.map fun t => canonicalToken t.body t.quoted)

end Printing

section Checking

/-- Why a query is refused: the qualifier to blame is given by its position among
the qualifiers. -/
structure Refusal where
  code : DiagnosticCode
  message : Text
  at? : Option Nat
  suggestions : List Text
deriving DecidableEq

inductive CheckError
  | refusal (r : Refusal)
  | valueError (message : Text)
deriving DecidableEq

def Body.qualifier? : Body → Option Qualifier
  | .term _ => none
  | .qualifier q => some q

def qualifiersOf (bodies : List Body) : List Qualifier :=
  bodies.filterMap Body.qualifier?

/-- `_targets_for_token`.  The values of a validated token are in the tables. -/
def targetsForToken (R : Runtime) (q : Qualifier) : Except Text (Option (List SearchTarget)) :=
  match q.key with
  | .type => .ok (some ((typeTargets.lookup q.value).toList))
  | .is => .ok (some ((isTargets.lookup q.value).getD []))
  | .has => .ok (some ((hasTargets.lookup q.value).getD []))
  | .sort => .ok (some ((sortTargets.lookup q.value).getD []))
  | .url =>
    match parseSourceUrl R.toUrlRuntime q.value with
    | .error e => .error e
    | .ok none => .ok (qualifierTargets .url)
    | .ok (some url) =>
      if url.kind = .work then .ok (some [.works]) else .ok (qualifierTargets .url)
  | key => .ok (qualifierTargets key)

/-- The loop of `_validate_query` over the qualifiers. -/
def narrow (R : Runtime) (narrowing : Bool) :
    Nat → List Qualifier → List SearchTarget → Except CheckError (List SearchTarget)
  | _, [], allowed => .ok allowed
  | index, q :: rest, allowed =>
    if q.key = .type then narrow R narrowing (index + 1) rest allowed
    else
      match targetsForToken R q with
      | .error e => .error (.valueError e)
      | .ok none => narrow R narrowing (index + 1) rest allowed
      | .ok (some targets) =>
        let compatible := allowed.filter (· ∈ targets)
        if compatible = [] then
          .error (.refusal ⟨.qualifierNotAvailable,
            q.key.text ++ ": is not available for the selected search type.".toList,
            some index, []⟩)
        else narrow R narrowing (index + 1) rest (if narrowing then compatible else allowed)

/-- The restriction by `type:` qualifiers. -/
def restrictTypes (scope : SearchScope) (qualifiers : List Qualifier) :
    Except CheckError (List SearchTarget) :=
  let allowed := scopeTargets scope
  let typeTokens := qualifiers.filter fun q => q.key = .type
  if typeTokens = [] then .ok allowed
  else
    let requested := typeTokens.filterMap fun q => typeTargets.lookup q.value
    if requested.any fun target => target ∉ allowed then
      .error (.refusal ⟨.typeNotAvailable,
        "Requested type is not available in the ".toList ++ scope.text ++ " search scope.".toList,
        qualifiers.findIdx? fun q => q.key = .type,
        (typeTargets.filter fun entry => entry.2 ∈ allowed).map fun entry =>
          "type:".toList ++ entry.1⟩)
    else .ok (allowed.filter (· ∈ requested))

/-- The first pair of `CONFLICTING_IS_VALUES` of which both values are asked for. -/
def isConflict (qualifiers : List Qualifier) : Option Refusal :=
  let positiveIs := (qualifiers.filter fun q => q.key = .is ∧ q.negated = false).map Qualifier.value
  (conflictingIsValues.find? fun pair => pair.1 ∈ positiveIs ∧ pair.2 ∈ positiveIs).map fun pair =>
    ⟨.conflictingValues,
      "Mutually exclusive search states cannot be combined: ".toList ++ pair.1 ++ ", ".toList ++
        pair.2 ++ ".".toList,
      qualifiers.findIdx? fun q => q.key = .is ∧ (q.value = pair.1 ∨ q.value = pair.2), []⟩

/-- A qualifier that is both included and excluded.  The source reports any one
of them; here it is the first. -/
def negationConflict (qualifiers : List Qualifier) : Option Refusal :=
  let both (q : Qualifier) : Bool :=
    qualifiers.any (fun r => r.key = q.key ∧ r.value = q.value ∧ r.negated = false) &&
      qualifiers.any fun r => r.key = q.key ∧ r.value = q.value ∧ r.negated = true
  (qualifiers.find? both).map fun q =>
    ⟨.conflictingValues,
      "The query both includes and excludes ".toList ++ q.key.text ++ ":".toList ++ q.value ++
        ".".toList,
      qualifiers.findIdx? both, []⟩

/-- The checks on `sort:` qualifiers. -/
def sortConflict (bodies : List Body) : Option Refusal :=
  let qualifiers := qualifiersOf bodies
  let places := (qualifiers.zipIdx.filter fun q => q.1.key = .sort)
  match places with
  | [] => none
  | [(only, index)] =>
    if only.value = "relevance".toList ∧
        bodies.all fun body => body.qualifier?.isSome then
      some ⟨.relevanceRequiresText, "Relevance sorting requires a text search term.".toList,
        some index, []⟩
    else none
  | _ :: (_, index) :: _ =>
    some ⟨.duplicateSort, "A search query can use only one sort: qualifier.".toList,
      some index, []⟩

/-- `_validate_query` as far as it depends on the bodies of the tokens. -/
def checkQuery (R : Runtime) (bodies : List Body) (scope : SearchScope) :
    Except CheckError (List SearchTarget) :=
  let qualifiers := qualifiersOf bodies
  match restrictTypes scope qualifiers with
  | .error e => .error e
  | .ok restricted =>
    let narrowing := decide (scope = .global) && !qualifiers.any fun q => q.key = .type
    match narrow R narrowing 0 qualifiers restricted with
    | .error e => .error e
    | .ok allowed =>
      match ((isConflict qualifiers).or (negationConflict qualifiers)).or
          (sortConflict bodies) with
      | some r => .error (.refusal r)
      | none =>
        if allowed = [] then
          .error (.refusal ⟨.noCompatibleType,
            "No result type supports this combination of qualifiers.".toList,
            if qualifiers = [] then none else some 0, []⟩)
        else .ok ((scopeTargets scope).filter (· ∈ allowed))

/-- The diagnostic of a refusal: place and canonical text of the qualifier to
blame, or of an empty term when there is none. -/
def Refusal.diagnostic (r : Refusal) (tokens : List Token) : SearchDiagnostic :=
  let qualifiers := tokens.filter fun t => t.body.qualifier?.isSome
  match r.at?.bind (qualifiers[·]?) with
  | some t => ⟨r.code, r.message, t.start, t.stop, canonicalToken t.body t.quoted, r.suggestions⟩
  | none => ⟨r.code, r.message, 0, 0, [], r.suggestions⟩

/-- `_validate_query`. -/
def validateQuery (R : Runtime) (tokens : List Token) (scope : SearchScope) :
    Except QueryError (List SearchTarget) :=
  match checkQuery R (tokens.map Token.body) scope with
  | .ok targets => .ok targets
  | .error (.valueError message) => .error (.valueError message)
  | .error (.refusal r) => .error (.diagnostic (r.diagnostic tokens))

end Checking

/-- `parse_search_query`. -/
def parseSearchQuery (R : Runtime) (query : Text) (scope : SearchScope) :
    Except QueryError SearchQuery :=
  match lex query with
  | .error d => .error (.diagnostic d)
  | .ok lexemes =>
    match parseLexemes R lexemes with
    | .error e => .error e
    | .ok tokens =>
      match validateQuery R tokens scope with
      | .error e => .error e
      | .ok targets => .ok ⟨query, canonicalText tokens, scope, tokens, targets⟩

end SearchLanguage
