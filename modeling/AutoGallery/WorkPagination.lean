import AutoGallery.SqlOrder
import AutoGallery.SqlLogic
import AutoGallery.WorkDatabase

/-!
# Pages of works from the database

How `_search_works_db` cuts the works that match a query into pages: the sort order,
the cursors, the condition that a cursor stands for, and the two phases of a random
order.  The matching works are given as a list without an order; the base64 and JSON
forms of a cursor are left out, and so is what the response says of each work.
-/

namespace WorkPagination

open PyText SearchLanguage SearchFilters ShuffleRing WorkDatabase Keyset Sql

section SortOrder

/-- A title, in the collation of the database. -/
structure Title where
  text : Text
deriving DecidableEq

/-- The value of a sort column. -/
inductive SortValue
  | instant (microseconds : Int)
  | score (value : ℚ)
  | title (value : Title)
deriving DecidableEq

/-- The kinds of values side by side; a column holds only one kind. -/
def SortValue.kinds : SortValue → Int ⊕ₗ ℚ ⊕ₗ Title
  | .instant t => toLex (.inl t)
  | .score x => toLex (.inr (toLex (.inl x)))
  | .title t => toLex (.inr (toLex (.inr t)))

theorem SortValue.kinds_injective : Function.Injective SortValue.kinds := by
  intro x y h
  cases x <;> cases y <;> simp_all [SortValue.kinds]

instance sortValueOrder [LinearOrder Title] : LinearOrder SortValue :=
  LinearOrder.lift' SortValue.kinds SortValue.kinds_injective

/-- The sort columns of `works`. -/
inductive Column
  | createdAt | updatedAt | postedAt | heatScore | title
deriving DecidableEq

def Column.value : Column → Work → Option SortValue
  | .createdAt, work => some (.instant work.createdAt)
  | .updatedAt, work => some (.instant work.updatedAt)
  | .postedAt, work => work.postedAt.map .instant
  | .heatScore, work => work.heatScore.map .score
  | .title, work => work.title.map fun t => .title ⟨t⟩

/-- `column.nullable`. -/
def Column.nullable : Column → Bool
  | .createdAt | .updatedAt => false
  | .postedAt | .heatScore | .title => true

theorem Column.value_ne_none {column : Column} (h : column.nullable = false) (work : Work) :
    column.value work ≠ none := by
  cases column <;> simp_all [Column.nullable, Column.value]

/-- The attributes that a sort can name; works have no `name` and no
`last_synced_at`. -/
inductive Attribute
  | onWork (column : Column)
  | name
  | lastSyncedAt
deriving DecidableEq

/-- The table in `_sql_sort_spec`. -/
def sortAttributes : List (Text × Attribute) :=
  [("created".toList, .onWork .createdAt), ("updated".toList, .onWork .updatedAt),
    ("posted".toList, .onWork .postedAt), ("heat".toList, .onWork .heatScore),
    ("title".toList, .onWork .title), ("name".toList, .name),
    ("last-sync".toList, .lastSyncedAt)]

/-- `getattr(Work, attribute, Work.created_at)`. -/
def Attribute.column : Attribute → Column
  | .onWork column => column
  | .name | .lastSyncedAt => .createdAt

/-- `query.values(key)`. -/
def queryValues (query : SearchQuery) (key : Key) : List Text :=
  ((queryQualifiers query).filter fun q => q.key = key).map Qualifier.value

/-- `(query.values("sort") or ("created-desc",))[0]`. -/
def querySort (query : SearchQuery) : Text :=
  (queryValues query .sort).head?.getD "created-desc".toList

/-- Column, attribute and whether it ascends, for a sort. -/
def sortSpec (sort : Text) : Column × Attribute × Bool :=
  let named := (sortAttributes.lookup (rsplitFirst sort '-')).getD (.onWork .createdAt)
  (named.column, named, endswith sort "-asc".toList)

/-- `_sql_sort_spec` for works. -/
def sqlSortSpec (query : SearchQuery) : Column × Attribute × Bool :=
  sortSpec (querySort query)

/-- `_apply_sql_sort` for works.  Without a placement of its own a descending order has
`NULL`s first. -/
def applySqlSort [LinearOrder Title] (query : SearchQuery) (reverse : Bool) (rows : List Work) :
    List Work :=
  let (column, _, ascending) := sqlSortSpec query
  let ascending := if reverse then !ascending else ascending
  orderBy ascending (if column.nullable then reverse else !ascending) column.value Work.id rows

/-- `_work_seek_expression`. -/
def workSeekExpression [LinearOrder Title] (query : SearchQuery) (seek : Seek)
    (value : Option SortValue) (identity : Uuid) (work : Work) : Truth :=
  let (column, _, ascending) := sqlSortSpec query
  let greater (x : Option SortValue) (y : SortValue) := compare (fun x y => y < x) x (some y)
  let less (x : Option SortValue) (y : SortValue) := compare (fun x y => x < y) x (some y)
  let forwardIdentity := if ascending then decide (identity < work.id) else work.id < identity
  let backwardIdentity := if ascending then decide (work.id < identity) else identity < work.id
  let identityExpression := Truth.of
    (if seek = .after then forwardIdentity else backwardIdentity)
  let isNull := Truth.of (column.value work).isNone
  match value with
  | none =>
    let sameNull := isNull.and identityExpression
    if seek = .after then sameNull else isNull.not.or sameNull
  | some value =>
    let valueExpression :=
      if ascending then
        if seek = .after then greater (column.value work) value else less (column.value work) value
      else
        if seek = .after then less (column.value work) value else greater (column.value work) value
    let sameValue :=
      (compare (fun x y => x = y) (column.value work) (some value)).and identityExpression
    if seek = .after then .any [valueExpression, isNull, sameValue]
    else valueExpression.or sameValue

end SortOrder

section Cursors

/-- What the runtime computes: the sixteen digits that stand for a query, and the
digest of a seed as a number. -/
structure CursorRuntime where
  queryDigest : Text → Text
  seedDigest : Int → Nat

inductive PageError
  | valueError (message : Text)
  | attributeError
  | filter (error : FilterError)
deriving DecidableEq

def staleCursor : PageError :=
  .valueError "Invalid or stale works cursor".toList

/-- The payload of a cursor.  Cursors of sorted orders have a value, those of random
orders seed, phase and key. -/
structure Cursor where
  v : Int
  q : Text
  sfw : Bool
  sort : Text
  seek : Text
  id : Uuid
  value : Option SortValue
  seed : Option Int
  phase : Option Int
  key : Option Int
deriving DecidableEq

def Seek.text : Seek → Text
  | .after => "after".toList
  | .before => "before".toList

def readSeek (t : Text) : Option Seek :=
  if t = Seek.text .after then some .after
  else if t = Seek.text .before then some .before else none

theorem readSeek_text (seek : Seek) : readSeek (Seek.text seek) = some seek := by
  cases seek <;> rfl

section

variable (C : CursorRuntime)

/-- `_encode_work_cursor`. -/
def encodeWorkCursor (query : SearchQuery) (forceSfw : Bool) (seek : Seek)
    (work : Work) : Except PageError Cursor :=
  match (sqlSortSpec query).2.1 with
  | .onWork column =>
    .ok ⟨1, C.queryDigest query.canonical, forceSfw, querySort query, Seek.text seek, work.id,
      column.value work, none, none, none⟩
  | _ => .error .attributeError

/-- `_decode_work_cursor`. -/
def decodeWorkCursor (query : SearchQuery) (forceSfw : Bool)
    (cursor : Cursor) : Except PageError (Seek × Option SortValue × Uuid) :=
  if cursor.v ≠ 1 ∨ cursor.q ≠ C.queryDigest query.canonical ∨ cursor.sfw ≠ forceSfw ∨
      cursor.sort ≠ querySort query then
    .error staleCursor
  else match readSeek cursor.seek with
    | none => .error staleCursor
    | some seek => .ok (seek, cursor.value, cursor.id)

/-- `_shuffle_ring_start`. -/
def shuffleRingStart (seed : Int) : Except PageError ShuffleKey :=
  if 0 ≤ seed ∧ seed ≤ 0xFFFFFFFF then
    .ok ⟨C.seedDigest seed &&& (2 ^ 63 - 1), Nat.and_lt_two_pow _ (by decide)⟩
  else .error (.valueError "Random seed must be an unsigned 32-bit integer".toList)

/-- `0 if key >= start else 1`. -/
def phaseOf (start key : ShuffleKey) : Phase :=
  if start ≤ key then .zero else .one

def Phase.number : Phase → Int
  | .zero => 0
  | .one => 1

def readPhase (n : Int) : Option Phase :=
  if n = 0 then some .zero else if n = 1 then some .one else none

theorem readPhase_number (phase : Phase) : readPhase (Phase.number phase) = some phase := by
  cases phase <;> rfl

/-- `_encode_random_work_cursor`. -/
def encodeRandomWorkCursor (query : SearchQuery) (forceSfw : Bool) (seed : Int)
    (phase : Phase) (seek : Seek) (key : ShuffleKey) (id : Uuid) : Cursor :=
  ⟨2, C.queryDigest query.canonical, forceSfw, "random".toList, Seek.text seek, id, none,
    some seed, some (Phase.number phase), some key.val⟩

/-- `_decode_random_work_cursor`. -/
def decodeRandomWorkCursor (query : SearchQuery) (forceSfw : Bool)
    (seed : Int) (cursor : Cursor) : Except PageError RandomWorkCursor :=
  if cursor.v ≠ 2 ∨ cursor.q ≠ C.queryDigest query.canonical ∨ cursor.sfw ≠ forceSfw ∨
      cursor.sort ≠ "random".toList ∨ cursor.seed ≠ some seed then
    .error staleCursor
  else match cursor.phase.bind readPhase, readSeek cursor.seek, cursor.key with
    | some phase, some seek, some key =>
      if h : 0 ≤ key ∧ key < 2 ^ 63 then
        .ok ⟨seek, ⟨key.toNat, by omega⟩, cursor.id, phase⟩
      else .error staleCursor
    | _, _, _ => .error staleCursor

end

end Cursors

section RandomPages

/-- `phase_condition`. -/
def phaseCondition (start : ShuffleKey) (phase : Phase) (work : Work) : Truth :=
  .of (if phase = .zero then decide (start ≤ work.shuffleKey) else work.shuffleKey < start)

/-- The condition that `fetch_phase` adds for a boundary. -/
def boundaryCondition (reverse : Bool) (boundary : RandomWorkCursor) (work : Work) : Truth :=
  if reverse then
    (Truth.of (work.shuffleKey < boundary.key)).or
      ((Truth.of (work.shuffleKey = boundary.key)).and (.of (work.id < boundary.identity)))
  else
    (Truth.of (boundary.key < work.shuffleKey)).or
      ((Truth.of (work.shuffleKey = boundary.key)).and (.of (boundary.identity < work.id)))

/-- `fetch_phase`. -/
def fetchPhase (rows : List Work) (start : ShuffleKey) (phase : Phase) (count : Nat)
    (reverse : Bool) (phaseOffset : Nat) (boundary : Option RandomWorkCursor) : List Work :=
  if count = 0 then []
  else
    let inPhase := selectWhere rows (phaseCondition start phase)
    let kept := boundary.elim inPhase fun b => selectWhere inPhase (boundaryCondition reverse b)
    ((orderBy (!reverse) reverse (fun work => some work.shuffleKey) Work.id kept).drop
      phaseOffset).take count

/-- The phase that a page goes on with when its own phase has no more works. -/
def adjacentPhase (reverse : Bool) : Phase → Option Phase
  | .one => if reverse then some .zero else none
  | .zero => if reverse then none else some .one

/-- The page behind or before a boundary, of `fetch phase count reverse offset boundary`. -/
def boundaryPage {α : Type}
    (fetch : Phase → Nat → Bool → Nat → Option RandomWorkCursor → List α)
    (boundary : RandomWorkCursor) (limit : Nat) : List α :=
  let reverse := decide (boundary.seek = .before)
  let rows := fetch boundary.phase limit reverse 0 (some boundary)
  let rows := if rows.length < limit then
      rows ++ (adjacentPhase reverse boundary.phase).elim []
        fun adjacent => fetch adjacent (limit - rows.length) reverse 0 none
    else rows
  if reverse then rows.reverse else rows

/-- The decoded cursor, if its phase is that of its key. -/
def randomBoundary (C : CursorRuntime) (query : SearchQuery) (forceSfw : Bool) (seed : Int)
    (start : ShuffleKey) (cursor : Cursor) : Except PageError RandomWorkCursor := do
  let boundary ← decodeRandomWorkCursor C query forceSfw seed cursor
  if boundary.phase ≠ phaseOf start boundary.key then .error staleCursor else pure boundary

/-- The page of `_fetch_random_work_page` at an offset. -/
def offsetPage (rows : List Work) (start : ShuffleKey) (offset limit : Nat) : List Work :=
  let phaseZeroCount := (selectWhere rows (phaseCondition start .zero)).length
  if offset ≠ 0 ∧ phaseZeroCount ≤ offset then
    fetchPhase rows start .one limit false (offset - phaseZeroCount) none
  else
    let page := fetchPhase rows start .zero limit false offset none
    if page.length < limit then
      page ++ fetchPhase rows start .one (limit - page.length) false 0 none
    else page

/-- `_fetch_random_work_page`. -/
def fetchRandomWorkPage (C : CursorRuntime) (rows : List Work) (query : SearchQuery)
    (offset limit : Nat) (forceSfw : Bool) (cursor : Option Cursor) (seed : Int) :
    Except PageError (List Work) := do
  let start ← shuffleRingStart C seed
  match cursor with
  | some cursor =>
    let boundary ← randomBoundary C query forceSfw seed start cursor
    pure (boundaryPage (fetchPhase rows start) boundary limit)
  | none => pure (offsetPage rows start offset limit)

end RandomPages

/-- The page of a sorted order. -/
def fetchSortedPage [LinearOrder Title] (C : CursorRuntime) (rows : List Work)
    (query : SearchQuery) (offset limit : Nat) (forceSfw : Bool) (cursor : Option Cursor) :
    Except PageError (List Work) :=
  match cursor with
  | none => .ok (((applySqlSort query false rows).drop offset).take limit)
  | some cursor => do
    let (seek, boundary, boundaryId) ← decodeWorkCursor C query forceSfw cursor
    let pageBase := selectWhere rows (workSeekExpression query seek boundary boundaryId)
    let reversePage := decide (seek = .before)
    let pageRows := (applySqlSort query reversePage pageBase).take limit
    pure (if reversePage then pageRows.reverse else pageRows)

/-- The cursor from a work of a page. -/
def pageCursor (C : CursorRuntime) (query : SearchQuery) (forceSfw : Bool) (seed : Option Int)
    (seek : Seek) (work : Work) : Except PageError Cursor :=
  match seed with
  | none => encodeWorkCursor C query forceSfw seek work
  | some seed => do
    let start ← shuffleRingStart C seed
    pure (encodeRandomWorkCursor C query forceSfw seed (phaseOf start work.shuffleKey) seek
      work.shuffleKey work.id)

/-- `_search_works_db` on the works that match the query. -/
def searchWorksDb [LinearOrder Title] (C : CursorRuntime) (rows : List Work) (query : SearchQuery)
    (offset limit : Nat) (forceSfw : Bool) (cursor : Option Cursor) (seed : Option Int) :
    Except PageError (Page Work Cursor) := do
  let ring ← if queryValues query .sort = ["random".toList] then
      match seed with
      | none => Except.error (.valueError "Random sorting requires a seed".toList)
      | some seed => pure (some seed)
    else pure none
  let pageRows ← match ring with
    | some seed => fetchRandomWorkPage C rows query offset limit forceSfw cursor seed
    | none => fetchSortedPage C rows query offset limit forceSfw cursor
  let next ← pageRows.getLast?.mapM (pageCursor C query forceSfw ring .after)
  let previous ← if cursor.isSome ∨ 0 < offset then
      pageRows.head?.mapM (pageCursor C query forceSfw ring .before)
    else pure none
  pure ⟨pageRows, next, previous⟩

end WorkPagination
