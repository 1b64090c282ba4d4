import AutoGallery.Keyset
import AutoGallery.WorkDatabase

/-!
# Curation

The ledger of curation: commits, and the changes that belong to them, each with
snapshots of its subject before and after.  The operations of the service run one
after the other here; each is a transaction that either succeeds or leaves the
database as it was.

Identities are numbers, instants are microseconds.  An operation takes what it does
not compute from outside (`Inputs`): the clock of the process, the time at which its
transaction began, and the identities of the rows it inserts.
-/

namespace Curation

open PyText
open WorkDatabase (Visibility)

abbrev Uuid := Nat

abbrev Time := Nat

section Tables

/-- The columns of `works` that a snapshot shows. -/
structure Work where
  id : Uuid
  title : Option Text
  description : Option Text
  postedAt : Option Text
  isNsfw : Bool
  isAiGenerated : Bool
  isFavorite : Bool
  thumbnailAssetId : Option Uuid
  deriving DecidableEq

/-- A row of `work_curation_states`. -/
structure WorkState where
  workId : Uuid
  visibility : Visibility
  trashedAt : Option Time
  trashedByCommitId : Option Uuid
  restoredByCommitId : Option Uuid
  reason : Option Text
  deriving DecidableEq

structure Creator where
  id : Uuid
  name : Text
  displayName : Option Text
  thumbnailUrl : Option Text
  isActive : Bool
  isFavorite : Bool
  deriving DecidableEq

/-- A row of `creator_curation_states`; a creator is visible or archived. -/
structure CreatorState where
  creatorId : Uuid
  archived : Bool
  restoredByCommitId : Option Uuid
  reason : Option Text
  deriving DecidableEq

structure Tag where
  id : Uuid
  normalizedName : Text
  deriving DecidableEq

structure WorkTag where
  workId : Uuid
  tagId : Uuid
  source : Text
  deriving DecidableEq

/-- The keys of a snapshot of a work that never change by curation. -/
structure WorkDetails where
  title : Option Text
  description : Option Text
  postedAt : Option Text
  isNsfw : Bool
  isAiGenerated : Bool
  thumbnailAssetId : Option Uuid
  deriving DecidableEq

/-- A snapshot of a work.  A key that is missing is `none`. -/
structure WorkSnapshot where
  id : Uuid
  details : Option WorkDetails
  isFavorite : Option Bool
  visibility : Option Visibility
  reason : Option (Option Text)
  tags : Option (List Text)
  deriving DecidableEq

structure CreatorSnapshot where
  id : Uuid
  name : Text
  displayName : Option Text
  thumbnailUrl : Option Text
  isActive : Bool
  isFavorite : Bool
  archived : Bool
  reason : Option Text
  deriving DecidableEq

inductive Snapshot where
  | work (s : WorkSnapshot)
  | creator (s : CreatorSnapshot)
  deriving DecidableEq

inductive SubjectType where
  | work
  | creator
  | repository
  | asset
  | assetDedupCase
  deriving DecidableEq

/-- The values of `curation_changes.action` that the service distinguishes. -/
inductive Action where
  | workTrashed
  | workRestored
  | workFavorited
  | workTagAdded
  | workTagRemoved
  | commandNoop
  | creatorArchived
  | creatorRestored
  | workPurged
  | assetPurged
  | other (name : Text)
  deriving DecidableEq

structure Change where
  id : Uuid
  commitId : Uuid
  subjectType : SubjectType
  subjectId : Uuid
  action : Action
  sequence : Option Nat
  beforeState : Option Snapshot
  afterState : Option Snapshot
  createdAt : Time
  deriving DecidableEq

inductive CommitStatus where
  | active
  | baseline
  | reverted
  | partialReverted
  deriving DecidableEq

/-- The keys of `curation_commits.stats` that the service writes here. -/
structure Stats where
  workCount : Option Nat
  skipped : Option Nat
  reverted : Option Nat
  deriving DecidableEq

/-- `stats={}`. -/
def Stats.empty : Stats := ⟨none, none, none⟩

/-- The keys of `curation_commits.metadata` that the service writes or reads here. -/
structure Metadata (Digest : Type) where
  reason : Option Text
  commandVersion : Option Nat
  commandHash : Option Digest
  targetCommitId : Option Uuid
  baseline : Bool
  deriving DecidableEq

/-- `metadata={}`. -/
def Metadata.empty {Digest : Type} : Metadata Digest := ⟨none, none, none, none, false⟩

structure Commit (Digest : Type) where
  id : Uuid
  parentCommitId : Option Uuid
  actorType : Text
  actorId : Option Text
  message : Text
  trigger : Text
  dedupeKey : Option Text
  revertsCommitId : Option Uuid
  status : CommitStatus
  stats : Stats
  metadata : Metadata Digest
  createdAt : Time
  deriving DecidableEq

/-- The tables of curation.  `projectionIntents` are the commits with an intent for the
projection to disk, `searchRequests` the works whose document was requested anew. -/
structure Database (Digest : Type) where
  works : List Work
  workStates : List WorkState
  creators : List Creator
  creatorStates : List CreatorState
  tags : List Tag
  workTags : List WorkTag
  commits : List (Commit Digest)
  changes : List Change
  projectionIntents : List Uuid
  searchRequests : List Uuid
  deriving DecidableEq

/-- What an operation takes from outside. -/
structure Inputs where
  /-- `_now()` -/
  now : Time
  /-- `now()` of the database, the time at which the transaction began -/
  started : Time
  commitId : Uuid
  changeId : Nat → Uuid
  tagId : Nat → Uuid

/-- What `HTTPException` carries besides the status code. -/
inductive Detail where
  | text (message : Text)
  | idempotencyKeyReused
  | headChanged (expected : Uuid) (actual : Option Uuid)
  | worksNotFound (workIds : List Uuid)
  deriving DecidableEq

structure HttpException where
  statusCode : Nat
  detail : Detail
  deriving DecidableEq

end Tables

section Ledger

variable {Digest : Type} [DecidableEq Digest]

/-- The later of two commits: `ORDER BY created_at DESC, id DESC`. -/
def laterCommit (best : Option (Commit Digest)) (commit : Commit Digest) : Option (Commit Digest) :=
  match best with
  | none => some commit
  | some b =>
    if b.createdAt < commit.createdAt ∨ (b.createdAt = commit.createdAt ∧ b.id < commit.id) then
      some commit
    else some b

/-- `_latest_commit_id`. -/
def latestCommitId (db : Database Digest) : Option Uuid :=
  (db.commits.foldl laterCommit none).map (·.id)

/-- The arguments of `_create_commit` besides `status`. -/
structure Draft (Digest : Type) where
  message : Text
  trigger : Text
  actorType : Text := "admin".toList
  actorId : Option Text := none
  revertsCommitId : Option Uuid := none
  metadata : Metadata Digest := .empty
  dedupeKey : Option Text := none

/-- `_create_commit`, in a transaction that holds the advisory lock. -/
def createCommit (inp : Inputs) (draft : Draft Digest) (db : Database Digest) :
    Database Digest × Commit Digest :=
  match draft.dedupeKey.bind fun key => db.commits.find? (·.dedupeKey = some key) with
  | some existing => (db, existing)
  | none =>
    let commit : Commit Digest :=
      { id := inp.commitId
        parentCommitId := latestCommitId db
        actorType := draft.actorType
        actorId := draft.actorId
        message := draft.message
        trigger := draft.trigger
        dedupeKey := draft.dedupeKey
        revertsCommitId := draft.revertsCommitId
        status := .active
        stats := .empty
        metadata := draft.metadata
        createdAt := inp.now }
    ({ db with
        commits := db.commits ++ [commit]
        projectionIntents := db.projectionIntents ++ [inp.commitId] }, commit)

/-- `commit.stats = stats`. -/
def setStats (commitId : Uuid) (stats : Stats) (db : Database Digest) : Database Digest :=
  { db with commits := db.commits.map fun c => if c.id = commitId then { c with stats := stats } else c }

/-- `commit.status = status`. -/
def setCommitStatus (commitId : Uuid) (status : CommitStatus) (db : Database Digest) :
    Database Digest :=
  { db with
    commits := db.commits.map fun c => if c.id = commitId then { c with status := status } else c }

/-- `_add_change`. -/
def addChange (change : Change) (db : Database Digest) : Database Digest :=
  { db with changes := db.changes ++ [change] }

/-- `request_search_projection(db, work_ids)`; a repeated identity counts once. -/
def requestSearchProjection (workIds : List Uuid) (db : Database Digest) : Database Digest :=
  { db with searchRequests := db.searchRequests ++ workIds.dedup }

/-- The place of a change among those of one commit: by its sequence number, changes
without one last, then by the time of the row and its identity. -/
def changePlace (change : Change) : WithTop Nat ×ₗ Time ×ₗ Uuid :=
  toLex (change.sequence.elim ⊤ (fun n => (n : WithTop Nat)), toLex (change.createdAt, change.id))

/-- `_changes_for_commit`. -/
def changesForCommit (commitId : Uuid) (db : Database Digest) : List Change :=
  Keyset.arranged changePlace (db.changes.filter (·.commitId = commitId))

end Ledger

section States

variable {Digest : Type}

/-- `work_state`. -/
def workState (workId : Uuid) (db : Database Digest) : Option WorkState :=
  db.workStates.find? (·.workId = workId)

section

variable (creatorId : Uuid)

section

variable (db : Database Digest)

/-- `creator_state`. -/
def creatorState : Option CreatorState :=
  db.creatorStates.find? (·.creatorId = creatorId)

/-- `_ensure_work_state`. -/
def ensureWorkState (workId : Uuid) (db : Database Digest) : Database Digest × WorkState :=
  match workState workId db with
  | some state => (db, state)
  | none =>
    let state : WorkState := ⟨workId, .visible, none, none, none, none⟩
    ({ db with workStates := db.workStates ++ [state] }, state)

/-- `_ensure_creator_state`. -/
def ensureCreatorState :
    Database Digest × CreatorState :=
  match creatorState creatorId db with
  | some state => (db, state)
  | none =>
    let state : CreatorState := ⟨creatorId, false, none, none⟩
    ({ db with creatorStates := db.creatorStates ++ [state] }, state)

/-- Assigning to the attributes of a row of `work_curation_states`. -/
def updateWorkState (workId : Uuid) (f : WorkState → WorkState) (db : Database Digest) :
    Database Digest :=
  { db with workStates := db.workStates.map fun s => if s.workId = workId then f s else s }

def updateCreatorState (f : CreatorState → CreatorState)
    (db : Database Digest) : Database Digest :=
  { db with creatorStates := db.creatorStates.map fun s => if s.creatorId = creatorId then f s else s }

/-- `work.is_favorite = value`. -/
def setFavorite (workId : Uuid) (value : Bool) (db : Database Digest) : Database Digest :=
  { db with works := db.works.map fun w => if w.id = workId then { w with isFavorite := value } else w }

/-- `creator.is_active = True`. -/
def activateCreator : Database Digest :=
  { db with
    creators := db.creators.map fun c => if c.id = creatorId then { c with isActive := true } else c }

/-- `db.get(Work, id)`. -/
def getWork (workId : Uuid) (db : Database Digest) : Option Work :=
  db.works.find? (·.id = workId)

def getCreator : Option Creator :=
  db.creators.find? (·.id = creatorId)

end

end

/-- The visibility of a work: visible unless there is a row that says otherwise. -/
def visibilityOf (state : Option WorkState) : Visibility :=
  state.elim .visible (·.visibility)

/-- `_work_snapshot`. -/
def workSnapshot (work : Work) (state : Option WorkState) : WorkSnapshot :=
  { id := work.id
    details := some ⟨work.title, work.description, work.postedAt, work.isNsfw, work.isAiGenerated,
      work.thumbnailAssetId⟩
    isFavorite := some work.isFavorite
    visibility := some (visibilityOf state)
    reason := some (state.bind (·.reason))
    tags := none }

/-- `_creator_snapshot`. -/
def creatorSnapshot (creator : Creator) (state : CreatorState) : CreatorSnapshot :=
  ⟨creator.id, creator.name, creator.displayName, creator.thumbnailUrl, creator.isActive,
    creator.isFavorite, state.archived, state.reason⟩

end States

section Operations

variable {Digest : Type} [DecidableEq Digest]

/-- `COMMIT_WORK_LIMIT`. -/
def commitWorkLimit : Nat := 25

/-- A visibility that a work gets from `trash_works` or `restore_works`, on which works,
and what the change is called. -/
structure Move where
  applies : Visibility → Bool
  target : Visibility
  action : Action
  defaultMessage : Nat → Text
  trigger : Text

/-- `first or second` of two texts that may be missing. -/
def orElse (first second : Option Text) : Option Text :=
  if first.getD [] = [] then second else first

/-- `s` unless there is exactly one. -/
def plural (n : Nat) : Text := if n = 1 then [] else "s".toList

def trashMove : Move where
  applies v := v ≠ .trashed ∧ v ≠ .purged
  target := .trashed
  action := .workTrashed
  defaultMessage n :=
    "Move ".toList ++ (toString n).toList ++ " work".toList ++ plural n ++ " to trash".toList
  trigger := "work_trash".toList

def restoreMove : Move where
  applies v := v = .trashed
  target := .visible
  action := .workRestored
  defaultMessage n := "Restore ".toList ++ (toString n).toList ++ " work".toList ++ plural n
  trigger := "work_restore".toList

/-- The attributes that go with a visibility: trashing notes when and by which commit,
restoring only by which. -/
def markState (now : Time) (commitId : Uuid) (visibility : Visibility) (reason : Option Text)
    (state : WorkState) : WorkState :=
  if visibility = .trashed then
    { state with
      visibility := visibility
      trashedAt := some now
      trashedByCommitId := some commitId
      reason := reason }
  else { state with visibility := visibility, restoredByCommitId := some commitId, reason := reason }

/-- The body of the loop over the works, with the number of changes so far. -/
def moveWork (move : Move) (reason : Option Text) (inp : Inputs) (commitId : Uuid)
    (acc : Database Digest × Nat) (work : Work) : Database Digest × Nat :=
  let (db, state) := ensureWorkState work.id acc.1
  if move.applies state.visibility then
    let marked := markState inp.now commitId move.target reason state
    let db := updateWorkState work.id (fun _ => marked) db
    (addChange
      { id := inp.changeId acc.2
        commitId := commitId
        subjectType := .work
        subjectId := work.id
        action := move.action
        sequence := none
        beforeState := some (.work (workSnapshot work (some state)))
        afterState := some (.work (workSnapshot work (some marked)))
        createdAt := inp.started } db, acc.2 + 1)
  else (db, acc.2)

/-- `trash_works` and `restore_works`. -/
def moveWorks (move : Move) (workIds : List Uuid) (reason message : Option Text) (inp : Inputs)
    (db : Database Digest) : Except HttpException (Database Digest × Uuid) :=
  if workIds = [] then .error ⟨400, .text "ids list is required".toList⟩
  else if workIds.length > commitWorkLimit then
    .error ⟨400, .text ("at most ".toList ++ (toString commitWorkLimit).toList ++
      " works per curation commit".toList)⟩
  else
    let works := db.works.filter (·.id ∈ workIds)
    if works = [] then .error ⟨404, .text "No works found".toList⟩
    else
      let (db, commit) := createCommit inp
        { message := (orElse message none).getD (move.defaultMessage works.length)
          trigger := move.trigger
          metadata := { Metadata.empty with reason := reason } } db
      let (db, changed) := works.foldl (moveWork move reason inp commit.id) (db, 0)
      let db := setStats commit.id { Stats.empty with workCount := some changed } db
      .ok (requestSearchProjection (works.map (·.id)) db, commit.id)

def trashWorks (workIds : List Uuid) (reason message : Option Text) (inp : Inputs)
    (db : Database Digest) : Except HttpException (Database Digest × Uuid) :=
  moveWorks trashMove workIds reason message inp db

def restoreWorks (workIds : List Uuid) (reason message : Option Text) (inp : Inputs)
    (db : Database Digest) : Except HttpException (Database Digest × Uuid) :=
  moveWorks restoreMove workIds reason message inp db

/-- `record_work_favorite`. -/
def recordWorkFavorite (work : Work) (beforeFavorite afterFavorite : Bool) (inp : Inputs)
    (db : Database Digest) : Database Digest × Uuid :=
  let (db, state) := ensureWorkState work.id db
  let before := { workSnapshot work (some state) with isFavorite := some beforeFavorite }
  let after := { before with isFavorite := some afterFavorite }
  let (db, commit) := createCommit inp
    { message := (if afterFavorite then "Favorite work" else "Unfavorite work").toList
      trigger := "work_favorite".toList } db
  let db := addChange
    { id := inp.changeId 0
      commitId := commit.id
      subjectType := .work
      subjectId := work.id
      action := .workFavorited
      sequence := none
      beforeState := some (.work before)
      afterState := some (.work after)
      createdAt := inp.started } db
  (setStats commit.id { Stats.empty with workCount := some 1 } db, commit.id)

/-- `toggle_work_favorite`, the caller of `record_work_favorite`. -/
def toggleWorkFavorite (workId : Uuid) (inp : Inputs) (db : Database Digest) :
    Except HttpException (Database Digest × Uuid) :=
  match getWork workId db with
  | none => .error ⟨404, .text "Work not found".toList⟩
  | some work =>
    let after := !work.isFavorite
    let (db, commitId) := recordWorkFavorite { work with isFavorite := after } work.isFavorite
      after inp (setFavorite workId after db)
    .ok (requestSearchProjection [workId] db, commitId)

end Operations

section Requests

inductive CommandAction where
  | trash
  | restore
  | favorite
  | tagAdd
  | tagRemove
  deriving DecidableEq

def CommandAction.text : CommandAction → Text
  | .trash => "trash".toList
  | .restore => "restore".toList
  | .favorite => "favorite".toList
  | .tagAdd => "tag-add".toList
  | .tagRemove => "tag-remove".toList

/-- `GitlleryCommandOperation`. -/
structure CommandOperation where
  workId : Uuid
  action : CommandAction
  value : Option Bool
  tag : Option Text
  reason : Option Text
  deriving DecidableEq

/-- `GitlleryCommandRequest`; its version is always 1. -/
structure CommandRequest where
  message : Text
  reason : Option Text
  expectedParentCommitId : Option Uuid
  idempotencyKey : Uuid
  operations : List CommandOperation
  deriving DecidableEq

/-- Whether the action is about a tag. -/
def CommandAction.onTag (action : CommandAction) : Bool :=
  action = .tagAdd ∨ action = .tagRemove

/-- `validate_action_payload`. -/
def validateActionPayload (op : CommandOperation) : Except Text Unit :=
  if op.action = .favorite ∧ op.value = none then .error "favorite requires value".toList
  else if op.action.onTag ∧ strip (op.tag.getD []) = [] then
    .error (op.action.text ++ " requires tag".toList)
  else if op.action.onTag = false ∧ op.tag ≠ none then
    .error "tag is only valid for tag actions".toList
  else .ok ()

/-- `(operation.tag or "").strip().casefold()`. -/
def normalizedTag (casefold : Text → Text) (op : CommandOperation) : Text :=
  casefold (strip (op.tag.getD []))

/-- What two operations on one work may not both be about. -/
inductive Family where
  | visibility
  | favorite
  | tag (name : Text)
  deriving DecidableEq

def familyOf (casefold : Text → Text) (op : CommandOperation) : Family :=
  match op.action with
  | .trash | .restore => .visibility
  | .favorite => .favorite
  | .tagAdd | .tagRemove => .tag (normalizedTag casefold op)

/-- The loop of `validate_work_limit_and_conflicts`. -/
def checkConflicts (casefold : Text → Text) (seen : List (Uuid × Family)) :
    List CommandOperation → Except Text Unit
  | [] => .ok ()
  | op :: rest =>
    let key := (op.workId, familyOf casefold op)
    if key ∈ seen then
      .error ("contradictory operations for work ".toList ++ (toString op.workId).toList)
    else checkConflicts casefold (key :: seen) rest

/-- `validate_work_limit_and_conflicts`. -/
def validateWorkLimitAndConflicts (casefold : Text → Text) (command : CommandRequest) :
    Except Text Unit :=
  if (command.operations.map (·.workId)).dedup.length > 25 then
    .error "a command may affect at most 25 unique works".toList
  else checkConflicts casefold [] command.operations

/-- The lengths that the fields of a request may have. -/
def fieldsFit (command : CommandRequest) : Bool :=
  1 ≤ command.message.length ∧ command.message.length ≤ 2000 ∧
    (command.reason.getD []).length ≤ 2000 ∧
    1 ≤ command.operations.length ∧ command.operations.length ≤ 100 ∧
    ∀ op ∈ command.operations,
      (op.tag.all fun t => 1 ≤ t.length ∧ t.length ≤ 255) ∧ (op.reason.getD []).length ≤ 2000

/-- The request schema accepts the command. -/
def Accepted (casefold : Text → Text) (command : CommandRequest) : Prop :=
  fieldsFit command = true ∧
    (∀ op ∈ command.operations, validateActionPayload op = .ok ()) ∧
    validateWorkLimitAndConflicts casefold command = .ok ()

end Requests

section Commands

variable {Digest : Type} [DecidableEq Digest]

/-- What one operation of a command will do. -/
structure Plan where
  operation : CommandOperation
  before : WorkSnapshot
  after : WorkSnapshot
  willChange : Bool

/-- The names and identities of the tags of a work. -/
def tagRows (workId : Uuid) (db : Database Digest) : List (Text × Uuid) :=
  db.workTags.flatMap fun row =>
    if row.workId = workId then
      (db.tags.filter (·.id = row.tagId)).map fun tag => (tag.normalizedName, tag.id)
    else []

/-- `tags_by_work`, with the names only. -/
def tagNames (workId : Uuid) (db : Database Digest) : List Text :=
  ((tagRows workId db).map Prod.fst).dedup

/-- `persisted_tag_ids[work_id].get(name)`. -/
def persistedTagId (workId : Uuid) (name : Text) (db : Database Digest) : Option Uuid :=
  ((tagRows workId db).filter (·.1 = name)).getLast?.map Prod.snd

/-- The state of the planning loop. -/
structure Planning where
  tags : Uuid → List Text
  plans : List Plan
  skipped : Nat

/-- A plan that changes nothing. -/
def Planning.skip (acc : Planning) (op : CommandOperation) (before : WorkSnapshot) : Planning :=
  { acc with plans := acc.plans ++ [⟨op, before, before, false⟩], skipped := acc.skipped + 1 }

def Planning.add (acc : Planning) (op : CommandOperation) (before after : WorkSnapshot) :
    Planning :=
  { acc with plans := acc.plans ++ [⟨op, before, after, true⟩] }

/-- The body of the planning loop.  Snapshots show the rows as they are before the
command; only the tags follow the operations planned so far. -/
def planOperation (casefold : Text → Text) (command : CommandRequest) (work : Work)
    (state : Option WorkState) (acc : Planning) (op : CommandOperation) : Planning :=
  let tags := acc.tags work.id
  let before := { workSnapshot work state with tags := some (tags.insertionSort (· ≤ ·)) }
  let reason := orElse op.reason command.reason
  match op.action with
  | .trash =>
    if visibilityOf state = .trashed ∨ visibilityOf state = .purged then acc.skip op before
    else acc.add op before { before with visibility := some .trashed, reason := some reason }
  | .restore =>
    if visibilityOf state ≠ .trashed then acc.skip op before
    else acc.add op before { before with visibility := some .visible, reason := some reason }
  | .favorite =>
    if work.isFavorite = op.value.getD false then acc.skip op before
    else acc.add op before { before with isFavorite := some (op.value.getD false) }
  | .tagAdd =>
    let name := normalizedTag casefold op
    if name ∈ tags then acc.skip op before
    else
      let updated := tags ++ [name]
      { acc with tags := Function.update acc.tags work.id updated }.add op before
        { before with tags := some (updated.insertionSort (· ≤ ·)) }
  | .tagRemove =>
    let name := normalizedTag casefold op
    if name ∉ tags then acc.skip op before
    else
      let updated := tags.erase name
      { acc with tags := Function.update acc.tags work.id updated }.add op before
        { before with tags := some (updated.insertionSort (· ≤ ·)) }

/-- The planning loop, for a command whose works are all there. -/
def planCommand (casefold : Text → Text) (command : CommandRequest) (db : Database Digest) :
    Planning :=
  command.operations.foldl
    (fun acc op => (getWork op.workId db).elim acc fun work =>
      planOperation casefold command work (workState op.workId db) acc op)
    ⟨fun workId => tagNames workId db, [], 0⟩

/-- `INSERT INTO tags ... ON CONFLICT ... RETURNING id`. -/
def upsertTag (freshId : Uuid) (name : Text) (db : Database Digest) : Database Digest × Uuid :=
  match db.tags.find? (·.normalizedName = name) with
  | some tag => (db, tag.id)
  | none => ({ db with tags := db.tags ++ [⟨freshId, name⟩] }, freshId)

/-- `INSERT INTO work_tags ... ON CONFLICT DO NOTHING`. -/
def insertWorkTag (workId tagId : Uuid) (db : Database Digest) : Database Digest :=
  if db.workTags.any fun row => row.workId = workId ∧ row.tagId = tagId then db
  else { db with workTags := db.workTags ++ [⟨workId, tagId, "gitllery-cli".toList⟩] }

/-- What a plan does to the rows of its work.  `before` is the database before the
command. -/
def applyPlan (casefold : Text → Text) (inp : Inputs) (commitId : Uuid) (before : Database Digest)
    (sequence : Nat) (plan : Plan) (db : Database Digest) : Database Digest :=
  let workId := plan.operation.workId
  if plan.willChange = false then db
  else
    match plan.operation.action with
    | .trash | .restore =>
      updateWorkState workId (markState inp.now commitId (plan.after.visibility.getD .visible)
        plan.after.reason.join) (ensureWorkState workId db).1
    | .favorite => setFavorite workId (plan.operation.value.getD false) db
    | .tagAdd =>
      let (db, tagId) := upsertTag (inp.tagId sequence) (normalizedTag casefold plan.operation) db
      insertWorkTag workId tagId db
    | .tagRemove =>
      match persistedTagId workId (normalizedTag casefold plan.operation) before with
      | none => db
      | some tagId =>
        { db with workTags :=
            db.workTags.filter fun row => ¬(row.workId = workId ∧ row.tagId = tagId) }

/-- The action of the change of a plan. -/
def planAction (plan : Plan) : Action :=
  if plan.willChange then
    match plan.operation.action with
    | .trash => .workTrashed
    | .restore => .workRestored
    | .favorite => .workFavorited
    | .tagAdd => .workTagAdded
    | .tagRemove => .workTagRemoved
  else .commandNoop

/-- The change of a plan. -/
def planChange (inp : Inputs) (commitId : Uuid) (sequence : Nat) (plan : Plan) : Change where
  id := inp.changeId sequence
  commitId := commitId
  subjectType := .work
  subjectId := plan.operation.workId
  action := planAction plan
  sequence := some sequence
  beforeState := some (.work plan.before)
  afterState := some (.work plan.after)
  createdAt := inp.started

/-- The loop that applies the plans, numbered from `sequence` on. -/
def applyPlans (casefold : Text → Text) (inp : Inputs) (commitId : Uuid)
    (before : Database Digest) : Nat → List Plan → Database Digest → Database Digest
  | _, [], db => db
  | sequence, plan :: rest, db =>
    applyPlans casefold inp commitId before (sequence + 1) rest
      (addChange (planChange inp commitId sequence plan)
        (applyPlan casefold inp commitId before sequence plan db))

inductive CommandStatus where
  | committed
  | noop
  deriving DecidableEq

/-- What `execute_gitllery_command` returns. -/
structure CommandResponse where
  status : CommandStatus
  commitId : Option Uuid
  parentCommitId : Option Uuid
  changed : Nat
  skipped : Nat
  outboxState : Text
  projectedLagSeconds : Option Nat
  deriving DecidableEq

/-- `f"cli:{command.idempotency_key}"`. -/
def cliKey (idempotencyKey : Uuid) : Text :=
  "cli:".toList ++ (toString idempotencyKey).toList

/-- The answer for a command that was executed before. -/
def replayResponse (existing : Commit Digest) : CommandResponse where
  status := if existing.stats.workCount.getD 0 = 0 then .noop else .committed
  commitId := some existing.id
  parentCommitId := existing.parentCommitId
  changed := existing.stats.workCount.getD 0
  skipped := existing.stats.skipped.getD 0
  outboxState := "pending".toList
  projectedLagSeconds := none

/-- `execute_gitllery_command`.  `commandHash` is the digest of the command in canonical
JSON. -/
def executeGitlleryCommand (casefold : Text → Text) (commandHash : CommandRequest → Digest)
    (command : CommandRequest) (actorId : Option Text) (dryRun : Bool) (inp : Inputs)
    (db : Database Digest) : Except HttpException (Database Digest × CommandResponse) :=
  let dedupeKey := cliKey command.idempotencyKey
  match db.commits.find? (·.dedupeKey = some dedupeKey) with
  | some existing =>
    if existing.metadata.commandHash ≠ some (commandHash command) then
      .error ⟨409, .idempotencyKeyReused⟩
    else .ok (db, replayResponse existing)
  | none =>
    let currentHead := latestCommitId db
    match command.expectedParentCommitId.filter (some · ≠ currentHead) with
    | some expected => .error ⟨409, .headChanged expected currentHead⟩
    | none =>
      let workIds := (command.operations.map (·.workId)).dedup
      let missing := workIds.filter fun workId => (getWork workId db).isNone
      if missing ≠ [] then .error ⟨404, .worksNotFound missing⟩
      else
        let planning := planCommand casefold command db
        let changed := planning.plans.length - planning.skipped
        let status : CommandStatus := if changed = 0 then .noop else .committed
        if dryRun then
          .ok (db, ⟨status, none, currentHead, changed, planning.skipped, "preview".toList,
            none⟩)
        else
          let (created, commit) := createCommit inp
            { message := command.message
              trigger := "gitllery_cli".toList
              actorType := "user".toList
              actorId := actorId
              metadata := ⟨command.reason, some 1, some (commandHash command), none, false⟩
              dedupeKey := some dedupeKey } db
          let applied := applyPlans casefold inp commit.id db 0 planning.plans created
          let done := setStats commit.id
            ⟨some changed, some planning.skipped, none⟩ applied
          .ok (requestSearchProjection workIds done,
            ⟨status, some commit.id, commit.parentCommitId, changed, planning.skipped,
              "pending".toList, some 0⟩)

end Commands

section Reverts

variable {Digest : Type} [DecidableEq Digest]

/-- What becomes of a change that is to be reverted. -/
inductive Outcome where
  | reverted
  | conflict
  | skipped
  deriving DecidableEq

/-- Revert a change of visibility: the work gets `target`, whatever it has now, unless it
is purged. -/
def revertMove (target : Visibility) (action : Action) (inp : Inputs) (revertId : Uuid)
    (number : Nat) (change : Change) (db : Database Digest) : Database Digest × Outcome :=
  match getWork change.subjectId db with
  | none => (db, .skipped)
  | some work =>
    let (db, state) := ensureWorkState work.id db
    if state.visibility = .purged then (db, .conflict)
    else
      let marked := markState inp.now revertId target (some "reverted".toList) state
      let db := updateWorkState work.id (fun _ => marked) db
      (addChange
        { id := inp.changeId number
          commitId := revertId
          subjectType := .work
          subjectId := work.id
          action := action
          sequence := none
          beforeState := some (.work (workSnapshot work (some state)))
          afterState := some (.work (workSnapshot work (some marked)))
          createdAt := inp.started } db, .reverted)

/-- `bool(before.get("is_favorite"))`. -/
def favoriteBefore : Option Snapshot → Bool
  | some (.work s) => s.isFavorite.getD false
  | some (.creator s) => s.isFavorite
  | none => false

/-- `_revert_change`. -/
def revertChange (inp : Inputs) (revertId : Uuid) (number : Nat) (change : Change)
    (db : Database Digest) : Database Digest × Outcome :=
  match change.action with
  | .workTrashed => revertMove .visible .workRestored inp revertId number change db
  | .workRestored => revertMove .trashed .workTrashed inp revertId number change db
  | .workFavorited =>
    match getWork change.subjectId db with
    | none => (db, .skipped)
    | some work =>
      let favorite := favoriteBefore change.beforeState
      let shown (value : Bool) : Snapshot := .work ⟨work.id, none, some value, none, none, none⟩
      (addChange
        { id := inp.changeId number
          commitId := revertId
          subjectType := .work
          subjectId := work.id
          action := .workFavorited
          sequence := none
          beforeState := some (shown work.isFavorite)
          afterState := some (shown favorite)
          createdAt := inp.started } (setFavorite work.id favorite db), .reverted)
  | .creatorArchived =>
    match getCreator change.subjectId db with
    | none => (db, .skipped)
    | some creator =>
      let (db, state) := ensureCreatorState creator.id db
      let restored := { state with
        archived := false, restoredByCommitId := some revertId,
        reason := some "reverted".toList }
      let db := updateCreatorState creator.id (fun _ => restored)
        (activateCreator creator.id db)
      (addChange
        { id := inp.changeId number
          commitId := revertId
          subjectType := .creator
          subjectId := creator.id
          action := .creatorRestored
          sequence := none
          beforeState := some (.creator (creatorSnapshot creator state))
          afterState := some (.creator
            (creatorSnapshot { creator with isActive := true } restored))
          createdAt := inp.started } db, .reverted)
  | .workPurged | .assetPurged => (db, .conflict)
  | _ => (db, .skipped)

/-- The loop of `revert_commit`, with the outcomes so far. -/
def revertChanges (inp : Inputs) (revertId : Uuid) :
    Nat → List Change → Database Digest → Database Digest × List (Change × Outcome)
  | _, [], db => (db, [])
  | number, change :: rest, db =>
    let (db, outcome) := revertChange inp revertId number change db
    let (db, outcomes) := revertChanges inp revertId (number + 1) rest db
    (db, (change, outcome) :: outcomes)

/-- `_is_baseline_commit`. -/
def isBaselineCommit (commit : Commit Digest) : Bool :=
  commit.status = .baseline ∨ commit.metadata.baseline

/-- The active commits that revert a commit. -/
def activeReverts (commitId : Uuid) (db : Database Digest) : List (Commit Digest) :=
  db.commits.filter fun c => c.revertsCommitId = some commitId ∧ c.status = .active

/-- `db.get(CurationCommit, commit_id)`, and no baseline. -/
def revertTarget (commitId : Uuid) (db : Database Digest) :
    Except HttpException (Commit Digest) :=
  match db.commits.find? (·.id = commitId) with
  | none => .error ⟨404, .text "Commit not found".toList⟩
  | some target =>
    if isBaselineCommit target then
      .error ⟨409, .text "Baseline commits cannot be reverted".toList⟩
    else .ok target

/-- The check that the commit has not been reverted; more than one row is an error of
its own. -/
def checkNotReverted (commitId : Uuid) (db : Database Digest) : Except HttpException Unit :=
  match activeReverts commitId db with
  | [] => .ok ()
  | [_] => .error ⟨409, .text "Commit has already been reverted".toList⟩
  | _ => .error ⟨500, .text "Multiple rows were found when one or none was required".toList⟩

/-- The check that the commit is small enough. -/
def checkRevertSize (commitId : Uuid) (db : Database Digest) : Except HttpException Unit :=
  if (db.changes.filter (·.commitId = commitId)).length > commitWorkLimit then
    .error ⟨409, .text ("This historical commit is too large for an online revert; ".toList ++
      "use the staged maintenance workflow".toList)⟩
  else .ok ()

/-- What `revert_commit` returns. -/
structure RevertResult where
  commitId : Uuid
  reverted : Nat
  skipped : Nat
  conflicts : List (Uuid × Action)

/-- `target.status = status`.  An attribute that keeps the value it was loaded with is not
written. -/
def assignStatus (target : Commit Digest) (status : CommitStatus) (db : Database Digest) :
    Database Digest :=
  if target.status = status then db else setCommitStatus target.id status db

/-- The part of `revert_commit` from `_create_commit` to the end of the transaction. -/
def applyRevert (target : Commit Digest) (changes : List Change) (inp : Inputs)
    (db : Database Digest) : Database Digest × RevertResult :=
  let (db, revert) := createCommit inp
    { message := "Revert: ".toList ++ target.message
      trigger := "commit_revert".toList
      revertsCommitId := some target.id
      metadata := { Metadata.empty with targetCommitId := some target.id } } db
  let (db, outcomes) := revertChanges inp revert.id 0 changes.reverse db
  let reverted := outcomes.countP (·.2 = .reverted)
  let skipped := outcomes.countP (·.2 ≠ .reverted)
  let db := assignStatus target (if skipped = 0 then .reverted else .partialReverted) db
  let db := setStats revert.id { Stats.empty with reverted := some reverted, skipped := some skipped } db
  let works := (changes.filter (·.subjectType = .work)).map (·.subjectId)
  (requestSearchProjection works db,
    ⟨revert.id, reverted, skipped,
      (outcomes.filter (·.2 = .conflict)).map fun o => (o.1.id, o.1.action)⟩)

/-- `revert_commit`, when nothing else happens meanwhile. -/
def revertCommit (commitId : Uuid) (inp : Inputs) (db : Database Digest) :
    Except HttpException (Database Digest × RevertResult) := do
  let target ← revertTarget commitId db
  checkNotReverted commitId db
  checkRevertSize commitId db
  return applyRevert target (changesForCommit commitId db) inp db

end Reverts

end Curation
