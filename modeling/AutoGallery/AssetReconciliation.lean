import AutoGallery.PyText
import Mathlib.Data.List.Dedup
import Mathlib.Data.Rat.Defs
import Mathlib.Tactic.Common

/-!
# Reconciliation of assets

Assets of different sources that show the same image are put into a visual group.
Evaluation finds pairs of assets and opens a case for each; a case is decided, by a user
or by the system, as *merge*, *separate* or *defer*.  A merge puts both assets into one
group with a representative, and writes an outbox event for every other member whose
file is to be replaced or moved away.

An operation is one transaction: it ends with a new database, or fails and leaves the
database as it was.  An id is a number, and the next unused one is part of the database.
-/

namespace AssetReconciliation

open PyText

/-- The columns of `assets` that are read here. -/
structure Asset where
  id : Nat
  fileName : Text
  filePath : Text
  fileSize : Option Nat
  sha256 : Option Text
  phash : Option Text
  mimeType : Text
  width : Option Nat
  height : Option Nat
  deriving DecidableEq

/-- A row of `asset_sources`, with the work source that it is bound to. -/
structure Binding where
  asset : Nat
  workSource : Nat
  work : Nat
  source : Text
  deriving DecidableEq

/-- What the operations here never change, and the functions of other modules. -/
structure Library where
  assets : List Asset
  bindings : List Binding
  lower : Text → Text
  /-- `EXTRACTOR_SOURCE_ALIASES.get(extractor, extractor)` -/
  sourceKeyForExtractor : Text → Text
  /-- `str` of an id -/
  idText : Nat → Text

def imageMimeTypes : List Text :=
  ["image/jpeg".toList, "image/png".toList, "image/gif".toList, "image/webp".toList,
    "image/bmp".toList]

/-! ### The scope: different works, different sources -/

inductive ScopeReason
  | missingContext
  | sameWork
  | sameSource
  | groupWorkConflict
  | groupSourceConflict
  deriving DecidableEq

/-- `scope_error_message`. -/
def ScopeReason.message : ScopeReason → Text
  | missingContext => "Both assets must have a bound Work and canonical source".toList
  | sameWork => "Assets from the same Work never enter reconciliation".toList
  | sameSource => "Asset reconciliation is restricted to different sources".toList
  | groupWorkConflict => "A visual group may contain at most one asset from each Work".toList
  | groupSourceConflict => "A visual group may contain at most one asset from each source".toList

inductive DedupError
  | outsideScope (reason : ScopeReason)
  | idempotencyConflict
  | caseNotFound
  | staleDedupCase
  | evidenceMissing
  | assetsMissing
  | transitiveMerge
  | separateDecision
  | groupMissing
  | representativeChange
  | representativeUnavailable
  | memberMismatch
  | representativeNotMember
  | noAvailableAsset
  deriving DecidableEq

/-- The text that the exception is raised with. -/
def DedupError.message : DedupError → Text
  | outsideScope reason => reason.message
  | idempotencyConflict => "Idempotency key was already used with a different decision".toList
  | caseNotFound => "Dedup case not found".toList
  | staleDedupCase => "Dedup case changed; refresh before deciding".toList
  | evidenceMissing => "'NoneType' object has no attribute 'id'".toList
  | assetsMissing => "One or more assets no longer exist".toList
  | transitiveMerge => "Existing visual groups cannot be merged transitively".toList
  | separateDecision =>
    "This merge conflicts with an existing ‘not the same image’ decision".toList
  | groupMissing => "Existing visual group no longer exists".toList
  | representativeChange =>
    "An existing visual group's representative cannot change during expansion".toList
  | representativeUnavailable => "Existing visual group representative is unavailable".toList
  | memberMismatch => "New group member does not match the current representative".toList
  | representativeNotMember => "Representative must be an available member asset".toList
  | noAvailableAsset => "max() arg is an empty sequence".toList

/-- `AssetDedupContext`. -/
structure Context where
  asset : Nat
  sources : List Text
  works : List Nat
  workSources : List Nat

def Context.Complete (c : Context) : Prop :=
  c.sources ≠ [] ∧ c.works ≠ [] ∧ c.workSources ≠ []

instance (c : Context) : Decidable c.Complete :=
  inferInstanceAs (Decidable (_ ∧ _ ∧ _))

namespace Library

variable (L : Library)

/-- `canonical_source` of the lowered and stripped source. -/
def canonicalSource (source : Text) : Text :=
  L.sourceKeyForExtractor (L.lower (strip source))

def context (asset : Nat) : Context :=
  let rows := L.bindings.filter (·.asset = asset)
  { asset
    sources := rows.map fun row => L.canonicalSource row.source
    works := rows.map Binding.work
    workSources := rows.map Binding.workSource }

/-- `CrossSourceDedupScope.pair`. -/
def pairScope (left right : Nat) : Except DedupError Unit :=
  let l := L.context left
  let r := L.context right
  if ¬l.Complete ∨ ¬r.Complete then .error (.outsideScope .missingContext)
  else if ∃ work ∈ l.works, work ∈ r.works then .error (.outsideScope .sameWork)
  else if ∃ source ∈ l.sources, source ∈ r.sources then .error (.outsideScope .sameSource)
  else .ok ()

/-- Two of the contexts own the same value. -/
def OwnedTwice {α : Type} (owned : Context → List α) (contexts : List Context) : Prop :=
  ∃ c ∈ contexts, ∃ d ∈ contexts, c.asset ≠ d.asset ∧ ∃ x ∈ owned c, x ∈ owned d

instance {α : Type} [DecidableEq α] (owned : Context → List α) (contexts : List Context) :
    Decidable (OwnedTwice owned contexts) :=
  inferInstanceAs (Decidable (∃ c ∈ contexts, ∃ d ∈ contexts, _ ∧ _))

/-- `CrossSourceDedupScope.group`. -/
def groupScope (ids : List Nat) : Except DedupError Unit :=
  let contexts := ids.dedup.map L.context
  if contexts.length < 2 ∨ ∃ c ∈ contexts, ¬c.Complete then
    .error (.outsideScope .missingContext)
  else if OwnedTwice Context.works contexts then .error (.outsideScope .groupWorkConflict)
  else if OwnedTwice Context.sources contexts then .error (.outsideScope .groupSourceConflict)
  else if (contexts.flatMap Context.sources).dedup.length < 2 then
    .error (.outsideScope .sameSource)
  else .ok ()

/-! ### Quality -/

def previewMarkers : List Text := ["thumb".toList, "preview".toList, "sample".toList]

/-- `_quality_key`; tuples are compared from the left. -/
def qualityKey (asset : Asset) : List Int :=
  let preview := previewMarkers.any (· <:+: L.lower asset.fileName)
  let lossless := asset.mimeType = "image/png".toList ∨ asset.mimeType = "image/bmp".toList
  [(asset.width.getD 0 * asset.height.getD 0 : Nat), if preview then 0 else 1,
    if lossless then 1 else 0, (asset.fileSize.getD 0 : Nat), -(asset.id : Int)]

/-- `max(assets, key=_quality_key)`: the first of the greatest. -/
def best : List Asset → Option Asset
  | [] => none
  | asset :: rest =>
    match best rest with
    | none => some asset
    | some other => if L.qualityKey asset < L.qualityKey other then some other else some asset

end Library

/-! ### The tables -/

/-- What `_evaluate_pair` finds about a pair.  The digest also covers the scope. -/
structure EvidenceFacts where
  inputDigest : Text
  sha256Equal : Bool
  hardGatePassed : Bool
  totalScore : Rat
  phashMaxDistance : Nat
  ssimMinScore : Rat
  quarantineDays : Nat
  deriving DecidableEq

structure Evidence where
  id : Nat
  left : Nat
  right : Nat
  facts : EvidenceFacts
  deriving DecidableEq

inductive CaseStatus
  | pending
  | merged
  | separate
  | deferred
  deriving DecidableEq

structure Case where
  id : Nat
  left : Nat
  right : Nat
  evidence : Nat
  status : CaseStatus
  revision : Nat
  suggestedRepresentative : Option Nat
  deriving DecidableEq

inductive DecisionAction
  | merge
  | separate
  | defer
  deriving DecidableEq

/-- The request whose digest is kept with a decision. -/
structure Payload where
  caseId : Nat
  expectedRevision : Nat
  action : DecisionAction
  representative : Option Nat
  reason : Option Text
  deriving DecidableEq

inductive ActorType
  | user
  | system
  deriving DecidableEq

structure Request extends Payload where
  actorType : ActorType
  idempotencyKey : Text
  deriving DecidableEq

/-- The result that `decide` returns. -/
structure Receipt where
  caseId : Nat
  action : DecisionAction
  status : CaseStatus
  revision : Nat
  representative : Option Nat
  group : Option Nat
  storageActions : Nat
  bytesReclaimable : Nat
  deriving DecidableEq

structure Decision where
  idempotencyKey : Text
  request : Payload
  result : Receipt
  deriving DecidableEq

structure Group where
  id : Nat
  representative : Nat
  deriving DecidableEq

structure Member where
  group : Nat
  asset : Nat
  deriving DecidableEq

inductive StorageKind
  | available
  | hardlinked
  | quarantined
  | purged
  deriving DecidableEq

/-- `storage_state in {"quarantined", "purged"}`. -/
def StorageKind.Gone (kind : StorageKind) : Prop :=
  kind = quarantined ∨ kind = purged

instance (kind : StorageKind) : Decidable kind.Gone :=
  inferInstanceAs (Decidable (_ ∨ _))

inductive DedupKind
  | exactSha256
  | visual
  deriving DecidableEq

/-- A row of `asset_storage_states`, without the asset that it is the row of. -/
structure Storage where
  storageState : StorageKind
  servedBy : Option Nat
  dedupKind : Option DedupKind
  quarantinePath : Option Text
  quarantineSha256 : Option Text
  quarantinedAt : Option Nat
  purgeAfter : Option Nat
  bytesReclaimed : Nat
  deriving DecidableEq

/-- A row as it is inserted. -/
def Storage.inserted : Storage where
  storageState := .available
  servedBy := none
  dedupKind := none
  quarantinePath := none
  quarantineSha256 := none
  quarantinedAt := none
  purgeAfter := none
  bytesReclaimed := 0

inductive EventType
  | hardlink
  | quarantine
  | purge
  deriving DecidableEq

/-- The idempotency key of an event.  The texts of ids have no colon, so that the keys'
texts are different for different keys. -/
inductive EventKey
  | effect (group asset : Nat) (eventType : EventType) (representative : Nat)
  | purge (asset representative : Nat)
  deriving DecidableEq

structure EventPayload where
  group : Nat
  asset : Nat
  representative : Nat
  evidence : Nat
  deriving DecidableEq

inductive EventState
  | pending
  | processing
  | complete
  | failed
  deriving DecidableEq

structure Event where
  id : Nat
  key : EventKey
  eventType : EventType
  payload : EventPayload
  state : EventState
  attempts : Nat
  availableAt : Nat
  updatedAt : Nat
  deriving DecidableEq

structure Database where
  evidence : List Evidence
  cases : List Case
  decisions : List Decision
  groups : List Group
  members : List Member
  storage : Nat → Option Storage
  outbox : List Event
  /-- no id from here on is in use -/
  nextId : Nat

/-- The parts of the dedup settings that are used outside of `_evaluate_pair`. -/
structure Policy where
  autoGroupEnabled : Bool
  autoGroupScore : Rat
  reviewScore : Rat
  deriving DecidableEq

namespace Database

/-- Both assets are members of one group. -/
def Together (db : Database) (a b : Nat) : Prop :=
  ∃ m ∈ db.members, m.asset = a ∧ ⟨m.group, b⟩ ∈ db.members

instance (db : Database) (a b : Nat) : Decidable (db.Together a b) :=
  inferInstanceAs (Decidable (∃ m ∈ db.members, _ ∧ _))

/-- The groups of the members among two assets. -/
def groupIds (db : Database) (left right : Nat) : List Nat :=
  ((db.members.filter fun m => m.asset = left ∨ m.asset = right).map Member.group).dedup

/-- The assets of a group. -/
def memberIds (db : Database) (group : Nat) : List Nat :=
  (db.members.filter (·.group = group)).map Member.asset

/-- The assets that a merge of these two would put into one group. -/
def prospective (db : Database) (left right : Nat) : List Nat :=
  [left, right] ++ (db.groupIds left right).flatMap db.memberIds

/-- Some pair of these assets was decided to be separate. -/
def Blocked (db : Database) (ids : List Nat) : Prop :=
  ∃ case ∈ db.cases, case.status = .separate ∧ case.left ∈ ids ∧ case.right ∈ ids

instance (db : Database) (ids : List Nat) : Decidable (db.Blocked ids) :=
  inferInstanceAs (Decidable (∃ case ∈ db.cases, _ ∧ _))

/-- The asset has no storage row, or one that says neither quarantined nor purged. -/
def IsAvailable (db : Database) (asset : Nat) : Prop :=
  ∀ row ∈ db.storage asset, ¬row.storageState.Gone

instance (db : Database) (asset : Nat) : Decidable (db.IsAvailable asset) :=
  inferInstanceAs (Decidable (∀ row ∈ db.storage asset, _))

end Database

/-! ### Merging -/

/-- A new group. -/
def Database.addGroup (db : Database) (representative : Nat) : Database :=
  { db with
    groups := db.groups ++ [⟨db.nextId, representative⟩]
    nextId := db.nextId + 1 }

/-- `asset.sha256 and asset.sha256 == representative.sha256`. -/
def Exact (asset representative : Asset) : Prop :=
  asset.sha256.isSome ∧ asset.sha256 ≠ some [] ∧ asset.sha256 = representative.sha256

instance (asset representative : Asset) : Decidable (Exact asset representative) :=
  inferInstanceAs (Decidable (_ ∧ _ ∧ _))

/-- The row of the representative after a merge. -/
def Storage.asRepresentative (row : Option Storage) : Storage :=
  let row := row.getD .inserted
  { row with
    servedBy := none
    storageState := if row.storageState.Gone then row.storageState else .available }

/-- The row of any other member after a merge. -/
def Storage.asMember (asset representative : Asset) (row : Option Storage) : Storage :=
  let row := { row.getD .inserted with servedBy := some representative.id }
  if row.storageState.Gone then row
  else { row with dedupKind := some (if Exact asset representative then .exactSha256 else .visual) }

def effectType (asset representative : Asset) : EventType :=
  if Exact asset representative then .hardlink else .quarantine

def effectKey (group : Nat) (asset representative : Asset) : EventKey :=
  .effect group asset.id (effectType asset representative) representative.id

/-- A merge writes an event for this member. -/
def NeedsEvent (db : Database) (group : Nat) (representative asset : Asset) : Prop :=
  asset.id ≠ representative.id ∧ db.IsAvailable asset.id ∧
    ∀ event ∈ db.outbox, event.key ≠ effectKey group asset representative

instance (db : Database) (group : Nat) (representative asset : Asset) :
    Decidable (NeedsEvent db group representative asset) :=
  inferInstanceAs (Decidable (_ ∧ _ ∧ _))

def newEvent (id now group evidence : Nat) (representative asset : Asset) : Event where
  id
  key := effectKey group asset representative
  eventType := effectType asset representative
  payload := { group, asset := asset.id, representative := representative.id, evidence }
  state := .pending
  attempts := 0
  availableAt := now
  updatedAt := now

/-- The storage rows after a merge of these assets. -/
def shareStorage (db : Database) (representative : Asset) (assets : List Asset) :
    Nat → Option Storage := fun id =>
  match assets.find? (·.id = id) with
  | none => db.storage id
  | some asset =>
    if asset.id = representative.id then some (Storage.asRepresentative (db.storage id))
    else some (Storage.asMember asset representative (db.storage id))

/-- What a merge returns. -/
structure Merged where
  group : Nat
  representative : Nat
  storageActions : Nat
  bytesReclaimable : Nat

/-- The writes of a merge, once the group, its representative and its assets are known. -/
def joinGroup (db : Database) (now group evidence : Nat) (representative : Asset)
    (assets : List Asset) : Database × Merged :=
  let known := db.memberIds group
  let reclaimed := assets.filter fun asset => NeedsEvent db group representative asset
  ({ db with
      members := db.members ++
        (assets.filter (·.id ∉ known)).map fun asset => ⟨group, asset.id⟩
      storage := shareStorage db representative assets
      outbox := db.outbox ++ reclaimed.mapIdx fun i asset =>
        newEvent (db.nextId + i) now group evidence representative asset
      nextId := db.nextId + reclaimed.length },
    { group
      representative := representative.id
      storageActions := reclaimed.length
      bytesReclaimable := (reclaimed.map fun asset => asset.fileSize.getD 0).sum })

section Merge

variable (L : Library) (policy : Policy)
  -- `_evaluate_pair` of the representative and a new member
  (validate : Nat → Nat → EvidenceFacts)
  (now : Nat)

/-- A new member of an existing group matches its representative. -/
def Validated (evidence : Evidence) (representative new : Nat) : Prop :=
  let facts :=
    if evidence.left = representative ∧ evidence.right = new ∨
        evidence.left = new ∧ evidence.right = representative then evidence.facts
    else validate representative new
  facts.hardGatePassed = true ∧ policy.reviewScore ≤ facts.totalScore

instance (evidence : Evidence) (representative new : Nat) :
    Decidable (Validated policy validate evidence representative new) :=
  inferInstanceAs (Decidable (_ ∧ _))

section

variable (db : Database)

/-- The representative of the group that is to grow. -/
def keptRepresentative (group : Nat) (requested : Option Nat)
    (available : List Asset) (ids : List Nat) (evidence : Evidence) :
    Except DedupError Asset := do
  match db.groups.find? (·.id = group) with
  | none => .error .groupMissing
  | some existing =>
    if requested.isSome ∧ requested ≠ some existing.representative then
      .error .representativeChange
    else
      match available.find? (·.id = existing.representative) with
      | none => .error .representativeUnavailable
      | some representative =>
        if ∀ new ∈ ids, new ∉ db.memberIds group →
            Validated policy validate evidence representative.id new then
          .ok representative
        else .error .memberMismatch

/-- The representative of a new group. -/
def chosenRepresentative (requested : Option Nat) (available : List Asset) :
    Except DedupError Asset :=
  match requested with
  | some id =>
    match available.find? (·.id = id) with
    | none => .error .representativeNotMember
    | some asset => .ok asset
  | none =>
    match L.best available with
    | none => .error .noAvailableAsset
    | some asset => .ok asset

/-- `_merge_assets`. -/
def mergeAssets (left right : Nat) (requested : Option Nat)
    (evidence : Evidence) : Except DedupError (Database × Merged) := do
  L.pairScope left right
  if (L.assets.filter fun asset => asset.id = left ∨ asset.id = right).length ≠ 2 then
    .error .assetsMissing
  else if 1 < (db.groupIds left right).length then .error .transitiveMerge
  else
    let ids := db.prospective left right
    L.groupScope ids
    let assets := L.assets.filter (·.id ∈ ids)
    if db.Blocked ids then .error .separateDecision
    else
      let available := assets.filter fun asset => db.IsAvailable asset.id
      match (db.groupIds left right).head? with
      | some group =>
        let representative ←
          keptRepresentative policy validate db group requested available ids evidence
        .ok (joinGroup db now group evidence.id representative assets)
      | none =>
        let representative ← chosenRepresentative L requested available
        .ok (joinGroup (db.addGroup representative.id) now db.nextId evidence.id
          representative assets)

/-! ### Deciding a case -/

/-- What `decide` finds when it looks the request up. -/
inductive Found
  | recorded (result : Receipt)
  | case (case : Case)

/-- The checks of `decide` before it changes anything. -/
def lookUp (request : Request) : Except DedupError Found :=
  match db.decisions.find? (·.idempotencyKey = request.idempotencyKey) with
  | some decision =>
    if decision.request ≠ request.toPayload then .error .idempotencyConflict
    else .ok (.recorded decision.result)
  | none =>
    match db.cases.find? (·.id = request.caseId) with
    | none => .error .caseNotFound
    | some case =>
      if case.revision ≠ request.expectedRevision ∨
          ¬(case.status = .pending ∨ case.status = .deferred) then
        .error .staleDedupCase
      else .ok (.case case)

def Database.replaceCase (old new : Case) : Database :=
  { db with cases := db.cases.map fun case => if case = old then new else case }

/-- The case gets its status, and the decision is recorded under its key. -/
def recordDecision (request : Request) (case : Case) (status : CaseStatus)
    (merged : Option Merged) : Database × Receipt :=
  let decided := { case with status, revision := case.revision + 1 }
  let receipt : Receipt :=
    { caseId := case.id
      action := request.action
      status
      revision := decided.revision
      representative := (merged.map Merged.representative).orElse fun _ => request.representative
      group := merged.map Merged.group
      storageActions := (merged.map Merged.storageActions).getD 0
      bytesReclaimable := (merged.map Merged.bytesReclaimable).getD 0 }
  let db := db.replaceCase case decided
  ({ db with decisions := db.decisions ++ [⟨request.idempotencyKey, request.toPayload, receipt⟩] },
    receipt)

/-- The representative that a merge is asked for. -/
def requestedRepresentative (request : Request) (case : Case) : Option Nat :=
  match request.representative, request.actorType with
  | some asset, _ => some asset
  | none, .system => none
  | none, .user => case.suggestedRepresentative

def decideCase (request : Request) (case : Case) :
    Except DedupError (Database × Receipt) := do
  match db.evidence.find? (·.id = case.evidence) with
  | none => .error .evidenceMissing
  | some evidence =>
    match request.action with
    | .merge =>
      let (db', merged) ← mergeAssets L policy validate now db case.left case.right
        (requestedRepresentative request case) evidence
      .ok (recordDecision db' request case .merged (some merged))
    | .separate => .ok (recordDecision db request case .separate none)
    | .defer => .ok (recordDecision db request case .deferred none)

/-- `AssetReconciliation.decide`. -/
def decide (request : Request) : Except DedupError (Database × Receipt) := do
  match ← lookUp db request with
  | .recorded result => .ok (db, result)
  | .case case => decideCase L policy validate now db request case

/-! ### Evaluating an asset -/

/-- `_ordered_pair`. -/
def orderedPair (left right : Nat) : Nat × Nat :=
  if left < right then (left, right) else (right, left)

/-- `_persist_evidence`. -/
def persistEvidence (left right : Nat) (facts : EvidenceFacts) :
    Database × Evidence :=
  let pair := orderedPair left right
  match db.evidence.find? fun evidence =>
      evidence.left = pair.1 ∧ evidence.right = pair.2 ∧
        evidence.facts.inputDigest = facts.inputDigest with
  | some evidence => (db, evidence)
  | none =>
    let evidence : Evidence := ⟨db.nextId, pair.1, pair.2, facts⟩
    ({ db with evidence := db.evidence ++ [evidence], nextId := db.nextId + 1 }, evidence)

/-- `_upsert_case`.  A separate case takes the new evidence and stays separate. -/
def upsertCase (left right : Asset) (evidence : Evidence) : Database × Case :=
  let pair := orderedPair left.id right.id
  let suggested := (L.best [left, right]).map Asset.id
  match db.cases.find? fun case => case.left = pair.1 ∧ case.right = pair.2 with
  | none =>
    let case : Case := ⟨db.nextId, pair.1, pair.2, evidence.id, .pending, 1, suggested⟩
    ({ db with cases := db.cases ++ [case], nextId := db.nextId + 1 }, case)
  | some case =>
    if case.evidence ≠ evidence.id ∧ case.status ≠ .merged then
      let updated : Case := { case with
        evidence := evidence.id
        revision := case.revision + 1
        suggestedRepresentative := suggested
        status := if case.status = .deferred then .pending else case.status }
      (db.replaceCase case updated, updated)
    else (db, case)

/-- `_can_auto_merge_groups`. -/
def CanAutoMergeGroups (left right : Nat) : Prop :=
  L.pairScope left right = .ok () ∧ db.groupIds left right = [] ∧
    L.groupScope [left, right] = .ok ()

end

instance (db : Database) (left right : Nat) : Decidable (CanAutoMergeGroups L db left right) :=
  have : DecidableEq (Except DedupError Unit) := fun
    | .ok (), .ok () => .isTrue rfl
    | .error e, .error f => decidable_of_iff (e = f) (by simp)
    | .ok _, .error _ => .isFalse nofun
    | .error _, .ok _ => .isFalse nofun
  inferInstanceAs (Decidable (_ ∧ _ ∧ _))

/-- The request of an automatic merge. -/
def automaticMerge (case : Case) (facts : EvidenceFacts) : Request where
  caseId := case.id
  expectedRevision := case.revision
  action := .merge
  representative := none
  reason := some "Automatic asset-level reconciliation".toList
  actorType := .system
  idempotencyKey := "asset-dedup:auto:".toList ++ L.idText case.id ++ ":".toList ++
    (toString case.revision).toList ++ ":".toList ++ facts.inputDigest

/-- The evidence alone calls for an automatic merge. -/
def ShouldAuto (evidence : Evidence) : Prop :=
  evidence.facts.sha256Equal = true ∨
    evidence.facts.hardGatePassed = true ∧ policy.autoGroupScore ≤ evidence.facts.totalScore

instance (evidence : Evidence) : Decidable (ShouldAuto policy evidence) :=
  inferInstanceAs (Decidable (_ ∨ _ ∧ _))

/-- The turn of `evaluate_asset` for one candidate. -/
def evaluateCandidate (autoApply : Bool) (asset candidate : Asset) (facts : EvidenceFacts)
    (db : Database) : Except DedupError Database :=
  match L.pairScope asset.id candidate.id with
  | .error _ => .ok db
  | .ok () =>
    if facts.sha256Equal = false ∧ facts.hardGatePassed = false then .ok db
    else if facts.totalScore < policy.reviewScore then .ok db
    else
      let (db₁, evidence) := persistEvidence db asset.id candidate.id facts
      let (db₂, case) := upsertCase L db₁ asset candidate evidence
      if autoApply = true ∧ policy.autoGroupEnabled = true ∧ ShouldAuto policy evidence ∧
          case.status = .pending ∧ CanAutoMergeGroups L db₂ asset.id candidate.id then
        (decide L policy validate now db₂ (automaticMerge L case evidence.facts)).map Prod.fst
      else .ok db₂

/-- The loop of `evaluate_asset`.  What one candidate wrote is committed before the next
one is looked at, and the first error ends the loop. -/
def evaluateCandidates (autoApply : Bool) (asset : Asset) :
    List (Asset × EvidenceFacts) → Database → Database
  | [], db => db
  | (candidate, facts) :: rest, db =>
    match evaluateCandidate L policy validate now autoApply asset candidate facts db with
    | .error _ => db
    | .ok db' => evaluateCandidates autoApply asset rest db'

/-- `evaluate_asset`, with the candidates that `_candidate_assets` gives and what
`_evaluate_pair` finds for each. -/
def evaluateAsset (autoApply : Bool) (id : Nat) (candidates : List (Asset × EvidenceFacts))
    (db : Database) : Database :=
  match L.assets.find? (·.id = id) with
  | none => db
  | some asset =>
    if asset.mimeType ∉ imageMimeTypes then db
    else if asset.sha256.getD [] = [] ∧ asset.phash.getD [] = [] then db
    else evaluateCandidates L policy validate now autoApply asset candidates db

end Merge

/-! ### Runs -/

/-- A call, with what it finds outside of the database. -/
inductive Call
  | evaluateAsset (autoApply : Bool) (id : Nat) (candidates : List (Asset × EvidenceFacts))
  | decide (request : Request)

structure Action where
  policy : Policy
  validate : Nat → Nat → EvidenceFacts
  now : Nat
  call : Call

/-- The database after a call.  A decision that fails changes nothing. -/
def step (L : Library) (db : Database) (action : Action) : Database :=
  match action.call with
  | .evaluateAsset autoApply id candidates =>
    evaluateAsset L action.policy action.validate action.now autoApply id candidates db
  | .decide request =>
    match decide L action.policy action.validate action.now db request with
    | .ok (db', _) => db'
    | .error _ => db

end AssetReconciliation
