import AutoGallery.PyText
import Mathlib.Data.Finmap
import Mathlib.Data.Finset.Sort
import Mathlib.Logic.Encodable.Basic
import Mathlib.Logic.Equiv.Multiset

/-!
# The sharded layout of Gitllery objects

A repository of schema version 2 keeps objects under their digests, a reference to its
HEAD commit, and a small manifest.  The state of an entity lives in the shard of its
key; a tree names the shards and, as `entries`, only what its own commit has changed; a
commit embeds the whole manifest but for its own digest.  A repository that was of
version 1 keeps its flat index as a base under the shards.

`applyCommitToRepoLocked` computes what one projection writes, in the order in which it
writes it.  A process that stops has written a part of that, from the front.
-/

namespace GitObjects

open PyText Encodable

abbrev Key := Text

/-- `str(commit.id)`. -/
abbrev CommitId := Text

section Data

variable (State Digest Prefix Details : Type)

/-- A change as the projection reads it.  `details` are its action, diff and impact. -/
structure Change where
  subjectType : Text
  subjectId : Text
  details : Details
  afterState : Option State

/-- A commit as the projection reads it.  `details` are the columns that are copied. -/
structure Commit where
  id : CommitId
  createdAt : Text
  details : Details

/-- `tree-shard-v2`; a key with `none` hides the entity of the base. -/
structure Shard where
  shardPrefix : Prefix
  entities : Finmap fun _ : Key => Option State
  entries : Finmap fun _ : Key => Option Digest

/-- The index of a version 1 repository under the shards; `index.json` in the source. -/
structure Base where
  tree : Option Digest

structure Tree where
  baseTree : Option Digest
  shards : Finmap fun _ : Prefix => Digest
  entries : Finmap fun _ : Key => Digest

/-- The manifest as a commit embeds it. -/
structure Projection where
  generation : Nat
  tree : Option Digest
  lastDbCommitId : Option CommitId
  lastDbCreatedAt : Option Text
  base : Option (Base Digest)
  shards : Finmap fun _ : Prefix => Digest

structure Manifest extends Projection Digest Prefix where
  head : Option Digest

/-- `_change_payload`. -/
structure ChangePayload where
  subjectType : Text
  subjectId : Text
  details : Details

/-- A commit object; those of version 1 have no projection. -/
structure CommitObject where
  tree : Option Digest
  parent : Option Digest
  dbCommitId : Option CommitId
  details : Details
  changes : List (ChangePayload Details)
  projection : Option (Projection Digest Prefix)

inductive GitObject where
  | blob (subjectType subjectId : Text) (state : State)
  | shard (shard : Shard State Digest Prefix)
  | tree (tree : Tree Digest Prefix)
  | commit (commit : CommitObject Digest Prefix Details)

/-- What the layout takes from the runtime: the SHA-256 of the canonical JSON of an
object, taken to be free of collisions, and the leading characters of the digest of a
key. -/
structure Layout where
  hashPayload : GitObject State Digest Prefix Details → Digest
  hashPayload_injective : Function.Injective hashPayload
  shardForEntity : Key → Prefix

/-- The files of a repository.  `manifest` is `none` if the file is missing, unreadable or
of another schema version, `legacyIndex` the entities of `index.json`. -/
structure Repo where
  objects : Finmap fun _ : Digest => GitObject State Digest Prefix Details
  head : Option Digest
  manifest : Option (Manifest Digest Prefix)
  legacyIndex : Option (Finmap fun _ : Key => State)

inductive Error where
  | cannotResolveHead
  | headFailedVerification
  | objectMissing (digest : Digest)
  | invalidShard (shardPrefix : Prefix)

/-- A file that is replaced at once. -/
inductive Write where
  | object (payload : GitObject State Digest Prefix Details)
  | head (commitHash : Digest)
  | manifest (manifest : Manifest Digest Prefix)

end Data

section Reading

variable {State Digest Prefix Details : Type} [DecidableEq Digest] [LinearOrder Prefix]
  (L : Layout State Digest Prefix Details)

/-- `f"{change.subject_type}/{change.subject_id}"`. -/
def entityKey (subjectType subjectId : Text) : Key := subjectType ++ '/' :: subjectId

def Change.key (change : Change State Details) : Key :=
  entityKey change.subjectType change.subjectId

section

variable (repo : Repo State Digest Prefix Details)

def Repo.read (digest : Digest) :
    Option (GitObject State Digest Prefix Details) :=
  repo.objects.lookup digest

/-- The keys of an object that is a commit. -/
def GitObject.asCommit : GitObject State Digest Prefix Details →
    Option (CommitObject Digest Prefix Details)
  | .commit c => some c
  | _ => none

/-- The object that HEAD names, verified. -/
def headObject :
    Except (Error Digest Prefix) (Option (CommitObject Digest Prefix Details)) :=
  match repo.head with
  | none => .ok none
  | some head =>
    match repo.read head with
    | none => .error .cannotResolveHead
    | some object =>
      if L.hashPayload object ≠ head then .error .headFailedVerification
      else .ok object.asCommit

/-- `projection_manifest_for_update`. -/
def projectionManifestForUpdate :
    Except (Error Digest Prefix) (Manifest Digest Prefix) :=
  match repo.manifest.filter fun existing => existing.head = repo.head with
  | some existing => .ok existing
  | none => do
    let object ← headObject L repo
    match object.bind (·.projection) with
    | some projection => return { projection with head := repo.head }
    | none =>
      match repo.manifest with
      | some existing => return existing
      | none =>
        return {
          generation := 0
          tree := object.bind (·.tree)
          lastDbCommitId := object.bind (·.dbCommitId)
          lastDbCreatedAt := none
          base := if repo.legacyIndex.isSome then some ⟨object.bind (·.tree)⟩ else none
          shards := ∅
          head := repo.head }

/-- `read_projection_shard`. -/
def readProjectionShard (shardPrefix : Prefix)
    (manifest : Projection Digest Prefix) :
    Except (Error Digest Prefix) (Shard State Digest Prefix) :=
  match manifest.shards.lookup shardPrefix with
  | none => .ok ⟨shardPrefix, ∅, ∅⟩
  | some digest =>
    match repo.read digest with
    | none => .error (.objectMissing digest)
    | some (.shard shard) => .ok shard
    | some _ => .error (.invalidShard shardPrefix)

/-- The entities of the base of a manifest. -/
def baseEntities (manifest : Projection Digest Prefix)
    (key : Key) : Option State :=
  if manifest.base.isSome then repo.legacyIndex.bind (·.lookup key) else none

/-- One shard laid over the entities: `none` deletes. -/
def layOver (shard : Shard State Digest Prefix) (entities : Key → Option State) (key : Key) :
    Option State :=
  match shard.entities.lookup key with
  | none => entities key
  | some state => state

/-- The base of a manifest overlaid by its shards. -/
def overlay (manifest : Projection Digest Prefix) :
    Except (Error Digest Prefix) (Key → Option State) :=
  (manifest.shards.keys.sort (· ≤ ·)).foldlM
    (fun entities shardPrefix => do
      let shard ← readProjectionShard repo shardPrefix manifest
      return layOver shard entities)
    (baseEntities repo manifest)

/-- The entities of `read_index`. -/
def readIndex :
    Except (Error Digest Prefix) (Key → Option State) :=
  match repo.manifest with
  | none => .ok fun key => repo.legacyIndex.bind (·.lookup key)
  | some manifest => overlay repo manifest.toProjection

/-- The index that the next projection starts from. -/
def effectiveIndex :
    Except (Error Digest Prefix) (Key → Option State) := do
  let manifest ← projectionManifestForUpdate L repo
  overlay repo manifest.toProjection

end

end Reading

section Writing

variable {State Digest Prefix Details : Type} [DecidableEq Digest] [LinearOrder Prefix]
  (L : Layout State Digest Prefix Details)

section

variable (repo : Repo State Digest Prefix Details)

/-- `write`: an object that is there is not written again. -/
def Repo.write :
    Write State Digest Prefix Details → Repo State Digest Prefix Details
  | .object payload =>
    if (repo.read (L.hashPayload payload)).isSome then repo
    else { repo with objects := repo.objects.insert (L.hashPayload payload) payload }
  | .head commitHash => { repo with head := some commitHash }
  | .manifest manifest => { repo with manifest := some manifest }

/-- What the loop over the changes keeps: the shards it has read, in the order of their
first change, the digests of what the commit has changed, and the objects to be written. -/
structure Applying (State Digest Prefix Details : Type) where
  affectedShards : List (Prefix × Shard State Digest Prefix)
  changedEntries : Finmap fun _ : Key => Digest
  payloads : List (GitObject State Digest Prefix Details)

/-- `affected_shards[prefix] = shard`. -/
def setShard (shardPrefix : Prefix) (shard : Shard State Digest Prefix) :
    List (Prefix × Shard State Digest Prefix) → List (Prefix × Shard State Digest Prefix)
  | [] => [(shardPrefix, shard)]
  | (first, old) :: rest =>
    if first = shardPrefix then (first, shard) :: rest
    else (first, old) :: setShard shardPrefix shard rest

section

variable (manifest : Projection Digest Prefix)

/-- The shard of a change: as the loop has it, or else as it is stored. -/
def affectedShard (shards : List (Prefix × Shard State Digest Prefix)) (shardPrefix : Prefix) :
    Except (Error Digest Prefix) (Shard State Digest Prefix) :=
  match shards.lookup shardPrefix with
  | some shard => .ok shard
  | none => readProjectionShard repo shardPrefix manifest

/-- The body of the loop over the changes. -/
def applyChange (acc : Applying State Digest Prefix Details) (change : Change State Details) :
    Except (Error Digest Prefix) (Applying State Digest Prefix Details) := do
  let key := change.key
  let shardPrefix := L.shardForEntity key
  let shard ← affectedShard repo manifest acc.affectedShards shardPrefix
  match change.afterState with
  | none =>
    let hidden : Shard State Digest Prefix :=
      if manifest.base.isSome then
        { shard with
          entities := shard.entities.insert key none
          entries := shard.entries.insert key none }
      else
        { shard with entities := shard.entities.erase key, entries := shard.entries.erase key }
    return { acc with
      affectedShards := setShard shardPrefix hidden acc.affectedShards
      changedEntries := acc.changedEntries.erase key }
  | some after =>
    let blob : GitObject State Digest Prefix Details :=
      .blob change.subjectType change.subjectId after
    let blobHash := L.hashPayload blob
    return {
      affectedShards := setShard shardPrefix { shard with
        entities := shard.entities.insert key (some after)
        entries := shard.entries.insert key (some blobHash) } acc.affectedShards
      changedEntries := acc.changedEntries.insert key blobHash
      payloads := acc.payloads ++ [blob] }

/-- The loop over the affected shards: a shard that has become empty is dropped unless
there is a base to hide. -/
def publishShards (legacy : Bool) :
    List (Prefix × Shard State Digest Prefix) → (Finmap fun _ : Prefix => Digest) →
      (Finmap fun _ : Prefix => Digest) × List (GitObject State Digest Prefix Details)
  | [], shards => (shards, [])
  | (shardPrefix, shard) :: rest, shards =>
    if shard.entities.keys = ∅ ∧ shard.entries.keys = ∅ ∧ legacy = false then
      publishShards legacy rest (shards.erase shardPrefix)
    else
      let payload : GitObject State Digest Prefix Details :=
        .shard ⟨shardPrefix, shard.entities, shard.entries⟩
      let (published, payloads) :=
        publishShards legacy rest (shards.insert shardPrefix (L.hashPayload payload))
      (published, payload :: payloads)

/-- The tree, the manifest and the commit object of a projection. -/
def treeOf (shards : Finmap fun _ : Prefix => Digest)
    (changedEntries : Finmap fun _ : Key => Digest) : Tree Digest Prefix where
  baseTree := manifest.base.bind (·.tree)
  shards := shards
  entries := changedEntries

def projectionOf (commit : Commit Details)
    (treeHash : Digest) (shards : Finmap fun _ : Prefix => Digest) : Projection Digest Prefix where
  generation := manifest.generation + 1
  tree := some treeHash
  lastDbCommitId := some commit.id
  lastDbCreatedAt := some commit.createdAt
  base := manifest.base
  shards := shards

def commitObjectOf (head : Option Digest) (commit : Commit Details)
    (changes : List (Change State Details)) (treeHash : Digest)
    (projection : Projection Digest Prefix) : CommitObject Digest Prefix Details where
  tree := some treeHash
  parent := head
  dbCommitId := some commit.id
  details := commit.details
  changes := changes.map fun change => ⟨change.subjectType, change.subjectId, change.details⟩
  projection := some projection

/-- The writes of a commit that is to be appended: objects, HEAD, manifest. -/
def appendWrites (commit : Commit Details) (changes : List (Change State Details))
    (acc : Applying State Digest Prefix Details) :
    List (Write State Digest Prefix Details) × Digest :=
  let (shards, shardPayloads) := publishShards L manifest.base.isSome acc.affectedShards manifest.shards
  let tree := treeOf manifest shards acc.changedEntries
  let treeHash := L.hashPayload (.tree tree)
  let projection := projectionOf manifest commit treeHash shards
  let commitObject := commitObjectOf repo.head commit changes treeHash projection
  let commitHash := L.hashPayload (.commit commitObject)
  ((acc.payloads ++ shardPayloads).map .object ++
    [.object (.tree tree), .object (.commit commitObject), .head commitHash,
      .manifest { projection with head := some commitHash }], commitHash)

end

/-- `_apply_commit_to_repo_locked`: the writes, in order, and the digest of the new commit
if there is one. -/
def applyCommitToRepoLocked (commit : Commit Details)
    (changes : List (Change State Details)) (projectedIds : Option (List CommitId)) :
    Except (Error Digest Prefix) (List (Write State Digest Prefix Details) × Option Digest) := do
  let object ← headObject L repo
  if object.bind (·.dbCommitId) = some commit.id then
    -- `recover_projection_manifest`
    match object.bind (·.projection) with
    | none => return ([], none)
    | some projection => return ([.manifest { projection with head := repo.head }], none)
  else
    let manifest ← projectionManifestForUpdate L repo
    let alreadyProjected : Bool :=
      match projectedIds with
      | some ids => commit.id ∈ ids
      | none => manifest.lastDbCommitId = some commit.id
    if alreadyProjected then return ([], none)
    else
      let acc ← changes.foldlM (applyChange L repo manifest.toProjection) ⟨[], ∅, []⟩
      let (writes, commitHash) := appendWrites L repo manifest.toProjection commit changes acc
      return (writes, some commitHash)

end

end Writing

section Numbering

variable {State Details : Type}

/-- The parts of the objects, as they enter a digest. -/
def Projection.parts (p : Projection ℕ ℕ) :
    ℕ × Option ℕ × Option CommitId × Option Text × Option (Option ℕ) × Multiset (Σ _ : ℕ, ℕ) :=
  (p.generation, p.tree, p.lastDbCommitId, p.lastDbCreatedAt, p.base.map (·.tree),
    p.shards.entries)

def CommitObject.parts (c : CommitObject ℕ ℕ Details) :
    Option ℕ × Option ℕ × Option CommitId × Details × List (Text × Text × Details) ×
      Option (ℕ × Option ℕ × Option CommitId × Option Text × Option (Option ℕ) ×
        Multiset (Σ _ : ℕ, ℕ)) :=
  (c.tree, c.parent, c.dbCommitId, c.details,
    c.changes.map fun change => (change.subjectType, change.subjectId, change.details),
    c.projection.map Projection.parts)

theorem Projection.parts_injective : Function.Injective Projection.parts := by
  rintro ⟨g, t, i, c, b, s⟩ ⟨g', t', i', c', b', s'⟩ h
  simp only [Projection.parts, Prod.mk.injEq] at h
  obtain ⟨rfl, rfl, rfl, rfl, hbase, hshards⟩ := h
  have hinj : Function.Injective (Base.tree : Base ℕ → Option ℕ) := by
    rintro ⟨_⟩ ⟨_⟩ rfl
    rfl
  rw [Option.map_injective hinj hbase, Finmap.ext hshards]

theorem CommitObject.parts_injective :
    Function.Injective (CommitObject.parts : CommitObject ℕ ℕ Details → _) := by
  rintro ⟨t, p, i, d, c, j⟩ ⟨t', p', i', d', c', j'⟩ h
  simp only [CommitObject.parts, Prod.mk.injEq] at h
  obtain ⟨rfl, rfl, rfl, rfl, hchanges, hprojection⟩ := h
  have hinj : Function.Injective fun change : ChangePayload Details =>
      (change.subjectType, change.subjectId, change.details) := by
    rintro ⟨_, _, _⟩ ⟨_, _, _⟩ hsame
    simpa using hsame
  rw [List.map_injective_iff.mpr hinj hchanges,
    Option.map_injective Projection.parts_injective hprojection]

instance encodableChar : Encodable Char := ofLeftInverse Char.toNat Char.ofNat Char.ofNat_toNat

/-- The `type` of an object. -/
def GitObject.kind : GitObject State ℕ ℕ Details → ℕ
  | .blob .. => 0
  | .shard _ => 1
  | .tree _ => 2
  | .commit _ => 3

def GitObject.body [Encodable State] [Encodable Details] : GitObject State ℕ ℕ Details → ℕ
  | .blob subjectType subjectId state => encode (subjectType, subjectId, state)
  | .shard s => encode (s.shardPrefix, s.entities.entries, s.entries.entries)
  | .tree t => encode (t.baseTree, t.shards.entries, t.entries.entries)
  | .commit c => encode c.parts

/-- The number of an object in an enumeration of all objects: a digest without collisions. -/
def GitObject.number [Encodable State] [Encodable Details] (object : GitObject State ℕ ℕ Details) :
    ℕ :=
  Nat.pair object.kind object.body

theorem GitObject.number_injective [Encodable State] [Encodable Details] :
    Function.Injective (number : GitObject State ℕ ℕ Details → ℕ) := by
  intro x y h
  obtain ⟨hkind, hbody⟩ := Nat.pair_eq_pair.mp h
  cases x with
  | blob subjectType subjectId state =>
    cases y with
    | blob =>
      simp only [body, encode_inj, Prod.mk.injEq] at hbody
      rw [hbody.1, hbody.2.1, hbody.2.2]
    | _ => cases hkind
  | shard s =>
    cases y with
    | shard t =>
      obtain ⟨_, _, _⟩ := s
      obtain ⟨_, _, _⟩ := t
      simp only [body, encode_inj, Prod.mk.injEq] at hbody
      rw [hbody.1, Finmap.ext hbody.2.1, Finmap.ext hbody.2.2]
    | _ => cases hkind
  | tree s =>
    cases y with
    | tree t =>
      obtain ⟨_, _, _⟩ := s
      obtain ⟨_, _, _⟩ := t
      simp only [body, encode_inj, Prod.mk.injEq] at hbody
      rw [hbody.1, Finmap.ext hbody.2.1, Finmap.ext hbody.2.2]
    | _ => cases hkind
  | commit c =>
    cases y with
    | commit d => rw [CommitObject.parts_injective (encode_inj.mp hbody)]
    | _ => cases hkind

/-- The numbers as digests, and shards by the length of the key. -/
def numbered [Encodable State] [Encodable Details] : Layout State ℕ ℕ Details where
  hashPayload := GitObject.number
  hashPayload_injective := GitObject.number_injective
  shardForEntity := List.length

end Numbering

end GitObjects
