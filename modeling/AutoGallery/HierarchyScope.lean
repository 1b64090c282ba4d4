import AutoGallery.CurationPurge

/-!
# The scope of a permanent deletion

Repositories, subscriptions or creators are deleted together with the works that belong to
them alone.  A work belongs to the targets alone if each of its sources has a creator
identity of the targets that nothing else claims: no repository that stays, and no source
creator of a creator that stays.  A repository without a creator id is resolved through
the source creators of its subscription's creator; if that finds nothing, it claims every
identity of its source.

The works are found by a query that compares source names in the database, and are then
looked at in the program.  For source names in ASCII both give the works that belong to the
targets alone (`mem_exclusiveWorks`).
-/

namespace HierarchyDeletion

open PyText List
open CurationPurge (Gallery WorkSource)

/-! ### Tables -/

structure Subscription where
  id : Nat
  creatorId : Nat
  deriving DecidableEq

/-- A row of `subscription_sources`. -/
structure Repository where
  id : Nat
  subscriptionId : Nat
  source : Text
  sourceCreatorId : Option Text
  sourceUrl : Option Text
  deriving DecidableEq

structure SourceCreator where
  source : Text
  sourceCreatorId : Text
  creatorId : Option Nat
  sourceUrl : Option Text
  deriving DecidableEq

structure Hierarchy where
  gallery : Gallery
  creators : List Nat
  subscriptions : List Subscription
  repositories : List Repository
  /-- in the order of their creation -/
  sourceCreators : List SourceCreator

/-- Case conversion of the program and of the database, and what the providers read from a
URL; a provider can raise. -/
structure Providers where
  casefold : Text → Text
  sqlLower : Text → Text
  casefold_ascii : ∀ t, (∀ c ∈ t, c.toNat < 128) → casefold t = t.map Char.toLower
  sqlLower_ascii : ∀ t, (∀ c ∈ t, c.toNat < 128) → sqlLower t = t.map Char.toLower
  /-- `registry.get(source).normalize_url(value)` -/
  normalizeUrl : Text → Text → Except Unit (Option Text)
  /-- `registry.get(source).get_creator_dir_from_url(value)` -/
  creatorDirFromUrl : Text → Text → Except Unit (Option Text)

inductive EntityType
  | repository
  | subscription
  | creator
  deriving DecidableEq

inductive DeletionError
  | targetRequired
  | targetNotFound
  | activeTasks
  | purge (error : CurationPurge.PurgeError)
  deriving DecidableEq

/-- The detail, or the code in it, that the request is refused with. -/
def DeletionError.message : DeletionError → Text
  | targetRequired => "at least one deletion target is required".toList
  | targetNotFound => "deletion_target_not_found".toList
  | activeTasks => "deletion_active_tasks".toList
  | purge error => error.message

abbrev Identity := Text × Text

section Scope

variable (P : Providers) (T : Hierarchy)

/-- The source name of an identity. -/
def sourceKey (source : Text) : Text :=
  let normalized := P.casefold (strip source)
  if normalized = "twitter".toList then "x".toList else normalized

/-- `_identity`. -/
def identity (source sourceCreatorId : Text) : Identity :=
  (sourceKey P source, sourceCreatorId)

/-- `_source_matches`, in the database. -/
def SourceMatches (column source : Text) : Prop :=
  if source = "x".toList then
    P.sqlLower column = "x".toList ∨ P.sqlLower column = "twitter".toList
  else P.sqlLower column = source

instance (column source : Text) : Decidable (SourceMatches P column source) := by
  unfold SourceMatches
  infer_instance

/-! ### Resolving a repository -/

/-- `_normalized_url`. -/
def normalizedUrl (source : Text) (value : Option Text) : Text :=
  let value := value.getD []
  if value = [] then []
  else
    match P.normalizeUrl source value with
    | .ok (some url) => P.casefold (rstrip (if url = [] then value else url) '/')
    | _ => P.casefold (rstrip value '/')

/-- The creator directory of a URL, or nothing if the provider raises or gives none. -/
def creatorDir (source : Text) (url : Option Text) : Text :=
  match P.creatorDirFromUrl source (url.getD []) with
  | .ok (some dir) => dir
  | _ => []

/-- `resolve_repository_source_creator_ids`. -/
def resolveRepositorySourceCreatorIds (repository : Repository) (creator : Nat) : List Text :=
  if repository.sourceCreatorId.getD [] ≠ [] then [repository.sourceCreatorId.getD []]
  else
    let candidates := T.sourceCreators.filter fun row =>
      row.creatorId = some creator ∧ row.source = repository.source
    let url := normalizedUrl P repository.source repository.sourceUrl
    let exact := candidates.filter fun row =>
      url ≠ [] ∧ normalizedUrl P row.source row.sourceUrl = url
    let dir := creatorDir P repository.source repository.sourceUrl
    let matching := candidates.filter fun row =>
      dir ≠ [] ∧ creatorDir P repository.source row.sourceUrl ≠ [] ∧
        P.casefold (creatorDir P repository.source row.sourceUrl) = P.casefold dir
    if exact ≠ [] then (exact.map SourceCreator.sourceCreatorId).dedup
    else (matching.map SourceCreator.sourceCreatorId).dedup

/-! ### Targets -/

structure Targets where
  entityType : EntityType
  creatorIds : List Nat
  subscriptionIds : List Nat
  repositoryIds : List Nat

/-- The repositories with the creators of their subscriptions. -/
def repositoryRows : List (Repository × Nat) :=
  T.repositories.flatMap fun repository =>
    (T.subscriptions.filter (·.id = repository.subscriptionId)).map fun subscription =>
      (repository, subscription.creatorId)

/-- `_load_targets`. -/
def loadTargets (entityType : EntityType) (ids : List Nat) : Except DeletionError Targets :=
  if ids = [] then .error .targetRequired
  else
    match entityType with
    | .repository =>
      let rows := (repositoryRows T).filter (·.1.id ∈ ids)
      if ∀ id ∈ ids, id ∈ rows.map (·.1.id) then
        .ok ⟨.repository, rows.map (·.2), rows.map (·.1.subscriptionId), rows.map (·.1.id)⟩
      else .error .targetNotFound
    | .subscription =>
      let rows := T.subscriptions.filter (·.id ∈ ids)
      let subscriptionIds := rows.map Subscription.id
      if ∀ id ∈ ids, id ∈ subscriptionIds then
        .ok ⟨.subscription, rows.map Subscription.creatorId, subscriptionIds,
          (T.repositories.filter (·.subscriptionId ∈ subscriptionIds)).map Repository.id⟩
      else .error .targetNotFound
    | .creator =>
      let creatorIds := T.creators.filter (· ∈ ids)
      if ∀ id ∈ ids, id ∈ creatorIds then
        let subscriptionIds := (T.subscriptions.filter (·.creatorId ∈ creatorIds)).map Subscription.id
        .ok ⟨.creator, creatorIds, subscriptionIds,
          (T.repositories.filter (·.subscriptionId ∈ subscriptionIds)).map Repository.id⟩
      else .error .targetNotFound

/-- A creator that the deletion does not remove. -/
def Targets.Survives (targets : Targets) (creator : Nat) : Prop :=
  targets.entityType = .creator → creator ∉ targets.creatorIds

instance (targets : Targets) (creator : Nat) : Decidable (targets.Survives creator) :=
  inferInstanceAs (Decidable (_ → _))

variable (targets : Targets)

/-- `_load_identities`: the identities of the targets. -/
def loadIdentities : List Identity :=
  ((T.sourceCreators.filter fun row =>
      targets.entityType = .creator ∧ ∃ creator ∈ row.creatorId, creator ∈ targets.creatorIds).map
    fun row => identity P row.source row.sourceCreatorId) ++
  ((repositoryRows T).filter (·.1.id ∈ targets.repositoryIds)).flatMap fun row =>
    (resolveRepositorySourceCreatorIds P T row.1 row.2).map (identity P row.1.source)

/-- The identities, of these or others, that a repository which stays claims. -/
def repositoryClaims (identities : List Identity) (row : Repository × Nat) : List Identity :=
  let ids := resolveRepositorySourceCreatorIds P T row.1 row.2
  if ids = [] then identities.filter (·.1 = sourceKey P row.1.source)
  else ids.map (identity P row.1.source)

def survivingClaims (identities : List Identity) : List Identity :=
  (((repositoryRows T).filter (·.1.id ∉ targets.repositoryIds)).flatMap
    (repositoryClaims P T identities)) ++
  ((T.sourceCreators.filter fun row =>
      ∃ creator ∈ row.creatorId, targets.Survives creator).map fun row =>
    identity P row.source row.sourceCreatorId)

/-- The creator identity of a work source. -/
def sourceIdentity (source : WorkSource) : Option Identity :=
  match source.sourceCreatorId with
  | some id => if id = [] then none else some (identity P source.source id)
  | none => none

/-- The works with a source that the query finds for one of the identities. -/
def affectedWorks (identities : List Identity) : List Nat :=
  ((T.gallery.workSources.filter fun source => ∃ identity ∈ identities,
      SourceMatches P source.source identity.1 ∧ source.sourceCreatorId = some identity.2).map
    WorkSource.workId).dedup

/-- `_load_work_scope`: the works that are deleted. -/
def exclusiveWorks : List Nat :=
  let identities := loadIdentities P T targets
  let deletable := identities.filter (· ∉ survivingClaims P T targets identities)
  (affectedWorks P T identities).filter fun work =>
    ∀ source ∈ T.gallery.workSources, source.workId = work →
      ∃ identity ∈ sourceIdentity P source, identity ∈ deletable

/-! ### What belongs to the targets alone -/

/-- The identity belongs to a target. -/
def Belongs (i : Identity) : Prop :=
  (targets.entityType = .creator ∧ ∃ row ∈ T.sourceCreators,
    (∃ creator ∈ row.creatorId, creator ∈ targets.creatorIds) ∧
      i = identity P row.source row.sourceCreatorId) ∨
  ∃ row ∈ repositoryRows T, row.1.id ∈ targets.repositoryIds ∧
    ∃ id ∈ resolveRepositorySourceCreatorIds P T row.1 row.2, i = identity P row.1.source id

/-- A repository claims the identity: by its creator id, else by an id that it is resolved
to, else by its source. -/
def Claims (row : Repository × Nat) (i : Identity) : Prop :=
  let ids := resolveRepositorySourceCreatorIds P T row.1 row.2
  (ids = [] ∧ i.1 = sourceKey P row.1.source) ∨ ∃ id ∈ ids, i = identity P row.1.source id

/-- Something that stays claims the identity. -/
def ClaimedElsewhere (i : Identity) : Prop :=
  (∃ row ∈ repositoryRows T, row.1.id ∉ targets.repositoryIds ∧ Claims P T row i) ∨
  ∃ row ∈ T.sourceCreators, (∃ creator ∈ row.creatorId, targets.Survives creator) ∧
    i = identity P row.source row.sourceCreatorId

/-- The work has sources, and each one has an identity that belongs to the targets and that
nothing else claims. -/
def Owned (work : Nat) : Prop :=
  (∃ source ∈ T.gallery.workSources, source.workId = work) ∧
  ∀ source ∈ T.gallery.workSources, source.workId = work →
    ∃ i ∈ sourceIdentity P source, Belongs P T targets i ∧ ¬ClaimedElsewhere P T targets i

variable {P T targets}

variable {i : Identity} {identities : List Identity}

theorem mem_loadIdentities : i ∈ loadIdentities P T targets ↔ Belongs P T targets i := by
  simp only [loadIdentities, Belongs, mem_append, mem_map, mem_filter,
    mem_flatMap, decide_eq_true_eq, and_assoc, eq_comm (a := i),
    exists_and_left, and_left_comm (b := targets.entityType = .creator)]

theorem mem_repositoryClaims {row : Repository × Nat} (hi : i ∈ identities) :
    i ∈ repositoryClaims P T identities row ↔ Claims P T row i := by
  unfold repositoryClaims Claims
  dsimp only
  split_ifs with hnone
  · simp [hnone, hi]
  simp only [hnone, mem_map, false_and, false_or, eq_comm]

theorem mem_survivingClaims (hi : i ∈ identities) :
    i ∈ survivingClaims P T targets identities ↔ ClaimedElsewhere P T targets i := by
  simp only [survivingClaims, ClaimedElsewhere, mem_append, mem_flatMap, mem_filter,
    mem_map, decide_eq_true_eq, mem_repositoryClaims hi, and_assoc,
    eq_comm (a := i)]

/-- A source name in ASCII, without blanks around it. -/
def PlainName (source : Text) : Prop :=
  (∀ c ∈ source, c.toNat < 128) ∧ strip source = source

instance (source : Text) : Decidable (PlainName source) :=
  inferInstanceAs (Decidable (_ ∧ _))

/-- For plain names the query finds a source by its identity. -/
theorem sourceMatches_sourceKey {source : Text} (h : PlainName source) :
    SourceMatches P source (sourceKey P source) := by
  obtain ⟨hascii, hstrip⟩ := h
  have hlower : P.sqlLower source = P.casefold source := by
    rw [P.sqlLower_ascii source hascii, P.casefold_ascii source hascii]
  unfold SourceMatches sourceKey
  rw [hstrip, hlower]
  dsimp only
  by_cases htwitter : P.casefold source = "twitter".toList
  · simp [htwitter]
  · rw [if_neg htwitter]
    split_ifs with hx
    · exact .inl hx
    · rfl

/-- The works that are deleted are those that belong to the targets alone. -/
theorem mem_exclusiveWorks (hplain : ∀ source ∈ T.gallery.workSources, PlainName source.source)
    {work : Nat} : work ∈ exclusiveWorks P T targets ↔ Owned P T targets work := by
  have hdeletable : ∀ i, i ∈ (loadIdentities P T targets).filter
      (· ∉ survivingClaims P T targets (loadIdentities P T targets)) ↔
      Belongs P T targets i ∧ ¬ClaimedElsewhere P T targets i := by
    intro i
    rw [mem_filter, mem_loadIdentities, decide_eq_true_eq]
    exact and_congr_right fun hi =>
      not_congr (mem_survivingClaims (mem_loadIdentities.mpr hi))
  unfold exclusiveWorks
  dsimp only
  rw [mem_filter, decide_eq_true_eq]
  constructor
  · rintro ⟨haffected, hall⟩
    refine ⟨?_, fun source hsource hwork => ?_⟩
    · obtain ⟨source, hsource, hwork⟩ := mem_map.mp (mem_dedup.mp haffected)
      exact ⟨source, (mem_filter.mp hsource).1, hwork⟩
    · obtain ⟨i, hi, hmem⟩ := hall source hsource hwork
      exact ⟨i, hi, (hdeletable i).mp hmem⟩
  · rintro ⟨⟨source, hsource, hwork⟩, hall⟩
    refine ⟨mem_dedup.mpr (mem_map.mpr ⟨source, mem_filter.mpr ⟨hsource, ?_⟩, hwork⟩),
      fun source hsource hwork => ?_⟩
    · -- the source itself matches the query by its own identity
      obtain ⟨i, hi, hbelongs, -⟩ := hall source hsource hwork
      unfold sourceIdentity at hi
      split at hi
      next id hid =>
        split_ifs at hi
        · cases hi
        · obtain rfl : identity P source.source id = i := by simpa using hi
          exact decide_eq_true ⟨_, mem_loadIdentities.mpr hbelongs,
            sourceMatches_sourceKey (hplain source hsource), hid⟩
      next => cases hi
    · obtain ⟨i, hi, howned⟩ := hall source hsource hwork
      exact ⟨i, hi, (hdeletable i).mpr howned⟩

end Scope

end HierarchyDeletion
