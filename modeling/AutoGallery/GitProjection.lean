import AutoGallery.GitObjects
import AutoGallery.Overlays

/-!
# Projections that stop and start again

What a repository says is the chain of commits from HEAD and the index that the next
projection starts from (`Projected`).  Objects alone change neither.  HEAD is where a
commit is published: from then on the chain has it, and the index is the one its commit
object embeds, whether or not the manifest has been replaced.  So a process may stop
after any write: the commit is in the chain not at all or once, and trying it again
brings it in or finds it there (`projection_recovers`).
-/

namespace GitObjects

open PyText Overlays List Finmap Function

variable {State Digest Prefix Details : Type} [DecidableEq Digest] [LinearOrder Prefix]
  {L : Layout State Digest Prefix Details} {repo repo' : Repo State Digest Prefix Details}
  {manifest projection : Projection Digest Prefix} {shards : List (Prefix × Shard State Digest Prefix)}
  {chain : List (CommitObject Digest Prefix Details)} {index : Key → Option State}
  {payloads : List (GitObject State Digest Prefix Details)}
  {object : CommitObject Digest Prefix Details}

variable {next : Projection Digest Prefix} {acc : Applying State Digest Prefix Details}
  {keys : List Key} {digest : Digest}

section Store

variable (L repo) in
/-- Every object is found under its own digest. -/
def WellAddressed : Prop :=
  ∀ digest object, repo.read digest = some object → L.hashPayload object = digest

/-- No object and no entity of the base is lost. -/
structure Kept (repo repo' : Repo State Digest Prefix Details) : Prop where
  objects : ∀ digest object, repo.read digest = some object → repo'.read digest = some object
  legacyIndex : repo'.legacyIndex = repo.legacyIndex

/-- Objects may have been added, and nothing else has changed. -/
structure Grown (repo repo' : Repo State Digest Prefix Details) : Prop extends Kept repo repo' where
  head : repo'.head = repo.head
  manifest : repo'.manifest = repo.manifest

section

omit [LinearOrder Prefix]

theorem Grown.refl (repo : Repo State Digest Prefix Details) : Grown repo repo :=
  ⟨⟨fun _ _ h => h, rfl⟩, rfl, rfl⟩

theorem Grown.trans {repo'' : Repo State Digest Prefix Details} (h : Grown repo repo')
    (h' : Grown repo' repo'') : Grown repo repo'' where
  objects := fun d o hd => h'.objects d o (h.objects d o hd)
  head := h'.head.trans h.head
  manifest := h'.manifest.trans h.manifest
  legacyIndex := h'.legacyIndex.trans h.legacyIndex

/-- Writing an object makes it readable, and takes nothing away. -/
theorem write_object (haddressed : WellAddressed L repo)
    (payload : GitObject State Digest Prefix Details) :
    Grown repo (repo.write L (.object payload)) ∧
      WellAddressed L (repo.write L (.object payload)) ∧
      (repo.write L (.object payload)).read (L.hashPayload payload) = some payload := by
  unfold Repo.write
  dsimp only
  split
  next hthere =>
    obtain ⟨object, hobject⟩ := Option.isSome_iff_exists.mp hthere
    have hsame : object = payload :=
      L.hashPayload_injective (haddressed _ object hobject)
    exact ⟨Grown.refl repo, haddressed, hsame ▸ hobject⟩
  next hmissing =>
    rw [Option.not_isSome_iff_eq_none] at hmissing
    have hother : ∀ digest, digest ≠ L.hashPayload payload →
        (repo.objects.insert (L.hashPayload payload) payload).lookup digest = repo.read digest :=
      fun digest hne => lookup_insert_of_ne _ hne
    refine ⟨⟨⟨fun digest object hobject => ?_, rfl⟩, rfl, rfl⟩, fun digest object hobject => ?_,
      lookup_insert _⟩
    · have hne : digest ≠ L.hashPayload payload := by
        rintro rfl
        rw [hmissing] at hobject
        cases hobject
      exact (hother digest hne).trans hobject
    · by_cases hdigest : digest = L.hashPayload payload
      · subst hdigest
        have hfound : some payload = some object :=
          (lookup_insert repo.objects).symm.trans hobject
        cases hfound
        rfl
      · exact haddressed digest object ((hother digest hdigest).symm.trans hobject)

end

variable (L repo) in
/-- The writes one after the other. -/
def writeAll
    (writes : List (Write State Digest Prefix Details)) : Repo State Digest Prefix Details :=
  writes.foldl (Repo.write L) repo

section

omit [LinearOrder Prefix]

theorem writeAll_append (repo : Repo State Digest Prefix Details)
    (writes more : List (Write State Digest Prefix Details)) :
    writeAll L repo (writes ++ more) = writeAll L (writeAll L repo writes) more :=
  foldl_append ..

/-- Writing objects makes them all readable. -/
theorem writeAll_objects (haddressed : WellAddressed L repo)
    (payloads : List (GitObject State Digest Prefix Details)) :
    Grown repo (writeAll L repo (payloads.map .object)) ∧
      WellAddressed L (writeAll L repo (payloads.map .object)) ∧
      ∀ payload ∈ payloads,
        (writeAll L repo (payloads.map .object)).read (L.hashPayload payload) = some payload := by
  induction payloads generalizing repo with
  | nil => exact ⟨Grown.refl repo, haddressed, by simp⟩
  | cons first rest ih =>
    obtain ⟨hgrown, hfirst, hread⟩ := write_object haddressed first
    obtain ⟨hgrown', hrest, hreads⟩ := ih hfirst
    refine ⟨hgrown.trans hgrown', hrest, fun payload hpayload => ?_⟩
    rcases mem_cons.mp hpayload with rfl | hmem
    · exact hgrown'.objects _ _ hread
    · exact hreads payload hmem

end

end Store

section Overlay

section

variable (L repo manifest)

/-- The shards of a manifest are there, and each holds keys of its own only. -/
def Sharded : Prop :=
  ∀ shardPrefix digest, manifest.shards.lookup shardPrefix = some digest →
    ∃ shard, repo.read digest = some (.shard shard) ∧
      ∀ key ∈ shard.entities, L.shardForEntity key = shardPrefix

/-- What the shards say of a key. -/
def shardView (key : Key) : Option (Option State) :=
  match readProjectionShard repo (L.shardForEntity key) manifest with
  | .ok shard => shard.entities.lookup key
  | .error _ => none

/-- What the manifest says of a key: what the shards say, or else the base. -/
def entitiesOf (key : Key) : Option State :=
  (shardView L repo manifest key).getD (baseEntities repo manifest key)

end

/-- A shard can be read, whether or not it is there yet. -/
theorem Sharded.readProjectionShard (h : Sharded L repo manifest) (shardPrefix : Prefix) :
    ∃ shard, GitObjects.readProjectionShard repo shardPrefix manifest = .ok shard ∧
      ∀ key ∈ shard.entities, L.shardForEntity key = shardPrefix := by
  unfold GitObjects.readProjectionShard
  cases hlookup : manifest.shards.lookup shardPrefix with
  | none => exact ⟨_, rfl, fun key hkey => absurd hkey notMem_empty⟩
  | some digest =>
    obtain ⟨shard, hread, hkeys⟩ := h shardPrefix digest hlookup
    dsimp only
    rw [hread]
    exact ⟨shard, rfl, hkeys⟩

variable (repo manifest) in
/-- The shard of a prefix, as it is read. -/
def shardAt (shardPrefix : Prefix) : Shard State Digest Prefix :=
  match GitObjects.readProjectionShard repo shardPrefix manifest with
  | .ok shard => shard
  | .error _ => ⟨shardPrefix, ∅, ∅⟩

section

variable (h : Sharded L repo manifest)
include h

theorem Sharded.shardAt (shardPrefix : Prefix) :
    GitObjects.readProjectionShard repo shardPrefix manifest =
        .ok (shardAt repo manifest shardPrefix) ∧
      ∀ key ∈ (shardAt repo manifest shardPrefix).entities, L.shardForEntity key = shardPrefix := by
  obtain ⟨shard, hread, hkeys⟩ := h.readProjectionShard shardPrefix
  unfold GitObjects.shardAt
  rw [hread]
  exact ⟨rfl, hkeys⟩

/-- A loop that reads shard after shard. -/
theorem Sharded.foldlM {A : Type} (f : A → Shard State Digest Prefix → A) (prefixes : List Prefix)
    (acc : A) :
    prefixes.foldlM (fun acc shardPrefix => do
        let shard ← GitObjects.readProjectionShard repo shardPrefix manifest
        return f acc shard) acc =
      (.ok (prefixes.foldl (fun acc p => f acc (GitObjects.shardAt repo manifest p)) acc) :
        Except (Error Digest Prefix) A) := by
  induction prefixes generalizing acc with
  | nil => rfl
  | cons first rest ih =>
    rw [foldlM_cons, (h.shardAt first).1]
    exact ih _

/-- The shards laid one over the other touch a key at most once. -/
theorem Sharded.laid :
    (manifest.shards.keys.sort (· ≤ ·)).foldl
      (fun entities p => Overlays.laid (GitObjects.shardAt repo manifest p).entities entities)
      (baseEntities repo manifest) = entitiesOf L repo manifest := by
  funext key
  rw [foldl_laid L.shardForEntity (fun p => (GitObjects.shardAt repo manifest p).entities)
    (fun p => (h.shardAt p).2) (Finset.sort_nodup _ _)]
  unfold entitiesOf shardView
  rw [(h.shardAt _).1]
  split
  · rfl
  rename_i hnot
  have hmissing : L.shardForEntity key ∉ manifest.shards := by
    simpa [Finmap.mem_keys] using hnot
  have hempty : GitObjects.shardAt repo manifest (L.shardForEntity key) =
      ⟨L.shardForEntity key, ∅, ∅⟩ := by
    unfold GitObjects.shardAt GitObjects.readProjectionShard
    rw [Finmap.lookup_eq_none.mpr hmissing]
  rw [hempty]
  simp [Finmap.lookup_empty]

/-- A shard that two manifests share is read alike, also after further objects. -/
theorem Sharded.readProjectionShard_kept (hkept : Kept repo repo') {shardPrefix : Prefix}
    (hsame : next.shards.lookup shardPrefix = manifest.shards.lookup shardPrefix) :
    GitObjects.readProjectionShard repo' shardPrefix next =
      GitObjects.readProjectionShard repo shardPrefix manifest := by
  unfold GitObjects.readProjectionShard
  rw [hsame]
  cases hlookup : manifest.shards.lookup shardPrefix with
  | none => rfl
  | some digest =>
    obtain ⟨shard, hread, -⟩ := h _ digest hlookup
    dsimp only
    rw [hread, hkept.objects _ _ hread]

theorem overlay_eq :
    overlay repo manifest = .ok (entitiesOf L repo manifest) := by
  have hlaid : ∀ (shard : Shard State Digest Prefix) (entities : Key → Option State),
      layOver shard entities = Overlays.laid shard.entities entities := by
    intro shard entities
    funext key
    unfold layOver Overlays.laid
    cases shard.entities.lookup key <;> rfl
  unfold overlay
  rw [h.foldlM fun entities shard => layOver shard entities, ← h.laid]
  simp only [hlaid]

/-- Further objects change nothing that a manifest says. -/
theorem Sharded.kept (hgrown : Kept repo repo') :
    Sharded L repo' manifest ∧ entitiesOf L repo' manifest = entitiesOf L repo manifest := by
  refine ⟨fun shardPrefix digest hlookup => ?_, funext fun key => ?_⟩
  · obtain ⟨shard, hread, hkeys⟩ := h shardPrefix digest hlookup
    exact ⟨shard, hgrown.objects _ _ hread, hkeys⟩
  have hbase : baseEntities repo' manifest key = baseEntities repo manifest key := by
    unfold baseEntities
    rw [hgrown.legacyIndex]
  unfold entitiesOf shardView
  rw [hbase, h.readProjectionShard_kept hgrown rfl]

end

end Overlay

section Loop

omit [DecidableEq Digest] in
theorem assigns_setShard (shardPrefix : Prefix) (shard : Shard State Digest Prefix) :
    Assigns (setShard shardPrefix shard) shardPrefix shard :=
  ⟨rfl, fun _ _ _ => rfl⟩

variable (L repo manifest shards) in
/-- What the shards say of a key once the loop has come so far. -/
def viewIn (key : Key) : Option (Option State) :=
  match shards.lookup (L.shardForEntity key) with
  | some shard => shard.entities.lookup key
  | none => shardView L repo manifest key

variable (L repo manifest shards index) in
/-- The shards that the loop has read so far say what the index says so far. -/
structure ShardsSay : Prop where
  nodup : (shards.map Prod.fst).Nodup
  keys : ∀ shardPrefix shard, shards.lookup shardPrefix = some shard →
    ∀ key ∈ shard.entities, L.shardForEntity key = shardPrefix
  entities : ∀ key,
    (viewIn L repo manifest shards key).getD (baseEntities repo manifest key) = index key

/-- The shard that the loop takes for a change is the one that speaks for its keys. -/
theorem ShardsSay.current (h : ShardsSay L repo manifest shards index)
    (hsharded : Sharded L repo manifest) (shardPrefix : Prefix) :
    ∃ shard, affectedShard repo manifest shards shardPrefix = .ok shard ∧
      (∀ key ∈ shard.entities, L.shardForEntity key = shardPrefix) ∧
      ∀ key, L.shardForEntity key = shardPrefix →
        shard.entities.lookup key = viewIn L repo manifest shards key := by
  unfold affectedShard
  cases hlookup : shards.lookup shardPrefix with
  | some shard =>
    refine ⟨shard, rfl, h.keys shardPrefix shard hlookup, fun key hkey => ?_⟩
    unfold viewIn
    rw [hkey, hlookup]
  | none =>
    obtain ⟨shard, hread, hkeys⟩ := hsharded.readProjectionShard shardPrefix
    refine ⟨shard, hread, hkeys, fun key hkey => ?_⟩
    unfold viewIn shardView
    rw [hkey, hlookup]
    dsimp only
    rw [hread]

/-- One entity is written in its shard. -/
theorem ShardsSay.set (h : ShardsSay L repo manifest shards index) {key : Key}
    {shard shard' : Shard State Digest Prefix} {said : Option (Option State)} {after : Option State}
    (hkeys : ∀ other ∈ shard.entities, L.shardForEntity other = L.shardForEntity key)
    (hview : ∀ other, L.shardForEntity other = L.shardForEntity key →
      shard.entities.lookup other = viewIn L repo manifest shards other)
    (hsaid : shard'.entities.lookup key = said)
    (hother : ∀ other, other ≠ key → shard'.entities.lookup other = shard.entities.lookup other)
    (hafter : said.getD (baseEntities repo manifest key) = after) :
    ShardsSay L repo manifest (setShard (L.shardForEntity key) shard' shards)
      (update index key after) where
  nodup := (assigns_setShard _ _).nodup h.nodup
  keys := by
    intro shardPrefix found hfound other hmem
    rw [(assigns_setShard _ _).lookup] at hfound
    split at hfound
    next hshard =>
      cases hfound
      rw [hshard]
      by_cases hsame : other = key
      · rw [hsame]
      · obtain ⟨value, hvalue⟩ := mem_iff.mp hmem
        rw [hother other hsame] at hvalue
        exact hkeys other (mem_of_lookup_eq_some hvalue)
    · exact h.keys shardPrefix found hfound other hmem
  entities := by
    intro other
    unfold viewIn
    rw [(assigns_setShard _ _).lookup]
    by_cases hsame : other = key
    · subst hsame
      rw [if_pos rfl, update_self]
      dsimp only
      rw [hsaid, hafter]
    · rw [update_of_ne hsame]
      by_cases hshard : L.shardForEntity other = L.shardForEntity key
      · rw [if_pos hshard]
        dsimp only
        rw [hother other hsame, hview other hshard, h.entities other]
      · rw [if_neg hshard]
        exact h.entities other

/-- What a change makes of an index. -/
def applied (index : Key → Option State) (change : Change State Details) : Key → Option State :=
  update index change.key change.afterState

variable (L repo manifest acc) in
/-- What holds as the loop over the changes goes on. -/
structure LoopInvariant (index : Key → Option State) (keys : List Key) : Prop where
  shards : ShardsSay L repo manifest acc.affectedShards index
  /-- the entries of the tree are the entities that the commit leaves changed -/
  entries : ∀ key, key ∈ acc.changedEntries ↔ key ∈ keys ∧ index key ≠ none
  blobs : ∀ key digest, acc.changedEntries.lookup key = some digest →
    ∃ subjectType subjectId state, digest = L.hashPayload (.blob subjectType subjectId state) ∧
      .blob subjectType subjectId state ∈ acc.payloads ∧ index key = some state

section

variable (hsharded : Sharded L repo manifest) (h : LoopInvariant L repo manifest acc index keys)
include hsharded h

theorem applyChange_ok (change : Change State Details) :
    ∃ acc', applyChange L repo manifest acc change = .ok acc' ∧
      LoopInvariant L repo manifest acc' (applied index change) (keys ++ [change.key]) := by
  obtain ⟨shard, hcurrent, hkeys, hview⟩ := h.shards.current hsharded (L.shardForEntity change.key)
  unfold applyChange applied
  dsimp only
  rw [hcurrent]
  cases change.afterState with
  | none =>
    refine ⟨_, rfl, ⟨?_, fun key => ?_, fun key digest hlookup => ?_⟩⟩
    · split
      · exact h.shards.set hkeys hview (lookup_insert _)
          (fun other hne => lookup_insert_of_ne _ hne) rfl
      next hbase =>
        refine h.shards.set hkeys hview (lookup_erase _ _) (fun other hne => lookup_erase_ne hne) ?_
        unfold baseEntities
        rw [if_neg hbase]
        rfl
    · rw [mem_erase, h.entries]
      by_cases hsame : key = change.key
      · simp [hsame]
      · simp [hsame]
    · have hsame : key ≠ change.key := by
        rintro rfl
        rw [lookup_erase] at hlookup
        cases hlookup
      rw [lookup_erase_ne hsame] at hlookup
      rw [update_of_ne hsame]
      exact h.blobs key digest hlookup
  | some after =>
    refine ⟨_, rfl, ⟨?_, fun key => ?_, fun key digest hlookup => ?_⟩⟩
    · exact h.shards.set hkeys hview (lookup_insert _)
        (fun other hne => lookup_insert_of_ne _ hne) rfl
    · rw [mem_insert, h.entries]
      by_cases hsame : key = change.key
      · simp [hsame]
      · simp [hsame]
    · by_cases hsame : key = change.key
      · subst hsame
        rw [lookup_insert] at hlookup
        cases hlookup
        exact ⟨_, _, after, rfl, by simp, update_self ..⟩
      · rw [lookup_insert_of_ne _ hsame] at hlookup
        obtain ⟨subjectType, subjectId, state, hdigest, hmem, hindex⟩ := h.blobs key digest hlookup
        refine ⟨subjectType, subjectId, state, hdigest, mem_append_left _ hmem, ?_⟩
        rw [update_of_ne hsame]
        exact hindex

/-- The loop over the changes. -/
theorem applyChanges_ok (changes : List (Change State Details)) :
    ∃ acc', changes.foldlM (applyChange L repo manifest) acc = .ok acc' ∧
      LoopInvariant L repo manifest acc' (changes.foldl applied index)
        (keys ++ changes.map (·.key)) := by
  induction changes generalizing acc index keys with
  | nil => exact ⟨acc, rfl, by simpa using h⟩
  | cons change rest ih =>
    obtain ⟨next, hnext, hinv⟩ := applyChange_ok hsharded h change
    obtain ⟨last, hlast, hinv'⟩ := ih hinv
    refine ⟨last, ?_, by simpa using hinv'⟩
    rw [foldlM_cons, hnext]
    exact hlast

end

variable (repo manifest) in
theorem loopInvariant_start :
    LoopInvariant L repo manifest ⟨[], ∅, []⟩ (entitiesOf L repo manifest) [] where
  shards := ⟨by simp, nofun, fun _ => rfl⟩
  entries := fun key => by simp [notMem_empty]
  blobs := fun key digest hlookup => by
    rw [lookup_empty] at hlookup
    cases hlookup

end Loop

section Publishing

/-- The shard is dropped rather than written. -/
def Dropped (legacy : Bool) (shard : Shard State Digest Prefix) : Prop :=
  shard.entities.keys = ∅ ∧ shard.entries.keys = ∅ ∧ legacy = false

omit [DecidableEq Digest] in
/-- The shards that the tree names, and the objects that go with them. -/
theorem publishShards_spec (legacy : Bool) (affected : List (Prefix × Shard State Digest Prefix))
    (hnodup : (affected.map Prod.fst).Nodup) (shards : Finmap fun _ : Prefix => Digest)
    (shardPrefix : Prefix) :
    (affected.lookup shardPrefix = none →
      (publishShards L legacy affected shards).1.lookup shardPrefix = shards.lookup shardPrefix) ∧
    ∀ shard, affected.lookup shardPrefix = some shard →
      (Dropped legacy shard →
        (publishShards L legacy affected shards).1.lookup shardPrefix = none) ∧
      (¬ Dropped legacy shard →
        (publishShards L legacy affected shards).1.lookup shardPrefix =
            some (L.hashPayload (.shard ⟨shardPrefix, shard.entities, shard.entries⟩)) ∧
          .shard ⟨shardPrefix, shard.entities, shard.entries⟩ ∈
            (publishShards L legacy affected shards).2) := by
  induction affected generalizing shards with
  | nil => exact ⟨fun _ => rfl, nofun⟩
  | cons first rest ih =>
    obtain ⟨name, found⟩ := first
    obtain ⟨hname, hrest⟩ := nodup_cons.mp hnodup
    by_cases hsame : shardPrefix = name
    · subst hsame
      have hnone : rest.lookup shardPrefix = none := by
        rw [lookup_eq_none_iff]
        intro entry hentry
        have hne : shardPrefix ≠ entry.1 :=
          fun h => hname (mem_map.mpr ⟨entry, hentry, h.symm⟩)
        simpa using hne
      refine ⟨fun h => absurd h (by simp), fun shard hshard => ?_⟩
      have hfound : found = shard := by simpa using hshard
      subst hfound
      unfold publishShards
      split
      next hdropped =>
        refine ⟨fun _ => ?_, fun h => absurd hdropped h⟩
        rw [(ih hrest (shards.erase shardPrefix)).1 hnone, lookup_erase]
      next hwritten =>
        refine ⟨fun h => absurd h hwritten, fun _ => ⟨?_, mem_cons_self⟩⟩
        exact ((ih hrest _).1 hnone).trans (lookup_insert _)
    · have hlookup : lookup shardPrefix ((name, found) :: rest) = rest.lookup shardPrefix := by
        rw [lookup_cons, beq_false_of_ne hsame]
      rw [hlookup]
      unfold publishShards
      split
      · have hshards : (shards.erase name).lookup shardPrefix = shards.lookup shardPrefix :=
          lookup_erase_ne hsame
        have hih := ih hrest (shards.erase name)
        rw [hshards] at hih
        exact hih
      · have hshards : ∀ digest, (shards.insert name digest).lookup shardPrefix =
            shards.lookup shardPrefix := fun digest => lookup_insert_of_ne _ hsame
        obtain ⟨hnone, hsome⟩ := ih hrest (shards.insert name (L.hashPayload
          (.shard ⟨name, found.entities, found.entries⟩)))
        rw [hshards] at hnone
        refine ⟨hnone, fun shard hshard => ⟨(hsome shard hshard).1, fun hwritten => ?_⟩⟩
        obtain ⟨hdigest, hmem⟩ := (hsome shard hshard).2 hwritten
        exact ⟨hdigest, mem_cons_of_mem _ hmem⟩

/-- Once the shards are written, the new manifest says what the loop has made of the
index. -/
theorem ShardsSay.published {affected : List (Prefix × Shard State Digest Prefix)}
    (h : ShardsSay L repo manifest affected index) (hsharded : Sharded L repo manifest)
    (hkept : Kept repo repo')
    (hwritten : ∀ payload ∈ (publishShards L manifest.base.isSome affected manifest.shards).2,
      repo'.read (L.hashPayload payload) = some payload) (hbase : next.base = manifest.base)
    (hshards : next.shards = (publishShards L manifest.base.isSome affected manifest.shards).1) :
    Sharded L repo' next ∧ entitiesOf L repo' next = index := by
  have hspec := publishShards_spec (L := L) manifest.base.isSome affected h.nodup manifest.shards
  have hnext : Sharded L repo' next := by
    intro shardPrefix digest hlookup
    rw [hshards] at hlookup
    cases haffected : affected.lookup shardPrefix with
    | none =>
      rw [(hspec shardPrefix).1 haffected] at hlookup
      obtain ⟨shard, hread, hkeys⟩ := hsharded shardPrefix digest hlookup
      exact ⟨shard, hkept.objects _ _ hread, hkeys⟩
    | some shard =>
      obtain ⟨hdropped, hpublished⟩ := (hspec shardPrefix).2 shard haffected
      by_cases hcase : Dropped manifest.base.isSome shard
      · rw [hdropped hcase] at hlookup
        cases hlookup
      · obtain ⟨hdigest, hmem⟩ := hpublished hcase
        rw [hdigest] at hlookup
        cases hlookup
        exact ⟨_, hwritten _ hmem, h.keys shardPrefix shard haffected⟩
  refine ⟨hnext, funext fun key => ?_⟩
  have hview : shardView L repo' next key = viewIn L repo manifest affected key := by
    unfold viewIn
    cases haffected : affected.lookup (L.shardForEntity key) with
    | none =>
      have hsame : next.shards.lookup (L.shardForEntity key) =
          manifest.shards.lookup (L.shardForEntity key) := by
        rw [hshards, (hspec _).1 haffected]
      unfold shardView
      rw [hsharded.readProjectionShard_kept hkept hsame]
    | some shard =>
      obtain ⟨hdropped, hpublished⟩ := (hspec _).2 shard haffected
      unfold shardView readProjectionShard
      rw [hshards]
      by_cases hcase : Dropped manifest.base.isSome shard
      · rw [hdropped hcase]
        have hnone : shard.entities.lookup key = none := by
          refine lookup_eq_none.mpr fun hkey => ?_
          have hmem := mem_keys.mpr hkey
          rw [hcase.1] at hmem
          simp at hmem
        dsimp only
        rw [hnone]
        exact lookup_empty key
      · obtain ⟨hdigest, hmem⟩ := hpublished hcase
        rw [hdigest]
        dsimp only
        rw [hwritten _ hmem]
  have hbases : baseEntities repo' next key = baseEntities repo manifest key := by
    unfold baseEntities
    rw [hbase, hkept.legacyIndex]
  unfold entitiesOf
  rw [hview, hbases]
  exact h.entities key

end Publishing

section Chains

/-- The commits from a digest on, the latest first. -/
inductive Chain (repo : Repo State Digest Prefix Details) :
    Option Digest → List (CommitObject Digest Prefix Details) → Prop
  | root : Chain repo none []
  | commit {digest : Digest} {object : CommitObject Digest Prefix Details}
      {chain : List (CommitObject Digest Prefix Details)} :
      repo.read digest = some (.commit object) → Chain repo object.parent chain →
      Chain repo (some digest) (object :: chain)

variable {head : Option Digest}

section

omit [LinearOrder Prefix]

theorem Chain.kept (h : Chain repo head chain) (hkept : Kept repo repo') :
    Chain repo' head chain := by
  induction h with
  | root => exact .root
  | commit hread _ ih => exact .commit (hkept.objects _ _ hread) ih

theorem Chain.unique {chain' : List (CommitObject Digest Prefix Details)}
    (h : Chain repo head chain) (h' : Chain repo head chain') : chain' = chain := by
  induction h generalizing chain' with
  | root =>
    cases h'
    rfl
  | commit hread _ ih =>
    cases h' with
    | commit hread' hrest =>
      rw [hread] at hread'
      cases hread'
      rw [ih hrest]

/-- The commit of a digest is in the chain from it. -/
theorem Chain.listed (h : Chain repo (some digest) chain) :
    ∃ object ∈ chain, repo.read digest = some (.commit object) := by
  cases h with
  | commit hread _ => exact ⟨_, mem_cons_self, hread⟩

theorem Chain.of_mem (h : Chain repo head chain) (hmem : object ∈ chain) :
    ∃ rest, Chain repo object.parent rest ∧ rest.length < chain.length := by
  induction h with
  | root => cases hmem
  | commit hread hrest ih =>
    rcases mem_cons.mp hmem with rfl | hmem
    · exact ⟨_, hrest, Nat.lt_succ_self _⟩
    · obtain ⟨rest, hparent, hlength⟩ := ih hmem
      exact ⟨rest, hparent, Nat.lt_succ_of_lt hlength⟩

/-- A commit over HEAD is a new one: the chain does not come back to itself. -/
theorem Chain.notMem_of_parent (h : Chain repo head chain) (hparent : object.parent = head) :
    object ∉ chain := by
  intro hmem
  obtain ⟨rest, hrest, hlength⟩ := h.of_mem hmem
  rw [hparent] at hrest
  rw [h.unique hrest] at hlength
  exact Nat.lt_irrefl _ hlength

/-- HEAD is resolved and verified. -/
theorem headObject_ok (haddressed : WellAddressed L repo) (h : Chain repo repo.head chain) :
    headObject L repo = .ok chain.head? := by
  unfold headObject
  generalize hhead : repo.head = head at h
  cases h with
  | root => rfl
  | commit hread _ =>
    dsimp only
    rw [hread]
    dsimp only
    rw [haddressed _ _ hread, if_neg (not_not_intro rfl)]
    rfl

end

variable (L repo) in
/-- A manifest can be read, gives the index and names the last commit. -/
structure Says (manifest : Projection Digest Prefix) (index : Key → Option State)
    (last : Option CommitId) : Prop where
  sharded : Sharded L repo manifest
  entities : entitiesOf L repo manifest = index
  lastDbCommitId : manifest.lastDbCommitId = last

theorem Says.kept {last : Option CommitId} (h : Says L repo manifest index last)
    (hkept : Kept repo repo') :
    Says L repo' manifest index last :=
  ⟨(h.sharded.kept hkept).1, (h.sharded.kept hkept).2.trans h.entities, h.lastDbCommitId⟩

variable (L repo chain index) in
/-- What a repository says: the chain from HEAD, and the index that the next projection
starts from.  It is what HEAD embeds, if it embeds one, and the manifest is of a commit of
the chain. -/
structure Projected : Prop where
  addressed : WellAddressed L repo
  reached : Chain repo repo.head chain
  manifest : ∃ manifest, projectionManifestForUpdate L repo = .ok manifest ∧
    Says L repo manifest.toProjection index (chain.head?.bind (·.dbCommitId))
  embedded : ∀ object projection, chain.head? = some object →
    object.projection = some projection →
    Says L repo projection index (chain.head?.bind (·.dbCommitId))
  listed : ∀ manifest digest, repo.manifest = some manifest → manifest.head = some digest →
    ∃ object ∈ chain, repo.read digest = some (.commit object)

omit [LinearOrder Prefix] in
/-- The manifest of the next projection depends on HEAD and the manifest only. -/
theorem projectionManifestForUpdate_grown (haddressed : WellAddressed L repo)
    (haddressed' : WellAddressed L repo') (hchain : Chain repo repo.head chain)
    (hgrown : Grown repo repo') :
    projectionManifestForUpdate L repo' = projectionManifestForUpdate L repo := by
  have hchain' : Chain repo' repo'.head chain := by
    rw [hgrown.head]
    exact hchain.kept hgrown.toKept
  unfold projectionManifestForUpdate
  rw [headObject_ok haddressed hchain, headObject_ok haddressed' hchain', hgrown.head,
    hgrown.manifest, hgrown.legacyIndex]

/-- Objects alone change nothing that a repository says. -/
theorem Projected.grown (h : Projected L repo chain index) (hgrown : Grown repo repo')
    (haddressed : WellAddressed L repo') : Projected L repo' chain index where
  addressed := haddressed
  reached := by
    rw [hgrown.head]
    exact h.reached.kept hgrown.toKept
  manifest := by
    obtain ⟨manifest, hmanifest, hgives⟩ := h.manifest
    refine ⟨manifest, ?_, hgives.kept hgrown.toKept⟩
    rw [projectionManifestForUpdate_grown h.addressed haddressed h.reached hgrown, hmanifest]
  embedded := fun object projection hobject hprojection =>
    (h.embedded object projection hobject hprojection).kept hgrown.toKept
  listed := by
    intro manifest digest hmanifest hdigest
    rw [hgrown.manifest] at hmanifest
    obtain ⟨object, hmem, hread⟩ := h.listed manifest digest hmanifest hdigest
    exact ⟨object, hmem, hgrown.objects _ _ hread⟩

theorem Projected.effectiveIndex (h : Projected L repo chain index) :
    effectiveIndex L repo = .ok index := by
  obtain ⟨manifest, hmanifest, hgives⟩ := h.manifest
  unfold GitObjects.effectiveIndex
  rw [hmanifest]
  refine (overlay_eq (L := L) hgives.sharded).trans ?_
  rw [hgives.entities]

section

omit [LinearOrder Prefix]

/-- A manifest of HEAD is taken as it is. -/
theorem projectionManifestForUpdate_current {manifest : Manifest Digest Prefix}
    (hmanifest : repo.manifest = some manifest) (hhead : manifest.head = repo.head) :
    projectionManifestForUpdate L repo = .ok manifest := by
  unfold projectionManifestForUpdate
  rw [hmanifest, Option.filter_some_pos (by simpa using hhead)]

/-- A manifest of another commit is passed over for the one that HEAD embeds. -/
theorem projectionManifestForUpdate_embedded (haddressed : WellAddressed L repo)
    (hchain : Chain repo repo.head chain) (hobject : chain.head? = some object)
    (hprojection : object.projection = some projection)
    (hstale : ∀ manifest, repo.manifest = some manifest → manifest.head ≠ repo.head) :
    projectionManifestForUpdate L repo = .ok { projection with head := repo.head } := by
  have hnone : repo.manifest.filter (fun existing => existing.head = repo.head) = none := by
    rw [Option.filter_eq_none_iff]
    intro manifest hmanifest
    simpa using hstale manifest hmanifest
  unfold projectionManifestForUpdate
  rw [hnone, headObject_ok haddressed hchain, hobject]
  dsimp only [bind, Except.bind, Option.bind]
  rw [hprojection]
  rfl

/-- Without either, a manifest is made up from HEAD, over the flat index if there is one. -/
theorem projectionManifestForUpdate_first (haddressed : WellAddressed L repo)
    (hchain : Chain repo repo.head chain) (hmanifest : repo.manifest = none)
    (hnone : chain.head?.bind (·.projection) = none) :
    projectionManifestForUpdate L repo = .ok {
      generation := 0
      tree := chain.head?.bind (·.tree)
      lastDbCommitId := chain.head?.bind (·.dbCommitId)
      lastDbCreatedAt := none
      base := if repo.legacyIndex.isSome then some ⟨chain.head?.bind (·.tree)⟩ else none
      shards := ∅
      head := repo.head } := by
  unfold projectionManifestForUpdate
  rw [hmanifest, headObject_ok haddressed hchain]
  dsimp only [bind, Except.bind]
  rw [hnone]
  rfl

end

section

variable (h : Projected L repo chain index) (hprojection : object.projection = some projection)
include h hprojection

/-- The manifest is replaced by the one that HEAD embeds. -/
theorem Projected.recover (hobject : chain.head? = some object) :
    Projected L (repo.write L (.manifest { projection with head := repo.head })) chain index where
  addressed := h.addressed
  reached := h.reached.kept ⟨fun _ _ hread => hread, rfl⟩
  manifest := by
    refine ⟨{ projection with head := repo.head }, ?_, ?_⟩
    · exact projectionManifestForUpdate_current rfl rfl
    · exact (h.embedded object projection hobject hprojection).kept ⟨fun _ _ hread => hread, rfl⟩
  embedded := fun object projection hobject hprojection =>
    (h.embedded object projection hobject hprojection).kept ⟨fun _ _ hread => hread, rfl⟩
  listed := by
    intro manifest digest hmanifest hdigest
    cases hmanifest
    have hhead : repo.head = some digest := hdigest
    have hchain := h.reached
    rw [hhead] at hchain
    exact hchain.listed

/-- HEAD is moved to a commit that is not in the chain yet. -/
theorem Projected.publish {index' : Key → Option State}
    (hread : repo.read digest = some (.commit object)) (hparent : object.parent = repo.head)
    (hnew : object ∉ chain) (hgives : Says L repo projection index' object.dbCommitId) :
    Projected L (repo.write L (.head digest)) (object :: chain) index' := by
  have hkept : Kept repo (repo.write L (.head digest)) := ⟨fun _ _ hobject => hobject, rfl⟩
  have hchain : Chain (repo.write L (.head digest)) (some digest) (object :: chain) :=
    .commit hread (by
      rw [hparent]
      exact h.reached.kept hkept)
  have hlisted : ∀ manifest other, repo.manifest = some manifest → manifest.head = some other →
      ∃ object ∈ chain, repo.read other = some (.commit object) := h.listed
  refine ⟨h.addressed, hchain, ⟨{ projection with head := some digest }, ?_, hgives.kept hkept⟩,
    ?_, ?_⟩
  · have haddressed : WellAddressed L (repo.write L (.head digest)) := h.addressed
    refine projectionManifestForUpdate_embedded haddressed hchain rfl hprojection ?_
    intro manifest hmanifest hhead
    obtain ⟨found, hfound, hread'⟩ := hlisted manifest digest hmanifest hhead
    rw [hread] at hread'
    cases hread'
    exact hnew hfound
  · intro found embedded hfound hembedded
    cases hfound
    rw [hprojection] at hembedded
    cases hembedded
    exact hgives.kept hkept
  · intro manifest other hmanifest hother
    obtain ⟨found, hfound, hread'⟩ := hlisted manifest other hmanifest hother
    exact ⟨found, mem_cons_of_mem _ hfound, hread'⟩

end

end Chains

section Attempts

variable {commit : Commit Details} {changes : List (Change State Details)}

variable (L repo commit changes) in
/-- The objects of a commit that is appended, and what they come to once they are written. -/
structure Appends (index : Key → Option State)
    (payloads : List (GitObject State Digest Prefix Details))
    (object : CommitObject Digest Prefix Details) (projection : Projection Digest Prefix) :
    Prop where
  parent : object.parent = repo.head
  dbCommitId : object.dbCommitId = some commit.id
  embedded : object.projection = some projection
  written : .commit object ∈ payloads
  gives : ∀ repo', Kept repo repo' →
    (∀ payload ∈ payloads, repo'.read (L.hashPayload payload) = some payload) →
    Says L repo' projection (changes.foldl applied index) (some commit.id)
  /-- the entries of its tree are the entities that it leaves changed, with their states -/
  tree : ∃ tree : Tree Digest Prefix,
    object.tree = some (L.hashPayload (.tree tree)) ∧ .tree tree ∈ payloads ∧
    (∀ key, key ∈ tree.entries ↔
      key ∈ changes.map (·.key) ∧ changes.foldl applied index key ≠ none) ∧
    ∀ key digest, tree.entries.lookup key = some digest →
      ∃ subjectType subjectId state, digest = L.hashPayload (.blob subjectType subjectId state) ∧
        .blob subjectType subjectId state ∈ payloads ∧
        changes.foldl applied index key = some state

variable (L) in
/-- The writes of a commit: its objects, HEAD and the manifest. -/
def commitWrites (payloads : List (GitObject State Digest Prefix Details))
    (object : CommitObject Digest Prefix Details) (projection : Projection Digest Prefix) :
    List (Write State Digest Prefix Details) :=
  payloads.map .object ++ [.head (L.hashPayload (.commit object)),
    .manifest { projection with head := some (L.hashPayload (.commit object)) }]

/-- What is appended, once the loop over the changes is done. -/
theorem appends_of_loop (commit : Commit Details) (hsharded : Sharded L repo manifest)
    (hinv : LoopInvariant L repo manifest acc (changes.foldl applied index)
      (changes.map (·.key))) :
    ∃ payloads object projection,
      appendWrites L repo manifest commit changes acc =
        (commitWrites L payloads object projection, L.hashPayload (.commit object)) ∧
      Appends L repo commit changes index payloads object projection := by
  obtain ⟨shards, shardPayloads, hpublished⟩ : ∃ shards shardPayloads,
      publishShards L manifest.base.isSome acc.affectedShards manifest.shards =
        (shards, shardPayloads) := ⟨_, _, rfl⟩
  let tree := treeOf manifest shards acc.changedEntries
  let treeHash := L.hashPayload (.tree tree)
  let projection := projectionOf manifest commit treeHash shards
  let object := commitObjectOf repo.head commit changes treeHash projection
  refine ⟨acc.payloads ++ shardPayloads ++ [.tree tree, .commit object], object, projection, ?_,
    ⟨rfl, rfl, rfl, by simp, ?_, ⟨tree, rfl, by simp, ?_, ?_⟩⟩⟩
  · unfold appendWrites
    rw [hpublished]
    simp [commitWrites, tree, treeHash, projection, object]
  · intro repo' hkept hwritten
    have hshards : ∀ payload ∈ (publishShards L manifest.base.isSome acc.affectedShards
        manifest.shards).2, repo'.read (L.hashPayload payload) = some payload := by
      rw [hpublished]
      exact fun payload hpayload => hwritten payload (by simp [hpayload])
    have hsaid : Sharded L repo' projection ∧
        entitiesOf L repo' projection = changes.foldl applied index :=
      hinv.shards.published hsharded hkept hshards rfl (by
        rw [hpublished]
        rfl)
    exact ⟨hsaid.1, hsaid.2, rfl⟩
  · exact hinv.entries
  · intro key digest hlookup
    obtain ⟨subjectType, subjectId, state, hdigest, hmem, hstate⟩ := hinv.blobs key digest hlookup
    exact ⟨subjectType, subjectId, state, hdigest, by simp [hmem], hstate⟩

/-- A commit that is not in the chain is appended: its objects, HEAD, manifest. -/
theorem Projected.applyCommit_new (h : Projected L repo chain index)
    (changes : List (Change State Details))
    (hnew : ∀ object ∈ chain, object.dbCommitId ≠ some commit.id) :
    ∃ payloads object projection,
      applyCommitToRepoLocked L repo commit changes none =
        .ok (commitWrites L payloads object projection, some (L.hashPayload (.commit object))) ∧
      Appends L repo commit changes index payloads object projection := by
  obtain ⟨manifest, hmanifest, hgives⟩ := h.manifest
  obtain ⟨acc, hloop, hinv⟩ := applyChanges_ok hgives.sharded
    (loopInvariant_start (L := L) repo manifest.toProjection) changes
  rw [hgives.entities, nil_append] at hinv
  obtain ⟨payloads, object, projection, hwrites, happends⟩ :=
    appends_of_loop commit hgives.sharded hinv
  have hlast : chain.head?.bind (·.dbCommitId) ≠ some commit.id := by
    cases hhead : chain.head? with
    | none => simp
    | some object => exact hnew object (mem_of_mem_head? hhead)
  refine ⟨payloads, object, projection, ?_, happends⟩
  unfold applyCommitToRepoLocked
  rw [headObject_ok h.addressed h.reached, hmanifest]
  change (if chain.head?.bind (·.dbCommitId) = some commit.id then _ else _) = _
  rw [if_neg hlast]
  change (if decide (manifest.lastDbCommitId = some commit.id) = true then _ else _) = _
  rw [hgives.lastDbCommitId, if_neg (by simpa using hlast), hloop]
  change Except.ok ((appendWrites L repo manifest.toProjection commit changes acc).1,
    some (appendWrites L repo manifest.toProjection commit changes acc).2) = _
  rw [hwrites]

/-- A commit that is HEAD is not appended again: its manifest is put back. -/
theorem Projected.applyCommit_again (h : Projected L repo chain index)
    (hobject : chain.head? = some object) (hid : object.dbCommitId = some commit.id)
    (hprojection : object.projection = some projection) :
    applyCommitToRepoLocked L repo commit changes none =
      .ok ([.manifest { projection with head := repo.head }], none) := by
  unfold applyCommitToRepoLocked
  rw [headObject_ok h.addressed h.reached, hobject]
  dsimp only [bind, Except.bind, Option.bind]
  rw [if_pos hid, hprojection]
  rfl

omit [DecidableEq Digest] [LinearOrder Prefix] in
variable (L payloads object projection) in
/-- Where a process may stop in the writes of a commit. -/
theorem take_commitWrites (n : Nat) :
    (commitWrites L payloads object projection).take n = (payloads.take n).map .object ∨
      (commitWrites L payloads object projection).take n =
        payloads.map .object ++ [.head (L.hashPayload (.commit object))] ∨
      (commitWrites L payloads object projection).take n =
        commitWrites L payloads object projection := by
  unfold commitWrites
  rw [take_append, ← map_take, length_map]
  rcases hover : n - payloads.length with - | - | more
  · left
    simp
  · right; left
    rw [take_of_length_le (by omega)]
    rfl
  · right; right
    rw [take_of_length_le (by omega)]
    simp

variable (L commit changes) in
/-- One attempt at a commit: the process stops after so many writes, or not at all. -/
def attempt (repo : Repo State Digest Prefix Details)
    (stop : Option Nat) : Except (Error Digest Prefix) (Repo State Digest Prefix Details) := do
  let (writes, _) ← applyCommitToRepoLocked L repo commit changes none
  match stop with
  | none => return writeAll L repo writes
  | some n => return writeAll L repo (writes.take n)

variable (repo object) in
/-- The tree of a commit can be read: its entries are those of the keys that the index
has, with their states. -/
def TreeLists (keys : List Key) (index : Key → Option State) : Prop :=
  ∃ (digest : Digest) (tree : Tree Digest Prefix),
    object.tree = some digest ∧ repo.read digest = some (.tree tree) ∧
    (∀ key, key ∈ tree.entries ↔ key ∈ keys ∧ index key ≠ none) ∧
    ∀ key digest, tree.entries.lookup key = some digest →
      ∃ subjectType subjectId state,
        repo.read digest = some (.blob subjectType subjectId state) ∧ index key = some state

omit [LinearOrder Prefix] in
theorem TreeLists.kept (h : TreeLists repo object keys index) (hkept : Kept repo repo') :
    TreeLists repo' object keys index := by
  obtain ⟨digest, tree, htree, hread, hentries, hblobs⟩ := h
  refine ⟨digest, tree, htree, hkept.objects _ _ hread, hentries, fun key digest hlookup => ?_⟩
  obtain ⟨subjectType, subjectId, state, hblob, hstate⟩ := hblobs key digest hlookup
  exact ⟨subjectType, subjectId, state, hkept.objects _ _ hblob, hstate⟩

variable (L repo commit changes) in
/-- The commit is HEAD, with its tree and the index that it makes. -/
def Appended
    (chain : List (CommitObject Digest Prefix Details)) (index : Key → Option State) : Prop :=
  ∃ object projection, object.dbCommitId = some commit.id ∧ object.projection = some projection ∧
    TreeLists repo object (changes.map (·.key)) index ∧ Projected L repo (object :: chain) index

/-- The tree of the commit, once its objects are written. -/
theorem Appends.treeLists
    (happends : Appends L repo commit changes index payloads object projection)
    (hread : ∀ payload ∈ payloads, repo'.read (L.hashPayload payload) = some payload) :
    TreeLists repo' object (changes.map (·.key)) (changes.foldl applied index) := by
  obtain ⟨tree, htree, hmem, hentries, hblobs⟩ := happends.tree
  refine ⟨_, tree, htree, hread _ hmem, hentries, fun key digest hlookup => ?_⟩
  obtain ⟨subjectType, subjectId, state, rfl, hblob, hstate⟩ := hblobs key digest hlookup
  exact ⟨subjectType, subjectId, state, hread _ hblob, hstate⟩

/-- After HEAD the commit is in the chain, after the manifest as well. -/
theorem Appends.published
    (happends : Appends L repo commit changes index payloads object projection)
    (h : Projected L repo chain index) :
    Appended L (writeAll L repo (payloads.map .object ++ [.head (L.hashPayload (.commit object))]))
        commit changes chain (changes.foldl applied index) ∧
      Appended L (writeAll L repo (commitWrites L payloads object projection)) commit changes chain
        (changes.foldl applied index) := by
  obtain ⟨hgrown, haddressed, hread⟩ := writeAll_objects h.addressed payloads
  have hgives := happends.gives _ hgrown.toKept hread
  rw [← happends.dbCommitId] at hgives
  have hmoved := (h.grown hgrown haddressed).publish happends.embedded
    (hread _ happends.written) (happends.parent.trans hgrown.head.symm)
    (h.reached.notMem_of_parent happends.parent) hgives
  have htree := happends.treeLists hread
  rw [commitWrites, writeAll_append, writeAll_append]
  exact ⟨⟨object, projection, happends.dbCommitId, happends.embedded,
      htree.kept ⟨fun _ _ h => h, rfl⟩, hmoved⟩,
    ⟨object, projection, happends.dbCommitId, happends.embedded,
      htree.kept ⟨fun _ _ h => h, rfl⟩, hmoved.recover happends.embedded rfl⟩⟩

/-- The manifest is the one of HEAD. -/
def Settled (repo : Repo State Digest Prefix Details) : Prop :=
  ∃ manifest, repo.manifest = some manifest ∧ manifest.head = repo.head

/-- An attempt at a commit that is not in the chain. -/
theorem attempt_new (h : Projected L repo chain index)
    (hnew : ∀ object ∈ chain, object.dbCommitId ≠ some commit.id) (stop : Option Nat) :
    ∃ repo', attempt L commit changes repo stop = .ok repo' ∧
      (stop = none → Settled repo') ∧
      (Appended L repo' commit changes chain (changes.foldl applied index) ∨
        stop.isSome ∧ Projected L repo' chain index) := by
  obtain ⟨payloads, object, projection, hwrites, happends⟩ :=
    h.applyCommit_new changes hnew
  obtain ⟨hhead, hmanifest⟩ := happends.published h
  unfold attempt
  rw [hwrites]
  cases stop with
  | none =>
    refine ⟨_, rfl, fun _ => ?_, .inl hmanifest⟩
    rw [commitWrites, writeAll_append]
    exact ⟨_, rfl, rfl⟩
  | some n =>
    refine ⟨_, rfl, nofun, ?_⟩
    rcases take_commitWrites L projection payloads object n with htake | htake | htake
    · obtain ⟨hgrown, haddressed, -⟩ := writeAll_objects h.addressed (payloads.take n)
      rw [htake]
      exact .inr ⟨rfl, h.grown hgrown haddressed⟩
    · rw [htake]
      exact .inl hhead
    · rw [htake]
      exact .inl hmanifest

/-- An attempt at a commit that is HEAD. -/
theorem attempt_again (h : Appended L repo commit changes chain index) (stop : Option Nat) :
    ∃ repo', attempt L commit changes repo stop = .ok repo' ∧
      (stop = none → Settled repo') ∧ Appended L repo' commit changes chain index := by
  obtain ⟨object, projection, hid, hprojection, htree, hprojected⟩ := h
  have hrecover := hprojected.recover hprojection rfl
  have htree' : TreeLists (repo.write L (.manifest { projection with head := repo.head })) object
      (changes.map (·.key)) index := htree.kept ⟨fun _ _ h => h, rfl⟩
  unfold attempt
  rw [hprojected.applyCommit_again rfl hid hprojection]
  rcases stop with - | - | n
  · exact ⟨_, rfl, fun _ => ⟨_, rfl, rfl⟩, object, projection, hid, hprojection, htree', hrecover⟩
  · exact ⟨_, rfl, nofun, object, projection, hid, hprojection, htree, hprojected⟩
  · refine ⟨_, rfl, nofun, object, projection, hid, hprojection, ?_⟩
    simpa [writeAll] using ⟨htree', hrecover⟩

/-- A commit that is to be applied, and after how many writes each attempt but the last one
stops. -/
structure Application (State Details : Type) where
  commit : Commit Details
  changes : List (Change State Details)
  stops : List Nat

variable (L repo) in
/-- A commit is tried again until an attempt at it is not stopped. -/
def applyRetried (application : Application State Details) :
    Except (Error Digest Prefix) (Repo State Digest Prefix Details) := do
  let stopped ← application.stops.foldlM
    (fun repo n => attempt L application.commit application.changes repo (some n)) repo
  attempt L application.commit application.changes stopped none

/-- However often it is stopped, a commit is appended once. -/
theorem applyRetried_ok (h : Projected L repo chain index) (application : Application State Details)
    (hnew : ∀ object ∈ chain, object.dbCommitId ≠ some application.commit.id) :
    ∃ repo', applyRetried L repo application = .ok repo' ∧ Settled repo' ∧
      Appended L repo' application.commit application.changes chain
        (application.changes.foldl applied index) := by
  obtain ⟨commit, changes, stops⟩ := application
  change ∀ object ∈ chain, object.dbCommitId ≠ some commit.id at hnew
  -- between the attempts the commit is in the chain or nothing has happened
  obtain ⟨stopped, hstopped, hcases⟩ : ∃ stopped,
      stops.foldlM (fun repo n => attempt L commit changes repo (some n)) repo = .ok stopped ∧
      (Appended L stopped commit changes chain (changes.foldl applied index) ∨
        Projected L stopped chain index) := by
    have hbetween : Appended L repo commit changes chain (changes.foldl applied index) ∨
      Projected L repo chain index := .inr h
    clear h
    induction stops generalizing repo with
    | nil => exact ⟨repo, rfl, hbetween⟩
    | cons n rest ih =>
      rw [foldlM_cons]
      rcases hbetween with hthere | hbefore
      · obtain ⟨next, hnext, -, hthere'⟩ := attempt_again hthere (some n)
        rw [hnext]
        exact ih (.inl hthere')
      · obtain ⟨next, hnext, -, hcases⟩ := attempt_new hbefore hnew (some n)
        rw [hnext]
        exact ih (hcases.imp id And.right)
  unfold applyRetried
  rw [hstopped]
  rcases hcases with hthere | hbefore
  · obtain ⟨repo', hrepo', hsettled, hthere'⟩ := attempt_again hthere none
    exact ⟨repo', hrepo', hsettled rfl, hthere'⟩
  · obtain ⟨repo', hrepo', hsettled, hthere | ⟨hstop, -⟩⟩ := attempt_new hbefore hnew none
    · exact ⟨repo', hrepo', hsettled rfl, hthere⟩
    · cases hstop

end Attempts

section Recovery

variable (L repo chain index) in
/-- A repository that no projection is under way in: either no manifest has been written,
and the index is the flat one, if there is one, or the manifest is of HEAD and gives the
index, as does the one that HEAD embeds, if it embeds one. -/
structure AtRest : Prop where
  addressed : WellAddressed L repo
  reached : Chain repo repo.head chain
  manifest : repo.manifest = none ∧ (∀ object ∈ chain.head?, object.projection = none) ∧
      index = (fun key => repo.legacyIndex.bind (·.lookup key)) ∨
    ∃ manifest, repo.manifest = some manifest ∧ manifest.head = repo.head ∧
      Says L repo manifest.toProjection index (chain.head?.bind (·.dbCommitId)) ∧
      ∀ object ∈ chain.head?, ∀ projection, object.projection = some projection →
        Says L repo projection index (chain.head?.bind (·.dbCommitId))

/-- The first manifest is made up from HEAD and the flat index. -/
theorem AtRest.projected (h : AtRest L repo chain index) : Projected L repo chain index := by
  rcases h.manifest with ⟨hmanifest, hplain, rfl⟩ | ⟨manifest, hmanifest, hhead, hgives, hembedded⟩
  · refine ⟨h.addressed, h.reached, ⟨_, projectionManifestForUpdate_first h.addressed h.reached
      hmanifest (Option.bind_eq_none_iff.mpr hplain), ⟨?_, ?_, rfl⟩⟩, ?_, ?_⟩
    · intro shardPrefix digest hdigest
      have hlookup : (∅ : Finmap fun _ : Prefix => Digest).lookup shardPrefix = some digest := hdigest
      rw [lookup_empty] at hlookup
      cases hlookup
    · funext key
      unfold entitiesOf shardView GitObjects.readProjectionShard baseEntities
      cases repo.legacyIndex <;> simp [lookup_empty]
    · intro object projection hobject hprojection
      rw [hplain object hobject] at hprojection
      cases hprojection
    · intro manifest digest hsome
      rw [hmanifest] at hsome
      cases hsome
  · refine ⟨h.addressed, h.reached,
      ⟨manifest, projectionManifestForUpdate_current hmanifest hhead, hgives⟩,
      fun object projection hobject => hembedded object hobject projection, ?_⟩
    intro found digest hfound hdigest
    rw [hmanifest] at hfound
    cases hfound
    exact Chain.listed (hhead.symm.trans hdigest ▸ h.reached)

section

variable (h : Projected L repo chain index) (hsettled : Settled repo)
include h hsettled

theorem Projected.settled :
    ∃ manifest, repo.manifest = some manifest ∧ manifest.head = repo.head ∧
      Says L repo manifest.toProjection index (chain.head?.bind (·.dbCommitId)) := by
  obtain ⟨manifest, hmanifest, hhead⟩ := hsettled
  obtain ⟨found, hfound, hgives⟩ := h.manifest
  rw [projectionManifestForUpdate_current hmanifest hhead] at hfound
  cases hfound
  exact ⟨manifest, hmanifest, hhead, hgives⟩

/-- And after a projection that has not been stopped a repository is at rest again. -/
theorem Projected.atRest :
    AtRest L repo chain index := by
  obtain ⟨manifest, hmanifest, hhead, hgives⟩ := h.settled hsettled
  exact ⟨h.addressed, h.reached, .inr ⟨manifest, hmanifest, hhead, hgives,
    fun object hobject projection => h.embedded object projection hobject⟩⟩

/-- The index of the manifest file. -/
theorem Projected.readIndex :
    readIndex repo = .ok index := by
  obtain ⟨manifest, hmanifest, -, hgives⟩ := h.settled hsettled
  unfold GitObjects.readIndex
  rw [hmanifest, ← hgives.entities]
  exact overlay_eq hgives.sharded

end

variable (L repo) in
/-- The commits are applied one after the other. -/
def applyAll (applications : List (Application State Details)) :
    Except (Error Digest Prefix) (Repo State Digest Prefix Details) :=
  applications.foldlM (applyRetried L) repo

/-- What the commits make of an index. -/
def folded (index : Key → Option State) (applications : List (Application State Details)) :
    Key → Option State :=
  (applications.flatMap (·.changes)).foldl applied index

/-- The run, with the ids of the chain that it leaves. -/
theorem applyAll_ok (applications : List (Application State Details))
    (h : AtRest L repo chain index)
    (hnodup : (applications.map (·.commit.id)).Nodup)
    (hnew : ∀ application ∈ applications, ∀ object ∈ chain,
      object.dbCommitId ≠ some application.commit.id) :
    ∃ repo' appended, applyAll L repo applications = .ok repo' ∧
      appended.map (·.dbCommitId) = (applications.map (some ·.commit.id)).reverse ∧
      AtRest L repo' (appended ++ chain) (folded index applications) ∧
      ∀ last ∈ applications.getLast?, Settled repo' ∧ ∃ object,
        appended.head? = some object ∧
          TreeLists repo' object (last.changes.map (·.key)) (folded index applications) := by
  induction applications generalizing repo chain index with
  | nil => exact ⟨repo, [], rfl, rfl, h, nofun⟩
  | cons first rest ih =>
    obtain ⟨hfirst, hrest⟩ := nodup_cons.mp hnodup
    obtain ⟨next, hnext, hsettled, object, -, hid, -, htree, hprojected⟩ :=
      applyRetried_ok h.projected first (hnew first mem_cons_self)
    have hnew' : ∀ application ∈ rest, ∀ found ∈ object :: chain,
        found.dbCommitId ≠ some application.commit.id := by
      intro application happlication found hfound
      rcases mem_cons.mp hfound with rfl | hold
      · rw [hid]
        intro hsame
        exact hfirst (mem_map.mpr ⟨application, happlication, (Option.some.inj hsame).symm⟩)
      · exact hnew application (mem_cons_of_mem _ happlication) found hold
    obtain ⟨repo', appended, hrun, hids, hatRest, hlast⟩ :=
      ih (hprojected.atRest hsettled) hrest hnew'
    have hfolded : folded index (first :: rest) =
        folded (first.changes.foldl applied index) rest := by
      simp [folded, foldl_append]
    refine ⟨repo', appended ++ [object], ?_, ?_, ?_, ?_⟩
    · unfold applyAll
      rw [foldlM_cons, hnext]
      exact hrun
    · simp [hids, hid]
    · rw [hfolded, append_assoc]
      exact hatRest
    intro last hmem
    rw [hfolded]
    cases rest with
    | nil =>
      cases hmem
      cases hrun
      cases appended with
      | nil => exact ⟨hsettled, object, rfl, htree⟩
      | cons _ _ => simp at hids
    | cons second others =>
      obtain ⟨hsettled', found, hfound, htree'⟩ := hlast last (by simpa using hmem)
      exact ⟨hsettled', found, by simp [hfound], htree'⟩

/-- The process may stop after any write of any attempt: once the commits have been tried
again, each is in the chain from HEAD exactly once, in order, over what was there, and the
effective index is what they make of the one before, in order. -/
theorem projection_recovers (applications : List (Application State Details))
    (hrest : AtRest L repo chain index)
    (hnodup : (applications.map (·.commit.id)).Nodup)
    (hnew : ∀ application ∈ applications, ∀ object ∈ chain,
      object.dbCommitId ≠ some application.commit.id) :
    ∃ repo' chain', applyAll L repo applications = .ok repo' ∧ Chain repo' repo'.head chain' ∧
      chain'.map (·.dbCommitId) =
        (applications.map (some ·.commit.id)).reverse ++ chain.map (·.dbCommitId) ∧
      (∀ application ∈ applications,
        (chain'.map (·.dbCommitId)).count (some application.commit.id) = 1) ∧
      effectiveIndex L repo' = .ok (folded index applications) := by
  obtain ⟨repo', appended, hrun, hids, hrest', -⟩ := applyAll_ok applications hrest hnodup hnew
  have hall : (appended ++ chain).map (·.dbCommitId) =
      (applications.map (some ·.commit.id)).reverse ++ chain.map (·.dbCommitId) := by
    rw [map_append, hids]
  refine ⟨repo', appended ++ chain, hrun, hrest'.reached, hall, ?_, hrest'.projected.effectiveIndex⟩
  intro application happlication
  have hold : (chain.map (·.dbCommitId)).count (some application.commit.id) = 0 := by
    rw [count_eq_zero]
    intro hmem
    obtain ⟨object, hobject, hid⟩ := mem_map.mp hmem
    exact hnew application happlication object hobject hid
  have honce : (applications.map (some ·.commit.id)).count (some application.commit.id) = 1 := by
    have hsome : applications.map (some ·.commit.id) =
        (applications.map (·.commit.id)).map some := by simp
    rw [hsome]
    refine count_eq_one_of_mem (hnodup.map (Option.some_injective _)) ?_
    exact mem_map_of_mem (mem_map.mpr ⟨application, happlication, rfl⟩)
  rw [hall, count_append, count_reverse, hold, honce]

/-- A repository as `init` leaves it. -/
def freshRepo : Repo State Digest Prefix Details := ⟨∅, none, none, none⟩

theorem freshRepo_atRest : AtRest L (freshRepo : Repo State Digest Prefix Details) [] fun _ => none where
  addressed := by
    intro digest object hread
    have hlookup : (∅ : Finmap fun _ : Digest => GitObject State Digest Prefix Details).lookup
        digest = some object := hread
    rw [lookup_empty] at hlookup
    cases hlookup
  reached := .root
  manifest := .inl ⟨rfl, by simp, rfl⟩

/-- Two commits on one entity, the first stopped before its objects and after HEAD. -/
def stoppedTwice : List (Application ℕ Unit) :=
  [⟨⟨['1'], ['t'], ()⟩, [⟨['w'], ['a'], (), some 7⟩], [0, 5]⟩,
    ⟨⟨['2'], ['u'], ()⟩, [⟨['w'], ['a'], (), none⟩], [3]⟩]

theorem projection_recovers_stoppedTwice :
    ∃ repo' chain', applyAll numbered freshRepo stoppedTwice = .ok repo' ∧
      Chain repo' repo'.head chain' ∧
      chain'.map (·.dbCommitId) = [some ['2'], some ['1']] ∧
      (∀ application ∈ stoppedTwice,
        (chain'.map (·.dbCommitId)).count (some application.commit.id) = 1) ∧
      effectiveIndex numbered repo' = .ok (folded (fun _ => none) stoppedTwice) :=
  projection_recovers stoppedTwice freshRepo_atRest (by decide) (by simp)

end Recovery

end GitObjects
