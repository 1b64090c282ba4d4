import AutoGallery.HierarchyScope
import AutoGallery.Runs
import AutoGallery.SearchAscii

/-!
# Permanent deletion

The works of the scope are put in the trash in batches, and then purged in batches if the
files are to go; each batch is a commit.  The rows of the targets are deleted last.  So a
deletion that stops between two commits finds the same scope when it is started again.

While a batch is purged all works of the scope count as its owners.  The purge has the gap
that a thumbnail is not looked at through its group
(`CurationPurge.thumbnail_representative_purged`), and so has the deletion
(`thumbnail_representative_deleted`).  The deletion, and what is started again after it
has stopped, takes only the works that belong to the targets alone, and keeps what the
others need, just if every representative that they need is needed through an asset source
(`permanentDelete_iff`).
-/

namespace HierarchyDeletion

open PyText List Runs SearchLanguage
open CurationPurge

variable {works chunk : List Nat} {work : Nat} {P : Providers} {T : Hierarchy} {stem : Text → Text}
  {files : Files} {s t u : State} {deleteFiles : Bool}

/-! ### The commits -/

def workBatchSize : Nat := commitWorkLimit

/-- `_chunks`; the order of the works is the one they are found in. -/
def chunks (works : List Nat) : List (List Nat) :=
  (List.range ((works.length + workBatchSize - 1) / workBatchSize)).map fun k =>
    (works.drop (workBatchSize * k)).take workBatchSize

inductive Commit
  /-- the targets are disabled, and creators archived: no row of a work or asset changes -/
  | disable
  | trash (chunk : List Nat)
  | purge (chunk : List Nat)

/-- `trash_works` of the visible works of a batch. -/
def trashBatch (chunk : List Nat) (s : State) : State :=
  { s with visibility := fun work =>
      if work ∈ chunk ∧ s.visibility work = .visible then .trashed else s.visibility work }

section Deletion

variable (P) (T) (stem)

/-- The purge of the works of a batch that are not purged yet, with the files removed
strictly and all works of the scope as owners. -/
def purgeBatch (files : Files) (works chunk : List Nat) (s : State) : Except DeletionError State :=
  let purgeIds := chunk.filter (s.visibility · ≠ .purged)
  if purgeIds = [] then .ok s
  else (T.gallery.purge stem P.sqlLower files purgeIds true (some works) s).mapError .purge

def commit (files : Files) (works : List Nat) : Commit → State → Except DeletionError State
  | .disable, s => .ok s
  | .trash chunk, s => .ok (trashBatch chunk s)
  | .purge chunk, s => purgeBatch P T stem files works chunk s

/-- `_delete_domain_rows`, for the rows that the scope is found by. -/
def deleteDomainRows (targets : Targets) : Hierarchy :=
  let deletesSubscriptions := targets.entityType ≠ .repository
  let deletesCreators := targets.entityType = .creator
  { T with
    repositories := T.repositories.filter (·.id ∉ targets.repositoryIds)
    subscriptions := T.subscriptions.filter fun row =>
      ¬(deletesSubscriptions ∧ row.id ∈ targets.subscriptionIds)
    sourceCreators := T.sourceCreators.filter fun row =>
      ¬(deletesCreators ∧ ∃ creator ∈ row.creatorId, creator ∈ targets.creatorIds)
    creators := T.creators.filter fun creator =>
      ¬(deletesCreators ∧ creator ∈ targets.creatorIds) }

/-- The commits before the rows are deleted. -/
def commits (works : List Nat) (deleteFiles : Bool) : List Commit :=
  .disable :: (chunks works).map .trash ++ if deleteFiles then (chunks works).map .purge else []

/-- What a deletion does: the states between its commits, and its end. -/
structure Deletion where
  visited : List State
  outcome : Except DeletionError (State × Hierarchy)

/-- `permanent_delete` of existing targets, where `activeJobs` says whether jobs of the
targets are active. -/
def permanentDelete (files : Files) (entityType : EntityType) (ids : List Nat) (deleteFiles : Bool)
    (activeJobs : Bool) (s : State) : Deletion :=
  match loadTargets T entityType ids with
  | .error e => ⟨[s], .error e⟩
  | .ok targets =>
    if activeJobs then ⟨[s], .error .activeTasks⟩
    else
      let works := exclusiveWorks P T targets
      let run := commitAll (commit P T stem files works) (commits works deleteFiles) s
      ⟨run.1, run.2.map fun s' => (s', deleteDomainRows T targets)⟩

/-! ### What a deletion may take -/

/-- The work shows the asset, or shows an asset that is served by it. -/
def Needs (G : Gallery) (s : State) (work asset : Nat) : Prop :=
  G.Reaches work asset ∨ ∃ shown, G.Reaches work shown ∧ s.ServedBy shown asset

/-- From the first state to the second only works that belong to the targets alone have
changed, and nothing that another work needs was purged. -/
structure Safe (targets : Targets) (s t : State) : Prop where
  works : ∀ work, t.visibility work ≠ s.visibility work → Owned P T targets work
  assets : ∀ work, ¬Owned P T targets work → ∀ asset, Needs T.gallery s work asset →
    ¬s.Purged asset → ¬t.Purged asset

/-- A deletion that has ended is safe in all states between its commits, and the works that
belong to the targets alone are in the trash or purged. -/
structure Deletes (targets : Targets) (s : State) (visited : List State) (t : State) : Prop where
  safe : ∀ u ∈ visited, Safe P T targets s u
  ends : ∀ work, Owned P T targets work → t.visibility work = .trashed ∨ t.visibility work = .purged

/-- A representative that another work needs, and that only works of the scope use,
represents a group with a member that a work outside of the scope has through an asset
source. -/
def NeededThroughSources (targets : Targets) (s : State) : Prop :=
  ∀ work, ¬Owned P T targets work → ∀ shown, T.gallery.Reaches work shown →
    ∀ representative, s.ServedBy shown representative → ¬s.Purged representative →
      (∃ owned, Owned P T targets owned ∧ s.visibility owned ≠ .purged ∧
        T.gallery.Reaches owned representative) →
      (∀ user, T.gallery.Reaches user representative → Owned P T targets user) →
      ∃ group ∈ T.gallery.groups, group.representative = representative ∧
        ∃ m ∈ T.gallery.members, m.group = group.id ∧
          ∃ user, T.gallery.HasAsset user m.asset ∧ ¬Owned P T targets user

end Deletion

/-! ### Batches -/

theorem mem_chunks (h : chunk ∈ chunks works) (hwork : work ∈ chunk) : work ∈ works := by
  obtain ⟨k, -, rfl⟩ := mem_map.mp h
  exact mem_of_mem_drop (mem_of_mem_take hwork)

/-- Every work is in a batch. -/
theorem exists_chunk (h : work ∈ works) : ∃ chunk ∈ chunks works, work ∈ chunk := by
  obtain ⟨i, hi, rfl⟩ := mem_iff_getElem.mp h
  have hplace : workBatchSize * (i / workBatchSize) + i % workBatchSize = i :=
    Nat.div_add_mod i workBatchSize
  refine ⟨_, mem_map.mpr ⟨i / workBatchSize, ?_, rfl⟩, ?_⟩
  · rw [mem_range]
    change i / 25 < (works.length + 25 - 1) / 25
    omega
  · refine mem_iff_getElem.mpr ⟨i % workBatchSize, ?_, ?_⟩
    · rw [length_take, length_drop]
      change i % 25 < min 25 (works.length - 25 * (i / 25))
      omega
    · simp only [getElem_take, getElem_drop, hplace]

/-! ### What the commits do -/

section Progress

/-- The asset is used by works of the scope only, also through the group it represents. -/
def UsedWithin (G : Gallery) (works : List Nat) (asset : Nat) : Prop :=
  (∀ user, G.Reaches user asset → user ∈ works) ∧ ¬G.GroupUsedOutside works asset

/-- From the first state to the second, works of the scope have moved towards being purged,
and with each purged work the assets that only the scope uses. -/
structure Progress (G : Gallery) (works : List Nat) (s t : State) : Prop where
  changed : ∀ work, t.visibility work ≠ s.visibility work → work ∈ works
  stays : ∀ work, s.visibility work = .purged → t.visibility work = .purged
  hidden : ∀ work, s.visibility work ≠ .visible → t.visibility work ≠ .visible
  grew : ∀ asset, s.Purged asset → t.Purged asset
  kept : ∀ asset, t.Purged asset → s.Purged asset ∨
    (∃ work ∈ works, s.visibility work ≠ .purged ∧ G.Reaches work asset) ∧ UsedWithin G works asset
  removed : ∀ work ∈ works, s.visibility work ≠ .purged → t.visibility work = .purged →
    ∀ asset, G.Reaches work asset → UsedWithin G works asset → t.Purged asset

theorem Progress.refl (G : Gallery) (works : List Nat) (s : State) : Progress G works s s where
  changed := fun _ h => absurd rfl h
  stays := fun _ h => h
  hidden := fun _ h => h
  grew := fun _ h => h
  kept := fun _ h => .inl h
  removed := fun _ _ h h' => absurd h' h

variable {G : Gallery} {c : Commit}

theorem Progress.trans (h : Progress G works s t) (h' : Progress G works t u) :
    Progress G works s u where
  changed := fun work hwork => by
    by_cases hfirst : t.visibility work = s.visibility work
    · exact h'.changed work (hfirst ▸ hwork)
    · exact h.changed work hfirst
  stays := fun work hwork => h'.stays work (h.stays work hwork)
  hidden := fun work hwork => h'.hidden work (h.hidden work hwork)
  grew := fun asset hasset => h'.grew asset (h.grew asset hasset)
  kept := fun asset hasset => by
    rcases h'.kept asset hasset with hbefore | ⟨⟨work, hwork, hpurged, hreaches⟩, hwithin⟩
    · exact h.kept asset hbefore
    · exact .inr ⟨⟨work, hwork, fun hs => hpurged (h.stays work hs), hreaches⟩, hwithin⟩
  removed := fun work hwork hs hu asset hreaches hwithin => by
    by_cases ht : t.visibility work = .purged
    · exact h'.grew asset (h.removed work hwork hs ht asset hreaches hwithin)
    · exact h'.removed work hwork ht hu asset hreaches hwithin

theorem trashBatch_progress (hchunk : ∀ work ∈ chunk, work ∈ works) :
    Progress G works s (trashBatch chunk s) := by
  have hvisibility : ∀ work, (trashBatch chunk s).visibility work =
      if work ∈ chunk ∧ s.visibility work = .visible then .trashed else s.visibility work :=
    fun _ => rfl
  constructor
  · intro work hwork
    rw [hvisibility] at hwork
    split_ifs at hwork with hcond
    · exact hchunk work hcond.1
    · exact absurd rfl hwork
  · intro work hwork
    rw [hvisibility, if_neg (fun hcond => by rw [hwork] at hcond; exact nomatch hcond.2)]
    exact hwork
  · intro work hwork
    rw [hvisibility, if_neg (fun hcond => hwork hcond.2)]
    exact hwork
  · exact fun _ h => h
  · exact fun _ h => .inl h
  · intro work hwork hs ht
    rw [hvisibility] at ht
    split_ifs at ht
    exact absurd ht hs

theorem owners_scope (hworks : works ≠ []) (picked : List Nat) :
    Gallery.owners picked (some works) = works := by
  cases works with
  | nil => exact absurd rfl hworks
  | cons first rest => rfl

theorem purge_progress {lower : Text → Text} {purgeIds : List Nat}
    (hsubset : ∀ work ∈ purgeIds, work ∈ works)
    (h : G.purge stem lower files purgeIds true (some works) s = .ok t) : Progress G works s t := by
  have hpurges := purge_purges h
  have hpicked : ∀ work ∈ G.purgeCandidateWorks s purgeIds,
      work ∈ works ∧ s.visibility work = .trashed := by
    intro work hwork
    obtain ⟨hmem, htrashed⟩ := mem_purgeCandidateWorks hwork
    exact ⟨hsubset work hmem, htrashed⟩
  obtain ⟨-, -, hsome, -⟩ := purge_eq_ok h
  have hworks : works ≠ [] := by
    obtain ⟨work, hwork⟩ := exists_mem_of_ne_nil _ hsome
    exact ne_nil_of_mem (hpicked work hwork).1
  constructor
  · intro work hwork
    rw [hpurges.visibility] at hwork
    split_ifs at hwork with hcond
    · exact (hpicked work hcond).1
    · exact absurd rfl hwork
  · intro work hwork
    rw [hpurges.visibility]
    split_ifs
    · rfl
    · exact hwork
  · intro work hwork
    rw [hpurges.visibility]
    split_ifs
    · exact nofun
    · exact hwork
  · intro asset hasset
    exact (hpurges.purged asset).mpr (.inl hasset)
  · intro asset hasset
    rcases (hpurges.purged asset).mp hasset with hbefore | ⟨⟨work, hwork, hreaches⟩, hwithin⟩
    · exact .inl hbefore
    · rw [owners_scope hworks] at hwithin
      obtain ⟨hmem, htrashed⟩ := hpicked work hwork
      exact .inr ⟨⟨work, hmem, by rw [htrashed]; exact nofun, hreaches⟩, hwithin⟩
  · intro work hwork hs ht asset hreaches hwithin
    rw [hpurges.visibility] at ht
    split_ifs at ht with hcond
    · refine (hpurges.purged asset).mpr (.inr ⟨⟨work, hcond, hreaches⟩, ?_⟩)
      rw [owners_scope hworks]
      exact hwithin
    · exact absurd ht hs

theorem commit_progress (hc : c ∈ commits works deleteFiles)
    (h : commit P T stem files works c s = .ok t) : Progress T.gallery works s t := by
  have hchunk : ∀ chunk, c = .trash chunk ∨ c = .purge chunk → chunk ∈ chunks works := by
    intro chunk hcase
    unfold commits at hc
    cases deleteFiles with
    | false => rcases hcase with rfl | rfl <;> simp at hc; exact hc
    | true => rcases hcase with rfl | rfl <;> simpa using hc
  cases c with
  | disable =>
    cases h
    exact .refl _ _ _
  | trash chunk =>
    cases h
    exact trashBatch_progress fun work hwork => mem_chunks (hchunk chunk (.inl rfl)) hwork
  | purge chunk =>
    unfold commit purgeBatch at h
    dsimp only at h
    split_ifs at h with hnone
    · cases h
      exact .refl _ _ _
    refine purge_progress (fun work hwork => ?_) (mapError_ok h)
    exact mem_chunks (hchunk chunk (.inr rfl)) (mem_filter.mp hwork).1

/-- What holds of the works of a batch once its commit is done. -/
def Done (c : Commit) (s : State) : Prop :=
  match c with
  | .disable => True
  | .trash chunk => ∀ work ∈ chunk, s.visibility work ≠ .visible
  | .purge chunk => ∀ work ∈ chunk, s.visibility work = .purged

theorem Done.progress (h : Done c s) (hp : Progress G works s t) : Done c t := by
  cases c with
  | disable => trivial
  | trash chunk => exact fun work hwork => hp.hidden work (h work hwork)
  | purge chunk => exact fun work hwork => hp.stays work (h work hwork)

theorem trashBatch_done (chunk : List Nat) (s : State) :
    Done (.trash chunk) (trashBatch chunk s) := by
  intro work hwork
  change (if work ∈ chunk ∧ s.visibility work = .visible then _ else _) ≠ _
  split_ifs with hcond
  · exact nofun
  · exact fun hvisible => hcond ⟨hwork, hvisible⟩

/-- Purging a batch whose works are no longer visible purges all of them. -/
theorem purgeBatch_done (hexists : ∀ work ∈ chunk, ∃ row ∈ T.gallery.works, row.id = work)
    (hhidden : ∀ work ∈ chunk, s.visibility work ≠ .visible)
    (h : purgeBatch P T stem files works chunk s = .ok t) : Done (.purge chunk) t := by
  intro work hwork
  unfold purgeBatch at h
  dsimp only at h
  split_ifs at h with hnone
  · cases h
    by_contra hpurged
    have hmem : work ∈ chunk.filter (s.visibility · ≠ .purged) :=
      mem_filter.mpr ⟨hwork, by simpa using hpurged⟩
    rw [hnone] at hmem
    cases hmem
  have hpurges := purge_purges (mapError_ok h)
  rw [hpurges.visibility]
  split_ifs with hpicked
  · rfl
  -- a work that is neither visible nor purged is in the trash, and so is picked
  cases hvisibility : s.visibility work with
  | visible => exact absurd hvisibility (hhidden work hwork)
  | purged => rfl
  | trashed =>
    obtain ⟨row, hrow, hid⟩ := hexists work hwork
    refine absurd (mem_map.mpr ⟨row, mem_filter.mpr ⟨hrow, ?_⟩, hid⟩) hpicked
    simp [hid, hwork, hvisibility]

/-- All commits have succeeded: the works of the scope are not visible, and are purged if
the files are deleted. -/
theorem commitAll_ends (hexists : ∀ work ∈ works, ∃ row ∈ T.gallery.works, row.id = work)
    (h : (commitAll (commit P T stem files works) (commits works deleteFiles) s).2 = .ok t) :
    (∀ work ∈ works, t.visibility work ≠ .visible) ∧
      (deleteFiles = true → ∀ work ∈ works, t.visibility work = .purged) := by
  obtain ⟨middle, hfirst, hsecond⟩ := commitAll_append h

  have hhidden : ∀ work ∈ works, middle.visibility work ≠ .visible := by
    have hdone := commitAll_done (I := fun _ => True) (Q := Done) (fun _ _ _ _ _ _ => trivial)
      (fun c hc s s' _ hstep => by
        rcases mem_cons.mp hc with rfl | htrash
        · trivial
        · obtain ⟨chunk, -, rfl⟩ := mem_map.mp htrash
          cases hstep
          exact trashBatch_done chunk s)
      (fun c hc d s s' _ hd hstep => by
        have hmem : c ∈ commits works deleteFiles := mem_append_left _ hc
        exact hd.progress (commit_progress hmem hstep))
      trivial hfirst
    intro work hwork
    obtain ⟨chunk, hchunk, hmem⟩ := exists_chunk hwork
    exact hdone (.trash chunk) (mem_cons_of_mem _ (mem_map_of_mem hchunk)) work hmem
  have hlater : Progress T.gallery works middle t :=
    commitAll_visited (I := Progress T.gallery works middle)
      (fun c hc s s' hI hstep => hI.trans (commit_progress (mem_append_right _ hc) hstep))
      (.refl _ _ _) (commitAll_end_visited hsecond)
  refine ⟨fun work hwork => hlater.hidden work (hhidden work hwork), ?_⟩
  rintro rfl work hwork
  have hdone := commitAll_done (I := fun s => ∀ work ∈ works, s.visibility work ≠ .visible)
    (Q := Done)
    (fun c hc s s' hI hstep work hwork =>
      (commit_progress (mem_append_right _ hc) hstep).hidden work (hI work hwork))
    (fun c hc s s' hI hstep => by
      obtain ⟨chunk, hchunk, rfl⟩ := mem_map.mp hc
      exact purgeBatch_done (fun work hwork => hexists work (mem_chunks hchunk hwork))
        (fun work hwork => hI work (mem_chunks hchunk hwork)) hstep)
    (fun c hc d s s' _ hd hstep => hd.progress (commit_progress (mem_append_right _ hc) hstep))
    hhidden hsecond
  obtain ⟨chunk, hchunk, hmem⟩ := exists_chunk hwork
  exact hdone (.purge chunk) (mem_map_of_mem hchunk) work hmem

/-- Without the purges no storage row changes. -/
theorem commit_storage (hc : c ∈ commits works false) (h : commit P T stem files works c s = .ok t) :
    t.storage = s.storage := by
  cases c with
  | disable =>
    cases h
    rfl
  | trash chunk =>
    cases h
    rfl
  | purge chunk => simp [commits] at hc

/-- What the commits have done in every state between them. -/
theorem visited_progress
    (hu : u ∈ (commitAll (commit P T stem files works) (commits works deleteFiles) s).1) :
    Progress T.gallery works s u ∧ (deleteFiles = false → u.storage = s.storage) := by
  refine commitAll_visited
    (I := fun u => Progress T.gallery works s u ∧ (deleteFiles = false → u.storage = s.storage))
    ?_ ⟨.refl _ _ _, fun _ => rfl⟩ hu
  rintro c hc s₁ s₂ ⟨hprogress, hstorage⟩ hstep
  refine ⟨hprogress.trans (commit_progress hc hstep), ?_⟩
  rintro rfl
  rw [commit_storage hc hstep, hstorage rfl]

end Progress

/-! ### Deletion -/

section Iff

variable {targets : Targets} {entityType : EntityType} {ids : List Nat} {T' : Hierarchy}

theorem permanentDelete_eq (htargets : loadTargets T entityType ids = .ok targets) (s : State) :
    permanentDelete P T stem files entityType ids deleteFiles false s =
      { visited := (commitAll (commit P T stem files (exclusiveWorks P T targets))
          (commits (exclusiveWorks P T targets) deleteFiles) s).1
        outcome := (commitAll (commit P T stem files (exclusiveWorks P T targets))
          (commits (exclusiveWorks P T targets) deleteFiles) s).2.map fun s' =>
            (s', deleteDomainRows T targets) } := by
  simp [permanentDelete, htargets]

theorem permanentDelete_ok (htargets : loadTargets T entityType ids = .ok targets)
    (h : (permanentDelete P T stem files entityType ids deleteFiles false s).outcome = .ok (t, T')) :
    (commitAll (commit P T stem files (exclusiveWorks P T targets))
      (commits (exclusiveWorks P T targets) deleteFiles) s).2 = .ok t := by
  rw [permanentDelete_eq htargets] at h
  obtain ⟨s', hrun, heq⟩ := map_ok h
  cases heq
  exact hrun

section

variable (hplain : ∀ source ∈ T.gallery.workSources, PlainName source.source)
include hplain

/-- What was done up to a state is safe, if what others need is needed through sources. -/
theorem safe_of_progress (hneeded : deleteFiles = true → NeededThroughSources P T targets s)
    (hprogress : Progress T.gallery (exclusiveWorks P T targets) s u)
    (hstorage : deleteFiles = false → u.storage = s.storage) : Safe P T targets s u := by
  constructor
  · intro work hwork
    exact (mem_exclusiveWorks hplain).mp (hprogress.changed work hwork)
  intro work hother asset hneeds hpresent hpurged
  cases hdelete : deleteFiles with
  | false =>
    unfold State.Purged at hpresent hpurged
    rw [hstorage hdelete] at hpurged
    exact hpresent hpurged
  | true =>
    rcases hprogress.kept asset hpurged with hbefore | ⟨⟨owned, howned, hvisible, hreaches⟩, honly, hgroup⟩
    · exact hpresent hbefore
    have honly' : ∀ user, T.gallery.Reaches user asset → Owned P T targets user :=
      fun user huser => (mem_exclusiveWorks hplain).mp (honly user huser)
    rcases hneeds with hshows | ⟨shown, hshows, hserved⟩
    · exact hother (honly' work hshows)
    obtain ⟨group, hmem, hrep, m, hm, hof, user, huser, houtside⟩ :=
      hneeded hdelete work hother shown hshows asset hserved hpresent
        ⟨owned, (mem_exclusiveWorks hplain).mp howned, hvisible, hreaches⟩ honly'
    refine hgroup (groupUsedOutside_iff.mpr
      ⟨group, hmem, hrep, m, hm, hof, user, huser, ?_⟩)
    exact fun hin => houtside ((mem_exclusiveWorks hplain).mp hin)

theorem exclusiveWorks_exist (hwork : work ∈ exclusiveWorks P T targets) :
    ∃ row ∈ T.gallery.works, row.id = work := by
  obtain ⟨⟨source, hsource, rfl⟩, -⟩ := (mem_exclusiveWorks hplain).mp hwork
  exact T.gallery.workSource_work source hsource

/-- A deletion that has ended, seen from a state in which an earlier one had stopped. -/
theorem deletes_of_progress (htargets : loadTargets T entityType ids = .ok targets)
    (hneeded : deleteFiles = true → NeededThroughSources P T targets s)
    (hprogress : Progress T.gallery (exclusiveWorks P T targets) s u)
    (hstorage : deleteFiles = false → u.storage = s.storage)
    (h : (permanentDelete P T stem files entityType ids deleteFiles false u).outcome = .ok (t, T')) :
    Deletes P T targets s
      (permanentDelete P T stem files entityType ids deleteFiles false u).visited t := by
  have hrun := permanentDelete_ok htargets h
  rw [permanentDelete_eq htargets]
  constructor
  · intro w hw
    obtain ⟨hlater, hlaterStorage⟩ := visited_progress hw
    exact safe_of_progress hplain hneeded (hprogress.trans hlater)
      fun hdelete => (hlaterStorage hdelete).trans (hstorage hdelete)
  · intro work hwork
    have hhidden := (commitAll_ends (fun _ => exclusiveWorks_exist hplain) hrun).1 work
      ((mem_exclusiveWorks hplain).mpr hwork)
    cases hvisibility : t.visibility work with
    | visible => exact absurd hvisibility hhidden
    | trashed => exact .inl rfl
    | purged => exact .inr rfl

/-- A deletion that has purged its works, and has taken nothing that others need, shows that
what they need is needed through sources. -/
theorem needed_of_deletes (hprogress : Progress T.gallery (exclusiveWorks P T targets) s t) (hsafe : Safe P T targets s t)
    (hpurged : ∀ work ∈ exclusiveWorks P T targets, t.visibility work = .purged) :
    NeededThroughSources P T targets s := by
  intro work hother shown hshows representative hserved hpresent
  rintro ⟨owned, howned, hvisible, hreaches⟩ honly
  by_contra hnone
  refine hsafe.assets work hother representative (.inr ⟨shown, hshows, hserved⟩) hpresent ?_
  have hmem := (mem_exclusiveWorks hplain).mpr howned
  refine hprogress.removed owned hmem hvisible (hpurged owned hmem) representative hreaches
    ⟨fun user huser => (mem_exclusiveWorks hplain).mpr (honly user huser), fun hgroup => hnone ?_⟩
  obtain ⟨group, hgroup, hrep, m, hm, hof, user, huser, houtside⟩ :=
    groupUsedOutside_iff.mp hgroup
  exact ⟨group, hgroup, hrep, m, hm, hof, user, huser, fun howned =>
    houtside ((mem_exclusiveWorks hplain).mpr howned)⟩

end

end Iff

/-- A permanent deletion takes only works that belong to the targets alone, and keeps what
the other works need, if every representative that they need, and that only works of the
scope use, is needed through an asset source.  A deletion that ends has all works of the
scope in the trash or purged, and one that is started again after it has stopped between
two commits does the same; with the files, all this just if that condition is met. -/
theorem permanentDelete_iff (P : Providers) (T : Hierarchy) (stem : Text → Text) (files : Files)
    (hplain : ∀ source ∈ T.gallery.workSources, PlainName source.source)
    (entityType : EntityType) (ids : List Nat) (targets : Targets)
    (htargets : loadTargets T entityType ids = .ok targets) (deleteFiles : Bool) (s : State) :
    ((deleteFiles = true → NeededThroughSources P T targets s) →
      ∀ u ∈ (permanentDelete P T stem files entityType ids deleteFiles false s).visited,
        Safe P T targets s u) ∧
    ∀ t T',
      (permanentDelete P T stem files entityType ids deleteFiles false s).outcome = .ok (t, T') →
      ((Deletes P T targets s
          (permanentDelete P T stem files entityType ids deleteFiles false s).visited t ∧
        ∀ u ∈ (permanentDelete P T stem files entityType ids deleteFiles false s).visited,
          ∀ files' t' T'',
            (permanentDelete P T stem files' entityType ids deleteFiles false u).outcome =
              .ok (t', T'') →
            Deletes P T targets s
              (permanentDelete P T stem files' entityType ids deleteFiles false u).visited t') ↔
      (deleteFiles = true → NeededThroughSources P T targets s)) := by
  have hvisited : ∀ u ∈ (permanentDelete P T stem files entityType ids deleteFiles false s).visited,
      Progress T.gallery (exclusiveWorks P T targets) s u ∧
        (deleteFiles = false → u.storage = s.storage) := by
    intro u hu
    rw [permanentDelete_eq htargets] at hu
    exact visited_progress hu
  constructor
  · intro hneeded u hu
    obtain ⟨hprogress, hstorage⟩ := hvisited u hu
    exact safe_of_progress hplain hneeded hprogress hstorage
  intro t T' hend
  have hrun := permanentDelete_ok htargets hend
  constructor
  · rintro ⟨hdeletes, -⟩ rfl
    have hlast : t ∈ (permanentDelete P T stem files entityType ids true false s).visited := by
      rw [permanentDelete_eq htargets]
      exact commitAll_end_visited hrun
    exact needed_of_deletes hplain (hvisited t hlast).1 (hdeletes.safe t hlast)
      ((commitAll_ends (fun _ => exclusiveWorks_exist hplain) hrun).2 rfl)
  · intro hneeded
    refine ⟨deletes_of_progress hplain htargets hneeded (.refl _ _ _) (fun _ => rfl) hend, ?_⟩
    intro u hu files' t' T'' hagain
    obtain ⟨hprogress, hstorage⟩ := hvisited u hu
    exact deletes_of_progress hplain htargets hneeded hprogress hstorage hagain

/-! ### A creator with two works -/

section Creator

private def asciiProviders : Providers where
  casefold := asciiCase.lower
  sqlLower := asciiCase.lower
  casefold_ascii := asciiCase.lower_ascii
  sqlLower_ascii := asciiCase.lower_ascii
  normalizeUrl := fun _ url => .ok (some url)
  creatorDirFromUrl := fun _ _ => .ok none

/-- The works 1 and 2 are of creator 5, and show one image in two versions, from asset 10.
Work 3 is of creator 6, has asset 12 and `thumbnail` as its thumbnail. -/
private def twoCreators (thumbnail : Nat) (h : thumbnail ∈ [10, 11, 12]) : Hierarchy where
  gallery :=
    { pairGallery thumbnail h with
      workSources :=
        [⟨21, 1, "pixiv".toList, some "a".toList, noUpload⟩,
          ⟨22, 2, "Twitter".toList, some "b".toList, noUpload⟩,
          ⟨23, 3, "danbooru".toList, some "c".toList, noUpload⟩]
      workSource_nodup := by decide
      workSource_work := by simp [pairGallery] }
  creators := [5, 6]
  subscriptions := []
  repositories := []
  sourceCreators :=
    [⟨"pixiv".toList, "a".toList, some 5, none⟩, ⟨"x".toList, "b".toList, some 5, none⟩,
      ⟨"danbooru".toList, "c".toList, some 6, none⟩]

/-- All works are visible, and the file of asset 11 is in quarantine. -/
private def servedPair : State where
  visibility := fun _ => .visible
  storage := fun asset =>
    if asset = 11 then
      some { AssetReconciliation.Storage.inserted with
        storageState := .quarantined, servedBy := some 10 }
    else none
  uploadUsedBytes := fun _ => 0

private def noFiles : Files := ⟨fun _ => 0, fun _ => false⟩

private def firstCreator : Targets := ⟨.creator, [5], [], []⟩

variable {thumbnail : Nat}

private theorem twoCreators_plain (h : thumbnail ∈ [10, 11, 12]) :
    ∀ source ∈ (twoCreators thumbnail h).gallery.workSources, PlainName source.source := by
  intro source hsource
  simp only [twoCreators, mem_cons, not_mem_nil, or_false] at hsource
  rcases hsource with rfl | rfl | rfl <;> exact ⟨by simp, by decide⟩

private theorem twoCreators_targets (h : thumbnail ∈ [10, 11, 12]) :
    loadTargets (twoCreators thumbnail h) .creator [5] = .ok firstCreator := by
  rfl

/-- Work 3 has asset 11 as its thumbnail.  The deletion of creator 5 with its files ends, and
has purged asset 10, from which asset 11 is shown. -/
theorem thumbnail_representative_deleted :
    (∀ source ∈ (twoCreators 11 (by decide)).gallery.workSources, PlainName source.source) ∧
    loadTargets (twoCreators 11 (by decide)) .creator [5] = .ok firstCreator ∧
    ∃ t T', (permanentDelete asciiProviders (twoCreators 11 (by decide)) id noFiles .creator [5] true
        false servedPair).outcome = .ok (t, T') ∧
      ¬Safe asciiProviders (twoCreators 11 (by decide)) firstCreator servedPair t := by
  refine ⟨twoCreators_plain _, twoCreators_targets _, _, _, rfl, fun hsafe => ?_⟩
  refine hsafe.assets 3 ?_ 10 (.inr ⟨11, by decide, by decide⟩) (by decide) (by decide)
  rw [← mem_exclusiveWorks (twoCreators_plain _)]
  decide

/-- With asset 12 as the thumbnail of work 3 the deletion takes what it may and nothing
else. -/
theorem permanentDelete_own_thumbnail :
    ∃ t T', (permanentDelete asciiProviders (twoCreators 12 (by decide)) id noFiles .creator [5] true
        false servedPair).outcome = .ok (t, T') ∧
      Deletes asciiProviders (twoCreators 12 (by decide)) firstCreator servedPair
        (permanentDelete asciiProviders (twoCreators 12 (by decide)) id noFiles .creator [5] true
          false servedPair).visited t := by
  obtain ⟨t, T', hend⟩ : ∃ t T', (permanentDelete asciiProviders (twoCreators 12 (by decide)) id
      noFiles .creator [5] true false servedPair).outcome = .ok (t, T') := ⟨_, _, rfl⟩
  refine ⟨t, T', hend, ?_⟩
  refine (((permanentDelete_iff asciiProviders (twoCreators 12 (by decide)) id noFiles
    (twoCreators_plain _) .creator [5] firstCreator (twoCreators_targets _) true servedPair).2
    t T' hend).mpr fun _ => ?_).1
  rintro work hother shown hshows representative hserved - - -
  -- only asset 11 is served from another one, and only work 2 shows it
  have hshown : shown = 11 := by
    by_contra hne
    simp [State.ServedBy, servedPair, hne] at hserved
  have hwork : 2 = work := by
    subst hshown
    simpa [Gallery.Reaches, Gallery.HasAsset, Gallery.HasThumbnail, twoCreators,
      pairGallery] using hshows
  subst hwork
  rw [← mem_exclusiveWorks (twoCreators_plain _)] at hother
  exact absurd (by decide) hother

end Creator

end HierarchyDeletion
