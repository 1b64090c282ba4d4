import AutoGallery.CurationRows
import AutoGallery.GitProjection

/-!
# Rebuilding the curation state from disk

After a disaster the states of works and creators are set from what the repositories
say.  What a repository says is its index, and the index lives in the shards; the
rebuild reads the `entries` of the tree of HEAD, which name only what the last commit
has changed.  A work is restored if some entity of HEAD stands for it, or if it needs
nothing (`finalState_restores_iff`).
-/

namespace GitRebuild

open PyText GitObjects Curation
open List (mem_singleton mem_flatMap Forall₂)
open WorkDatabase (Visibility)

variable {State Digest Prefix Details Fingerprint : Type}

section Model

/-- How the keys of a state are read: `none` if the key is missing. -/
structure Reader (State : Type) where
  visibility : State → Option Visibility
  /-- `visibility` in the state of a creator, which is active or archived -/
  archived : State → Option Bool
  reason : State → Option Text
  isFavorite : State → Option Bool

/-- What `_build_maps` makes of the identities on disk. -/
structure Maps where
  work : Text → Option Uuid
  creator : Text → Option Uuid

/-- An entry of a tree: the two parts of its key, and the state of its blob, if it has
one. -/
structure Entry (State : Type) where
  subjectType : Text
  oldSid : Text
  state : Option State

/-- `state` of an object. -/
def blobState : GitObject State Digest Prefix Details → Option State
  | .blob _ _ state => some state
  | _ => none

/-- `entries` of the tree of a commit. -/
def treeEntries (repo : Repo State Digest Prefix Details) [DecidableEq Digest]
    (commit : CommitObject Digest Prefix Details) : Finmap fun _ : Key => Digest :=
  match commit.tree.bind repo.read with
  | some (.tree tree) => tree.entries
  | _ => ∅

/-- The entries of the tree of HEAD whose blobs can be read, in the order of the file. -/
def headEntries [DecidableEq Digest] (repo : Repo State Digest Prefix Details) :
    List (Entry State) :=
  match (repo.head.bind repo.read).bind GitObject.asCommit with
  | none => []
  | some commit =>
    ((treeEntries repo commit).keys.sort (· ≤ ·)).filterMap fun key => do
      let blobHash ← (treeEntries repo commit).lookup key
      let object ← repo.read blobHash
      let (subjectType, oldSid) := splitAt key '/'
      return ⟨subjectType, oldSid, blobState object⟩

/-- What the loops of `_apply_final_state` keep. -/
structure Rebuilding (Fingerprint : Type) where
  db : Database Fingerprint
  applied : Nat
  changedWorkIds : Finset Uuid

/-- A work is set to a state. -/
def restoreWork (R : Reader State) (workId : Uuid) (state : Option State)
    (db : Database Fingerprint) : Database Fingerprint :=
  let db := updateWorkState workId
    (fun s => { s with
      visibility := (state.bind R.visibility).getD .visible
      reason := state.bind R.reason }) (ensureWorkState workId db).1
  match getWork workId db with
  | none => db
  | some _ => setFavorite workId ((state.bind R.isFavorite).getD false) db

/-- A creator is set to a state. -/
def restoreCreator (R : Reader State) (creatorId : Uuid) (state : Option State)
    (db : Database Fingerprint) : Database Fingerprint :=
  updateCreatorState creatorId
    (fun s => { s with
      archived := (state.bind R.archived).getD false
      reason := state.bind R.reason }) (ensureCreatorState creatorId db).1

/-- The body of the loop over the entries. -/
def applyEntry (R : Reader State) (maps : Maps) (dryRun : Bool) (acc : Rebuilding Fingerprint)
    (entry : Entry State) : Rebuilding Fingerprint :=
  if entry.subjectType = "work".toList then
    match maps.work entry.oldSid with
    | none => acc
    | some newId =>
      if dryRun then { acc with applied := acc.applied + 1 }
      else {
        db := restoreWork R newId entry.state acc.db
        applied := acc.applied + 1
        changedWorkIds := insert newId acc.changedWorkIds }
  else if entry.subjectType = "creator".toList then
    match maps.creator entry.oldSid with
    | none => acc
    | some newId =>
      if dryRun then { acc with applied := acc.applied + 1 }
      else { acc with
        db := restoreCreator R newId entry.state acc.db
        applied := acc.applied + 1 }
  else acc

/-- `_apply_final_state`. -/
def applyFinalState [DecidableEq Digest] (R : Reader State) (maps : Maps) (dryRun : Bool)
    (repos : List (Repo State Digest Prefix Details)) (db : Database Fingerprint) :
    Rebuilding Fingerprint :=
  repos.foldl (fun acc repo => (headEntries repo).foldl (applyEntry R maps dryRun) acc) ⟨db, 0, ∅⟩

end Model

section Rows

variable (R : Reader State) (maps : Maps)

/-- What a work looks like that has been set to a state. -/
def restored (state : Option State) (before : Visibility × Option Bool) :
    Visibility × Option Bool :=
  ((state.bind R.visibility).getD .visible,
    before.2.map fun _ => (state.bind R.isFavorite).getD false)

/-- Setting a work changes that work, and no other. -/
theorem live_restoreWork (workId other : Uuid) (state : Option State)
    (db : Database Fingerprint) :
    live other (restoreWork R workId state db) =
      if other = workId then restored R state (live other db) else live other db := by
  unfold restoreWork
  dsimp only
  generalize hupdated : updateWorkState workId _ (ensureWorkState workId db).1 = updated
  have hlive : live other updated =
      if other = workId then ((state.bind R.visibility).getD .visible, (live other db).2)
      else live other db := by
    rw [← hupdated, live_updateWorkState _ _ (by exact fun s h => h)]
    by_cases hother : other = workId
    · subst hother
      rw [if_pos rfl, if_pos rfl, (ensureWorkState_spec db other).1, live_ensureWorkState]
      rfl
    · rw [if_neg hother, if_neg hother, live_ensureWorkState]
  cases hwork : getWork workId updated with
  | none =>
    rw [hlive]
    by_cases hother : other = workId
    · subst hother
      have hnone : (live other db).2 = none := by
        have hsecond : (live other updated).2 = none := by
          unfold live
          rw [hwork]
          rfl
        rwa [hlive, if_pos rfl] at hsecond
      rw [if_pos rfl, if_pos rfl]
      unfold restored
      rw [hnone]
      rfl
    · rw [if_neg hother, if_neg hother]
  | some work =>
    dsimp only
    rw [live_setFavorite, hlive]
    by_cases hother : other = workId
    · simp only [if_pos hother]
      rfl
    · simp only [if_neg hother]

theorem live_restoreCreator (creatorId other : Uuid) (state : Option State)
    (db : Database Fingerprint) :
    live other (restoreCreator R creatorId state db) = live other db := by
  unfold restoreCreator ensureCreatorState
  cases creatorState creatorId db <;> rfl

theorem restored_restored (state state' : Option State) (before : Visibility × Option Bool) :
    restored R state (restored R state' before) = restored R state before := by
  simp [restored, Function.comp_def]

/-- The work that an entry stands for. -/
def Entry.work (maps : Maps) (entry : Entry State) : Option Uuid :=
  if entry.subjectType = "work".toList then maps.work entry.oldSid else none

theorem live_applyEntry (entry : Entry State) (acc : Rebuilding Fingerprint) (workId : Uuid) :
    live workId (applyEntry R maps false acc entry).db =
      if entry.work maps = some workId then restored R entry.state (live workId acc.db)
      else live workId acc.db := by
  unfold applyEntry Entry.work
  by_cases hwork : entry.subjectType = "work".toList
  · rw [if_pos hwork, if_pos hwork]
    cases hmap : maps.work entry.oldSid with
    | none => simp
    | some newId =>
      change live workId (restoreWork R newId entry.state acc.db) = _
      rw [live_restoreWork]
      by_cases hsame : workId = newId
      · rw [if_pos hsame, if_pos (by rw [hsame])]
      · rw [if_neg hsame, if_neg fun h => hsame (Option.some.inj h).symm]
  · rw [if_neg hwork, if_neg hwork, if_neg (nofun : ¬ (none : Option Uuid) = some workId)]
    by_cases hcreator : entry.subjectType = "creator".toList
    · rw [if_pos hcreator]
      cases maps.creator entry.oldSid with
      | none => rfl
      | some newId => exact live_restoreCreator R newId workId entry.state acc.db
    · rw [if_neg hcreator]

/-- The last entry that stands for a work decides. -/
theorem live_applyEntries (entries : List (Entry State)) (acc : Rebuilding Fingerprint)
    (workId : Uuid) :
    (∃ entry ∈ entries, entry.work maps = some workId ∧
      live workId (entries.foldl (applyEntry R maps false) acc).db =
        restored R entry.state (live workId acc.db)) ∨
    (∀ entry ∈ entries, entry.work maps ≠ some workId) ∧
      live workId (entries.foldl (applyEntry R maps false) acc).db = live workId acc.db := by
  induction entries using List.reverseRecOn with
  | nil => exact .inr ⟨by simp, rfl⟩
  | append_singleton entries last ih =>
    rw [List.foldl_append, List.foldl_cons, List.foldl_nil, live_applyEntry]
    by_cases hlast : last.work maps = some workId
    · refine .inl ⟨last, by simp, hlast, ?_⟩
      rw [if_pos hlast]
      rcases ih with ⟨entry, -, -, hlive⟩ | ⟨-, hlive⟩
      · rw [hlive, restored_restored]
      · rw [hlive]
    · rw [if_neg hlast]
      rcases ih with ⟨entry, hentry, hwork, hlive⟩ | ⟨hnone, hlive⟩
      · exact .inl ⟨entry, by simp [hentry], hwork, hlive⟩
      · refine .inr ⟨fun entry hentry => ?_, hlive⟩
        rcases List.mem_append.mp hentry with hbefore | hself
        · exact hnone entry hbefore
        · rw [mem_singleton.mp hself]
          exact hlast

end Rows

section Heads

variable [DecidableEq Digest] [LinearOrder Prefix] {L : Layout State Digest Prefix Details}

/-- The entity of a work. -/
def workKey (sid : Text) : Key := entityKey "work".toList sid

theorem splitAt_entityKey (subjectType subjectId : Text) :
    entityKey subjectType subjectId =
      (splitAt (entityKey subjectType subjectId) '/').1 ++
        '/' :: (splitAt (entityKey subjectType subjectId) '/').2 := by
  induction subjectType with
  | nil => simp [entityKey, splitAt]
  | cons c rest ih =>
    by_cases hc : c = '/'
    · simp [entityKey, splitAt, hc]
    have hstep : splitAt (entityKey (c :: rest) subjectId) '/' =
        (c :: (splitAt (entityKey rest subjectId) '/').1,
          (splitAt (entityKey rest subjectId) '/').2) := by
      simp [entityKey, splitAt, hc]
    rw [hstep]
    exact congrArg (c :: ·) ih

theorem splitAt_workKey (sid : Text) : splitAt (workKey sid) '/' = ("work".toList, sid) :=
  splitAt_append (by decide) sid

omit [LinearOrder Prefix] in
/-- The entries of the tree of HEAD are the entities that its commit leaves changed. -/
theorem mem_headEntries {repo : Repo State Digest Prefix Details}
    {object : CommitObject Digest Prefix Details}
    {chain : List (CommitObject Digest Prefix Details)} {keys : List Key}
    {index : Key → Option State} (hchain : Chain repo repo.head (object :: chain))
    (htree : TreeLists repo object keys index) (entry : Entry State) :
    entry ∈ headEntries repo ↔ ∃ key ∈ keys, ∃ state, index key = some state ∧
      entry = ⟨(splitAt key '/').1, (splitAt key '/').2, some state⟩ := by
  obtain ⟨digest, tree, hdigest, hread, hentries, hblobs⟩ := htree
  have hhead : (repo.head.bind repo.read).bind GitObject.asCommit = some object := by
    generalize repo.head = head at hchain ⊢
    cases hchain with
    | commit hcommit _ =>
      change (repo.read _).bind _ = _
      rw [hcommit]
      rfl
  have hlisted : treeEntries repo object = tree.entries := by
    unfold treeEntries
    rw [hdigest]
    change (match repo.read digest with | some (.tree tree) => tree.entries | _ => ∅) = _
    rw [hread]
  unfold headEntries
  rw [hhead]
  dsimp only
  rw [hlisted, List.mem_filterMap]
  constructor
  · rintro ⟨key, hkey, hentry⟩
    rw [Finset.mem_sort, Finmap.mem_keys] at hkey
    obtain ⟨blobHash, hlookup⟩ := Finmap.mem_iff.mp hkey
    obtain ⟨subjectType, subjectId, state, hblob, hstate⟩ := hblobs key blobHash hlookup
    rw [hlookup] at hentry
    change (repo.read blobHash).bind _ = _ at hentry
    rw [hblob] at hentry
    exact ⟨key, ((hentries key).mp hkey).1, state, hstate, (Option.some.inj hentry).symm⟩
  · rintro ⟨key, hkey, state, hstate, rfl⟩
    have hmem : key ∈ tree.entries := (hentries key).mpr ⟨hkey, by simp [hstate]⟩
    obtain ⟨blobHash, hlookup⟩ := Finmap.mem_iff.mp hmem
    obtain ⟨subjectType, subjectId, found, hblob, hfound⟩ := hblobs key blobHash hlookup
    rw [hstate] at hfound
    cases hfound
    refine ⟨key, by rwa [Finset.mem_sort, Finmap.mem_keys], ?_⟩
    rw [hlookup]
    change (repo.read blobHash).bind _ = _
    rw [hblob]
    rfl

/-- What the commits of a repository come to. -/
def finalIndex (history : List (Application State Details)) : Key → Option State :=
  folded (fun _ => none) history

/-- The last commit of a history leaves the entity changed. -/
def ChangedLast (history : List (Application State Details)) (key : Key) : Prop :=
  ∃ last ∈ history.getLast?, key ∈ last.changes.map (·.key)

/-- A repository with what its history comes to. -/
def ProjectedFrom (history : List (Application State Details))
    (repo : Repo State Digest Prefix Details) : Prop :=
  readIndex repo = .ok (finalIndex history) ∧
    ∀ entry, entry ∈ headEntries repo ↔ ∃ key, ChangedLast history key ∧
      ∃ state, finalIndex history key = some state ∧
        entry = ⟨(splitAt key '/').1, (splitAt key '/').2, some state⟩

variable {history : List (Application State Details)}

/-- A repository that its history has been projected into. -/
theorem projected_history (L : Layout State Digest Prefix Details)
    (hnodup : (history.map (·.commit.id)).Nodup) :
    ∃ repo, applyAll L freshRepo history = .ok repo ∧ ProjectedFrom history repo := by
  obtain ⟨repo, appended, hrun, -, hrest, hlast⟩ :=
    applyAll_ok history (freshRepo_atRest (L := L)) hnodup (by simp)
  refine ⟨repo, hrun, ?_⟩
  cases hcase : history.getLast? with
  | none =>
    rw [List.getLast?_eq_none_iff] at hcase
    subst hcase
    cases hrun
    refine ⟨rfl, fun entry => ⟨nofun, ?_⟩⟩
    rintro ⟨key, ⟨last, hmem, -⟩, -⟩
    cases hmem
  | some last =>
    obtain ⟨hsettled, object, hobject, htree⟩ := hlast last hcase
    obtain ⟨rest, rfl⟩ := List.head?_eq_some_iff.mp hobject
    refine ⟨hrest.projected.readIndex hsettled, fun entry => ?_⟩
    rw [mem_headEntries hrest.reached htree]
    unfold ChangedLast
    rw [hcase]
    simp [finalIndex]

theorem ChangedLast.eq_workKey {key : Key} (h : ChangedLast history key)
    (hwork : (splitAt key '/').1 = "work".toList) : key = workKey (splitAt key '/').2 := by
  obtain ⟨last, -, hkey⟩ := h
  obtain ⟨change, -, rfl⟩ := List.mem_map.mp hkey
  have hsplit := splitAt_entityKey change.subjectType change.subjectId
  change change.key = (splitAt change.key '/').1 ++ '/' :: (splitAt change.key '/').2 at hsplit
  rw [hwork] at hsplit
  exact hsplit

end Heads

section Restoring

variable [DecidableEq Digest] [LinearOrder Prefix] {R : Reader State} {maps : Maps}
  {histories : List (List (Application State Details))}
  {repos : List (Repo State Digest Prefix Details)} {db : Database Fingerprint}

variable (R db) in
/-- The work shows the state: its visibility, and its favourite mark if there is a row. -/
def Shows (workId : Uuid) (state : State) : Prop :=
  live workId db = restored R (some state) (live workId db)

variable (R maps repos db) in
/-- Every mapped work shows the state that `read_index` reports for its entity. -/
def Restored : Prop :=
  ∀ repo ∈ repos, ∀ index, readIndex repo = .ok index → ∀ sid workId state,
    index (workKey sid) = some state → maps.work sid = some workId → Shows R db workId state

variable (maps histories) in
/-- A mapped entity of the histories stands for the work, with its last state. -/
def StandsFor (workId : Uuid) (state : State) : Prop :=
  ∃ history ∈ histories, ∃ sid, maps.work sid = some workId ∧
    finalIndex history (workKey sid) = some state

variable (maps histories) in
/-- A mapped entity that the last commit of its history changed stands for the work. -/
def StandsLast (workId : Uuid) (state : State) : Prop :=
  ∃ history ∈ histories, ∃ sid, maps.work sid = some workId ∧
    finalIndex history (workKey sid) = some state ∧ ChangedLast history (workKey sid)

/-- The histories are projected, each into a repository of its own. -/
theorem projected_histories (L : Layout State Digest Prefix Details)
    (hnodup : ∀ history ∈ histories, (history.map (·.commit.id)).Nodup) :
    ∃ repos, histories.mapM (applyAll L freshRepo) = .ok repos ∧
      Forall₂ ProjectedFrom histories repos := by
  induction histories with
  | nil => exact ⟨[], rfl, .nil⟩
  | cons first rest ih =>
    obtain ⟨repo, hrun, hprojected⟩ := projected_history L (hnodup first List.mem_cons_self)
    obtain ⟨repos, hruns, hrest⟩ := ih fun history h => hnodup history (List.mem_cons_of_mem _ h)
    refine ⟨repo :: repos, ?_, .cons hprojected hrest⟩
    rw [List.mapM_cons, hrun, hruns]
    rfl

variable (R maps histories db) in
/-- The entities that stand for one work agree on what it looks like. -/
def Agree : Prop :=
  ∀ workId state state', StandsFor maps histories workId state →
    StandsFor maps histories workId state' →
    restored R (some state) (live workId db) = restored R (some state') (live workId db)

variable (R maps histories db) in
/-- Every work that an entity stands for has one that the last commit of its history
changed, or shows the state already. -/
def Covered : Prop :=
  ∀ workId state, StandsFor maps histories workId state →
    (∃ state', StandsLast maps histories workId state') ∨ Shows R db workId state

variable {workId : Uuid}

theorem StandsLast.standsFor {state : State} (h : StandsLast maps histories workId state) :
    StandsFor maps histories workId state := by
  obtain ⟨history, hhistory, sid, hmap, hstate, -⟩ := h
  exact ⟨history, hhistory, sid, hmap, hstate⟩

section

variable (hprojected : Forall₂ ProjectedFrom histories repos)
include hprojected

/-- The entries of all trees of HEAD that stand for a work. -/
theorem standsLast_iff (workId : Uuid) (state : State) :
    StandsLast maps histories workId state ↔
      ∃ entry ∈ repos.flatMap headEntries, entry.work maps = some workId ∧
        entry.state = some state := by
  constructor
  · rintro ⟨history, hhistory, sid, hmap, hstate, hchanged⟩
    obtain ⟨repo, hrepo, -, hentries⟩ := exists_of_forall₂ hprojected.flip hhistory
    refine ⟨⟨"work".toList, sid, some state⟩, ?_, ?_, rfl⟩
    · refine mem_flatMap.mpr ⟨repo, hrepo, (hentries _).mpr ⟨workKey sid, hchanged, state,
        hstate, ?_⟩⟩
      rw [splitAt_workKey]
    · unfold Entry.work
      rw [if_pos rfl, hmap]
  · rintro ⟨entry, hentry, hwork, hstate⟩
    obtain ⟨repo, hrepo, hhead⟩ := mem_flatMap.mp hentry
    obtain ⟨history, hhistory, -, hentries⟩ := exists_of_forall₂ hprojected hrepo
    obtain ⟨key, hchanged, found, hfound, rfl⟩ := (hentries entry).mp hhead
    cases hstate
    unfold Entry.work at hwork
    split at hwork
    next hsubject =>
      have hkey := hchanged.eq_workKey hsubject
      rw [hkey] at hfound hchanged
      exact ⟨history, hhistory, _, hwork, hfound, hchanged⟩
    · cases hwork

variable (R maps db) in
/-- What becomes of a work: the state of a changed entity that stands for it, or nothing. -/
theorem live_applyFinalState (workId : Uuid) :
    (∃ state, StandsLast maps histories workId state ∧
      live workId (applyFinalState R maps false repos db).db =
        restored R (some state) (live workId db)) ∨
    (∀ state, ¬ StandsLast maps histories workId state) ∧
      live workId (applyFinalState R maps false repos db).db = live workId db := by
  unfold applyFinalState
  rw [← List.foldl_flatMap]
  rcases live_applyEntries R maps (repos.flatMap headEntries) ⟨db, 0, ∅⟩ workId with
    ⟨entry, hentry, hwork, hlive⟩ | ⟨hnone, hlive⟩
  · obtain ⟨repo, hrepo, hhead⟩ := mem_flatMap.mp hentry
    obtain ⟨history, -, -, hentries⟩ := exists_of_forall₂ hprojected hrepo
    obtain ⟨key, -, state, -, hstate⟩ := (hentries entry).mp hhead
    have hsome : entry.state = some state := by rw [hstate]
    rw [hsome] at hlive
    exact .inl ⟨state, (standsLast_iff hprojected workId state).mpr
      ⟨entry, hentry, hwork, hsome⟩, hlive⟩
  · refine .inr ⟨fun state hstands => ?_, hlive⟩
    obtain ⟨entry, hentry, hwork, -⟩ := (standsLast_iff hprojected workId state).mp hstands
    exact hnone entry hentry hwork

/-- What is restored, in terms of the histories. -/
theorem restored_iff (db : Database Fingerprint) :
    Restored R maps repos db ↔
      ∀ workId state, StandsFor maps histories workId state → Shows R db workId state := by
  constructor
  · rintro hrestored workId state ⟨history, hhistory, sid, hmap, hstate⟩
    obtain ⟨repo, hrepo, hindex, -⟩ := exists_of_forall₂ hprojected.flip hhistory
    exact hrestored repo hrepo _ hindex sid workId state hstate hmap
  · intro hall repo hrepo index hindex sid workId state hstate hmap
    obtain ⟨history, hhistory, hfinal, -⟩ := exists_of_forall₂ hprojected hrepo
    rw [hfinal] at hindex
    cases hindex
    exact hall workId state ⟨history, hhistory, sid, hmap, hstate⟩

theorem covered_of_restored
    (h : Restored R maps repos (applyFinalState R maps false repos db).db) :
    Agree R maps histories db ∧ Covered R maps histories db := by
  rw [restored_iff hprojected] at h
  constructor
  · intro workId state state' hstands hstands'
    have hboth := (h workId state hstands).symm.trans (h workId state' hstands')
    rcases live_applyFinalState R maps db hprojected workId with ⟨last, -, hlive⟩ | ⟨-, hlive⟩
    · rwa [hlive, restored_restored, restored_restored] at hboth
    · rwa [hlive] at hboth
  · intro workId state hstands
    have hshows := h workId state hstands
    rcases live_applyFinalState R maps db hprojected workId with ⟨last, hlast, -⟩ | ⟨-, hlive⟩
    · exact .inl ⟨last, hlast⟩
    · unfold Shows at hshows
      rw [hlive] at hshows
      exact .inr hshows

theorem restored_of_covered (hagree : Agree R maps histories db)
    (hcovered : Covered R maps histories db) :
    Restored R maps repos (applyFinalState R maps false repos db).db := by
  rw [restored_iff hprojected]
  intro workId state hstands
  unfold Shows
  rcases live_applyFinalState R maps db hprojected workId with ⟨last, hlast, hlive⟩ | ⟨hnone, hlive⟩
  · rw [hlive, hagree workId last state hlast.standsFor hstands, restored_restored]
  · rw [hlive]
    rcases hcovered workId state hstands with ⟨last, hlast⟩ | hshows
    · exact absurd hlast (hnone last)
    · exact hshows

end

/-- **What a rebuild restores.**  The histories are projected, `read_index` reports the
last state of every entity, and the mapped works show these states after the rebuild just
if the entities of each work agree and one of them was changed by the last commit of its
history, or the work showed the state before. -/
theorem finalState_restores_iff (L : Layout State Digest Prefix Details) (R : Reader State)
    (maps : Maps) (histories : List (List (Application State Details)))
    (hnodup : ∀ history ∈ histories, (history.map (·.commit.id)).Nodup)
    (db : Database Fingerprint) :
    ∃ repos, histories.mapM (applyAll L freshRepo) = .ok repos ∧
      Forall₂ (fun history repo => readIndex repo = .ok (finalIndex history))
        histories repos ∧
      (Restored R maps repos (applyFinalState R maps false repos db).db ↔
        Agree R maps histories db ∧ Covered R maps histories db) := by
  obtain ⟨repos, hruns, hprojected⟩ := projected_histories L hnodup
  exact ⟨repos, hruns, hprojected.imp fun _ _ h => h.1, covered_of_restored hprojected,
    fun h => restored_of_covered hprojected h.1 h.2⟩

/-- States with a visibility and a favourite mark. -/
def plainReader : Reader (Bool × Bool) where
  visibility := fun state => some (if state.1 then .trashed else .visible)
  archived := fun state => some state.1
  reason := fun _ => none
  isFavorite := fun state => some state.2

/-- Two works, as an import leaves them. -/
def twoWorks : Database Unit where
  works := [⟨1, none, none, none, false, false, false, none⟩,
    ⟨2, none, none, none, false, false, false, none⟩]
  workStates := []
  creators := []
  creatorStates := []
  tags := []
  workTags := []
  commits := []
  changes := []
  projectionIntents := []
  searchRequests := []

def twoMaps : Maps where
  work := fun sid => if sid = ['a'] then some 1 else if sid = ['b'] then some 2 else none
  creator := fun _ => none

theorem twoMaps_work {sid : Text} (h : twoMaps.work sid = some workId) :
    sid = ['a'] ∧ workId = 1 ∨ sid = ['b'] ∧ workId = 2 := by
  unfold twoMaps at h
  dsimp only at h
  split at h
  next hsid => exact .inl ⟨hsid, (Option.some.inj h).symm⟩
  · split at h
    next hsid => exact .inr ⟨hsid, (Option.some.inj h).symm⟩
    · cases h

def trash (sid : Text) : GitObjects.Change (Bool × Bool) Unit :=
  ⟨"work".toList, sid, (), some (true, false)⟩

/-- Two works go to the trash, one after the other or both at once. -/
def trashedApart : List (Application (Bool × Bool) Unit) :=
  [⟨⟨['1'], ['t'], ()⟩, [trash ['a']], []⟩, ⟨⟨['2'], ['u'], ()⟩, [trash ['b']], []⟩]

def trashedTogether : List (Application (Bool × Bool) Unit) :=
  [⟨⟨['1'], ['t'], ()⟩, [trash ['a'], trash ['b']], []⟩]

theorem not_standsLast_trashedApart (state : Bool × Bool) :
    ¬ StandsLast twoMaps [trashedApart] 1 state := by
  rintro ⟨history, hhistory, sid, hmap, -, last, hlast, hchanged⟩
  cases mem_singleton.mp hhistory
  cases hlast
  rcases twoMaps_work hmap with ⟨rfl, -⟩ | ⟨-, htwo⟩
  · exact absurd hchanged (by decide)
  · cases htwo

/-- The first of two works that went to the trash one after the other comes back visible. -/
theorem finalState_forgets_earlier :
    ∃ repo, applyAll numbered freshRepo trashedApart = .ok repo ∧
      (∃ index, readIndex repo = .ok index ∧ index (workKey ['a']) = some (true, false)) ∧
      twoMaps.work ['a'] = some 1 ∧
      live 1 (applyFinalState plainReader twoMaps false [repo] twoWorks).db =
        (.visible, some false) := by
  have hnodup : (trashedApart.map (·.commit.id)).Nodup := by decide
  obtain ⟨repo, hrun, hprojected⟩ := projected_history numbered hnodup
  refine ⟨repo, hrun, ⟨_, hprojected.1, by decide⟩, by decide, ?_⟩
  rcases live_applyFinalState plainReader twoMaps twoWorks (.cons hprojected .nil) 1 with
    ⟨state, hstands, -⟩ | ⟨-, hlive⟩
  · exact absurd hstands (not_standsLast_trashedApart state)
  · rw [hlive]
    decide

/-- Two works that went to the trash at once stay there, two that went one after the other
do not. -/
theorem finalState_restores_together :
    (∃ repos, [trashedTogether].mapM (applyAll numbered freshRepo) = .ok repos ∧
      Restored plainReader twoMaps repos
        (applyFinalState plainReader twoMaps false repos twoWorks).db) ∧
    ∃ repos, [trashedApart].mapM (applyAll numbered freshRepo) = .ok repos ∧
      ¬ Restored plainReader twoMaps repos
        (applyFinalState plainReader twoMaps false repos twoWorks).db := by
  constructor
  · obtain ⟨repos, hruns, -, hiff⟩ := finalState_restores_iff numbered plainReader twoMaps
      [trashedTogether] (by decide) twoWorks
    refine ⟨repos, hruns, hiff.mpr ⟨?_, ?_⟩⟩
    · rintro workId state state' ⟨history, hhistory, sid, hmap, hstate⟩
        ⟨history', hhistory', sid', hmap', hstate'⟩
      cases mem_singleton.mp hhistory
      cases mem_singleton.mp hhistory'
      have hsid : sid = sid' := by
        rcases twoMaps_work hmap with ⟨rfl, rfl⟩ | ⟨rfl, rfl⟩ <;>
          rcases twoMaps_work hmap' with ⟨rfl, h⟩ | ⟨rfl, h⟩ <;> first | rfl | cases h
      rw [hsid, hstate'] at hstate
      rw [Option.some.inj hstate]
    · rintro workId state ⟨history, hhistory, sid, hmap, hstate⟩
      cases mem_singleton.mp hhistory
      refine .inl ⟨state, trashedTogether, hhistory, sid, hmap, hstate, _, rfl, ?_⟩
      rcases twoMaps_work hmap with ⟨rfl, -⟩ | ⟨rfl, -⟩ <;> decide
  · obtain ⟨repos, hruns, -, hiff⟩ := finalState_restores_iff numbered plainReader twoMaps
      [trashedApart] (by decide) twoWorks
    refine ⟨repos, hruns, fun hrestored => ?_⟩
    obtain ⟨-, hcovered⟩ := hiff.mp hrestored
    rcases hcovered 1 (true, false) ⟨trashedApart, by simp, ['a'], by decide, by decide⟩ with
      ⟨state, hstands⟩ | hshows
    · exact not_standsLast_trashedApart state hstands
    · exact absurd hshows (by unfold Shows; decide)

end Restoring

end GitRebuild
