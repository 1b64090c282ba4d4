import AutoGallery.AssetGroups
import AutoGallery.Runs

/-!
# A decision that two images are not the same

A merge looks at all assets of the group it would make, and is refused if some pair of
them was decided to be separate.  A separate case is never opened again.  So no merge
brings a separate pair together, also not through third assets.

The decision itself does not look at the groups.  Of three assets the first two and the
last two can be merged, and the first and the last be decided to be separate
(`separate_pair_in_group`).  A run keeps every separate pair apart just if every pair is
apart at the time it is decided to be separate (`separate_apart_iff`).
-/

namespace AssetReconciliation

open PyText

/-- No group has both assets of a separate case. -/
def SeparateApart (db : Database) : Prop :=
  ∀ case ∈ db.cases, case.status = .separate → ¬db.Together case.left case.right

instance (db : Database) : Decidable (SeparateApart db) :=
  inferInstanceAs (Decidable (∀ case ∈ db.cases, _))

/-- The pair that the call decides to be separate, if it does, is in no common group. -/
def DecidedApart (db : Database) (action : Action) : Prop :=
  ∀ case ∈ separates db action, ¬db.Together case.left case.right

instance (db : Database) (action : Action) : Decidable (DecidedApart db action) :=
  inferInstanceAs (Decidable (∀ case ∈ separates db action, _))

variable {db : Database} {case : Case} {action : Action}

theorem mem_replaceCase {old new : Case} (h : case ∈ (db.replaceCase old new).cases) :
    case ∈ db.cases ∨ case = new ∧ old ∈ db.cases := by
  obtain ⟨row, hrow, hcase⟩ := List.mem_map.mp h
  by_cases hold : row = old
  · rw [if_pos hold] at hcase
    exact .inr ⟨hcase.symm, hold ▸ hrow⟩
  · rw [if_neg hold] at hcase
    exact .inl (hcase ▸ hrow)

/-- What every single change keeps. -/
structure Separated (db : Database) : Prop where
  apart : SeparateApart db
  used : GroupsUsed db

namespace Separated

variable {L : Library} {db db' : Database}

/-- Both members of a group after a merge, seen before it: they were together, or the merge
looked at both. -/
theorem together_joinGroup {db₀ : Database} {left right group now evidence : Nat}
    {representative : Asset} (hused : GroupsUsed db)
    (htarget : Target db left right representative.id group db₀) {a b : Nat}
    (h : (joinGroup db₀ now group evidence representative
      (L.assets.filter (·.id ∈ db.prospective left right))).1.Together a b) :
    db.Together a b ∨ a ∈ db.prospective left right ∧ b ∈ db.prospective left right := by
  have hseen : ∀ m ∈ (joinGroup db₀ now group evidence representative
      (L.assets.filter (·.id ∈ db.prospective left right))).1.members,
      m ∈ db.members ∨ m.group = group ∧ m.asset ∈ db.prospective left right := by
    intro m hm
    rcases mem_joinGroup hm with hold | ⟨hgroup, added, hadded, hid⟩
    · exact .inl (htarget.members ▸ hold)
    · exact .inr ⟨hgroup, hid ▸ by simpa using (List.mem_filter.mp hadded).2⟩
  obtain ⟨m, hm, rfl, hother⟩ := h
  rcases hseen m hm with hold | ⟨hgroup, hmem⟩
  · rcases hseen _ hother with hold' | ⟨hgroup, hmem⟩
    · exact .inl ⟨m, hold, rfl, hold'⟩
    · exact .inr ⟨htarget.member_prospective hused hold hgroup, hmem⟩
  · refine .inr ⟨hmem, ?_⟩
    rcases hseen _ hother with hold' | ⟨-, hmem'⟩
    · exact htarget.member_prospective hused hold' hgroup
    · exact hmem'

theorem change (h : Separated db) (hchange : Change L db db') : Separated db' := by
  cases hchange with
  | evidence e => exact ⟨h.apart, fun m hm => (h.used m hm).trans (Nat.lt_succ_self _)⟩
  | opened case hstatus =>
    refine ⟨?_, fun m hm => (h.used m hm).trans (Nat.lt_succ_self _)⟩
    intro row hrow hseparate
    rcases List.mem_append.mp hrow with hold | hnew
    · exact h.apart row hold hseparate
    · rw [List.mem_singleton.mp hnew] at hseparate
      exact absurd hseparate hstatus
  | updated old new hleft hright hstatus =>
    refine ⟨?_, h.used⟩
    intro row hrow hseparate
    rcases mem_replaceCase hrow with hold | ⟨rfl, hold⟩
    · exact h.apart row hold hseparate
    · rw [hleft, hright]
      exact h.apart old hold (hstatus hseparate)
  | decision d => exact ⟨h.apart, h.used⟩
  | merged left right group now evidence representative db₀ htarget hasset hmember havailable hfree =>
    constructor
    · intro row hrow hseparate htogether
      have hold : row ∈ db.cases := htarget.cases ▸ hrow
      rcases together_joinGroup h.used htarget htogether with hbefore | ⟨hl, hr⟩
      · exact h.apart row hold hseparate hbefore
      · exact hfree ⟨row, hold, hseparate, hl, hr⟩
    · intro m hm
      refine lt_of_lt_of_le ?_ (Nat.le_add_right db₀.nextId _)
      rcases mem_joinGroup hm with hold | ⟨hgroup, -⟩
      · exact lt_of_lt_of_le (h.used m (htarget.members ▸ hold)) htarget.nextId_le
      · exact hgroup ▸ htarget.used h.used

theorem changes (h : Separated db) (hchanges : Relation.ReflTransGen (Change L) db db') :
    Separated db' := by
  induction hchanges with
  | refl => exact h
  | tail _ hlast ih => exact ih.change hlast

theorem step {action : Action} (h : Separated db) (hdecided : DecidedApart db action) :
    Separated (step L db action) := by
  cases hseparates : separates db action with
  | none => exact h.changes (step_changes hseparates)
  | some case =>
    obtain ⟨decision, hstep⟩ := step_separates (L := L) hseparates
    rw [hstep]
    refine ⟨?_, h.used⟩
    intro row hrow hseparate
    rcases mem_replaceCase hrow with hold | ⟨rfl, -⟩
    · exact h.apart row hold hseparate
    · exact hdecided case hseparates

end Separated

/-- The case that a call marks as separate is a case. -/
theorem separates_mem (h : separates db action = some case) : case ∈ db.cases := by
  obtain ⟨policy, validate, now, call⟩ := action
  cases call with
  | evaluateAsset autoApply id candidates => cases h
  | decide request =>
    unfold separates lookUp at h
    dsimp only at h
    split at h
    next found hfound =>
      split_ifs at h
      cases h
      split at hfound
      next =>
        split_ifs at hfound
        cases hfound
      split at hfound
      next => cases hfound
      next row hrow =>
        split_ifs at hfound
        cases hfound
        exact List.mem_of_find?_eq_some hrow
    next => cases h

/-- A call after which all separate pairs are apart has decided a pair that is apart. -/
theorem decidedApart_of_step {L : Library} (h : SeparateApart (step L db action)) :
    DecidedApart db action := by
  intro case hcase
  obtain ⟨decision, hstep⟩ := step_separates (L := L) hcase
  rw [hstep] at h
  refine h { case with status := .separate, revision := case.revision + 1 } ?_ rfl
  exact List.mem_map.mpr ⟨case, separates_mem hcase, if_pos rfl⟩

/-- A run that starts without groups keeps every separate pair apart just if every pair is
apart at the time that it is decided to be separate. -/
theorem separate_apart_iff (L : Library) (db : Database) (run : List Action)
    (hstart : db.members = []) :
    Runs.Throughout (step L) SeparateApart db run ↔ Runs.AllSteps (step L) DecidedApart db run := by
  have hseparated : Separated db := by
    constructor
    · rintro case - - ⟨m, hm, -⟩
      simp [hstart] at hm
    · intro m hm
      simp [hstart] at hm
  exact Runs.throughout_iff_allSteps (fun db h => h.apart)
    (fun db action h _ hdecided => h.step hdecided)
    (fun db action _ _ h => decidedApart_of_step h) hseparated Runs.allSteps_true

/-- **Groups only grow.**  A run that starts without groups has every asset in at most one
group, every representative in its own group, and every member served by it.  What has come
into a group stays there, and no call of the reconciliation takes a file away. -/
theorem groups_only_grow (L : Library) (db : Database) (hids : (L.assets.map Asset.id).Nodup)
    (hgroups : db.groups = []) (hmembers : db.members = []) (houtbox : db.outbox = [])
    (run later : List Action) :
    Grouped L ((run ++ later).foldl (step L) db) ∧
      Extends (run.foldl (step L) db) ((run ++ later).foldl (step L) db) := by
  have hstart : Grouped L db := by
    constructor <;> simp [hgroups, hmembers, houtbox]
  rw [List.foldl_append]
  exact (hstart.run hids run).1.run hids later

/-! ### Three versions of an image -/

section Versions

/-- Three assets of three works, from three sources. -/
private def versions : Library where
  assets := [1, 2, 3].map fun id =>
    { id
      fileName := "image.jpg".toList
      filePath := "image.jpg".toList
      fileSize := some 1
      sha256 := some [Char.ofNat (48 + id)]
      phash := some "ff".toList
      mimeType := "image/jpeg".toList
      width := some 1
      height := some 1 }
  bindings :=
    [⟨1, 11, 21, "pixiv".toList⟩, ⟨2, 12, 22, "x".toList⟩, ⟨3, 13, 23, "danbooru".toList⟩]
  lower := id
  sourceKeyForExtractor := id
  idText := fun n => (toString n).toList

private def emptyDatabase : Database where
  evidence := []
  cases := []
  decisions := []
  groups := []
  members := []
  storage := fun _ => none
  outbox := []
  nextId := 100

/-- A pair that looks alike, and is left to a user. -/
private def alike (digest : Text) : EvidenceFacts where
  inputDigest := digest
  sha256Equal := false
  hardGatePassed := true
  totalScore := 80
  phashMaxDistance := 4
  ssimMinScore := 98 / 100
  quarantineDays := 30

private def calls (call : Call) : Action where
  policy := ⟨true, 95, 70⟩
  validate := fun _ _ => alike "later".toList
  now := 0
  call

/-- The cases of the three pairs are opened, with the ids 101, 103 and 105. -/
private def opened : List Action :=
  [calls (.evaluateAsset true 1
      (versions.assets.tail.map fun asset => (asset, alike "first".toList))),
    calls (.evaluateAsset true 2 ((versions.assets.drop 2).map fun asset =>
      (asset, alike "second".toList)))]

private def byUser (case revision : Nat) (action : DecisionAction) (representative : Option Nat) :
    Action :=
  calls (.decide
    { caseId := case
      expectedRevision := revision
      action
      representative
      reason := none
      actorType := .user
      idempotencyKey := (toString case).toList })

/-- The first and the second version are merged, then the second and the third.  The first
and the third are then decided to be separate, and stay in one group. -/
theorem separate_pair_in_group :
    emptyDatabase.members = [] ∧ ¬Runs.Throughout (step versions) SeparateApart emptyDatabase
      (opened ++ [byUser 101 1 .merge (some 1), byUser 105 1 .merge (some 1),
        byUser 103 1 .separate none]) := by
  decide +kernel

/-- The first two are merged, and the third is decided to be separate from both. -/
theorem separate_apart_third :
    Runs.Throughout (step versions) SeparateApart emptyDatabase
      (opened ++ [byUser 101 1 .merge (some 1), byUser 105 1 .separate none,
        byUser 103 1 .separate none]) :=
  (separate_apart_iff versions emptyDatabase _ rfl).mpr (by decide +kernel)

/-- The group of the first two takes in the third. -/
theorem groups_only_grow_third :
    let merged := (opened ++ [byUser 101 1 .merge (some 1)]).foldl (step versions) emptyDatabase
    let third := (opened ++ [byUser 101 1 .merge (some 1)] ++
      [byUser 105 1 .merge (some 1)]).foldl (step versions) emptyDatabase
    merged.members.map Member.asset = [1, 2] ∧ third.members.map Member.asset = [1, 2, 3] ∧
      Grouped versions third ∧ Extends merged third :=
  ⟨by decide +kernel, by decide +kernel,
    groups_only_grow versions emptyDatabase (by decide) rfl rfl rfl _ _⟩

end Versions

end AssetReconciliation
