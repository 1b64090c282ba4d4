import AutoGallery.AssetReconciliation
import Mathlib.Logic.Relation

/-!
# What a call of the reconciliation can do

Every call is a chain of single changes (`step_changes`): evidence, a case, a decision, a
merge.  The one exception is a decision that marks a case as separate
(`step_separates`).  What holds after every call is shown for the changes.
-/

namespace AssetReconciliation

open PyText List Relation

variable {asset : Asset} {now : Nat} {db : Database} {group left right : Nat}

/-- The group that a merge puts the assets into, and the database with that group: the
one group of the two assets, or a new one. -/
inductive Target (db : Database) (left right : Nat) (representative : Nat) :
    Nat → Database → Prop
  | existing (group : Nat) (hgroup : db.groupIds left right = [group])
      (hrow : ⟨group, representative⟩ ∈ db.groups) : Target db left right representative group db
  | new (hnone : db.groupIds left right = []) :
      Target db left right representative db.nextId (db.addGroup representative)

/-- A single change of the database that does not mark a case as separate. -/
inductive Change (L : Library) (db : Database) : Database → Prop
  | evidence (evidence : Evidence) :
      Change L db { db with evidence := db.evidence ++ [evidence], nextId := db.nextId + 1 }
  | opened (case : Case) (hstatus : case.status ≠ .separate) :
      Change L db { db with cases := db.cases ++ [case], nextId := db.nextId + 1 }
  | updated (old new : Case) (hleft : new.left = old.left) (hright : new.right = old.right)
      (hstatus : new.status = .separate → old.status = .separate) :
      Change L db (db.replaceCase old new)
  | decision (decision : Decision) :
      Change L db { db with decisions := db.decisions ++ [decision] }
  | merged (left right group now evidence : Nat) (representative : Asset) (db₀ : Database)
      (htarget : Target db left right representative.id group db₀)
      (hasset : representative ∈ L.assets) (hmember : representative.id ∈ db.prospective left right)
      (havailable : db.IsAvailable representative.id)
      (hapart : ¬db.Blocked (db.prospective left right)) :
      Change L db (joinGroup db₀ now group evidence representative
        (L.assets.filter (·.id ∈ db.prospective left right))).1

theorem best_mem (L : Library) :
    ∀ {assets : List Asset}, L.best assets = some asset → asset ∈ assets
  | [], h => by cases h
  | first :: rest, h => by
      unfold Library.best at h
      cases hrest : L.best rest with
      | none =>
        rw [hrest] at h
        cases h
        exact mem_cons_self
      | some other =>
        simp only [hrest] at h
        split_ifs at h <;> cases h
        · exact mem_cons_of_mem _ (best_mem L hrest)
        · exact mem_cons_self

section Inversion

variable {L : Library} {policy : Policy} {validate : Nat → Nat → EvidenceFacts}

variable {requested : Option Nat} {available : List Asset} {evidence : Evidence} {db' : Database}
  {request : Request} {case : Case} {receipt : Receipt} {autoApply : Bool} {action : Action}

theorem chosenRepresentative_mem (h : chosenRepresentative L requested available = .ok asset) :
    asset ∈ available := by
  unfold chosenRepresentative at h
  cases requested with
  | some id =>
    cases hfound : available.find? (·.id = id) with
    | none => simp [hfound] at h
    | some found =>
      simp only [hfound, Except.ok.injEq] at h
      exact h ▸ mem_of_find?_eq_some hfound
  | none =>
    cases hbest : L.best available with
    | none => simp [hbest] at h
    | some found =>
      simp only [hbest, Except.ok.injEq] at h
      exact h ▸ best_mem L hbest

theorem keptRepresentative_spec {ids : List Nat}
    (h : keptRepresentative policy validate db group requested available ids evidence = .ok asset) :
    asset ∈ available ∧ ⟨group, asset.id⟩ ∈ db.groups := by
  unfold keptRepresentative at h
  cases hgroup : db.groups.find? (·.id = group) with
  | none => simp [hgroup] at h
  | some existing =>
    simp only [hgroup] at h
    split_ifs at h
    cases hfound : available.find? (·.id = existing.representative) with
    | none => simp [hfound] at h
    | some found =>
      simp only [hfound] at h
      split_ifs at h
      cases h
      have hid : asset.id = existing.representative := by
        simpa using find?_some hfound
      have hexisting : existing.id = group := by simpa using find?_some hgroup
      refine ⟨mem_of_find?_eq_some hfound, ?_⟩
      rw [hid, ← hexisting]
      exact mem_of_find?_eq_some hgroup

/-- A merge is one change. -/
theorem mergeAssets_change {merged : Merged}
    (h : mergeAssets L policy validate now db left right requested evidence = .ok (db', merged)) :
    Change L db db' := by
  obtain ⟨_, -, h⟩ := bind_ok h
  split_ifs at h with hexist hgroups
  obtain ⟨_, -, h⟩ := bind_ok h
  split_ifs at h with hblocked
  cases hhead : (db.groupIds left right).head? with
  | none =>
    simp only [hhead] at h
    obtain ⟨representative, hchosen, h⟩ := bind_ok h
    have hmem := chosenRepresentative_mem hchosen
    simp only [mem_filter, decide_eq_true_eq] at hmem
    have hresult : _ = db' := congrArg Prod.fst (Except.ok.inj h)
    rw [← hresult]
    exact .merged left right db.nextId now evidence.id representative _
      (.new (head?_eq_none_iff.mp hhead)) hmem.1.1 hmem.1.2 hmem.2 hblocked
  | some group =>
    simp only [hhead] at h
    obtain ⟨representative, hkept, h⟩ := bind_ok h
    obtain ⟨hmem, hrow⟩ := keptRepresentative_spec hkept
    simp only [mem_filter, decide_eq_true_eq] at hmem
    have hone : db.groupIds left right = [group] := by
      match hids : db.groupIds left right, hhead, hgroups with
      | [only], hhead, _ => simpa using hhead
      | _ :: _ :: _, _, hgroups => simp at hgroups
    have hresult : _ = db' := congrArg Prod.fst (Except.ok.inj h)
    rw [← hresult]
    exact .merged left right group now evidence.id representative db
      (.existing group hone hrow) hmem.1.1 hmem.1.2 hmem.2 hblocked

/-- The case that a request marks as separate, if it does. -/
def separates (db : Database) (action : Action) : Option Case :=
  match action.call with
  | .evaluateAsset .. => none
  | .decide request =>
    match lookUp db request with
    | .ok (.case case) =>
      if request.action = .separate ∧ (db.evidence.find? (·.id = case.evidence)).isSome then
        some case
      else none
    | _ => none

theorem recordDecision_changes {status : CaseStatus} {merged : Option Merged}
    (hstatus : status ≠ .separate) :
    ReflTransGen (Change L) db (recordDecision db request case status merged).1 := by
  have hcase : Change L db (db.replaceCase case
      { case with status, revision := case.revision + 1 }) :=
    .updated case _ rfl rfl fun h => absurd h hstatus
  exact .tail (.single hcase) (.decision _)

theorem decideCase_changes (haction : request.action ≠ .separate)
    (h : decideCase L policy validate now db request case = .ok (db', receipt)) :
    ReflTransGen (Change L) db db' := by
  unfold decideCase at h
  split at h
  next => cases h
  rename_i evidence _
  split at h
  next =>
    obtain ⟨⟨merging, merged⟩, hmerge, h⟩ := bind_ok h
    have hresult : _ = db' := congrArg Prod.fst (Except.ok.inj h)
    rw [← hresult]
    exact .head (mergeAssets_change hmerge) (recordDecision_changes nofun)
  next hseparate => exact absurd hseparate haction
  next =>
    have hresult : _ = db' := congrArg Prod.fst (Except.ok.inj h)
    rw [← hresult]
    exact recordDecision_changes nofun

theorem decide_changes (haction : request.action ≠ .separate)
    (h : decide L policy validate now db request = .ok (db', receipt)) :
    ReflTransGen (Change L) db db' := by
  obtain ⟨found, -, h⟩ := bind_ok h
  cases found with
  | recorded result =>
    cases h
    exact .refl
  | case case => exact decideCase_changes haction h

theorem persistEvidence_changes (left right : Nat) (facts : EvidenceFacts) :
    ReflTransGen (Change L) db (persistEvidence db left right facts).1 := by
  unfold persistEvidence
  dsimp only
  split
  · exact .refl
  · exact .single (.evidence _)

theorem upsertCase_changes (left right : Asset) (evidence : Evidence) :
    ReflTransGen (Change L) db (upsertCase L db left right evidence).1 := by
  unfold upsertCase
  dsimp only
  split
  · exact .single (.opened _ nofun)
  · split_ifs with hnew hdeferred
    · exact .single (.updated _ _ rfl rfl nofun)
    · exact .single (.updated _ _ rfl rfl id)
    · exact .refl

theorem evaluateCandidate_changes {candidate : Asset} {facts : EvidenceFacts}
    (h : evaluateCandidate L policy validate now autoApply asset candidate facts db = .ok db') :
    ReflTransGen (Change L) db db' := by
  unfold evaluateCandidate at h
  split at h
  next =>
    cases h
    exact .refl
  have hevidence : ReflTransGen (Change L) db _ :=
    persistEvidence_changes asset.id candidate.id facts
  have hwritten := hevidence.trans
    (upsertCase_changes asset candidate (persistEvidence db asset.id candidate.id facts).2)
  dsimp only at h
  split_ifs at h with hgate hreview hauto
  · cases h
    exact .refl
  · cases h
    exact .refl
  · cases hdecide : decide L policy validate now _ (automaticMerge L _ _) with
    | error e =>
      rw [hdecide] at h
      cases h
    | ok result =>
      rw [hdecide] at h
      cases h
      exact hwritten.trans (decide_changes (by simp [automaticMerge]) hdecide)
  · cases h
    exact hwritten

theorem evaluateCandidates_changes (candidates : List (Asset × EvidenceFacts)) :
    ReflTransGen (Change L) db
      (evaluateCandidates L policy validate now autoApply asset candidates db) := by
  induction candidates generalizing db with
  | nil => exact .refl
  | cons first rest ih =>
    unfold evaluateCandidates
    split
    next => exact .refl
    next db' hfirst => exact (evaluateCandidate_changes hfirst).trans ih

theorem evaluateAsset_changes {id : Nat} {candidates : List (Asset × EvidenceFacts)} :
    ReflTransGen (Change L) db
      (evaluateAsset L policy validate now autoApply id candidates db) := by
  unfold evaluateAsset
  split
  · exact .refl
  · split
    · exact .refl
    · split
      · exact .refl
      · exact evaluateCandidates_changes candidates

/-- A call that marks no case as separate is a chain of changes. -/
theorem step_changes (h : separates db action = none) :
    ReflTransGen (Change L) db (step L db action) := by
  obtain ⟨policy, validate, now, call⟩ := action
  cases call with
  | evaluateAsset autoApply id candidates => exact evaluateAsset_changes
  | decide request =>
    unfold step
    dsimp only
    split
    next db' receipt hdecide =>
      by_cases haction : request.action = .separate
      · -- a separate request that succeeds without marking a case was recorded before
        obtain ⟨found, hfound, hdecide⟩ := bind_ok hdecide
        simp only [separates, hfound] at h
        cases found with
        | recorded result =>
          cases hdecide
          exact .refl
        | case case =>
          have hevidence : db.evidence.find? (·.id = case.evidence) = none := by
            simpa [haction] using h
          simp [decideCase, hevidence] at hdecide
      · exact decide_changes haction hdecide
    next => exact .refl

/-- A call that marks a case as separate does nothing else but record the decision. -/
theorem step_separates (h : separates db action = some case) :
    ∃ decision, step L db action =
      { db.replaceCase case { case with status := .separate, revision := case.revision + 1 } with
        decisions := db.decisions ++ [decision] } := by
  obtain ⟨policy, validate, now, call⟩ := action
  cases call with
  | evaluateAsset autoApply id candidates => cases h
  | decide request =>
    unfold separates at h
    dsimp only at h
    split at h
    next found hfound =>
      split_ifs at h with hseparate
      cases h
      obtain ⟨haction, hevidence⟩ := hseparate
      obtain ⟨evidence, hrow⟩ := Option.isSome_iff_exists.mp hevidence
      refine ⟨?_, ?_⟩
      rotate_left
      · simp only [step, decide, hfound, bind, Except.bind, decideCase, hrow, haction]
        rfl
    next => cases h

end Inversion

/-! ### What a merge adds -/

/-- The groups that have members have used ids. -/
def GroupsUsed (db : Database) : Prop :=
  ∀ m ∈ db.members, m.group < db.nextId

section Merge

variable {db₀ : Database} {representative : Nat}

section

variable (h : Target db left right representative group db₀)
include h

theorem Target.members :
    db₀.members = db.members := by
  cases h <;> rfl

theorem Target.cases :
    db₀.cases = db.cases := by
  cases h <;> rfl

theorem Target.nextId_le :
    db.nextId ≤ db₀.nextId := by
  cases h with
  | existing => exact le_rfl
  | new => exact Nat.le_succ _

end

variable {m : Member}

section

variable (h : Target db left right representative group db₀) (hused : GroupsUsed db)
include h hused

/-- The members of the group that grows are among the assets that the merge looks at. -/
theorem Target.member_prospective (hm : m ∈ db.members) (hgroup : m.group = group) :
    m.asset ∈ db.prospective left right := by
  cases h with
  | existing _ hids _ =>
    refine mem_append_right _ (mem_flatMap.mpr ⟨group, by simp [hids], ?_⟩)
    exact mem_map.mpr ⟨m, mem_filter.mpr ⟨hm, by simpa using hgroup⟩, rfl⟩
  | new =>
    have := hused m hm
    omega

theorem Target.used :
    group < db₀.nextId := by
  cases h with
  | existing _ hids _ =>
    have hmem : group ∈ db.groupIds left right := by simp [hids]
    unfold Database.groupIds at hmem
    obtain ⟨m, hm, rfl⟩ := mem_map.mp (mem_dedup.mp hmem)
    exact hused m (mem_filter.mp hm).1
  | new => exact Nat.lt_succ_self _

end

/-- The members after a merge: those before it, and in the group that grew the assets that
the merge looked at. -/
theorem mem_joinGroup {evidence : Nat} {assets : List Asset}
    (h : m ∈ (joinGroup db now group evidence asset assets).1.members) :
    m ∈ db.members ∨ m.group = group ∧ ∃ added ∈ assets, added.id = m.asset := by
  rcases mem_append.mp h with hold | hnew
  · exact .inl hold
  · obtain ⟨added, hadded, rfl⟩ := mem_map.mp hnew
    exact .inr ⟨rfl, added, (mem_filter.mp hadded).1, rfl⟩

end Merge

end AssetReconciliation
