import AutoGallery.AssetChanges

/-!
# The groups of a run

An asset is in at most one group, a group's representative is one of its members and never
changes, and the storage rows and the events name it (`Grouped`).  Every change by the
reconciliation keeps this, and takes no member and no group away (`Extends`).
-/

namespace AssetReconciliation

open List Storage

variable {db db' : Database} {asset : Nat} {L : Library} {g : Group}

/-- The asset is a member of a group with this other asset as its representative. -/
def Served (db : Database) (asset representative : Nat) : Prop :=
  ∃ g ∈ db.groups, g.representative = representative ∧ ⟨g.id, asset⟩ ∈ db.members ∧
    asset ≠ representative

/-- An event of this type may be run for the assets of the payload: hard links are for exact
copies only. -/
def Fits (L : Library) (db : Database) (eventType : EventType) (payload : EventPayload) : Prop :=
  Served db payload.asset payload.representative ∧
    ∀ a ∈ L.assets, ∀ r ∈ L.assets, a.id = payload.asset → r.id = payload.representative →
      (eventType = .hardlink ↔ Exact a r)

/-- Who serves the asset in a group with this representative. -/
def server (asset representative : Nat) : Option Nat :=
  if asset = representative then none else some representative

structure Grouped (L : Library) (db : Database) : Prop where
  groupUsed : ∀ g ∈ db.groups, g.id < db.nextId
  groupUnique : ∀ g ∈ db.groups, ∀ h ∈ db.groups, g.id = h.id → g = h
  memberGroup : ∀ m ∈ db.members, ∃ g ∈ db.groups, g.id = m.group
  memberAsset : ∀ m ∈ db.members, ∃ a ∈ L.assets, a.id = m.asset
  memberUnique : ∀ m ∈ db.members, ∀ n ∈ db.members, m.asset = n.asset → m.group = n.group
  representative : ∀ g ∈ db.groups, ⟨g.id, g.representative⟩ ∈ db.members
  servedBy : ∀ g ∈ db.groups, ∀ m ∈ db.members, m.group = g.id →
    ∃ row, db.storage m.asset = some row ∧ row.servedBy = server m.asset g.representative
  events : ∀ e ∈ db.outbox, Fits L db e.eventType e.payload

/-- Nothing is taken away, and no row becomes quarantined or purged. -/
structure Extends (db db' : Database) : Prop where
  groups : ∀ g ∈ db.groups, g ∈ db'.groups
  members : ∀ m ∈ db.members, m ∈ db'.members
  rows : ∀ id row', db'.storage id = some row' → row'.storageState.Gone →
    ∃ row, db.storage id = some row ∧ row.storageState = row'.storageState ∧
      row.quarantinePath = row'.quarantinePath

theorem Extends.refl (db : Database) : Extends db db :=
  ⟨fun _ h => h, fun _ h => h, fun _ row h _ => ⟨row, h, rfl, rfl⟩⟩

theorem Extends.trans {db₁ db₂ db₃ : Database} (h : Extends db₁ db₂) (h' : Extends db₂ db₃) :
    Extends db₁ db₃ := by
  refine ⟨fun g hg => h'.groups g (h.groups g hg), fun m hm => h'.members m (h.members m hm), ?_⟩
  intro id row₃ hrow₃ hgone
  obtain ⟨row₂, hrow₂, hstate₂, hpath₂⟩ := h'.rows id row₃ hrow₃ hgone
  obtain ⟨row₁, hrow₁, hstate₁, hpath₁⟩ := h.rows id row₂ hrow₂ (hstate₂ ▸ hgone)
  exact ⟨row₁, hrow₁, hstate₁.trans hstate₂, hpath₁.trans hpath₂⟩

theorem Served.extends {representative : Nat} (h : Served db asset representative)
    (he : Extends db db') : Served db' asset representative := by
  obtain ⟨g, hg, hrep, hmem, hne⟩ := h
  exact ⟨g, he.groups g hg, hrep, he.members _ hmem, hne⟩

theorem Fits.extends {eventType : EventType} {payload : EventPayload}
    (h : Fits L db eventType payload) (he : Extends db db') : Fits L db' eventType payload :=
  ⟨h.1.extends he, h.2⟩

namespace Grouped

variable {r : Nat}

/-- An asset is served by one other asset at most. -/
theorem served_unique (h : Grouped L db) {r' : Nat} (hr : Served db asset r)
    (hr' : Served db asset r') : r = r' := by
  obtain ⟨g, hg, rfl, hmem, -⟩ := hr
  obtain ⟨g', hg', rfl, hmem', -⟩ := hr'
  have hid : g.id = g'.id := h.memberUnique _ hmem _ hmem' rfl
  rw [h.groupUnique g hg g' hg' hid]

/-- A representative is served by none. -/
theorem representative_not_served (h : Grouped L db) (hg : g ∈ db.groups) :
    ¬Served db g.representative r := by
  rintro ⟨g', hg', rfl, hmem, hne⟩
  have hid : g.id = g'.id := h.memberUnique _ (h.representative g hg) _ hmem rfl
  rw [h.groupUnique g hg g' hg' hid] at hne
  exact hne rfl

/-- An asset that is newly served was served by none before. -/
theorem newly_served (h' : Grouped L db') (he : Extends db db') (hr : Served db' asset r) :
    Served db asset r ∨ ∀ r', ¬Served db asset r' := by
  by_cases hbefore : ∃ r', Served db asset r'
  · obtain ⟨r', hr'⟩ := hbefore
    have hsame := h'.served_unique (hr'.extends he) hr
    exact .inl (hsame ▸ hr')
  · exact .inr fun r' hr' => hbefore ⟨r', hr'⟩

/-- Groups, members, rows and events are all that matters. -/
theorem of_same (h : Grouped L db) (hgroups : db'.groups = db.groups)
    (hmembers : db'.members = db.members) (hstorage : db'.storage = db.storage)
    (houtbox : db'.outbox = db.outbox) (hnext : db.nextId ≤ db'.nextId) : Grouped L db' := by
  cases db'
  subst hgroups hmembers hstorage houtbox
  exact { h with groupUsed := fun g hg => (h.groupUsed g hg).trans_le hnext }

end Grouped

/-! ### A merge -/

section Merge

variable {db₀ : Database} {left right group now evidence : Nat} {representative : Asset}

section

variable (h : Target db left right representative.id group db₀)
include h

theorem Target.group_mem :
    ⟨group, representative.id⟩ ∈ db₀.groups := by
  cases h with
  | existing _ _ hrow => exact hrow
  | new => exact mem_append_right _ (mem_singleton.mpr rfl)

theorem Target.mem_groups (hg : g ∈ db₀.groups) :
    g ∈ db.groups ∨ g = ⟨group, representative.id⟩ := by
  cases h with
  | existing => exact .inl hg
  | new =>
    rcases mem_append.mp hg with hold | hnew
    · exact .inl hold
    · exact .inr (mem_singleton.mp hnew)

theorem Target.storage :
    db₀.storage = db.storage := by
  cases h <;> rfl

theorem Target.outbox :
    db₀.outbox = db.outbox := by
  cases h <;> rfl

theorem Target.extends :
    Extends db db₀ := by
  cases h with
  | existing => exact .refl db
  | new =>
    exact ⟨fun g hg => mem_append_left _ hg, fun m hm => hm,
      fun _ row hrow _ => ⟨row, hrow, rfl, rfl⟩⟩

/-- Two groups with the same id are the same, also with the new group. -/
theorem Target.groupUnique (hg : Grouped L db) :
    ∀ g ∈ db₀.groups, ∀ g' ∈ db₀.groups, g.id = g'.id → g = g' := by
  cases h with
  | existing => exact hg.groupUnique
  | new =>
    intro g hmem g' hmem' hid
    rcases mem_append.mp hmem with hold | hnew <;>
      rcases mem_append.mp hmem' with hold' | hnew'
    · exact hg.groupUnique g hold g' hold' hid
    · have hused := hg.groupUsed g hold
      rw [hid, mem_singleton.mp hnew'] at hused
      exact absurd hused (lt_irrefl _)
    · have hused := hg.groupUsed g' hold'
      rw [← hid, mem_singleton.mp hnew] at hused
      exact absurd hused (lt_irrefl _)
    · rw [mem_singleton.mp hnew, mem_singleton.mp hnew']

/-- A member that the merge looks at is one of the group that grows. -/
theorem Target.member_group (hg : Grouped L db) {m : Member} (hm : m ∈ db.members)
    (hlooked : m.asset ∈ db.prospective left right) : m.group = group := by
  have hnear : m.asset = left ∨ m.asset = right → m.group ∈ db.groupIds left right := by
    intro hside
    exact mem_dedup.mpr (mem_map.mpr ⟨m, mem_filter.mpr ⟨hm, by simpa⟩, rfl⟩)
  have hsplit : (m.asset = left ∨ m.asset = right) ∨
      ∃ other ∈ db.groupIds left right, m.asset ∈ db.memberIds other := by
    simpa [Database.prospective, or_assoc] using hlooked
  cases h with
  | existing _ hids _ =>
    rw [hids] at hnear hsplit
    rcases hsplit with hside | ⟨other, hother, hmem⟩
    · exact mem_singleton.mp (hnear hside)
    · obtain ⟨n, hn, hasset⟩ := mem_map.mp hmem
      simp only [mem_filter, decide_eq_true_eq] at hn
      rw [hg.memberUnique m hm n hn.1 hasset.symm, hn.2]
      exact mem_singleton.mp hother
  | new hnone =>
    rw [hnone] at hnear hsplit
    rcases hsplit with hside | ⟨other, hother, -⟩
    · cases hnear hside
    · cases hother

end

variable {a : Asset} {assets : List Asset} {row : Option Storage} {id : Nat}

theorem mem_looked :
    a ∈ L.assets.filter (·.id ∈ db.prospective left right) ↔
      a ∈ L.assets ∧ a.id ∈ db.prospective left right := by
  simp

/-- Every asset that the merge looks at is in the group afterwards. -/
theorem looked_joined (ha : a ∈ assets) :
    ⟨group, a.id⟩ ∈ (joinGroup db now group evidence representative assets).1.members := by
  by_cases hknown : a.id ∈ db.memberIds group
  · obtain ⟨m, hm, hasset⟩ := mem_map.mp hknown
    simp only [mem_filter, decide_eq_true_eq] at hm
    refine mem_append_left _ ?_
    rw [← hasset, ← hm.2]
    exact hm.1
  · exact mem_append_right _ (mem_map.mpr ⟨a, mem_filter.mpr ⟨ha, by simpa using hknown⟩, rfl⟩)

theorem asRepresentative_gone (h : (asRepresentative row).storageState.Gone) :
    ∃ before, row = some before ∧
      before.storageState = (asRepresentative row).storageState ∧
      before.quarantinePath = (asRepresentative row).quarantinePath := by
  cases row with
  | none => simp [asRepresentative, inserted, StorageKind.Gone] at h
  | some before =>
    refine ⟨before, rfl, ?_, rfl⟩
    unfold asRepresentative at h ⊢
    dsimp only [Option.getD_some] at h ⊢
    split_ifs at h ⊢
    · rfl
    · simp [StorageKind.Gone] at h

theorem asMember_gone {r : Asset} (h : (asMember a r row).storageState.Gone) :
    ∃ before, row = some before ∧ before.storageState = (asMember a r row).storageState ∧
      before.quarantinePath = (asMember a r row).quarantinePath := by
  cases row with
  | none => simp [asMember, inserted, StorageKind.Gone] at h
  | some before =>
    refine ⟨before, rfl, ?_, ?_⟩ <;>
    · unfold asMember
      dsimp only [Option.getD_some]
      split_ifs <;> rfl

@[simp] theorem asRepresentative_servedBy (row : Option Storage) :
    (asRepresentative row).servedBy = none := rfl

@[simp] theorem asMember_servedBy (a r : Asset) (row : Option Storage) :
    (asMember a r row).servedBy = some r.id := by
  unfold asMember
  dsimp only
  split_ifs <;> rfl

/-- The row of an asset that the merge looks at names its server. -/
theorem shareStorage_servedBy (ha : a ∈ assets) :
    ∃ row, shareStorage db representative assets a.id = some row ∧
      row.servedBy = server a.id representative.id := by
  unfold shareStorage
  cases hfound : assets.find? (·.id = a.id) with
  | none => simpa using find?_eq_none.mp hfound a ha
  | some found =>
    have hid : found.id = a.id := by simpa using find?_some hfound
    dsimp only
    rw [hid]
    unfold server
    split_ifs with hrep
    · exact ⟨_, rfl, asRepresentative_servedBy _⟩
    · exact ⟨_, rfl, asMember_servedBy _ _ _⟩

theorem shareStorage_other (h : ∀ a ∈ assets, a.id ≠ id) :
    shareStorage db representative assets id = db.storage id := by
  have hnone : assets.find? (·.id = id) = none :=
    find?_eq_none.mpr fun a ha => by simpa using h a ha
  unfold shareStorage
  rw [hnone]

theorem shareStorage_gone {row' : Storage}
    (h : shareStorage db representative assets id = some row') (hgone : row'.storageState.Gone) :
    ∃ row, db.storage id = some row ∧ row.storageState = row'.storageState ∧
      row.quarantinePath = row'.quarantinePath := by
  unfold shareStorage at h
  split at h
  next => exact ⟨row', h, rfl, rfl⟩
  next =>
    split_ifs at h <;> cases h
    · exact asRepresentative_gone hgone
    · exact asMember_gone hgone

theorem joinGroup_extends (h : Target db left right representative.id group db₀)
    (assets : List Asset) :
    Extends db (joinGroup db₀ now group evidence representative assets).1 := by
  refine h.extends.trans ⟨fun _ hg => hg, fun _ hm => mem_append_left _ hm, ?_⟩
  exact fun id row' hrow' hgone => shareStorage_gone hrow' hgone

/-- The events after a merge: those before it, and new ones for assets that the merge looked
at. -/
theorem mem_outbox_joinGroup {e : Event}
    (h : e ∈ (joinGroup db now group evidence representative assets).1.outbox) :
    e ∈ db.outbox ∨ ∃ a ∈ assets, a.id ≠ representative.id ∧
      e.eventType = effectType a representative ∧
      e.payload = ⟨group, a.id, representative.id, evidence⟩ := by
  rcases mem_append.mp h with hold | hnew
  · exact .inl hold
  · obtain ⟨i, hi, rfl⟩ := mem_mapIdx.mp hnew
    have ha := mem_filter.mp (getElem_mem hi)
    exact .inr ⟨_, ha.1, (of_decide_eq_true ha.2).1, rfl, rfl⟩

theorem effectType_hardlink (a r : Asset) : effectType a r = .hardlink ↔ Exact a r := by
  unfold effectType
  split_ifs with h <;> simp [h]

/-- A merge keeps the groups in order. -/
theorem Grouped.joinGroup (hg : Grouped L db) (hids : (L.assets.map Asset.id).Nodup)
    (h : Target db left right representative.id group db₀) (hasset : representative ∈ L.assets)
    (hmember : representative.id ∈ db.prospective left right) :
    Grouped L (joinGroup db₀ now group evidence representative
      (L.assets.filter (·.id ∈ db.prospective left right))).1 := by
  have hextends : Extends db (AssetReconciliation.joinGroup db₀ now group evidence representative
      (L.assets.filter (·.id ∈ db.prospective left right))).1 := joinGroup_extends h _
  have hused : GroupsUsed db := by
    intro m hm
    obtain ⟨g, hmem, hid⟩ := hg.memberGroup m hm
    exact hid ▸ hg.groupUsed g hmem
  -- a member is one from before, or one that the merge looked at
  have hmembers : ∀ m ∈ (AssetReconciliation.joinGroup db₀ now group evidence representative
      (L.assets.filter (·.id ∈ db.prospective left right))).1.members,
      m ∈ db.members ∨ m.group = group ∧ m.asset ∈ db.prospective left right ∧
        ∃ a ∈ L.assets, a.id = m.asset := by
    intro m hm
    rcases mem_joinGroup hm with hold | ⟨hgroup, a, ha, hid⟩
    · exact .inl (h.members ▸ hold)
    · obtain ⟨hmem, hlooked⟩ := mem_looked.mp ha
      exact .inr ⟨hgroup, hid ▸ hlooked, a, hmem, hid⟩
  have hlookedGroup : ∀ m ∈ (AssetReconciliation.joinGroup db₀ now group evidence representative
      (L.assets.filter (·.id ∈ db.prospective left right))).1.members,
      m.asset ∈ db.prospective left right → m.group = group := by
    intro m hm hlooked
    rcases hmembers m hm with hold | ⟨hgroup, -⟩
    · exact h.member_group hg hold hlooked
    · exact hgroup
  have hunique := h.groupUnique hg
  constructor
  case groupUsed =>
    intro g hmem
    refine lt_of_lt_of_le ?_ (Nat.le_add_right db₀.nextId _)
    rcases h.mem_groups hmem with hold | rfl
    · exact (hg.groupUsed g hold).trans_le h.nextId_le
    · exact h.used hused
  case groupUnique => exact hunique
  case memberGroup =>
    intro m hm
    rcases hmembers m hm with hold | ⟨hgroup, -⟩
    · obtain ⟨g, hmem, hid⟩ := hg.memberGroup m hold
      exact ⟨g, hextends.groups g hmem, hid⟩
    · exact ⟨_, h.group_mem, hgroup.symm⟩
  case memberAsset =>
    intro m hm
    rcases hmembers m hm with hold | ⟨-, -, hexists⟩
    · exact hg.memberAsset m hold
    · exact hexists
  case memberUnique =>
    intro m hm n hn hsame
    by_cases hlooked : m.asset ∈ db.prospective left right
    · rw [hlookedGroup m hm hlooked, hlookedGroup n hn (hsame ▸ hlooked)]
    · rcases hmembers m hm with hold | ⟨-, hlooked', -⟩
      · rcases hmembers n hn with hold' | ⟨-, hlooked', -⟩
        · exact hg.memberUnique m hold n hold' hsame
        · exact absurd (hsame ▸ hlooked') hlooked
      · exact absurd hlooked' hlooked
  case representative =>
    intro g hmem
    rcases h.mem_groups hmem with hold | rfl
    · exact hextends.members _ (hg.representative g hold)
    · exact looked_joined (mem_looked.mpr ⟨hasset, hmember⟩)
  case servedBy =>
    intro g hmem m hm hgroup
    by_cases hlooked : m.asset ∈ db.prospective left right
    · have hsame : g = ⟨group, representative.id⟩ :=
        hunique g hmem _ h.group_mem (hgroup.symm.trans (hlookedGroup m hm hlooked))
      obtain ⟨a, ha, hid⟩ : ∃ a ∈ L.assets, a.id = m.asset := by
        rcases hmembers m hm with hold | ⟨-, -, hexists⟩
        · exact hg.memberAsset m hold
        · exact hexists
      rw [hsame, ← hid]
      exact shareStorage_servedBy (mem_looked.mpr ⟨ha, hid ▸ hlooked⟩)
    · have hold : m ∈ db.members := by
        rcases hmembers m hm with hold | ⟨-, hlooked', -⟩
        · exact hold
        · exact absurd hlooked' hlooked
      have hgold : g ∈ db.groups := by
        rcases h.mem_groups hmem with hgold | rfl
        · exact hgold
        · exact absurd (h.member_prospective hused hold hgroup) hlooked
      obtain ⟨row, hrow, hserved⟩ := hg.servedBy g hgold m hold hgroup
      refine ⟨row, ?_, hserved⟩
      have hother : ∀ a ∈ L.assets.filter (·.id ∈ db.prospective left right), a.id ≠ m.asset :=
        fun a ha hid => hlooked (hid ▸ (mem_looked.mp ha).2)
      exact (shareStorage_other hother).trans (h.storage ▸ hrow)
  case events =>
    intro e he
    rcases mem_outbox_joinGroup he with hold | ⟨a, ha, hne, htype, hpayload⟩
    · exact (hg.events e (h.outbox ▸ hold)).extends hextends
    rw [htype, hpayload]
    refine ⟨⟨_, h.group_mem, rfl, looked_joined ha, hne⟩, ?_⟩
    intro a' ha' r' hr' hid hid'
    rw [inj_on_of_nodup_map hids ha' (mem_looked.mp ha).1 hid,
      inj_on_of_nodup_map hids hr' hasset hid']
    exact effectType_hardlink a representative

end Merge

/-! ### A call -/

section Calls

theorem Change.extends (h : Change L db db') : Extends db db' := by
  cases h with
  | merged left right group now evidence representative db₀ htarget =>
    exact joinGroup_extends htarget _
  | evidence | opened | updated | decision =>
    exact ⟨fun _ hg => hg, fun _ hm => hm, fun _ row hrow _ => ⟨row, hrow, rfl, rfl⟩⟩

section

variable (hg : Grouped L db) (hids : (L.assets.map Asset.id).Nodup)
include hg hids

theorem Grouped.change (h : Change L db db') : Grouped L db' := by
  cases h with
  | merged left right group now evidence representative db₀ htarget hasset hmember =>
    exact hg.joinGroup hids htarget hasset hmember
  | evidence | opened => exact hg.of_same rfl rfl rfl rfl (Nat.le_succ _)
  | updated | decision => exact hg.of_same rfl rfl rfl rfl le_rfl

theorem Grouped.changes (h : Relation.ReflTransGen (Change L) db db') :
    Grouped L db' ∧ Extends db db' := by
  induction h with
  | refl => exact ⟨hg, .refl db⟩
  | tail _ hlast ih => exact ⟨ih.1.change hids hlast, ih.2.trans hlast.extends⟩

/-- What a call of the reconciliation keeps. -/
theorem Grouped.step (action : Action) :
    Grouped L (step L db action) ∧ Extends db (step L db action) := by
  cases hseparates : separates db action with
  | none => exact hg.changes hids (step_changes hseparates)
  | some case =>
    obtain ⟨decision, hstep⟩ := step_separates (L := L) hseparates
    rw [hstep]
    exact ⟨hg.of_same rfl rfl rfl rfl le_rfl, fun _ h => h, fun _ h => h,
      fun _ row hrow _ => ⟨row, hrow, rfl, rfl⟩⟩

theorem Grouped.run (run : List Action) :
    Grouped L (run.foldl (AssetReconciliation.step L) db) ∧
      Extends db (run.foldl (AssetReconciliation.step L) db) := by
  induction run generalizing db with
  | nil => exact ⟨hg, .refl db⟩
  | cons action rest ih =>
    obtain ⟨hnext, hextends⟩ := hg.step hids action
    obtain ⟨hlast, hmore⟩ := ih hnext
    exact ⟨hlast, hextends.trans hmore⟩

end

end Calls

end AssetReconciliation
