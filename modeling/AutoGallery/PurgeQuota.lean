import AutoGallery.CurationPurge
import AutoGallery.Runs

/-!
# The quota that purges return

A purge returns the bytes of the manual uploads that it removes.  It reads the trashed
works and their assets without a lock, takes the bytes off the users' rows, and only then
waits for the lock under which curation commits are made.  The works are not looked at
again.  So two purges of one work that overlap both return its bytes
(`bytes_returned_twice`).

If no purge picks a work that another one has picked and not finished with, and the names
in an upload tell its files apart, then no file's bytes are returned before its
asset is purged, and none twice (`returned_once`).
-/

namespace CurationPurge

open PyText List Gallery
open WorkDatabase (Visibility)
open Gallery (Charge)

namespace Quota

/-- How far a call of `purge` has come. -/
inductive Call
  | idle
  /-- `_purge_candidate_works` has been read -/
  | picked (works : List Nat)
  /-- `_purge_candidate_assets` has been read -/
  | eligible (works assets : List Nat)
  /-- the users' rows are updated and locked -/
  | charged (works assets : List Nat) (charges : List Charge)
  /-- `_create_commit` has the lock of the commit order -/
  | committing (works assets : List Nat) (charges : List Charge)
  deriving DecidableEq

/-- The works that a call has picked. -/
def Call.works : Call → List Nat
  | .idle => []
  | .picked works => works
  | .eligible works _ => works
  | .charged works _ _ => works
  | .committing works _ _ => works

/-- The committed rows, the locks on the users' rows and of the commit order, the calls
that are under way, and what committed calls have returned. -/
structure System where
  state : State
  rowLock : Nat → Option Nat
  orderLock : Option Nat
  call : Nat → Call
  returned : List Charge

inductive Action
  /-- a call starts and reads the candidate works -/
  | start (i : Nat) (workIds : List Nat)
  | readAssets (i : Nat)
  | release (i : Nat)
  | lock (i : Nat)
  | commit (i : Nat) (files : Files)
  /-- anything raises, or the process stops: the session is rolled back -/
  | fail (i : Nat)

namespace System

def set (s : System) (i : Nat) (call : Call) : System :=
  { s with call := fun j => if j = i then call else s.call j }

/-- The call is over, and its locks are free. -/
def finish (s : System) (i : Nat) : System :=
  { s.set i .idle with
    rowLock := fun user => if s.rowLock user = some i then none else s.rowLock user
    orderLock := if s.orderLock = some i then none else s.orderLock }

/-- The rows of these users are locked for the call. -/
def lockRows (s : System) (i : Nat) (charges : List Charge) : System :=
  { s with rowLock := fun user =>
      if ∃ charge ∈ charges, charge.user = user then some i else s.rowLock user }

/-- Everything that the call has in hand is written. -/
def commit (s : System) (i : Nat) (files : Files) (works assets : List Nat)
    (charges : List Charge) : System :=
  { s.finish i with
    state := markPurged files works assets charges s.state
    returned := s.returned ++ charges }

/-- No other call holds the row of a user that these charges are for. -/
def RowsFree (s : System) (i : Nat) (charges : List Charge) : Prop :=
  ∀ charge ∈ charges, s.rowLock charge.user = none ∨ s.rowLock charge.user = some i

instance (s : System) (i : Nat) (charges : List Charge) : Decidable (s.RowsFree i charges) :=
  inferInstanceAs (Decidable (∀ charge ∈ charges, _))

end System

variable {G : Gallery} {stem lower : Text → Text} {files : Files}
  {own : WorkSource → FileEntry → Nat} {assets : List Nat} {source : WorkSource}

section Calls

variable (G) (stem lower)

/-- One step of a call.  A call that is refused, and one that has to wait, changes
nothing. -/
def step (s : System) : Action → System
  | .start i workIds =>
    match s.call i with
    | .idle =>
      if workIds = [] ∨ commitWorkLimit < workIds.length ∨
          G.purgeCandidateWorks s.state workIds = [] then s
      else s.set i (.picked (G.purgeCandidateWorks s.state workIds))
    | _ => s
  | .readAssets i =>
    match s.call i with
    | .picked works =>
      match G.purgeCandidateAssets s.state works none with
      | .ok assets => s.set i (.eligible works assets)
      | .error _ => s.finish i
    | _ => s
  | .release i =>
    match s.call i with
    | .eligible works assets =>
      let charges := G.manualCharges stem lower works assets
      if s.RowsFree i charges then (s.set i (.charged works assets charges)).lockRows i charges
      else s
    | _ => s
  | .lock i =>
    match s.call i, s.orderLock with
    | .charged works assets charges, none =>
      { s.set i (.committing works assets charges) with orderLock := some i }
    | _, _ => s
  | .commit i files =>
    match s.call i with
    | .committing works assets charges => s.commit i files works assets charges
    | _ => s
  | .fail i => s.finish i

/-! ### Once -/

variable
  -- the asset that an entry of an upload is the file of
  (own : WorkSource → FileEntry → Nat)

/-- The size of an entry that may be returned: its own asset is purged. -/
def purgedSize (state : State) (source : WorkSource) (entry : FileEntry) : Int :=
  if state.Purged (own source entry) then max (entry.size.getD 0) 0 else 0

/-- The bytes of a source whose assets are purged. -/
def purgedBytes (state : State) (source : WorkSource) : Int :=
  (source.metadata.files.map (purgedSize own state source)).sum

/-- The bytes that have been returned for a source. -/
def returnedFor (returned : List Charge) (source : WorkSource) : Int :=
  ((returned.filter (·.workSource = source.id)).map Charge.amount).sum

/-- What was returned is returned for manual sources, to their users, and for no source more
than the bytes of its entries whose assets are purged. -/
structure ReturnedOnce (s : System) : Prop where
  charged : ∀ charge ∈ s.returned, ∃ source ∈ G.workSources, source.id = charge.workSource ∧
    lower source.source = "manual".toList ∧ G.uploader source.metadata = some charge.user
  bounded : ∀ source ∈ G.workSources,
    returnedFor s.returned source ≤ purgedBytes own s.state source

/-- An asset that a source has under the name of one of its entries is the entry's own. -/
def NamesIdentify : Prop :=
  ∀ source ∈ G.workSources, ∀ link ∈ G.assetSources, link.workSourceId = source.id →
    ∀ entry ∈ source.metadata.files, entry.name ≠ [] →
      (link.sourceAssetId = some (stem entry.name) ∨
        ∃ asset ∈ G.assets, asset.id = link.assetId ∧ asset.fileName ≠ [] ∧
          stem asset.fileName = stem entry.name) →
      own source entry = link.assetId

/-- A call picks no work that another call has picked and not finished with. -/
def PicksApart (s : System) : Action → Prop
  | .start i workIds => ∀ j, j ≠ i →
      ∀ work ∈ G.purgeCandidateWorks s.state workIds, work ∉ (s.call j).works
  | _ => True

end Calls

variable {s : System}

/-- A call that meets no other one does what `purge` does. -/
theorem alone_purges {i : Nat} {workIds : List Nat} {state : State} (hidle : s.call i = .idle)
    (hrows : ∀ user, s.rowLock user = none) (horder : s.orderLock = none)
    (h : G.purge stem lower files workIds false none s.state = .ok state) :
    ([.start i workIds, .readAssets i, .release i, .lock i, .commit i files].foldl
      (step G stem lower) s).state = state := by
  obtain ⟨hids, hlimit, hworks, assets, hassets, rfl⟩ := purge_eq_ok h
  have hstart : ¬(workIds = [] ∨ commitWorkLimit < workIds.length ∨
      G.purgeCandidateWorks s.state workIds = []) := by
    simp [hids, hworks, hlimit]
  have hfree : ∀ t : System, t.rowLock = s.rowLock → ∀ charges, t.RowsFree i charges := by
    intro t ht charges charge _
    rw [ht]
    exact .inl (hrows _)
  simp [step, hidle, hstart, System.set, hassets, hfree, System.lockRows, horder, System.commit]

/-! ### The charges of a source -/

section Charges

variable {works : List Nat}

/-- In a list without duplicates only one element can give something. -/
theorem filterMap_eq_toList {α β : Type} {f : α → Option β} {a : α} {l : List α}
    (hnodup : l.Nodup) (ha : a ∈ l) (hother : ∀ b ∈ l, b ≠ a → f b = none) :
    l.filterMap f = (f a).toList := by
  obtain ⟨before, after, rfl⟩ := append_of_mem ha
  obtain ⟨hnot, -⟩ := nodup_cons.mp (nodup_middle.mp hnodup)
  have hnone : (before ++ after).filterMap f = [] := by
    refine filterMap_eq_nil_iff.mpr fun b hb => hother b ?_ (ne_of_mem_of_not_mem hb hnot)
    exact perm_middle.mem_iff.mpr (mem_cons_of_mem _ hb)
  rw [filterMap_append] at hnone
  obtain ⟨hbefore, hafter⟩ := append_eq_nil_iff.mp hnone
  rw [filterMap_append, filterMap_cons, hbefore, hafter]
  cases f a <;> rfl

/-- What the charge of a source says. -/
theorem sourceCharge_spec {charge : Charge}
    (h : G.sourceCharge stem lower works assets source = some charge) :
    charge.workSource = source.id ∧ source.workId ∈ works ∧
      lower source.source = "manual".toList ∧ G.uploader source.metadata = some charge.user ∧
      charge.amount = (source.metadata.files.map
        (returnedSize stem (G.eligibleNames stem source.id assets))).sum := by
  unfold sourceCharge at h
  dsimp only at h
  split_ifs at h with hcond
  obtain ⟨user, huser, rfl⟩ := Option.map_eq_some_iff.mp h
  exact ⟨rfl, hcond.1, hcond.2.1, huser, rfl⟩

/-- The charges of one source among those of a purge. -/
theorem manualCharges_filter (hsource : source ∈ G.workSources) :
    (G.manualCharges stem lower works assets).filter (·.workSource = source.id) =
      (G.sourceCharge stem lower works assets source).toList := by
  unfold manualCharges
  rw [filter_filterMap,
    filterMap_eq_toList G.workSource_nodup.of_map hsource (fun other hother hne => ?_)]
  · cases hcharge : G.sourceCharge stem lower works assets source with
    | none => rfl
    | some charge => simp [(sourceCharge_spec hcharge).1]
  cases hcharge : G.sourceCharge stem lower works assets other with
  | none => rfl
  | some charge =>
    have hid : charge.workSource ≠ source.id := by
      rw [(sourceCharge_spec hcharge).1]
      intro hid
      exact hne (inj_on_of_nodup_map G.workSource_nodup hother hsource hid)
    simp [hid]

/-- A name under which the source has a purged asset. -/
theorem mem_eligibleNames {name : Text} (h : name ∈ G.eligibleNames stem source.id assets) :
    ∃ link ∈ G.assetSources, link.workSourceId = source.id ∧ link.assetId ∈ assets ∧
      (link.sourceAssetId = some name ∨
        ∃ asset ∈ G.assets, asset.id = link.assetId ∧ asset.fileName ≠ [] ∧
          stem asset.fileName = name) := by
  unfold eligibleNames at h
  obtain ⟨link, hlink, hname⟩ := mem_flatMap.mp h
  obtain ⟨hmem, hcond⟩ := mem_filter.mp hlink
  obtain ⟨hsource, hasset⟩ := by simpa using hcond
  refine ⟨link, hmem, hsource, hasset, ?_⟩
  rcases mem_append.mp hname with hid | hfile
  · exact .inl (by simpa using (mem_filter.mp hid).1)
  · obtain ⟨asset, hmem, rfl⟩ := mem_map.mp hfile
    obtain ⟨hasset, hcond⟩ := mem_filter.mp hmem
    obtain ⟨hid, hnamed⟩ := by simpa using hcond
    exact .inr ⟨asset, hasset, hid, hnamed, rfl⟩

variable {state : State}

theorem purgedSize_nonneg (entry : FileEntry) : 0 ≤ purgedSize own state source entry := by
  unfold purgedSize
  split
  · exact le_max_right _ _
  · exact le_rfl

section

variable (hnames : NamesIdentify G stem own) (hsource : source ∈ G.workSources)
  (hpurged : ∀ asset ∈ assets, state.Purged asset)
include hnames hsource hpurged

/-- A purge returns for an entry at most its size, and only if its own asset is purged. -/
theorem returnedSize_le {entry : FileEntry} (hentry : entry ∈ source.metadata.files) :
    returnedSize stem (G.eligibleNames stem source.id assets) entry ≤
      purgedSize own state source entry := by
  unfold returnedSize
  split_ifs with hcond
  · exact purgedSize_nonneg entry
  · obtain ⟨hnamed, hmem⟩ := not_or.mp hcond
    obtain ⟨link, hlink, hof, hasset, hname⟩ := mem_eligibleNames (not_not.mp hmem)
    have hown := hnames source hsource link hlink hof entry hentry hnamed hname
    rw [purgedSize, if_pos (hown ▸ hpurged _ hasset)]

theorem sum_returnedSize_le :
    (source.metadata.files.map
        (returnedSize stem (G.eligibleNames stem source.id assets))).sum ≤
      purgedBytes own state source :=
  sum_le_sum fun _ hentry => returnedSize_le hnames hsource hpurged hentry

end

/-- More assets that are purged, more bytes that may be returned. -/
theorem purgedBytes_mono {state' : State} (h : ∀ asset, state.Purged asset → state'.Purged asset) :
    purgedBytes own state source ≤ purgedBytes own state' source := by
  refine sum_le_sum fun entry _ => ?_
  unfold purgedSize
  split_ifs with hbefore hafter
  · exact le_rfl
  · exact absurd (h _ hbefore) hafter
  · exact le_max_right _ _
  · exact le_rfl

end Charges

/-! ### Steps -/

section Steps

variable {s s' : System} {a : Action}

/-- The charges that a call has in hand are those of its works and assets. -/
def Call.Priced (G : Gallery) (stem lower : Text → Text) : Call → Prop
  | .charged works assets charges => charges = G.manualCharges stem lower works assets
  | .committing works assets charges => charges = G.manualCharges stem lower works assets
  | _ => True

/-- What a step does: one call goes on, with works that it had picked or picks now, or one
call commits. -/
inductive Moves (G : Gallery) (stem lower : Text → Text) (s : System) : Action → System → Prop
  | goes (a : Action) (i : Nat) (call : Call) (s' : System) (hstate : s'.state = s.state)
      (hreturned : s'.returned = s.returned)
      (hcall : ∀ j, s'.call j = if j = i then call else s.call j)
      (hworks : ∀ work ∈ call.works, work ∈ (s.call i).works ∨
        ∃ workIds, a = .start i workIds ∧ work ∈ G.purgeCandidateWorks s.state workIds)
      (hpriced : (s.call i).Priced G stem lower → call.Priced G stem lower) :
      Moves G stem lower s a s'
  | commit (i : Nat) (files : Files) (works assets : List Nat) (charges : List Charge)
      (hcall : s.call i = .committing works assets charges) :
      Moves G stem lower s (.commit i files) (s.commit i files works assets charges)

theorem Moves.stay (a : Action) : Moves G stem lower s a s :=
  .goes a 0 (s.call 0) s rfl rfl (fun j => by split <;> simp_all) (fun _ h => .inl h) id

theorem Moves.finish (a : Action) (i : Nat) : Moves G stem lower s a (s.finish i) :=
  .goes a i .idle _ rfl rfl (fun _ => rfl) (fun _ h => by cases h) fun _ => trivial

theorem step_moves (s : System) (a : Action) : Moves G stem lower s a (step G stem lower s a) := by
  cases a with
  | start i workIds =>
    unfold step
    dsimp only
    split
    next hidle =>
      split_ifs with hrefused
      · exact .stay _
      · exact .goes _ i _ _ rfl rfl (fun _ => rfl) (fun _ h => .inr ⟨workIds, rfl, h⟩)
          fun _ => trivial
    next => exact .stay _
  | readAssets i =>
    unfold step
    dsimp only
    split
    next works hpicked =>
      split
      next assets hassets =>
        exact .goes _ i _ _ rfl rfl (fun _ => rfl) (fun _ h => .inl (by rwa [hpicked]))
          fun _ => trivial
      next => exact .finish _ i
    next => exact .stay _
  | release i =>
    unfold step
    dsimp only
    split
    next works assets heligible =>
      split_ifs with hfree
      · exact .goes _ i _ _ rfl rfl (fun _ => rfl) (fun _ h => .inl (by rwa [heligible]))
          fun _ => rfl
      · exact .stay _
    next => exact .stay _
  | lock i =>
    unfold step
    dsimp only
    split
    next works assets charges hcharged _ =>
      exact .goes _ i _ _ rfl rfl (fun _ => rfl) (fun _ h => .inl (by rwa [hcharged]))
        fun h => by rwa [hcharged] at h
    next => exact .stay _
  | commit i files =>
    unfold step
    dsimp only
    split
    next works assets charges hcommitting => exact .commit i files works assets charges hcommitting
    next => exact .stay _
  | fail i => exact .finish _ i

variable (G stem lower own s) in
/-- What holds between the calls: picked works are in the trash and picked once, charges are
those of the works, and what was returned belongs to purged works. -/
structure Orderly : Prop where
  trashed : ∀ i, ∀ work ∈ (s.call i).works, s.state.visibility work = .trashed
  apart : ∀ i j, i ≠ j → ∀ work ∈ (s.call i).works, work ∉ (s.call j).works
  priced : ∀ i, (s.call i).Priced G stem lower
  purged : ∀ charge ∈ s.returned, ∀ source ∈ G.workSources, source.id = charge.workSource →
    s.state.visibility source.workId = .purged
  once : ReturnedOnce G lower own s

theorem returnedFor_append (before new : List Charge) (source : WorkSource) :
    returnedFor (before ++ new) source = returnedFor before source + returnedFor new source := by
  simp [returnedFor]

/-- Nothing has been returned for a source whose work is not purged. -/
theorem Orderly.returnedFor_eq_zero (h : Orderly G stem lower own s)
    (hsource : source ∈ G.workSources) (hwork : s.state.visibility source.workId ≠ .purged) :
    returnedFor s.returned source = 0 := by
  have hnone : s.returned.filter (·.workSource = source.id) = [] := by
    refine filter_eq_nil_iff.mpr fun charge hcharge hid => ?_
    exact hwork (h.purged charge hcharge source hsource (of_decide_eq_true hid).symm)
  rw [returnedFor, hnone]
  rfl

variable {i : Nat}

/-- A call goes on. -/
theorem Orderly.goes (h : Orderly G stem lower own s) {call : Call} (happart : PicksApart G s a)
    (hstate : s'.state = s.state) (hreturned : s'.returned = s.returned)
    (hcall : ∀ j, s'.call j = if j = i then call else s.call j)
    (hworks : ∀ work ∈ call.works, work ∈ (s.call i).works ∨
      ∃ workIds, a = .start i workIds ∧ work ∈ G.purgeCandidateWorks s.state workIds)
    (hpriced : (s.call i).Priced G stem lower → call.Priced G stem lower) :
    Orderly G stem lower own s' := by
  have htrashed : ∀ work ∈ call.works, s.state.visibility work = .trashed := by
    intro work hwork
    rcases hworks work hwork with hold | ⟨workIds, -, hnew⟩
    · exact h.trashed i work hold
    · exact (mem_purgeCandidateWorks hnew).2
  have hothers : ∀ j, j ≠ i → ∀ work ∈ call.works, work ∉ (s.call j).works := by
    intro j hne work hwork
    rcases hworks work hwork with hold | ⟨workIds, rfl, hnew⟩
    · exact h.apart i j (Ne.symm hne) work hold
    · exact happart j hne work hnew
  constructor
  · intro j work hwork
    rw [hstate]
    rw [hcall] at hwork
    split_ifs at hwork
    · exact htrashed work hwork
    · exact h.trashed j work hwork
  · intro j k hne work hj hk
    rw [hcall] at hj hk
    split_ifs at hj hk with hji hki hki
    · exact hne (hji.trans hki.symm)
    · exact hothers k hki work hj hk
    · exact hothers j hji work hk hj
    · exact h.apart j k hne work hj hk
  · intro j
    rw [hcall]
    split_ifs
    · exact hpriced (h.priced i)
    · exact h.priced j
  · rw [hreturned, hstate]
    exact h.purged
  · refine ⟨?_, ?_⟩
    · rw [hreturned]
      exact h.once.charged
    · rw [hreturned, hstate]
      exact h.once.bounded

/-- A call commits: the sources of its works get their charges, and had none before. -/
theorem Orderly.commit (h : Orderly G stem lower own s) (hnames : NamesIdentify G stem own)
    {works : List Nat} {charges : List Charge} (hcall : s.call i = .committing works assets charges) :
    Orderly G stem lower own (s.commit i files works assets charges) := by
  have hpriced : charges = G.manualCharges stem lower works assets := by
    have := h.priced i
    rwa [hcall] at this
  have htrashed : ∀ work ∈ works, s.state.visibility work = .trashed := by
    intro work hwork
    exact h.trashed i work (by rwa [hcall])
  have hothers : ∀ j, j ≠ i → ∀ work ∈ (s.call j).works, work ∉ works := by
    intro j hne work hj hwork
    exact h.apart j i hne work hj (by rwa [hcall])
  have hidle : ∀ j, (s.commit i files works assets charges).call j =
      if j = i then .idle else s.call j := fun _ => rfl
  have hvisibility : ∀ work, (s.commit i files works assets charges).state.visibility work =
      if work ∈ works then .purged else s.state.visibility work := fun _ => rfl
  have hpurged : ∀ asset, s.state.Purged asset →
      (s.commit i files works assets charges).state.Purged asset := fun asset hasset =>
    purged_markPurged.mpr (.inr hasset)
  have hnew : ∀ charge ∈ charges, ∃ source ∈ G.workSources,
      G.sourceCharge stem lower works assets source = some charge := by
    intro charge hcharge
    rw [hpriced] at hcharge
    exact mem_filterMap.mp hcharge
  constructor
  · intro j work hwork
    rw [hidle] at hwork
    split_ifs at hwork with hji
    · cases hwork
    · rw [hvisibility, if_neg (hothers j hji work hwork)]
      exact h.trashed j work hwork
  · intro j k hne work hj hk
    rw [hidle] at hj hk
    split_ifs at hj hk
    · cases hj
    · cases hj
    · cases hk
    · exact h.apart j k hne work hj hk
  · intro j
    rw [hidle]
    split_ifs
    · trivial
    · exact h.priced j
  · intro charge hcharge source hsource hid
    rw [hvisibility]
    rcases mem_append.mp hcharge with hold | hlast
    · split_ifs
      · rfl
      · exact h.purged charge hold source hsource hid
    · obtain ⟨charged, hcharged, hspec⟩ := hnew charge hlast
      obtain ⟨hof, hwork, -⟩ := sourceCharge_spec hspec
      have hsame : source = charged :=
        inj_on_of_nodup_map G.workSource_nodup hsource hcharged (hid.trans hof)
      rw [hsame, if_pos hwork]
  · constructor
    · intro charge hcharge
      rcases mem_append.mp hcharge with hold | hlast
      · exact h.once.charged charge hold
      · obtain ⟨source, hsource, hspec⟩ := hnew charge hlast
        obtain ⟨hof, -, hmanual, huser, -⟩ := sourceCharge_spec hspec
        exact ⟨source, hsource, hof.symm, hmanual, huser⟩
    · intro source hsource
      have hlater : returnedFor charges source =
          ((G.sourceCharge stem lower works assets source).toList.map Charge.amount).sum := by
        rw [returnedFor, hpriced, manualCharges_filter hsource]
      change returnedFor (s.returned ++ charges) source ≤ _
      rw [returnedFor_append, hlater]
      cases hcharge : G.sourceCharge stem lower works assets source with
      | none =>
        have hbound := (h.once.bounded source hsource).trans (purgedBytes_mono hpurged)
        simpa using hbound
      | some charge =>
        obtain ⟨-, hwork, -, -, hamount⟩ := sourceCharge_spec hcharge
        have hzero : returnedFor s.returned source = 0 :=
          h.returnedFor_eq_zero hsource (by rw [htrashed _ hwork]; exact nofun)
        have hmarked : ∀ asset ∈ assets,
            (s.commit i files works assets charges).state.Purged asset := fun asset hasset =>
          purged_markPurged.mpr (.inl hasset)
        have hsum := sum_returnedSize_le hnames hsource hmarked
        simp only [hzero, Option.toList_some, map_cons, map_nil, sum_cons,
          sum_nil, add_zero, zero_add, hamount]
        exact hsum

theorem Orderly.moves (h : Orderly G stem lower own s) (hnames : NamesIdentify G stem own)
    (happart : PicksApart G s a) (hmoves : Moves G stem lower s a s') :
    Orderly G stem lower own s' := by
  cases hmoves with
  | goes _ i call _ hstate hreturned hcall hworks hpriced =>
    exact h.goes happart hstate hreturned hcall hworks hpriced
  | commit i files works assets charges hcall => exact h.commit hnames hcall

end Steps

/-- No call is under way and nothing has been returned. -/
structure Start (s : System) : Prop where
  idle : ∀ i, s.call i = .idle
  returned : s.returned = []

theorem Start.orderly (h : Start s) : Orderly G stem lower own s := by
  constructor
  · intro i work hwork
    rw [h.idle] at hwork
    cases hwork
  · intro i j _ work hwork
    rw [h.idle] at hwork
    cases hwork
  · intro i
    rw [h.idle]
    trivial
  · intro charge hcharge
    rw [h.returned] at hcharge
    cases hcharge
  constructor
  · intro charge hcharge
    rw [h.returned] at hcharge
    cases hcharge
  · intro source _
    rw [h.returned]
    refine sum_nonneg fun size hsize => ?_
    obtain ⟨entry, -, rfl⟩ := mem_map.mp hsize
    exact purgedSize_nonneg entry

/-- **Once.**  If every call picks works that no other call has picked and not finished with,
then in every state of the run no more bytes have been returned for a source than those of
its entries whose own assets are purged. -/
theorem returned_once (G : Gallery) (stem lower : Text → Text) (own : WorkSource → FileEntry → Nat)
    (hnames : NamesIdentify G stem own) (s : System) (hstart : Start s) (run : List Action)
    (happart : Runs.AllSteps (step G stem lower) (PicksApart G) s run) :
    Runs.Throughout (step G stem lower) (ReturnedOnce G lower own) s run :=
  Runs.throughout_of_allSteps (fun _ h => h.once)
    (fun s a h happart => h.moves hnames happart (step_moves s a)) hstart.orderly happart

/-! ### An upload of one file -/

section Upload

/-- Work 1 is an upload of user 7: one file of five bytes, asset 10. -/
private def uploaded : Gallery where
  works := [⟨1, some 10⟩]
  workSources := [⟨21, 1, "manual".toList, none, ⟨[⟨"a.jpg".toList, some 5⟩], some 7, []⟩⟩]
  assetSources := [⟨10, 21, some "a".toList⟩]
  assets := [⟨10, "a.jpg".toList⟩]
  groups := []
  members := []
  users := [⟨7, "user".toList⟩]
  workSource_nodup := by decide
  workSource_work := by decide
  assetSource_asset := by decide
  thumbnail_asset := by decide

private def trashedUpload : System where
  state :=
    { visibility := fun _ => .trashed
      storage := fun _ => none
      uploadUsedBytes := fun _ => 5 }
  rowLock := fun _ => none
  orderLock := none
  call := fun _ => .idle
  returned := []

/-- `Path(name).stem`, for names with one dot. -/
private def beforeDot (name : Text) : Text := name.takeWhile (· ≠ '.')

private def freeing : Files := ⟨fun _ => 5, fun _ => false⟩

private theorem names_identify : NamesIdentify uploaded beforeDot fun _ _ => 10 := by
  intro source hsource link hlink
  have : link = ⟨10, 21, some "a".toList⟩ := by simpa [uploaded] using hlink
  subst this
  exact fun _ _ _ _ _ => rfl

private theorem trashedUpload_start : Start trashedUpload :=
  ⟨fun _ => rfl, rfl⟩

/-- Both calls pick the work before either of them commits, and both return its five bytes. -/
theorem bytes_returned_twice :
    NamesIdentify uploaded beforeDot (fun _ _ => 10) ∧ Start trashedUpload ∧
      ¬Runs.Throughout (step uploaded beforeDot id) (ReturnedOnce uploaded id fun _ _ => 10)
        trashedUpload
        [.start 0 [1], .start 1 [1], .readAssets 0, .readAssets 1, .release 0, .lock 0,
          .commit 0 freeing, .release 1, .lock 1, .commit 1 freeing] := by
  refine ⟨names_identify, trashedUpload_start, fun h => ?_⟩
  obtain ⟨-, -, -, -, -, -, -, -, -, -, hlast⟩ := h
  have hbounded := hlast.bounded _ (mem_singleton.mpr rfl)
  exact absurd hbounded (by decide +kernel)

/-- The second call starts after the first one has committed, and finds nothing. -/
theorem returned_once_inTurn :
    Runs.Throughout (step uploaded beforeDot id) (ReturnedOnce uploaded id fun _ _ => 10)
      trashedUpload
      [.start 0 [1], .readAssets 0, .release 0, .lock 0, .commit 0 freeing, .start 1 [1]] := by
  refine returned_once uploaded beforeDot id _ names_identify _ trashedUpload_start _ ?_
  refine ⟨?_, trivial, trivial, trivial, trivial, ?_, trivial⟩
  · intro j _ work _
    exact not_mem_nil
  · intro j hj work hwork
    change work ∈ ([] : List Nat) at hwork
    cases hwork

end Upload

end Quota

end CurationPurge
