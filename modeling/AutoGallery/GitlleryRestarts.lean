import AutoGallery.GitlleryBuilds

/-!
# Builds that are killed and started again

A build of either scope that nobody else writes beside.  A worker that is killed has
appended to some repositories of a batch, the first ones in order, and has not set the
cursor; an append that is killed has taken place or has not (`append_raises_onDisk`).  So
a chain has the commits up to the cursor, or one batch more (`Stands`), and its last
commit tells which.
-/

namespace GitlleryBuilds

open List

open GitlleryOutbox (Uuid Stamp CurationCommit)

variable {Repository Change : Type} {r : Repository}

/-- What `slice_changes` makes of a commit, with the changes themselves. -/
structure ChangeSlices (Repository Change : Type) extends Slices Repository where
  list : Uuid → Repository → List Change
  counted : ∀ id r, changes id r = (list id r).length

inductive Scope where
  | canary
  | full

/-- What a build reads, and the batch size that it is run with. -/
structure Ledger (Repository Change : Type) where
  commits : List CurationCommit
  nodup : (commits.map CurationCommit.id).Nodup
  highWater : Option Stamp
  slices : ChangeSlices Repository Change
  catalog : List Repository
  scope : Scope
  limit : Nat

/-- The state of a build and its phase; one that is pending or running plans or builds. -/
inductive Progress where
  | planning
  | building
  | staged
  | failed
  deriving DecidableEq

/-- The row of the build, and what the repositories hold. -/
structure Work (Repository Change : Type) where
  progress : Progress
  cursor : Option Stamp
  repositories : List Repository
  counts : Repository → Count
  selected : List Repository
  built : List (Repository × Count)
  chains : Repository → List (CurationCommit × List Change)

/-- A turn of the loop of `run`: to its end, or until it is killed or raises after it has
appended to so many repositories. -/
inductive Turn where
  | whole
  | killed (writes : Nat)
  | raises (writes : Nat)

section Turns

variable [LinearOrder Repository]

/-- `select_canary_repository_keys`. -/
def selectCanaryRepositoryKeys (counts : List (Repository × Nat)) : List Repository :=
  let ranked := (counts.map fun entry => toLex (entry.2, entry.1)).insertionSort (· ≤ ·)
  ([0, (ranked.length - 1) / 2, ranked.length - 1].filterMap fun position =>
    ranked[position]?.map fun item => (ofLex item).2).eraseDups

/-- The numbers of a manifest. -/
def summary (chain : List (CurationCommit × List Change)) : Count :=
  ⟨chain.length, (chain.map fun entry => entry.2.length).sum⟩

/-- The commits of a batch are appended, unless the last of them is the last of the chain. -/
def appendEntries (entries chain : List (CurationCommit × List Change)) :
    List (CurationCommit × List Change) :=
  if chain.getLast?.any fun last => entries.getLast?.any fun entry => last.1.id = entry.1.id then
    chain
  else chain ++ entries

/-- `create`. -/
def newWork : Work Repository Change :=
  ⟨.planning, none, [], fun _ => ⟨0, 0⟩, [], [], fun _ => []⟩

def Work.summaries (s : Work Repository Change) : List (Repository × Count) :=
  s.selected.map fun r => (r, summary (s.chains r))

/-- The errors of `verify` where every repository can be read. -/
def Work.verify (s : Work Repository Change) : List (VerifyError Repository) :=
  (s.selected.filter fun r => summary (s.chains r) ≠ s.counts r).map .mismatch ++
    if s.summaries = s.built then [] else [.changed]

namespace Ledger

variable (L : Ledger Repository Change) (s : Work Repository Change)

/-- The commits with changes for the repository, and these changes. -/
def entries (commits : List CurationCommit) (r : Repository) :
    List (CurationCommit × List Change) :=
  (items L.slices.toSlices commits r).map fun c => (c, L.slices.list c.id r)

/-- `_commit_batch`. -/
def commitBatch : List CurationCommit :=
  Keyset.batch CurationCommit.stamp (L.commits.filter fun c => covered L.highWater c.stamp) s.cursor
    (batchSize L.limit)

/-- `_plan_batch`. -/
def planBatch : Work Repository Change :=
  let keys := if s.repositories = [] then L.catalog.dedup else s.repositories
  match (L.commitBatch s).getLast? with
  | none =>
    { s with
      progress := .building
      repositories := keys
      selected :=
        match L.scope with
        | .canary => selectCanaryRepositoryKeys (keys.map fun r => (r, (s.counts r).commits))
        | .full => keys.insertionSort (· ≤ ·)
      cursor := none }
  | some last =>
    { s with
      repositories := (L.commitBatch s).foldl (countKeys L.slices.toSlices) keys
      counts := (L.commitBatch s).foldl (countCommit L.slices.toSlices) s.counts
      cursor := some last.stamp }

/-- `sorted(by_repository)`. -/
def byRepository : List Repository :=
  (s.selected.filter fun r => L.entries (L.commitBatch s) r ≠ []).insertionSort (· ≤ ·)

/-- `_build_batch` appends to the first repositories. -/
def append (writes : Nat) : Work Repository Change :=
  { s with chains := fun r =>
      if r ∈ (L.byRepository s).take writes then
        appendEntries (L.entries (L.commitBatch s) r) (s.chains r)
      else s.chains r }

/-- `_build_batch`. -/
def buildBatch : Work Repository Change :=
  match (L.commitBatch s).getLast? with
  | none => { s with progress := .staged, built := s.summaries, cursor := none }
  | some last => { L.append s (L.byRepository s).length with cursor := some last.stamp }

def step : Turn → Work Repository Change
  | .whole =>
    match s.progress with
    | .planning => L.planBatch s
    | .building => L.buildBatch s
    | _ => s
  | .killed writes =>
    match s.progress with
    | .building => L.append s writes
    | _ => s
  | .raises writes =>
    match s.progress with
    | .planning => { s with progress := .failed }
    | .building => { L.append s writes with progress := .failed }
    | _ => s

end Ledger

end Turns

section Exactness

variable [LinearOrder Repository] {L : Ledger Repository Change}
  {done rest batch : List CurationCommit}

theorem Ledger.entries_append :
    L.entries (done ++ rest) r = L.entries done r ++ L.entries rest r := by
  rw [entries, items, filter_append, map_append]
  rfl

theorem Ledger.mem_entries {c : CurationCommit} {changes : List Change} :
    (c, changes) ∈ L.entries done r ↔
      c ∈ done ∧ r ∈ L.slices.repositories c.id ∧ changes = L.slices.list c.id r := by
  simp only [entries, items, mem_map, mem_filter, decide_eq_true_eq, Prod.mk.injEq]
  constructor
  · rintro ⟨c, ⟨hc, hr⟩, rfl, rfl⟩
    exact ⟨hc, hr, rfl⟩
  · rintro ⟨hc, hr, rfl⟩
    exact ⟨c, ⟨hc, hr⟩, rfl, rfl⟩

/-- **A batch twice.**  The chain ends up the same whether the batch is in it or not. -/
theorem appendEntries_entries (hnodup : ((done ++ batch).map CurationCommit.id).Nodup)
    {chain : List (CurationCommit × List Change)}
    (h : chain = L.entries done r ∨ chain = L.entries (done ++ batch) r) :
    appendEntries (L.entries batch r) chain = L.entries (done ++ batch) r := by
  rw [L.entries_append] at h ⊢
  unfold appendEntries
  cases hlast : (L.entries batch r).getLast? with
  | none =>
    rw [getLast?_eq_none_iff] at hlast
    rw [hlast, append_nil] at h ⊢
    simpa using h
  | some entry =>
    rcases h with rfl | rfl
    · -- no commit of the batch is in the chain
      rw [if_neg]
      intro hsame
      simp only [Option.any_some, Option.any_eq_true, decide_eq_true_eq] at hsame
      obtain ⟨last, hmem, hid⟩ := hsame
      have hdone := (L.mem_entries.mp (mem_of_mem_getLast? hmem)).1
      have hbatch := (L.mem_entries.mp (mem_of_getLast? hlast)).1
      rw [map_append] at hnodup
      exact disjoint_of_nodup_append hnodup (mem_map_of_mem hdone) (hid ▸ mem_map_of_mem hbatch)
    · rw [if_pos]
      simp [getLast?_append, hlast]

/-- Counting goes on. -/
theorem Ledger.count_entries (done commits : List CurationCommit) :
    commits.foldl (countCommit L.slices.toSlices) (fun r => summary (L.entries done r)) =
      fun r => summary (L.entries (done ++ commits) r) := by
  induction commits generalizing done with
  | nil => rw [append_nil]; rfl
  | cons c rest ih =>
    have hone : countCommit L.slices.toSlices (fun r => summary (L.entries done r)) c =
        fun r => summary (L.entries (done ++ [c]) r) := by
      funext r
      rw [L.entries_append, countCommit]
      by_cases hr : r ∈ L.slices.repositories c.id
      · simp [hr, summary, entries, items, L.slices.counted]
      · simp [hr, entries, items]
    rw [foldl_cons, hone, ih, append_assoc]
    rfl

end Exactness

section Restarts

variable (L : Ledger Repository Change)

namespace Ledger

/-- The commits up to the mark, in order. -/
def history : List CurationCommit :=
  Keyset.arranged CurationCommit.stamp (L.commits.filter fun c => covered L.highWater c.stamp)

/-- The first `k` batches of them. -/
def batches (k : Nat) : List CurationCommit :=
  L.history.take (k * batchSize L.limit)

theorem nodup_stamps (p : CurationCommit → Bool) :
    ((L.commits.filter p).map CurationCommit.stamp).Nodup := by
  refine Nodup.of_map (fun stamp => (ofLex stamp).2) ?_
  rw [map_map]
  exact L.nodup.sublist (filter_sublist.map _)

theorem nodup_batches (k : Nat) : ((L.batches k).map CurationCommit.id).Nodup := by
  have hids := ((Keyset.arranged_perm CurationCommit.stamp _).map CurationCommit.id).nodup_iff.mpr
    (L.nodup.sublist ((filter_sublist (p := fun c => covered L.highWater c.stamp)).map _))
  exact hids.sublist ((take_sublist _ _).map _)

end Ledger

variable {L} {s : Work Repository Change} {k : Nat}

/-- The cursor stands behind the first `k` batches. -/
def At (L : Ledger Repository Change) (s : Work Repository Change) (k : Nat) : Prop :=
  s.cursor = (L.batches k).getLast?.map CurationCommit.stamp

section

variable (h : At L s k)
include h

theorem At.commitBatch :
    L.commitBatch s = (L.history.drop (k * batchSize L.limit)).take (batchSize L.limit) := by
  have hbatch := Keyset.batch_split (L.nodup_stamps _)
    (take_append_drop (k * batchSize L.limit) L.history).symm (batchSize L.limit)
  rwa [← Ledger.batches, ← h] at hbatch

theorem At.batches : L.batches (k + 1) = L.batches k ++ L.commitBatch s := by
  rw [h.commitBatch, Ledger.batches, Nat.succ_mul, take_add]
  rfl

theorem At.next {last : CurationCommit} (hlast : (L.commitBatch s).getLast? = some last) :
    some last.stamp = (L.batches (k + 1)).getLast?.map CurationCommit.stamp := by
  rw [h.batches, getLast?_append, hlast]
  rfl

/-- After the last batch. -/
theorem At.ended (hlast : (L.commitBatch s).getLast? = none) : L.batches k = L.history := by
  rw [getLast?_eq_none_iff, h.commitBatch] at hlast
  rcases take_eq_nil_iff.mp hlast with hzero | hnil
  · exact absurd hzero (batchSize_pos L.limit).ne'
  · exact take_of_length_le (drop_eq_nil_iff.mp hnil)

variable [LinearOrder Repository]

section

variable
  (hchain : s.chains r = L.entries (L.batches k) r ∨ s.chains r = L.entries (L.batches (k + 1)) r)
include hchain

/-- A repository that has been appended to, and one that has not. -/
theorem At.append (writes : Nat) :
    (L.append s writes).chains r = if r ∈ (L.byRepository s).take writes then
      L.entries (L.batches (k + 1)) r else s.chains r := by
  have hnodup := L.nodup_batches (k + 1)
  rw [h.batches] at hchain hnodup ⊢
  simp only [Ledger.append]
  rw [appendEntries_entries hnodup hchain]

/-- The whole batch. -/
theorem At.append_all (hr : r ∈ s.selected) :
    (L.append s (L.byRepository s).length).chains r = L.entries (L.batches (k + 1)) r := by
  rw [h.append hchain, take_length]
  split
  · rfl
  next hnone =>
    -- the batch has nothing for the repository
    have hempty : L.entries (L.commitBatch s) r = [] := by
      by_contra hsome
      exact hnone ((mem_insertionSort _).mpr (mem_filter.mpr ⟨hr, decide_eq_true hsome⟩))
    rw [h.batches, L.entries_append, hempty, append_nil] at hchain ⊢
    exact hchain.elim id id

end

end

variable [LinearOrder Repository]

/-- Where a build stands, whatever has been killed before. -/
def Stands (L : Ledger Repository Change) (s : Work Repository Change) : Prop :=
  match s.progress with
  | .planning => (∀ r, s.chains r = []) ∧ ∃ k, At L s k ∧
      s.counts = fun r => summary (L.entries (L.batches k) r)
  | .building => (s.counts = fun r => summary (L.entries L.history r)) ∧ ∃ k, At L s k ∧
      ∀ r ∈ s.selected, s.chains r = L.entries (L.batches k) r ∨
        s.chains r = L.entries (L.batches (k + 1)) r
  | .staged => (s.counts = fun r => summary (L.entries L.history r)) ∧
      (∀ r ∈ s.selected, s.chains r = L.entries L.history r) ∧ s.built = s.summaries
  | .failed => True

/-- **Step lemma.** -/
theorem Stands.step (h : Stands L s) (turn : Turn) : Stands L (L.step s turn) := by
  unfold Stands at h
  unfold Ledger.step
  cases hprogress : s.progress with
  | planning =>
    rw [hprogress] at h
    obtain ⟨hchains, k, hat, hcounts⟩ := h
    cases turn with
    | whole =>
      simp only [Ledger.planBatch]
      split
      next hlast =>
        rw [hat.ended hlast] at hcounts
        exact ⟨hcounts, 0, by simp [At, Ledger.batches], fun r _ => .inl (by
          simp [hchains, Ledger.batches, Ledger.entries, items])⟩
      next last hlast =>
        simp only [Stands, hprogress]
        refine ⟨hchains, k + 1, hat.next hlast, ?_⟩
        rw [hcounts, L.count_entries, ← hat.batches]
    | killed writes =>
      simp only [Stands, hprogress]
      exact ⟨hchains, k, hat, hcounts⟩
    | raises writes => trivial
  | building =>
    rw [hprogress] at h
    obtain ⟨hcounts, k, hat, hchains⟩ := h
    cases turn with
    | whole =>
      simp only [Ledger.buildBatch]
      split
      next hlast =>
        refine ⟨hcounts, fun r hr => ?_, rfl⟩
        have hchain := hchains r hr
        rw [hat.batches, getLast?_eq_none_iff.mp hlast, append_nil, hat.ended hlast] at hchain
        exact hchain.elim id id
      next last hlast =>
        simp only [Stands, Ledger.append, hprogress]
        exact ⟨hcounts, k + 1, hat.next hlast, fun r hr => .inl (hat.append_all (hchains r hr) hr)⟩
    | killed writes =>
      simp only [Stands, Ledger.append, hprogress]
      refine ⟨hcounts, k, hat, fun r hr => ?_⟩
      have hchain := hat.append (hchains r hr) writes
      simp only [Ledger.append] at hchain
      rw [hchain]
      split
      · exact .inr rfl
      · exact hchains r hr
    | raises writes => trivial
  | staged =>
    rw [hprogress] at h
    cases turn <;> simpa only [Stands, hprogress] using h
  | failed => cases turn <;> simp only [Stands, hprogress]

/-- **Run lemma.** -/
theorem stands_run (turns : List Turn) : Stands L (turns.foldl L.step newWork) := by
  induction turns using reverseRecOn with
  | nil => exact ⟨fun _ => rfl, 0, by simp [At, Ledger.batches, newWork], by
      simp [Ledger.batches, Ledger.entries, items, summary, newWork]⟩
  | append_singleton init turn ih =>
    rw [foldl_append]
    exact ih.step turn

/-- **Interrupted builds are exact.**  However often a build is killed, when it is staged every
selected repository has the commits up to the mark that have changes for it, once and in order,
with these changes; their numbers are the counts; and `verify` finds no error. -/
theorem staged_exact (L : Ledger Repository Change) (turns : List Turn)
    (hstaged : (turns.foldl L.step newWork).progress = .staged) :
    let s := turns.foldl L.step newWork
    (∀ r ∈ s.selected,
      ((s.chains r).Pairwise fun a b => a.1.stamp < b.1.stamp) ∧
      (∀ c changes, (c, changes) ∈ s.chains r ↔ (c ∈ L.commits ∧ covered L.highWater c.stamp) ∧
        r ∈ L.slices.repositories c.id ∧ changes = L.slices.list c.id r) ∧
      s.counts r = summary (s.chains r)) ∧ s.verify = [] := by
  intro s
  have hstands : Stands L s := stands_run turns
  unfold Stands at hstands
  rw [show s.progress = .staged from hstaged] at hstands
  obtain ⟨hcounts, hchains, hbuilt⟩ := hstands
  refine ⟨fun r hr => ⟨?_, fun c changes => ?_, by rw [hcounts, hchains r hr]⟩, ?_⟩
  · rw [hchains r hr]
    have hstrict := Keyset.arranged_strict CurationCommit.stamp
      (L.nodup_stamps fun c => covered L.highWater c.stamp)
    exact pairwise_map.mpr (hstrict.sublist filter_sublist)
  · rw [hchains r hr, L.mem_entries, Ledger.history, (Keyset.arranged_perm _ _).mem_iff, mem_filter]
  · unfold Work.verify
    rw [if_pos hbuilt.symm, append_nil, map_eq_nil_iff, filter_eq_nil_iff]
    intro r hr
    simp [hcounts, hchains r hr]

/-- Two repositories, and three commits in batches of two. -/
def smallLedger : Ledger Nat Nat where
  commits := [⟨1, 10⟩, ⟨2, 20⟩, ⟨3, 30⟩]
  nodup := by decide
  highWater := some (toLex (30, 3))
  slices :=
    ⟨⟨fun id => if id = 2 then [7, 8] else [7], fun _ _ => 1, fun id => by split <;> decide⟩,
      fun id _ => [id], fun _ _ => rfl⟩
  catalog := [7]
  scope := .full
  limit := 2

/-- The first batch is killed after one of the two repositories. -/
def killedOnce : List Turn := [.whole, .whole, .whole, .killed 1, .whole, .whole, .whole]

theorem staged_exact_smallLedger :
    (((killedOnce.foldl smallLedger.step newWork).chains 7).map fun entry => entry.1.id) =
        [1, 2, 3] ∧ (killedOnce.foldl smallLedger.step newWork).verify = [] := by
  have hstaged : (killedOnce.foldl smallLedger.step newWork).progress = .staged := by decide
  exact ⟨by decide, (staged_exact smallLedger killedOnce hstaged).2⟩

end Restarts

end GitlleryBuilds
