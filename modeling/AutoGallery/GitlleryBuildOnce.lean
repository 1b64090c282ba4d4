import AutoGallery.GitlleryBeside
import AutoGallery.Runs

/-!
# A build and the outbox together

In a run in which the outbox does not disturb the build, a repository that `verify` has
found to hold as many commits as it is to hold has each of them once: it has all of them,
and no others.  So what is settled is settled rightly (`built_and_projected_once`).
-/

namespace GitlleryBuilds

open List Keyset Runs

open GitlleryOutbox

section Counting

variable {Repository : Type} [DecidableEq Repository] {slices : Slices Repository}

theorem commits_foldl_countCommit (batch : List CurationCommit) (counts : Repository → Count)
    (r : Repository) :
    (batch.foldl (countCommit slices) counts r).commits =
      (counts r).commits + (items slices batch r).length := by
  induction batch generalizing counts with
  | nil => rfl
  | cons commit rest ih =>
    rw [foldl_cons, ih]
    unfold items countCommit
    by_cases hr : r ∈ slices.repositories commit.id
    · rw [if_pos hr, filter_cons_of_pos (by simpa using hr), length_cons]
      dsimp only
      omega
    · rw [if_neg hr, filter_cons_of_neg (by simpa using hr)]

theorem subset_foldl_countKeys (batch : List CurationCommit) (keys : List Repository) :
    keys ⊆ batch.foldl (countKeys slices) keys := by
  induction batch generalizing keys with
  | nil => exact fun _ hmem => hmem
  | cons commit rest ih => exact fun _ hmem => ih _ (mem_append_left _ hmem)

theorem mem_foldl_countKeys {batch : List CurationCommit} (keys : List Repository)
    {commit : CurationCommit} (hcommit : commit ∈ batch) {r : Repository}
    (hr : r ∈ slices.repositories commit.id) : r ∈ batch.foldl (countKeys slices) keys := by
  induction batch generalizing keys with
  | nil => cases hcommit
  | cons first rest ih =>
    rcases mem_cons.mp hcommit with rfl | hrest
    · refine subset_foldl_countKeys rest _ ?_
      unfold countKeys
      by_cases hkey : r ∈ keys
      · exact mem_append_left _ hkey
      · exact mem_append_right _ (mem_filter.mpr ⟨hr, by simpa using hkey⟩)
    · exact ih _ hrest

/-- The counts are those of the given commits, and so are the keys. -/
structure Counted (slices : Slices Repository) (b : Build Repository) (done : List CurationCommit)
    (keys : List Repository) : Prop where
  commits : ∀ r, (b.counts r).commits = (items slices done r).length
  keys : ∀ commit ∈ done, ∀ r ∈ slices.repositories commit.id, r ∈ keys

end Counting

section Stages

variable {Repository : Type} [LinearOrder Repository] {slices : Slices Repository}
  {s s' : World Repository} {b : Build Repository}

variable (s b) in
/-- The commits of the build. -/
def scope : List CurationCommit :=
  marked b.highWater s.outbox.commits

variable (s b) in
/-- Those of them up to the cursor. -/
def reached : List CurationCommit :=
  upTo CurationCommit.stamp (scope s b) b.cursor

section

variable (slices : Slices Repository)

section

variable (s : World Repository)

section

variable (b : Build Repository)

/-- Where `run` stands between two batches, or within one. -/
def Halfway : Prop :=
  match s.runner with
  | .idle => True
  | .running => True
  | .appending batch left =>
    batch ≠ [] ∧ Next slices b.highWater s.outbox b.cursor batch ∧
      ∀ r ∈ b.selected, r ∉ left → ∀ commit ∈ batch, r ∈ slices.repositories commit.id →
        commit.stamp ∈ s.outbox.chains r
  | .summarising _ _ => Written slices s.outbox (scope s b)
  | .verifying .. => False

/-- Where `verify` stands: the repositories that it has read without an error are as they
are to be. -/
def Examined : Prop :=
  match s.runner with
  | .idle => True
  | .verifying left _ errors _ =>
    errors = [] → ∀ r ∈ b.selected, r ∉ left → Exact slices b.highWater s.outbox r
  | _ => False

/-- The build is being written. -/
structure Building :
    Prop where
  phase : b.phase = .building
  state : b.state = .pending ∨ b.state = .running
  unsettled : b.settled = false
  counted : Counted slices b (scope s b) b.selected
  written : Written slices s.outbox (reached s b)
  halfway : Halfway slices s b

/-- The build has been written. -/
structure Built :
    Prop where
  phase : b.phase ≠ .planning ∧ b.phase ≠ .building
  state : b.state ≠ .pending ∧ b.state ≠ .running
  counted : Counted slices b (scope s b) b.selected
  written : Written slices s.outbox (scope s b)
  examined : Examined slices s b
  settled : b.settled = true → ∀ r ∈ b.selected, Exact slices b.highWater s.outbox r

/-- How far the build is. -/
inductive Stage : Prop
  | planning (hphase : b.phase = .planning) (hstate : b.state = .pending ∨ b.state = .running)
      (hsettled : b.settled = false) (hrunner : s.runner = .idle ∨ s.runner = .running)
      (hcounted : Counted slices b (reached s b) b.repositories)
  | building (h : Building slices s b)
  | built (h : Built slices s b)
  | failed (hphase : b.phase = .failed) (hstate : b.state = .failed) (hsettled : b.settled = false)
      (hrunner : s.runner = .idle)

end

end

end

/-- The worker is in the middle of a batch. -/
def Runner.Busy : Runner Repository → Prop
  | .appending _ _ => True
  | .summarising _ _ => True
  | _ => False

/-- The worker is in `verify`. -/
def Runner.Verifies : Runner Repository → Prop
  | .verifying .. => True
  | _ => False

variable {runner : Runner Repository}

omit [LinearOrder Repository] in
theorem Runner.not_busy (h : runner = .idle ∨ runner = .running) :
    ¬ runner.Busy ∧ ¬ runner.Verifies := by
  rcases h with rfl | rfl <;> exact ⟨id, id⟩

/-- A build that has been written is in `verify` or nowhere. -/
theorem Built.resting (h : Built slices s b) : s.runner = .idle ∨
    ∃ left verified errors duplicateFree,
      s.runner = .verifying left verified errors duplicateFree := by
  have hexamined := h.examined
  unfold Examined at hexamined
  cases hrunner : s.runner with
  | idle => exact .inl rfl
  | verifying left verified errors duplicateFree => exact .inr ⟨_, _, _, _, rfl⟩
  | _ => rw [hrunner] at hexamined; exact hexamined.elim

theorem Stage.busy (h : Stage slices s b) (hrunner : s.runner = runner) (hbusy : runner.Busy) :
    Building slices s b ∧ Halfway slices { s with runner := runner } b := by
  subst hrunner
  cases h with
  | planning _ _ _ hrunner => exact absurd hbusy (Runner.not_busy hrunner).1
  | building h => exact ⟨h, h.halfway⟩
  | built h =>
    rcases h.resting with hrunner | ⟨_, _, _, _, hrunner⟩ <;> rw [hrunner] at hbusy <;>
      exact hbusy.elim
  | failed _ _ _ hrunner => exact absurd hbusy (Runner.not_busy (.inl hrunner)).1

theorem Stage.verifies (h : Stage slices s b) (hrunner : s.runner = runner)
    (hverifies : runner.Verifies) :
    Built slices s b ∧ Examined slices { s with runner := runner } b := by
  subst hrunner
  cases h with
  | planning _ _ _ hrunner => exact absurd hverifies (Runner.not_busy hrunner).2
  | building h =>
    have hhalfway := h.halfway
    unfold Halfway at hhalfway
    cases hrunner : s.runner with
    | verifying left verified errors duplicateFree => rw [hrunner] at hhalfway; exact hhalfway.elim
    | _ => rw [hrunner] at hverifies; exact hverifies.elim
  | built h => exact ⟨h, h.examined⟩
  | failed _ _ _ hrunner => exact absurd hverifies (Runner.not_busy (.inl hrunner)).2

variable (slices s b) in
/-- What holds of the build and the outbox together. -/
structure Together :
    Prop where
  beside : Beside slices b.highWater s.outbox
  stage : Stage slices s b
  strangers : ∀ r, share slices b.highWater s.outbox.commits r = [] →
    Exact slices b.highWater s.outbox r

variable (slices s) in
structure Sound : Prop where
  tracked : Tracked s.outbox
  links : Links s.outbox
  fanned : Fanned slices s.outbox
  build : ∀ b, s.build = some b → Together slices s b
  unbuilt : s.build = none → s.runner = .idle

theorem Stage.grows (h : Stage slices s b) {outbox : State Repository}
    (hgrows : Grows slices b.highWater s.outbox outbox) :
    Stage slices { s with outbox := outbox } b := by
  have hscope : scope { s with outbox := outbox } b = scope s b := hgrows.marked
  have hreached : reached { s with outbox := outbox } b = reached s b := by
    unfold reached
    rw [hscope]
  cases h with
  | planning hphase hstate hsettled hrunner hcounted =>
    exact .planning hphase hstate hsettled hrunner (by rw [hreached]; exact hcounted)
  | building h =>
    refine .building ⟨h.phase, h.state, h.unsettled, by rw [hscope]; exact h.counted,
      by rw [hreached]; exact h.written.mono hgrows.subset, ?_⟩
    have hhalfway := h.halfway
    unfold Halfway at hhalfway ⊢
    dsimp only
    cases hrunner : s.runner with
    | idle => trivial
    | running => trivial
    | appending batch left =>
      rw [hrunner] at hhalfway
      obtain ⟨hne, ⟨hread, hdone⟩, hpassed⟩ := hhalfway
      refine ⟨hne, ⟨?_, ?_⟩, fun r hr hleft commit hcommit hslice =>
        hgrows.subset r (hpassed r hr hleft commit hcommit hslice)⟩
      · rw [hgrows.marked]
        exact hread
      · rw [hgrows.marked]
        exact hdone.mono hgrows.subset
    | summarising left summaries =>
      rw [hrunner] at hhalfway
      change Written slices outbox (marked b.highWater outbox.commits)
      rw [hgrows.marked]
      exact Written.mono hhalfway hgrows.subset
    | verifying left verified errors duplicateFree =>
      rw [hrunner] at hhalfway
      exact hhalfway
  | built h =>
    refine .built ⟨h.phase, h.state, by rw [hscope]; exact h.counted,
      by rw [hscope]; exact h.written.mono hgrows.subset, ?_,
      fun hdone r hr => hgrows.exact r (h.settled hdone r hr)⟩
    have hexamined := h.examined
    unfold Examined at hexamined ⊢
    dsimp only
    cases hrunner : s.runner with
    | idle => trivial
    | verifying left verified errors duplicateFree =>
      rw [hrunner] at hexamined
      exact fun hnone r hr hleft => hgrows.exact r (hexamined hnone r hr hleft)
    | _ =>
      rw [hrunner] at hexamined
      exact hexamined
  | failed hphase hstate hsettled hrunner => exact .failed hphase hstate hsettled hrunner

/-- A step of the outbox. -/
theorem Sound.outbox (h : Sound slices s) {a : Action Repository}
    (hplans : slices.Plans s.outbox a)
    (hcalm : ∀ b, s.build = some b → Undisturbed b.highWater s.outbox a) :
    Sound slices { s with outbox := GitlleryOutbox.step s.outbox a } := by
  have hturns := h.links.step_turns a
  refine ⟨h.tracked.after_step a, h.links.turns hturns, h.fanned.turns hplans h.links hturns,
    fun b hb => ?_, h.unbuilt⟩
  obtain ⟨hbeside, hstage, hstrangers⟩ := h.build b hb
  obtain ⟨hbeside', hgrows⟩ :=
    hbeside.turns h.fanned h.tracked h.links hplans (hcalm b hb) hturns
  refine ⟨hbeside', hstage.grows hgrows, fun r hnone => hgrows.exact r (hstrangers r ?_)⟩
  unfold share at hnone ⊢
  rw [hgrows.marked] at hnone
  exact hnone

/-- The mark of a new build: it is a commit of the ledger, and all are up to it. -/
theorem covered_latest (commits : List CurationCommit) :
    let mark := (arranged CurationCommit.stamp commits).getLast?.map CurationCommit.stamp
    (∀ h ∈ mark, ∃ commit ∈ commits, commit.stamp = h) ∧
      ∀ commit ∈ commits, covered mark commit.stamp = true := by
  intro mark
  constructor
  · intro h hh
    obtain ⟨last, hlast, rfl⟩ := Option.mem_map.mp hh
    have hmem := mem_of_mem_getLast? hlast
    exact ⟨last, (arranged_perm _ _).mem_iff.mp hmem, rfl⟩
  · intro commit hcommit
    cases hlast : (arranged CurationCommit.stamp commits).getLast? with
    | none =>
      have hperm := arranged_perm CurationCommit.stamp commits
      rw [getLast?_eq_none_iff.mp hlast] at hperm
      rw [nil_perm.mp hperm] at hcommit
      cases hcommit
    | some last =>
      refine covered_iff.mpr ⟨last.stamp, ?_, arranged_last _ hlast hcommit⟩
      exact Option.mem_map.mpr ⟨last, hlast, rfl⟩

/-- The build is created. -/
theorem Sound.of_create (h : Sound slices s) {known : Bool}
    (hempty : known = true → ∀ r, s.outbox.chains r = []) : Sound slices (create known s) := by
  unfold create
  cases hbuild : s.build with
  | some b => exact h
  | none =>
    dsimp only
    have houtbox : (if known then s.outbox else { s.outbox with chains := fun _ => [] }) =
        { s.outbox with chains := fun _ => [] } := by
      cases known with
      | false => rfl
      | true =>
        have hchains : s.outbox.chains = fun _ => [] := funext (hempty rfl)
        rw [← hchains]
        rfl
    rw [houtbox]
    have htracked : Tracked { s.outbox with chains := fun _ => [] } := h.tracked
    obtain ⟨hmark, hall⟩ := covered_latest s.outbox.commits
    refine ⟨htracked, ⟨h.links.intents, h.links.planned, h.links.held⟩,
      ⟨h.fanned.sliced, h.fanned.all, h.fanned.ids, h.fanned.named, h.fanned.claims⟩,
      fun b hb => ?_, nofun⟩
    cases hb
    refine ⟨beside_start htracked hmark hall (fun _ => rfl), ?_, fun r hnone => ?_⟩
    · refine .planning rfl (.inl rfl) rfl (.inl (h.unbuilt hbuild)) ?_
      unfold reached
      rw [upTo_none]
      exact ⟨fun _ => rfl, nofun⟩
    · unfold Exact
      rw [hnone]
      exact ⟨[], [], rfl, Perm.refl _, Pairwise.nil, nofun⟩

/-- The build changes, with the same mark, and so does the worker. -/
theorem Sound.of_build (h : Sound slices s) {b b' : Build Repository} (hb : s.build = some b)
    (hmark : b'.highWater = b.highWater)
    (hstage : Stage slices { s with build := some b', runner := runner } b') :
    Sound slices { s with build := some b', runner := runner } := by
  obtain ⟨hbeside, -, hstrangers⟩ := h.build b hb
  refine ⟨h.tracked, h.links, h.fanned, fun other hother => ?_, nofun⟩
  cases hother
  refine ⟨?_, hstage, ?_⟩
  · rw [hmark]
    exact hbeside
  · rw [hmark]
    exact hstrangers

/-- The worker stops, or has not begun. -/
theorem Stage.idle (h : Stage slices s b) : Stage slices { s with runner := .idle } b := by
  cases h with
  | planning hphase hstate hsettled hrunner hcounted =>
    exact .planning hphase hstate hsettled (.inl rfl) hcounted
  | building h => exact .building { h with halfway := trivial }
  | built h => exact .built { h with examined := trivial }
  | failed hphase hstate hsettled hrunner => exact .failed hphase hstate hsettled rfl

theorem Sound.of_stop (h : Sound slices s) : Sound slices { s with runner := .idle } := by
  refine ⟨h.tracked, h.links, h.fanned, fun b hb => ?_, fun _ => rfl⟩
  obtain ⟨hbeside, hstage, hstrangers⟩ := h.build b hb
  exact ⟨hbeside, hstage.idle, hstrangers⟩

/-- `run` begins, or goes on. -/
theorem Sound.of_startRun (h : Sound slices s) : Sound slices (startRun s) := by
  have hgo : ∀ b b', s.build = some b → b.state = .pending ∨ b.state = .running →
      b' = { b with state := .running } ∨ b' = { b with resumeCount := b.resumeCount + 1 } →
      Sound slices { s with build := some b', runner := .running } := by
    intro b b' hb hstate hb'
    have hmark : b'.highWater = b.highWater := by
      rcases hb' with rfl | rfl <;> rfl
    have hstate' : b'.state = .pending ∨ b'.state = .running := by
      rcases hb' with rfl | rfl
      · exact .inr rfl
      · exact hstate
    refine h.of_build hb hmark ?_
    cases (h.build b hb).stage with
    | planning hphase _ hsettled hrunner hcounted =>
      rcases hb' with rfl | rfl <;>
        exact .planning hphase hstate' hsettled (.inr rfl) ⟨hcounted.commits, hcounted.keys⟩
    | building h =>
      rcases hb' with rfl | rfl <;>
        exact .building ⟨h.phase, hstate', h.unsettled, ⟨h.counted.commits, h.counted.keys⟩,
          h.written, trivial⟩
    | built h => exact absurd hstate (not_or.mpr h.state)
    | failed _ hfailed =>
      rw [hfailed] at hstate
      rcases hstate with hstate | hstate <;> cases hstate
  unfold startRun
  split
  next b hb hrunner =>
    split
    · rename_i hstate
      exact hgo b _ hb (.inl hstate) (.inl rfl)
    · rename_i hstate
      exact hgo b _ hb (.inr hstate) (.inr rfl)
    · exact h
  · exact h

/-- `run` raises. -/
theorem Sound.of_runRaises (h : Sound slices s) : Sound slices (runRaises s) := by
  unfold runRaises
  split
  · exact h
  · exact h
  next b hb hidle hverifying =>
    refine h.of_build hb rfl ?_
    cases (h.build b hb).stage with
    | planning hphase hstate hsettled hrunner hcounted => exact .failed rfl rfl hsettled rfl
    | building h => exact .failed rfl rfl h.unsettled rfl
    | built h =>
      rcases h.resting with hrunner | ⟨_, _, _, _, hrunner⟩
      · exact absurd hrunner hidle
      · exact absurd hrunner (hverifying _ _ _ _)
    | failed hphase hstate hsettled hrunner => exact absurd hrunner hidle
  · exact h

/-- A batch is counted. -/
theorem Counted.planBatch {commits : List CurationCommit} (htracked : Tracked s.outbox)
    (hcommits : commits = s.outbox.commits) (catalog : List Repository) (limit : Nat)
    (h : Counted slices b (reached s b) b.repositories) :
    (b.planBatch slices catalog limit commits).phase = .building ∧
        Counted slices (b.planBatch slices catalog limit commits) (scope s b)
          (b.planBatch slices catalog limit commits).selected ∧
        (b.planBatch slices catalog limit commits).cursor = none ∨
      (b.planBatch slices catalog limit commits).phase = b.phase ∧
        Counted slices (b.planBatch slices catalog limit commits)
          (reached s (b.planBatch slices catalog limit commits))
          (b.planBatch slices catalog limit commits).repositories := by
  subst hcommits
  have hkeys : b.repositories ⊆ if b.repositories = [] then catalog.dedup else b.repositories := by
    split
    next hnone =>
      rw [hnone]
      exact nil_subset _
    · exact fun _ hmem => hmem
  unfold Build.planBatch
  dsimp only
  cases hlast : (b.commitBatch (batchSize limit) s.outbox.commits).getLast? with
  | none =>
    -- nothing is left: the commits up to the cursor are all
    have hall : reached s b = scope s b :=
      filter_eq_self.mpr fun commit hcommit =>
        (mem_filter.mp (upTo_of_batch_nil (batchSize_pos limit)
          (getLast?_eq_none_iff.mp hlast) commit hcommit)).2
    rw [hall] at h
    refine .inl ⟨rfl, ⟨h.commits, fun commit hcommit r hr => ?_⟩, rfl⟩
    exact (mem_insertionSort _).mpr (hkeys (h.keys commit hcommit r hr))
  | some last =>
    have hperm : (upTo CurationCommit.stamp (scope s b) (some last.stamp)).Perm
        (reached s b ++ b.commitBatch (batchSize limit) s.outbox.commits) :=
      upTo_batch (htracked.marked_nodup b.highWater) hlast
    refine .inr ⟨rfl, fun r => ?_, fun commit hcommit r hr => ?_⟩
    · dsimp only
      rw [commits_foldl_countCommit, h.commits r]
      have hlength := (hperm.filter fun c => decide (r ∈ slices.repositories c.id)).length_eq
      rw [filter_append, length_append] at hlength
      exact hlength.symm
    · rcases mem_append.mp (hperm.mem_iff.mp hcommit) with hold | hnew
      · exact subset_foldl_countKeys _ _ (hkeys (h.keys commit hold r hr))
      · exact mem_foldl_countKeys _ hnew hr

theorem highWater_planBatch (slices : Slices Repository) (catalog : List Repository) (limit : Nat)
    (commits : List CurationCommit) (b : Build Repository) :
    (b.planBatch slices catalog limit commits).highWater = b.highWater ∧
      (b.planBatch slices catalog limit commits).state = b.state ∧
      (b.planBatch slices catalog limit commits).settled = b.settled := by
  unfold Build.planBatch
  dsimp only
  split <;> exact ⟨rfl, rfl, rfl⟩

section

variable (h : Sound slices s)
include h

theorem Sound.of_planBatch (catalog : List Repository) (limit : Nat) :
    Sound slices (planBatch slices catalog limit s) := by
  unfold planBatch
  split
  next b hb hrunner =>
    split
    · rename_i hphase
      obtain ⟨hmark, hstate', hsettled'⟩ :=
        highWater_planBatch slices catalog limit s.outbox.commits b
      have hworld : ({ s with build := some (b.planBatch slices catalog limit s.outbox.commits) } :
          World Repository) = { s with
            build := some (b.planBatch slices catalog limit s.outbox.commits), runner := .running } := by
        rw [← hrunner]
      rw [hworld]
      refine h.of_build hb hmark ?_
      cases (h.build b hb).stage with
      | planning _ hstate hsettled _ hcounted =>
        rcases hcounted.planBatch h.tracked rfl catalog limit with
          ⟨hnext, hplanned, hcursor⟩ | ⟨hsame, hplanned⟩
        · refine .building ⟨hnext, hstate' ▸ hstate, hsettled' ▸ hsettled, ?_, ?_, trivial⟩
          · unfold scope at hplanned ⊢
            rw [hmark]
            exact hplanned
          · unfold reached
            rw [hcursor, upTo_none]
            exact nofun
        · exact .planning (hsame.trans hphase) (hstate' ▸ hstate) (hsettled' ▸ hsettled) (.inr rfl)
            hplanned
      | building h =>
        rw [h.phase] at hphase
        cases hphase
      | built h => exact absurd hphase h.phase.1
      | failed hother =>
        rw [hother] at hphase
        cases hphase
    · exact h
  · exact h

/-- The worker goes on. -/
theorem Sound.of_runner {b : Build Repository} (hb : s.build = some b)
    (hstage : Stage slices { s with runner := runner } b) :
    Sound slices { s with runner := runner } := by
  obtain ⟨hbeside, -, hstrangers⟩ := h.build b hb
  refine ⟨h.tracked, h.links, h.fanned, fun other hother => ?_, fun hnone => ?_⟩
  · cases hb.symm.trans hother
    exact ⟨hbeside, hstage, hstrangers⟩
  · cases hb.symm.trans hnone

/-- The next batch is read. -/
theorem Sound.of_buildBatch (limit : Nat) :
    Sound slices (buildBatch slices limit s) := by
  unfold buildBatch
  split
  next b hb hrunner =>
    split
    · rename_i hphase
      have hbuilding : Building slices s b := by
        cases (h.build b hb).stage with
        | building h => exact h
        | planning hother | failed hother =>
          rw [hother] at hphase
          cases hphase
        | built h => exact absurd hphase h.phase.2
      split
      · rename_i hnone
        refine h.of_runner hb (.building { hbuilding with halfway := fun commit hcommit => ?_ })
        exact hbuilding.written commit
          (upTo_of_batch_nil (batchSize_pos limit) hnone commit hcommit)
      · rename_i first rest hbatch
        refine h.of_runner hb (.building { hbuilding with halfway := ⟨cons_ne_nil _ _,
          ⟨⟨_, hbatch.symm⟩, hbuilding.written⟩, fun r hr hleft commit hcommit hslice => ?_⟩ })
        -- a repository that is left out has nothing in the batch
        have hempty : items slices (first :: rest) r = [] := by
          by_contra hne
          exact hleft (mem_filter.mpr ⟨hr, decide_eq_true hne⟩)
        have hmem := mem_items.mpr ⟨hcommit, hslice⟩
        rw [hempty] at hmem
        cases hmem
    · exact h
  · exact h

/-- A batch is appended to a repository. -/
theorem Sound.of_append : Sound slices (append slices s) := by
  unfold append
  split
  next batch r left hrunner =>
    have hsub : ∀ r', s.outbox.chains r' ⊆ (appendTo slices batch r s.outbox).chains r' :=
      subset_appendTo batch r
    refine ⟨h.tracked, ⟨h.links.intents, h.links.planned, h.links.held⟩,
      ⟨h.fanned.sliced, h.fanned.all, h.fanned.ids, h.fanned.named, h.fanned.claims⟩,
      fun b hb => ?_, fun hnone => ?_⟩
    · obtain ⟨hbeside, hstage, hstrangers⟩ := h.build b hb
      obtain ⟨hbuilding, hne, hnext, hpassed⟩ := hstage.busy hrunner trivial
      refine ⟨hbeside.appendTo h.tracked hnext r, .building { hbuilding with
        written := hbuilding.written.mono hsub
        halfway := ⟨hne, ⟨hnext.read, hnext.written.mono hsub⟩,
          fun r' hr' hleft commit hcommit hslice => ?_⟩ },
        fun r' hnone => (hstrangers r' hnone).appendTo hnext hnone⟩
      by_cases hsame : r' = r
      · subst hsame
        change commit.stamp ∈ Function.update s.outbox.chains r' _ r'
        rw [Function.update_self]
        exact mem_appendItems hbeside h.tracked hnext (mem_items.mpr ⟨hcommit, hslice⟩)
      · refine hsub r' (hpassed r' hr' (fun hmem => ?_) commit hcommit hslice)
        rcases mem_cons.mp hmem with heq | hrest
        · exact hsame heq
        · exact hleft hrest
    · rw [h.unbuilt hnone] at hrunner
      cases hrunner
  · exact h

/-- The cursor is set. -/
theorem Sound.of_checkpoint : Sound slices (checkpoint s) := by
  unfold checkpoint
  split
  next b batch hb hrunner =>
    obtain ⟨hbuilding, hne, ⟨⟨limit, hread⟩, hdone⟩, hpassed⟩ :=
      (h.build b hb).stage.busy hrunner trivial
    refine h.of_build hb rfl (.building ⟨hbuilding.phase, hbuilding.state, hbuilding.unsettled,
      ⟨hbuilding.counted.commits, hbuilding.counted.keys⟩, ?_, trivial⟩)
    cases hlast : batch.getLast? with
    | none => exact absurd (getLast?_eq_none_iff.mp hlast) hne
    | some last =>
      rw [hread] at hlast
      have hperm := upTo_batch (h.tracked.marked_nodup b.highWater) hlast
      intro commit hcommit r hr
      rcases mem_append.mp (hperm.mem_iff.mp hcommit) with hold | hnew
      · exact hdone commit hold r hr
      · have hmem := mem_of_mem_batch hnew
        rw [← hread] at hnew
        exact hpassed r (hbuilding.counted.keys commit hmem r hr) not_mem_nil commit hnew hr
  · exact h

theorem Sound.of_summarise : Sound slices (summarise slices s) := by
  unfold summarise
  split
  next r left summaries hrunner =>
    rcases Option.eq_none_or_eq_some s.build with hb | ⟨b, hb⟩
    · rw [h.unbuilt hb] at hrunner
      cases hrunner
    · obtain ⟨hbuilding, hhalfway⟩ := (h.build b hb).stage.busy hrunner trivial
      exact h.of_runner hb (.building { hbuilding with halfway := hhalfway })
  · exact h

theorem Sound.of_stage : Sound slices (stage s) := by
  unfold stage
  split
  next b summaries hb hrunner =>
    obtain ⟨hbuilding, hhalfway⟩ := (h.build b hb).stage.busy hrunner trivial
    refine h.of_build hb rfl (.built ⟨⟨nofun, nofun⟩, ⟨nofun, nofun⟩,
      ⟨hbuilding.counted.commits, hbuilding.counted.keys⟩, hhalfway, trivial, fun hsettled => ?_⟩)
    rw [hbuilding.unsettled] at hsettled
    cases hsettled
  · exact h

theorem Sound.of_startVerify : Sound slices (startVerify s) := by
  unfold startVerify
  split
  next b hb hrunner =>
    split
    · rename_i hstate
      have hbuilt : Built slices s b := by
        cases (h.build b hb).stage with
        | planning _ hother => rcases hother with hother | hother <;> simp [hother] at hstate
        | building h => rcases h.state with hother | hother <;> simp [hother] at hstate
        | built h => exact h
        | failed _ hother => simp [hother] at hstate
      exact h.of_runner hb (.built { hbuilt with
        examined := fun _ r hr hleft => absurd hr hleft })
    · exact h
  · exact h

end

theorem Tracked.share_nodup {o : State Repository} (h : Tracked o) (slices : Slices Repository)
    (highWater : Option Stamp) (r : Repository) :
    ((share slices highWater o.commits r).map CurationCommit.stamp).Nodup :=
  (h.marked_nodup highWater).sublist (Sublist.map _ filter_sublist)

/-- A repository that has as many commits as it is to have, and all of them, is exact. -/
theorem Built.exact (h : Built slices s b) (htracked : Tracked s.outbox) {r : Repository}
    (hcount : chainCount slices r (s.outbox.chains r) = b.counts r) :
    Exact slices b.highWater s.outbox r := by
  have hlength : (s.outbox.chains r).length = (share slices b.highWater s.outbox.commits r).length := by
    rw [show (s.outbox.chains r).length = (chainCount slices r (s.outbox.chains r)).commits from rfl,
      hcount]
    exact h.counted.commits r
  have hsub : (share slices b.highWater s.outbox.commits r).map CurationCommit.stamp ⊆
      s.outbox.chains r := by
    intro stamp hstamp
    obtain ⟨commit, hcommit, rfl⟩ := mem_map.mp hstamp
    obtain ⟨hmarked, hslice⟩ := mem_items.mp hcommit
    exact h.written commit hmarked r hslice
  have hperm := (subperm_of_subset (htracked.share_nodup _ _ r) hsub).perm_of_length_le
    (by rw [length_map, hlength])
  exact ⟨s.outbox.chains r, [], (append_nil _).symm, hperm.symm, Pairwise.nil,
    nofun⟩

/-- `verify` reads a repository. -/
theorem Sound.of_check (h : Sound slices s) (reading : Reading) :
    Sound slices (check slices reading s) := by
  unfold check
  split
  next b r left verified errors duplicateFree hb hrunner =>
    obtain ⟨hbuilt, hexamined⟩ := (h.build b hb).stage.verifies hrunner trivial
    dsimp only
    cases reading with
    | unreadable | damaged =>
      exact h.of_runner hb (.built { hbuilt with
        examined := fun hnone => by simp at hnone })
    | intact =>
      refine h.of_runner hb (.built { hbuilt with
        examined := fun hnone r' hr' hleft => ?_ })
      split at hnone
      · rename_i hcount
        by_cases hsame : r' = r
        · rw [hsame]
          exact hbuilt.exact h.tracked hcount
        · refine hexamined hnone r' hr' fun hmem => ?_
          rcases mem_cons.mp hmem with heq | hrest
          · exact hsame heq
          · exact hleft hrest
      · simp at hnone
  · exact h

/-- The intents of the build are settled. -/
theorem Sound.settleFullBuild (h : Sound slices s) (hb : s.build = some b) :
    Sound slices { s with outbox := settleFullBuild b s.outbox } := by
  have hid : ∀ row : Intent, (if (commitStamp s.outbox row.commitId).any
      (covered b.highWater) then { row with state := .complete, leaseExpiresAt := none }
      else row).id = row.id := by
    intro row
    split <;> rfl
  refine ⟨?_, ⟨fun target htarget => ?_, fun target htarget row' hrow' hsame => ?_, h.links.held⟩,
    h.fanned.intents (fun row _ => hid row) fun row _ => ?_, fun other hother => ?_, h.unbuilt⟩
  · obtain ⟨chains, htraced⟩ := h.tracked
    exact ⟨chains, htraced.intents _⟩
  · obtain ⟨row, hrow, hsame⟩ := h.links.intents target htarget
    exact ⟨_, mem_map_of_mem hrow, (hid row).trans hsame⟩
  · obtain ⟨row, hrow, rfl⟩ := mem_map.mp hrow'
    rw [hid] at hsame
    split
    · exact ⟨rfl, .inr rfl⟩
    · exact h.links.planned target htarget row hrow hsame
  · split <;> rfl
  · cases hb.symm.trans hother
    obtain ⟨hbeside, hstage, hstrangers⟩ := h.build b hb
    refine ⟨hbeside.intents (fun row _ => ?_) fun row hrow commit hcommit hsame hbehind hstate => ?_,
      hstage.grows (.of_same rfl rfl), hstrangers⟩
    · split <;> rfl
    · -- an intent behind the mark is left alone
      rw [← hsame, h.tracked.commitStamp_eq hcommit, Option.any_some, hbehind] at hstate
      exact .inl hstate

/-- `verify` ends. -/
theorem Sound.of_settle (h : Sound slices s) (evidence : Evidence) (measured : Measured) :
    Sound slices (settle evidence measured s) := by
  unfold settle
  split
  next b verified errors duplicateFree hb hrunner =>
    obtain ⟨hbuilt, hexamined⟩ := (h.build b hb).stage.verifies hrunner trivial
    have hdone : ∀ b' : Build Repository, b'.highWater = b.highWater → b'.selected = b.selected →
        b'.counts = b.counts → b'.phase ≠ .planning ∧ b'.phase ≠ .building →
        b'.state ≠ .pending ∧ b'.state ≠ .running →
        (b'.settled = true → b.settled = true ∨ errors = []) →
        Sound slices { s with build := some b', runner := .idle } := by
      intro b' hmark hselected hcounts hphase hstate hsettled
      refine h.of_build hb hmark (.built ⟨hphase, hstate, ⟨fun r => ?_, fun commit hcommit r hr => ?_⟩,
        ?_, trivial, fun hyes r hr => ?_⟩)
      · rw [hcounts]
        unfold scope
        rw [hmark]
        exact hbuilt.counted.commits r
      · unfold scope at hcommit
        rw [hmark] at hcommit
        rw [hselected]
        exact hbuilt.counted.keys commit hcommit r hr
      · unfold scope
        rw [hmark]
        exact hbuilt.written
      · rw [hselected] at hr
        rw [hmark]
        rcases hsettled hyes with hbefore | hnone
        · exact hbuilt.settled hbefore r hr
        · exact hexamined hnone r hr not_mem_nil
    dsimp only
    generalize hall : (if verified = b.built then errors else errors ++ [.changed]) = all
    split
    · rename_i hnone
      have herrors : errors = [] := by
        rw [hnone] at hall
        split at hall
        · exact hall
        · simp at hall
      split
      · have hsettled := hdone { b with state := .complete, phase := .verified, settled := true } rfl
          rfl rfl ⟨nofun, nofun⟩ ⟨nofun, nofun⟩ fun _ => .inr herrors
        exact hsettled.settleFullBuild
          (b := { b with state := .complete, phase := .verified, settled := true }) rfl
      · exact hdone _ rfl rfl rfl ⟨nofun, nofun⟩ ⟨nofun, nofun⟩ .inl
    · exact hdone _ rfl rfl rfl ⟨nofun, nofun⟩ ⟨nofun, nofun⟩ .inl
  · exact h

end Stages

section Runs

variable {Repository : Type} [LinearOrder Repository] {slices : Slices Repository}
  {s : World Repository}

variable (slices s) in
/-- The resolver says what the slices of a commit are. -/
def Resolved : Move Repository → Prop
  | .outbox action => slices.Plans s.outbox action
  | _ => True

/-- The outbox does not disturb the build, and the generation is empty when it is created. -/
def KeptApart (s : World Repository) : Move Repository → Prop
  | .outbox action => ∀ b ∈ s.build, Undisturbed b.highWater s.outbox action
  | .create known => known = true → ∀ r, s.outbox.chains r = []
  | _ => True

instance (s : World Repository) (move : Move Repository) : Decidable (Resolved slices s move) := by
  induction move using Move.casesOn <;> dsimp only [Resolved]
  case outbox action =>
    induction action using GitlleryOutbox.Action.casesOn <;> dsimp only [Slices.Plans]
    case plan w _ _ =>
      induction s.outbox.workers w using Worker.casesOn <;> infer_instance
    all_goals infer_instance
  all_goals infer_instance

instance [Fintype Repository] (s : World Repository) (move : Move Repository) :
    Decidable (KeptApart s move) := by
  induction move using Move.casesOn <;> dsimp only [KeptApart] <;> infer_instance

variable {move : Move Repository} {b : Build Repository}

/-- **Every step keeps the build and the outbox together.** -/
theorem Sound.after_step (h : Sound slices s) (hresolved : Resolved slices s move)
    (hapart : KeptApart s move) : Sound slices (step slices s move) := by
  cases move with
  | outbox action => exact h.outbox hresolved fun b hb => hapart b hb
  | create known => exact h.of_create hapart
  | run => exact h.of_startRun
  | planBatch catalog limit => exact h.of_planBatch catalog limit
  | buildBatch limit => exact h.of_buildBatch limit
  | append => exact h.of_append
  | checkpoint => exact h.of_checkpoint
  | summarise => exact h.of_summarise
  | stage => exact h.of_stage
  | raises => exact h.of_runRaises
  | verify => exact h.of_startVerify
  | check reading => exact h.of_check reading
  | settle evidence measured => exact h.of_settle evidence measured
  | stop => exact h.of_stop

/-- The identities of the commits in a chain. -/
def ids (chain : List Stamp) : List Uuid := chain.map fun stamp => (ofLex stamp).2

variable (slices s move) in
/-- Once the build is settled, none of its commits is appended again. -/
def NotAgain : Prop :=
  ∀ b, s.build = some b → b.settled = true →
    ∀ commit ∈ s.outbox.commits, covered b.highWater commit.stamp = true → ∀ r,
      (ids ((step slices s move).outbox.chains r)).count commit.id =
        (ids (s.outbox.chains r)).count commit.id

variable (slices s) in
/-- Once the build is settled and nothing is left to do, every commit is once in each of its
repositories. -/
def ExactlyOnce : Prop :=
  ∀ b, s.build = some b → b.settled = true →
    (∀ row ∈ s.outbox.intents, row.state = .complete) →
    (∀ target ∈ s.outbox.targets, target.state = .complete) →
    ∀ commit ∈ s.outbox.commits, ∀ r ∈ slices.repositories commit.id,
      (ids (s.outbox.chains r)).count commit.id = 1

/-- A build that is settled has been built. -/
theorem Stage.built_of_settled (h : Stage slices s b) (hsettled : b.settled = true) :
    Built slices s b := by
  cases h with
  | planning _ _ hno | failed _ _ hno =>
    rw [hno] at hsettled
    cases hsettled
  | building h =>
    rw [h.unsettled] at hsettled
    cases hsettled
  | built h => exact h

/-- A build that has been built is not appended to any more. -/
theorem Built.chains (h : Built slices s b) (hb : s.build = some b)
    (hmove : ∀ action, move ≠ .outbox action) :
    (step slices s move).outbox.chains = s.outbox.chains := by
  cases move with
  | outbox action => exact absurd rfl (hmove action)
  | create known => simp only [step, create, hb]
  | run =>
    simp only [step, startRun]
    repeat' split
    all_goals rfl
  | planBatch catalog limit =>
    simp only [step, planBatch]
    repeat' split
    all_goals rfl
  | buildBatch limit =>
    simp only [step, buildBatch]
    repeat' split
    all_goals rfl
  | append =>
    rcases h.resting with hrunner | ⟨_, _, _, _, hrunner⟩ <;> simp only [step, append, hrunner]
  | checkpoint => simp only [step, checkpoint]; split <;> rfl
  | summarise => simp only [step, summarise]; split <;> rfl
  | stage => simp only [step, stage]; split <;> rfl
  | raises => simp only [step, runRaises]; split <;> rfl
  | verify =>
    simp only [step, startVerify]
    repeat' split
    all_goals rfl
  | check reading =>
    simp only [step, check]
    split
    · cases reading <;> rfl
    · rfl
  | settle evidence measured =>
    simp only [step, settle]
    split
    next b' verified errors duplicateFree hb' hrunner =>
      generalize (if verified = b'.built then errors else errors ++ [.changed]) = all
      split
      · split <;> rfl
      · rfl
    · rfl
  | stop => rfl

theorem Sound.notAgain (h : Sound slices s) (hresolved : Resolved slices s move)
    (hapart : KeptApart s move) : NotAgain slices s move := by
  intro b hb hsettled commit hcommit hcovered r
  have hbuilt := (h.build b hb).stage.built_of_settled hsettled
  by_cases hmove : ∃ action, move = .outbox action
  · obtain ⟨action, rfl⟩ := hmove
    have hturns := h.links.step_turns action
    obtain ⟨hbeside', hgrows⟩ := (h.build b hb).beside.turns h.fanned h.tracked h.links hresolved
      (hapart b hb) hturns
    rcases hgrows.chains r with heq | ⟨stamp, hbehind, heq⟩
    · exact congrArg (fun chain => (ids chain).count commit.id) heq
    change (ids ((GitlleryOutbox.step s.outbox action).chains r)).count commit.id = _
    -- what has been appended is another commit
    have hmem : stamp ∈ (GitlleryOutbox.step s.outbox action).chains r := by
      rw [heq]
      exact mem_append_right _ mem_cons_self
    obtain ⟨new, hnew, rfl, -⟩ := hbeside'.known r stamp hmem
    have hmarked : commit ∈ marked b.highWater (GitlleryOutbox.step s.outbox action).commits := by
      rw [hgrows.marked]
      exact mem_marked.mpr ⟨hcommit, hcovered⟩
    have hother : new.id ≠ commit.id := by
      intro hid
      have hsame := (h.tracked.after_step action).commit_eq hnew (mem_marked.mp hmarked).1 hid
      rw [hsame, hcovered] at hbehind
      cases hbehind
    rw [heq]
    unfold ids
    rw [map_append, count_append, map_singleton, count_singleton]
    simp [CurationCommit.stamp, hother]
  · have hchains := hbuilt.chains hb fun action heq => hmove ⟨action, heq⟩
    rw [hchains]

/-- Everything in an exact chain is there once. -/
theorem Exact.nodup_ids {r : Repository} (h : Exact slices b.highWater s.outbox r)
    (htracked : Tracked s.outbox) (hbeside : Beside slices b.highWater s.outbox) :
    (ids (s.outbox.chains r)).Nodup := by
  have hnodup : (s.outbox.chains r).Nodup := by
    obtain ⟨front, later, heq, hfront, hincreasing, hlater⟩ := h
    rw [heq]
    refine Nodup.append (hfront.nodup_iff.mpr (htracked.share_nodup _ _ r)) (hincreasing.imp fun hlt => hlt.ne) ?_
    intro stamp hstamp hbehind
    obtain ⟨commit, hcommit, rfl⟩ := mem_map.mp (hfront.mem_iff.mp hstamp)
    have hcovered := (mem_marked.mp (mem_items.mp hcommit).1).2
    rw [hlater _ hbehind] at hcovered
    cases hcovered
  refine Nodup.map_on (fun stamp hstamp other hother hid => ?_) hnodup
  obtain ⟨commit, hcommit, rfl, -⟩ := hbeside.known r stamp hstamp
  obtain ⟨commit', hcommit', rfl, -⟩ := hbeside.known r other hother
  rw [htracked.commit_eq hcommit hcommit' hid]

theorem Sound.exactlyOnce (h : Sound slices s) : ExactlyOnce slices s := by
  intro b hb hsettled hintents htargets commit hcommit r hr
  obtain ⟨hbeside, hstage, hstrangers⟩ := h.build b hb
  have hbuilt := hstage.built_of_settled hsettled
  have hexact : Exact slices b.highWater s.outbox r := by
    by_cases hnone : share slices b.highWater s.outbox.commits r = []
    · exact hstrangers r hnone
    · obtain ⟨other, hother⟩ := exists_mem_of_ne_nil _ hnone
      obtain ⟨hmarked, hslice⟩ := mem_items.mp hother
      exact hbuilt.settled hsettled r (hbuilt.counted.keys other hmarked r hslice)
  have hmem : commit.stamp ∈ s.outbox.chains r := by
    cases hcovered : covered b.highWater commit.stamp with
    | true => exact hbuilt.written commit (mem_marked.mpr ⟨hcommit, hcovered⟩) r hr
    | false =>
      obtain ⟨row, hrow, -, hall⟩ := hbeside.asked commit hcommit hcovered
      obtain ⟨target, htarget, hid, hkey⟩ := hall (hintents row hrow) r hr
      have hsame := h.tracked.commit_eq (h.tracked.commit_mem htarget) hcommit hid
      have hstamp : target.stamp = commit.stamp := congrArg CurationCommit.stamp hsame
      have hin := hbeside.complete target htarget (by rw [hstamp]; exact hcovered)
        (htargets target htarget)
      rw [hstamp, hkey] at hin
      exact hin
  exact count_eq_one_of_mem (hexact.nodup_ids h.tracked hbeside)
    (mem_map.mpr ⟨commit.stamp, hmem, rfl⟩)

/-- A ledger of which nothing has been planned, and no build. -/
structure Ready (s : World Repository) : Prop where
  outbox : GitlleryOutbox.Start s.outbox
  intentIds : (s.outbox.intents.map (·.id)).Nodup
  build : s.build = none
  runner : s.runner = .idle

theorem Ready.sound (h : Ready s) : Sound slices s := by
  have hnone : ∀ target, target ∉ s.outbox.targets := by
    intro target
    rw [h.outbox.targets]
    exact not_mem_nil
  refine ⟨⟨s.outbox.chains, h.outbox.ordered.toTraced⟩, h.outbox.linked.toLinks,
    ⟨fun target htarget => absurd htarget (hnone target),
      fun target htarget => absurd htarget (hnone target), h.intentIds,
      fun target htarget => absurd htarget (hnone target), fun w claim hclaim => ?_⟩,
    fun b hb => ?_, fun _ => h.runner⟩
  · rw [h.outbox.workers] at hclaim
    cases hclaim
  · rw [h.build] at hb
    cases hb

/-- One repository that all commits have one change for. -/
def onlyRepository : Slices Unit := ⟨fun _ => [()], fun _ _ => 1, fun _ => List.nodup_singleton _⟩

def emptyWorld : World Unit := ⟨emptyState, none, .idle⟩

theorem ready_emptyWorld : Ready emptyWorld :=
  ⟨start_emptyState, nodup_nil, rfl, rfl⟩

/-- What an operator adds to the evidence. -/
def operatorEvidence : Evidence := ⟨none, none, none, some true, none, some 5, none, none⟩

/-- A build from its creation to its settlement; the worker is stopped once. -/
def fullBuild : List (Move Unit) :=
  [.create false, .run, .planBatch [()] 100, .stop, .run, .planBatch [()] 100, .buildBatch 100,
    .append, .checkpoint, .buildBatch 100, .summarise, .stage, .verify, .check .intact,
    .settle operatorEvidence ⟨100, 1, 4096⟩]

/-- A commit is built, and a later one is projected. -/
def besideRun : List (Move Unit) :=
  .outbox (.create ⟨1, 10⟩ 11 0) :: fullBuild ++
    ([.create ⟨2, 20⟩ 12 50, .start 0 25 100, .plan 0 [((), 21)] 100, .claim 0 31 100, .write 0,
      .finish 0, .settle 0] : List (Action Unit)).map .outbox

/-- The first of two commits has been planned when the build is created, and its target is
claimed when the build is settled. -/
def plannedRun : List (Move Unit) :=
  ([.create ⟨1, 10⟩ 11 0, .create ⟨2, 20⟩ 12 0, .start 0 25 100, .plan 0 [((), 21)] 100,
      .leave 0] : List (Action Unit)).map .outbox ++ fullBuild ++
    ([.start 0 25 200, .claim 0 31 200] : List (Action Unit)).map .outbox

end Runs

end GitlleryBuilds
