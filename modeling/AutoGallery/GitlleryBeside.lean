import AutoGallery.GitlleryFanOut

/-!
# The outbox beside a build

A build has a mark, the last commit of the ledger when it was created; the commits up to
it are the build's.  If the outbox writes none of them, the chains have of them what the
build has appended, and whatever comes before one of them (`Beside.closed`); so a batch
that ends where the chain ends is in the chain as a whole, and can be skipped.  The
commits behind the mark are the outbox's.  A repository that has the commits of the build
once, and then commits behind the mark in order, stays like that (`Exact`, `Grows`).
-/

namespace GitlleryBuilds

open List Function

open GitlleryOutbox

variable {Repository : Type} {slices : Slices Repository} {highWater : Option Stamp}
  {s s' : State Repository} {a : Action Repository} {stamp : Stamp} {w : Nat}
  {commit : CurationCommit} {left : Nat} {target : TargetClaim Repository} {chain : List Stamp}
  {batch : List CurationCommit}

section Beside

variable {phase : Worker Repository} {claim : TargetClaim Repository}

theorem covered_iff : covered highWater stamp = true ↔ ∃ h ∈ highWater, stamp ≤ h := by
  simp [covered, Option.any_eq_true]

theorem covered_of_le {other : Stamp} (h : covered highWater other = true) (hle : stamp ≤ other) :
    covered highWater stamp = true := by
  obtain ⟨mark, hmark, hother⟩ := covered_iff.mp h
  exact covered_iff.mpr ⟨mark, hmark, hle.trans hother⟩

variable (slices s) in
/-- All the targets that the slices of a commit ask for. -/
def HasAll (commitId : Uuid) : Prop :=
  ∀ r ∈ slices.repositories commitId,
    ∃ target ∈ s.targets, target.commitId = commitId ∧ target.repositoryKey = r

variable (slices highWater s) in
/-- What holds of the outbox while there is a build with this mark: the chains have commits
of the ledger in their repositories; of the commits behind the mark, those that the outbox
has written, in turn; and of the others all that come before one of them. -/
structure Beside :
    Prop where
  mark : ∀ h ∈ highWater, ∃ commit ∈ s.commits, commit.stamp = h
  asked : ∀ commit ∈ s.commits, covered highWater commit.stamp = false →
    ∃ row ∈ s.intents, row.commitId = commit.id ∧
      (row.state = .complete → HasAll slices s commit.id)
  known : ∀ r, ∀ stamp ∈ s.chains r,
    ∃ commit ∈ s.commits, commit.stamp = stamp ∧ r ∈ slices.repositories commit.id
  complete : ∀ target ∈ s.targets, covered highWater target.stamp = false →
    target.state = .complete → target.stamp ∈ s.chains target.repositoryKey
  chained : ∀ r, ∀ stamp ∈ s.chains r, covered highWater stamp = false →
    ∃ target ∈ s.targets, target.repositoryKey = r ∧ target.stamp = stamp ∧ 0 < target.attempts
  written : ∀ w claim, (s.workers w).written = some claim → covered highWater claim.stamp = false →
    claim.stamp ∈ s.chains claim.repositoryKey
  settled : ∀ row ∈ s.targets, covered highWater row.stamp = false → 0 < row.attempts →
    ∀ other ∈ s.targets, other.repositoryKey = row.repositoryKey →
      covered highWater other.stamp = false → other.stamp < row.stamp → other.state = .complete
  closed : ∀ r, ∀ stamp ∈ s.chains r, covered highWater stamp = true →
    ∀ commit ∈ s.commits, commit.stamp ≤ stamp → r ∈ slices.repositories commit.id →
      commit.stamp ∈ s.chains r

section

variable (h : Beside slices highWater s)
include h

theorem Beside.worker
    (hwritten : ∀ claim, phase.written = some claim → covered highWater claim.stamp = false →
      claim.stamp ∈ s.chains claim.repositoryKey) :
    Beside slices highWater (setWorker w phase s) := by
  refine { h with written := fun other claim hother => ?_ }
  rw [workers_setWorker] at hother
  split at hother
  · exact hwritten claim hother
  · exact h.written other claim hother

theorem Beside.free (hfree : phase.written = none) :
    Beside slices highWater (setWorker w phase s) := by
  refine h.worker fun claim hclaim => ?_
  rw [hfree] at hclaim
  cases hclaim

/-- Intents change; those behind the mark become complete only when they have their targets. -/
theorem Beside.intents {f : Intent → Intent}
    (hcommit : ∀ row ∈ s.intents, (f row).commitId = row.commitId)
    (hcomplete : ∀ row ∈ s.intents, ∀ commit ∈ s.commits, commit.id = row.commitId →
      covered highWater commit.stamp = false → (f row).state = .complete →
        row.state = .complete ∨ HasAll slices s commit.id) :
    Beside slices highWater { s with intents := s.intents.map f } := by
  refine { h with asked := fun commit hmem hbehind => ?_ }
  obtain ⟨row, hrow, hid, hall⟩ := h.asked commit hmem hbehind
  refine ⟨f row, mem_map_of_mem hrow, (hcommit row hrow).trans hid, fun hstate => ?_⟩
  rcases hcomplete row hrow commit hmem hid.symm hbehind hstate with hold | hnew
  · exact hall hold
  · exact hnew

/-- Targets change. -/
theorem Beside.map {f : Target Repository → Target Repository}
    (hkept : ∀ row ∈ s.targets, RowKept row (f row))
    (hfirst : ∀ row ∈ s.targets, 0 < (f row).attempts → 0 < row.attempts ∨
      ∀ other ∈ s.targets, other.repositoryKey = row.repositoryKey → other.stamp < row.stamp →
        other.state = .complete)
    (hcomplete : ∀ row ∈ s.targets, covered highWater row.stamp = false →
      (f row).state = .complete → row.stamp ∈ s.chains row.repositoryKey) :
    Beside slices highWater { s with targets := s.targets.map f } where
  mark := h.mark
  asked := by
    intro commit hmem hbehind
    obtain ⟨row, hrow, hid, hall⟩ := h.asked commit hmem hbehind
    refine ⟨row, hrow, hid, fun hstate r hr => ?_⟩
    obtain ⟨target, htarget, hsame, hkey⟩ := hall hstate r hr
    exact ⟨f target, mem_map_of_mem htarget, (hkept target htarget).commitId.trans hsame,
      (hkept target htarget).repositoryKey.trans hkey⟩
  known := h.known
  complete := by
    intro row' hrow' hbehind hstate
    obtain ⟨row, hrow, rfl⟩ := mem_map.mp hrow'
    rw [(hkept row hrow).stamp] at hbehind ⊢
    rw [(hkept row hrow).repositoryKey]
    exact hcomplete row hrow hbehind hstate
  chained := by
    intro r stamp hstamp hbehind
    obtain ⟨row, hrow, hkey, hsame, hattempts⟩ := h.chained r stamp hstamp hbehind
    have hf := hkept row hrow
    exact ⟨f row, mem_map_of_mem hrow, hf.repositoryKey.trans hkey, hf.stamp.trans hsame,
      hattempts.trans_le hf.attempts⟩
  written := h.written
  settled := by
    intro row' hrow' hbehind hattempts other' hother' hkey hother hlt
    obtain ⟨row, hrow, rfl⟩ := mem_map.mp hrow'
    obtain ⟨other, hmem, rfl⟩ := mem_map.mp hother'
    rw [(hkept other hmem).repositoryKey, (hkept row hrow).repositoryKey] at hkey
    rw [(hkept other hmem).stamp] at hother hlt
    rw [(hkept row hrow).stamp] at hbehind hlt
    refine (hkept other hmem).complete ?_
    rcases hfirst row hrow hattempts with hbegun | hearlier
    · exact h.settled row hrow hbehind hbegun other hmem hkey hother hlt
    · exact hearlier other hmem hkey hlt
  closed := h.closed

/-- A commit is created, behind the mark. -/
theorem Beside.create (new : Intent)
    (hlast : ∀ other ∈ s.commits, other.stamp < commit.stamp ∧ other.id ≠ commit.id)
    (hnew : new.commitId = commit.id ∧ new.state = .pending) :
    covered highWater commit.stamp = false ∧
      Beside slices highWater
        { s with commits := s.commits ++ [commit], intents := s.intents ++ [new] } := by
  have hbehind : covered highWater commit.stamp = false := by
    by_contra hcovered
    obtain ⟨mark, hmark, hle⟩ := covered_iff.mp (Bool.not_eq_false _ ▸ hcovered)
    obtain ⟨other, hother, rfl⟩ := h.mark mark hmark
    exact absurd (hlast other hother).1 (not_lt_of_ge hle)
  refine ⟨hbehind, { h with mark := ?_, asked := ?_, known := ?_, closed := ?_ }⟩
  · intro mark hmark
    obtain ⟨other, hother, heq⟩ := h.mark mark hmark
    exact ⟨other, mem_append_left _ hother, heq⟩
  · intro other hother hbehind'
    rcases mem_append.mp hother with hold | hadded
    · obtain ⟨row, hrow, hfacts⟩ := h.asked other hold hbehind'
      exact ⟨row, mem_append_left _ hrow, hfacts⟩
    · rw [mem_singleton.mp hadded]
      refine ⟨new, mem_append_right _ mem_cons_self, hnew.1, fun hstate => ?_⟩
      rw [hnew.2] at hstate
      cases hstate
  · intro r stamp hstamp
    obtain ⟨other, hother, hfacts⟩ := h.known r stamp hstamp
    exact ⟨other, mem_append_left _ hother, hfacts⟩
  · intro r stamp hstamp hcovered other hother hle hr
    rcases mem_append.mp hother with hold | hadded
    · exact h.closed r stamp hstamp hcovered other hold hle hr
    · rw [mem_singleton.mp hadded] at hle
      rw [covered_of_le hcovered hle] at hbehind
      cases hbehind

/-- Targets are added that nobody has claimed, none before one that has been. -/
theorem Beside.add {new : List (Target Repository)}
    (hnew : ∀ row ∈ new, row.state = .pending ∧ row.attempts = 0)
    (hturn : ∀ row ∈ s.targets, 0 < row.attempts → ∀ other ∈ new,
      other.repositoryKey = row.repositoryKey → covered highWater other.stamp = false →
        ¬ other.stamp < row.stamp) :
    Beside slices highWater { s with targets := s.targets ++ new } where
  mark := h.mark
  asked := by
    intro commit hmem hbehind
    obtain ⟨row, hrow, hid, hall⟩ := h.asked commit hmem hbehind
    refine ⟨row, hrow, hid, fun hstate r hr => ?_⟩
    obtain ⟨target, htarget, hfacts⟩ := hall hstate r hr
    exact ⟨target, mem_append_left _ htarget, hfacts⟩
  known := h.known
  complete := by
    intro row hrow hbehind hstate
    rcases mem_append.mp hrow with hold | hadded
    · exact h.complete row hold hbehind hstate
    · rw [(hnew row hadded).1] at hstate
      cases hstate
  chained := by
    intro r stamp hstamp hbehind
    obtain ⟨row, hrow, hfacts⟩ := h.chained r stamp hstamp hbehind
    exact ⟨row, mem_append_left _ hrow, hfacts⟩
  written := h.written
  settled := by
    intro row hrow hbehind hattempts other hother hkey hother' hlt
    rcases mem_append.mp hrow with hold | hadded
    · rcases mem_append.mp hother with hold' | hadded'
      · exact h.settled row hold hbehind hattempts other hold' hkey hother' hlt
      · exact absurd hlt (hturn row hold hattempts other hadded' hkey hother')
    · have hzero := (hnew row hadded).2
      omega
  closed := h.closed

section

variable (htracked : Tracked s) (hclaim : ClaimOf s.targets claim)
include htracked hclaim

/-- A chain grows by a commit behind the mark that the outbox has in hand. -/
theorem Beside.write [DecidableEq Repository] (hfanned : Fanned slices s)
    (hbehind : covered highWater claim.stamp = false) :
    Beside slices highWater { s with
      chains := Function.update s.chains claim.repositoryKey
        (s.chains claim.repositoryKey ++ [claim.stamp]) } := by
  obtain ⟨row, hrow, -, hkey, hstamp, hpositive, hattempts⟩ := hclaim
  have hmem : ∀ r stamp, stamp ∈ update s.chains claim.repositoryKey
      (s.chains claim.repositoryKey ++ [claim.stamp]) r ↔
        stamp ∈ s.chains r ∨ r = claim.repositoryKey ∧ stamp = claim.stamp := by
    intro r stamp
    by_cases hr : r = claim.repositoryKey
    · subst hr
      simp
    · simp [hr]
  refine { h with known := ?_, complete := ?_, chained := ?_, written := ?_, closed := ?_ }
  · intro r stamp hin
    rcases (hmem r stamp).mp hin with hold | ⟨rfl, rfl⟩
    · exact h.known r stamp hold
    · refine ⟨_, htracked.commit_mem hrow, hstamp, ?_⟩
      rw [← hkey]
      exact hfanned.sliced row hrow
  · intro target htarget hbehind' hstate
    exact (hmem _ _).mpr (.inl (h.complete target htarget hbehind' hstate))
  · intro r stamp hin hbehind'
    rcases (hmem r stamp).mp hin with hold | ⟨rfl, rfl⟩
    · exact h.chained r stamp hold hbehind'
    · exact ⟨row, hrow, hkey, hstamp, hpositive.trans_le hattempts⟩
  · intro w other hother hbehind'
    exact (hmem _ _).mpr (.inl (h.written w other hother hbehind'))
  · intro r stamp hin hcovered commit hcommit hle hr
    rcases (hmem r stamp).mp hin with hold | ⟨rfl, rfl⟩
    · exact (hmem _ _).mpr (.inl (h.closed r stamp hold hcovered commit hcommit hle hr))
    · rw [hbehind] at hcovered
      cases hcovered

/-- The commits behind the mark in a chain are no later than one that is written in turn. -/
theorem Beside.le_of_holds (hbehind : covered highWater claim.stamp = false)
    {row : Target Repository} (hrow : row ∈ s.targets) (hholds : claim.holds row = true) :
    ∀ stamp ∈ s.chains claim.repositoryKey, covered highWater stamp = false →
      stamp ≤ claim.stamp := by
  intro stamp hstamp hstampBehind
  obtain ⟨hkey, hsame, hprocessing, -⟩ := htracked.holds hclaim hrow hholds
  obtain ⟨other, hother, hkey', hsame', hattempts⟩ := h.chained _ stamp hstamp hstampBehind
  by_contra hlater
  have hcomplete := h.settled other hother (by rw [hsame']; exact hstampBehind) hattempts row hrow
    (hkey.trans hkey'.symm) (by rw [hsame]; exact hbehind)
    (by rw [hsame, hsame']; exact lt_of_not_ge hlater)
  rw [hprocessing] at hcomplete
  cases hcomplete

/-- A chain is compared with a commit by its identity. -/
theorem Beside.appendCommit_cases :
    (s.chains claim.repositoryKey).getLast? = some claim.stamp ∧
        appendCommit claim.stamp (s.chains claim.repositoryKey) =
          s.chains claim.repositoryKey ∨
      (s.chains claim.repositoryKey).getLast? ≠ some claim.stamp ∧
        appendCommit claim.stamp (s.chains claim.repositoryKey) =
          s.chains claim.repositoryKey ++ [claim.stamp] := by
  obtain ⟨row, hrow, -, -, hstamp, -, -⟩ := hclaim
  refine GitlleryOutbox.appendCommit_cases fun last hlast hid => ?_
  obtain ⟨commit, hcommit, rfl, -⟩ := h.known _ last hlast
  have heq := htracked.commit_eq hcommit (htracked.commit_mem hrow) (by rw [← hstamp] at hid; exact hid)
  rw [heq, ← hstamp]
  rfl

end

/-- The settlement of an intent by a worker: it has been planned. -/
theorem Beside.settleIntent (hfanned : Fanned slices s) (hlinks : Links s)
    (hphase : s.workers w = .settling target left) :
    Beside slices highWater (settleIntent target.intentId s) := by
  unfold GitlleryOutbox.settleIntent
  split
  · exact h
  refine h.intents (fun row _ => ?_) fun row hrow commit _ hid _ hstate => ?_
  · split <;> rfl
  · split at hstate
    next hsame =>
      obtain ⟨found, hfound, -, hintent⟩ := hlinks.held w target (by rw [hphase]; rfl)
      have hcommit := hfanned.named found hfound row hrow (hsame.trans hintent.symm)
      rw [hid, hcommit]
      exact .inr (hfanned.all found hfound)
    · exact .inl hstate

end

/-- At first all commits are the build's, and nothing is written. -/
theorem beside_start (htracked : Tracked s) (hmark : ∀ h ∈ highWater, ∃ commit ∈ s.commits,
      commit.stamp = h) (hall : ∀ commit ∈ s.commits, covered highWater commit.stamp = true)
    (hempty : ∀ r, s.chains r = []) : Beside slices highWater s := by
  have htarget : ∀ target ∈ s.targets, covered highWater target.stamp = true := fun target hmem =>
    hall _ (htracked.commit_mem hmem)
  have hnone : ∀ r stamp, stamp ∉ s.chains r := by
    intro r stamp hmem
    rw [hempty] at hmem
    cases hmem
  refine ⟨hmark, fun commit hcommit hbehind => ?_, fun r stamp hmem => absurd hmem (hnone r stamp),
    fun target hmem hbehind => ?_, fun r stamp hmem => absurd hmem (hnone r stamp),
    fun w claim hclaim hbehind => ?_, fun row hrow hbehind => ?_,
    fun r stamp hmem => absurd hmem (hnone r stamp)⟩
  · rw [hall commit hcommit] at hbehind
    cases hbehind
  · rw [htarget target hmem] at hbehind
    cases hbehind
  · obtain ⟨row, hrow, -, -, hstamp, -, -⟩ :=
      htracked.claimOf (Worker.target_of_written hclaim)
    rw [← hstamp, htarget row hrow] at hbehind
    cases hbehind
  · rw [htarget row hrow] at hbehind
    cases hbehind

end Beside

section Growing

variable [DecidableEq Repository]

/-- The commits of a build. -/
def marked (highWater : Option Stamp) (commits : List CurationCommit) : List CurationCommit :=
  commits.filter fun c => covered highWater c.stamp

variable (slices highWater) in
/-- Those of them that have changes for the repository. -/
def share (commits : List CurationCommit) (r : Repository) : List CurationCommit :=
  items slices (marked highWater commits) r

/-- The chain has the given commits once each, and then commits behind the mark in order. -/
def ExactChain (highWater : Option Stamp) (expected chain : List Stamp) : Prop :=
  ∃ front later, chain = front ++ later ∧ front.Perm expected ∧ later.Pairwise (· < ·) ∧
    ∀ stamp ∈ later, covered highWater stamp = false

theorem ExactChain.append {expected : List Stamp} (h : ExactChain highWater expected chain)
    (hbehind : covered highWater stamp = false)
    (hmax : ∀ other ∈ chain, covered highWater other = false → other ≤ stamp)
    (hlast : chain.getLast? ≠ some stamp) : ExactChain highWater expected (chain ++ [stamp]) := by
  obtain ⟨front, later, rfl, hfront, hincreasing, hlater⟩ := h
  have hle : ∀ other ∈ later, other ≤ stamp := fun other hother =>
    hmax other (mem_append_right _ hother) (hlater other hother)
  have hnew : stamp ∉ later := by
    intro hmem
    have hend := getLast?_of_max hincreasing hmem hle
    rw [getLast?_append, hend] at hlast
    exact hlast rfl
  refine ⟨front, later ++ [stamp], by rw [append_assoc], hfront, ?_, fun other hother => ?_⟩
  · refine pairwise_append.mpr ⟨hincreasing, pairwise_singleton _ _, ?_⟩
    intro other hother new hmem
    rw [mem_singleton.mp hmem]
    exact lt_of_le_of_ne (hle other hother) fun heq => hnew (heq ▸ hother)
  · rcases mem_append.mp hother with hold | hadded
    · exact hlater other hold
    · rw [mem_singleton.mp hadded]
      exact hbehind

variable (slices highWater s) in
/-- The repository has what the build is to give it, and nothing twice. -/
def Exact (r : Repository) : Prop :=
  ExactChain highWater ((share slices highWater s.commits r).map CurationCommit.stamp) (s.chains r)

variable (slices highWater s s') in
/-- What the outbox may do to the repositories beside a build. -/
structure Grows :
    Prop where
  marked : marked highWater s'.commits = marked highWater s.commits
  chains : ∀ r, s'.chains r = s.chains r ∨
    ∃ stamp, covered highWater stamp = false ∧ s'.chains r = s.chains r ++ [stamp]
  exact : ∀ r, Exact slices highWater s r → Exact slices highWater s' r

theorem Grows.of_same (hcommits : s'.commits = s.commits) (hchains : s'.chains = s.chains) :
    Grows slices highWater s s' := by
  refine ⟨by rw [hcommits], fun r => .inl (by rw [hchains]), fun r h => ?_⟩
  unfold Exact at h ⊢
  rw [hcommits, hchains]
  exact h

theorem Grows.subset (h : Grows slices highWater s s') (r : Repository) : s.chains r ⊆ s'.chains r := by
  intro stamp hstamp
  rcases h.chains r with heq | ⟨new, -, heq⟩
  · rw [heq]
    exact hstamp
  · rw [heq]
    exact mem_append_left _ hstamp

/-- A step of the outbox does not disturb a build with this mark: no commit of the build is
written, unless it is the last one of its chain already; and the other commits are planned
and written in turn. -/
def Undisturbed (highWater : Option Stamp) (s : State Repository) : Action Repository → Prop
  | .plan w repositories now =>
    match s.workers w with
    | .planning claim _ =>
      (∃ commit ∈ s.commits, commit.id = claim.commitId ∧
        covered highWater commit.stamp = false) →
      InTurn s (.plan w repositories now)
    | _ => True
  | .write w =>
    match s.workers w with
    | .writing target _ =>
      if covered highWater target.stamp then
        (s.chains target.repositoryKey).getLast? = some target.stamp
      else InTurn s (.write w)
    | _ => True
  | _ => True

instance (s : State Repository) (a : Action Repository) :
    Decidable (Undisturbed highWater s a) := by
  induction a using GitlleryOutbox.Action.casesOn <;> dsimp only [Undisturbed]
  case plan w _ _ => induction s.workers w using Worker.casesOn <;> infer_instance
  case write w => induction s.workers w using Worker.casesOn <;> infer_instance
  all_goals infer_instance

section

variable (h : Beside slices highWater s) (hfanned : Fanned slices s)
include h hfanned

/-- A worker writes and does not disturb the build. -/
theorem Beside.writeTarget (htracked : Tracked s) (hphase : s.workers w = .writing target left)
    (hcalm : Undisturbed highWater s (.write w)) :
    Beside slices highWater (writeTarget target s) ∧
      Grows slices highWater s (writeTarget target s) ∧
      (covered highWater target.stamp = false →
        target.stamp ∈ (writeTarget target s).chains target.repositoryKey) := by
  have hclaim : ClaimOf s.targets target := htracked.claimOf (w := w) (by rw [hphase]; rfl)
  simp only [Undisturbed, hphase] at hcalm
  rcases h.appendCommit_cases htracked hclaim with ⟨hlast, heq⟩ | ⟨hlast, heq⟩
  · -- the commit is the last one, and the chain stays as it is
    have hsame : GitlleryOutbox.writeTarget target s = s := by
      unfold GitlleryOutbox.writeTarget
      rw [heq, update_eq_self]
    rw [hsame]
    exact ⟨h, .of_same rfl rfl, fun _ => mem_of_mem_getLast? (Option.mem_def.mpr hlast)⟩
  · have hbehind : covered highWater target.stamp = false := by
      by_contra hcovered
      rw [if_pos (Bool.not_eq_false _ ▸ hcovered)] at hcalm
      exact hlast hcalm
    rw [if_neg (by rw [hbehind]; exact Bool.false_ne_true)] at hcalm
    simp only [InTurn, hphase] at hcalm
    obtain ⟨row, hrow, hholds⟩ := hcalm
    have hmax := h.le_of_holds htracked hclaim hbehind hrow hholds
    unfold GitlleryOutbox.writeTarget
    rw [heq]
    refine ⟨h.write htracked hclaim hfanned hbehind, ⟨rfl, fun r => ?_, fun r hexact => ?_⟩,
      fun _ => ?_⟩
    · by_cases hr : r = target.repositoryKey
      · subst hr
        exact .inr ⟨target.stamp, hbehind, update_self ..⟩
      · exact .inl (update_of_ne hr ..)
    · unfold Exact at hexact ⊢
      by_cases hr : r = target.repositoryKey
      · subst hr
        dsimp only
        rw [update_self]
        exact hexact.append hbehind hmax hlast
      · dsimp only
        rw [update_of_ne hr]
        exact hexact
    · dsimp only
      rw [update_self]
      exact mem_append_right _ mem_cons_self

/-- A plan in turn. -/
theorem Beside.plan {claim : IntentClaim} {repositories : List (Repository × Uuid)} {now : Time}
    (hcalm : Undisturbed highWater s (.plan w repositories now))
    (hplans : slices.Plans s (.plan w repositories now))
    (hphase : s.workers w = .planning claim left)
    (hholds : ∃ row ∈ s.intents, claim.holds row = true) (hcommit : commit ∈ s.commits)
    (hid : commit.id = claim.commitId) :
    Beside slices highWater { s with
      intents := s.intents.map (plannedIntent claim repositories)
      targets := s.targets ++ plannedTargets claim commit repositories now s } := by
  simp only [Undisturbed, hphase] at hcalm
  simp only [Slices.Plans, hphase] at hplans
  have hadded : Beside slices highWater { s with
      targets := s.targets ++ plannedTargets claim commit repositories now s } := by
    refine h.add (fun row hrow => ?_) fun row hrow hattempts other hother hkey hbehind hlt => ?_
    · obtain ⟨-, -, -, hstate, hattempts, -⟩ := mem_plannedTargets hrow
      exact ⟨hstate, hattempts⟩
    obtain ⟨hmem, hcommitId, hcreated, -⟩ := mem_plannedTargets hother
    have hstamp : other.stamp = commit.stamp := by
      unfold Target.stamp
      rw [hcommitId, hcreated]
      rfl
    rw [hstamp] at hbehind hlt
    have hturn := hcalm ⟨commit, hcommit, hid, hbehind⟩
    simp only [InTurn, hphase] at hturn
    have hzero := hturn (any_eq_true.mpr hholds) commit hcommit hid _ hmem row hrow hkey.symm hlt
    omega
  refine hadded.intents (fun row _ => commitId_plannedIntent ..)
    fun row hrow other hother hsame hbehind hstate => ?_
  by_cases hclaim : row.id = claim.id
  · -- the intent that is planned has all its targets now
    obtain ⟨known, hknown, hknownId, hknownCommit⟩ := hfanned.claims w claim (by rw [hphase]; rfl)
    have heq : row = known := inj_on_of_nodup_map hfanned.ids hrow hknown (hclaim.trans hknownId.symm)
    have hother' : other.id = commit.id := by
      rw [hsame, heq, hknownCommit, hid]
    refine .inr fun r hr => ?_
    rw [hother'] at hr ⊢
    rw [hid, ← hplans] at hr
    exact fanned_plan now hr
  · rw [plannedIntent_of_ne hclaim] at hstate
    exact .inl hstate

/-- **A step of the outbox that does not disturb the build.** -/
theorem Beside.turns (htracked : Tracked s) (hlinks : Links s) (hplans : slices.Plans s a)
    (hcalm : Undisturbed highWater s a) (hturns : Turns s a s') :
    Beside slices highWater s' ∧ Grows slices highWater s s' := by
  cases hturns with
  | rest => exact ⟨h, .of_same rfl rfl⟩
  | @create commit intentId now hlast hfresh =>
    obtain ⟨hbehind, hcreated⟩ := h.create
      ⟨intentId, commit.id, .pending, 0, none, now⟩ hlast ⟨rfl, rfl⟩
    have hmarked : marked highWater (s.commits ++ [commit]) = marked highWater s.commits := by
      simp [marked, hbehind]
    refine ⟨hcreated, hmarked, fun r => .inl rfl, fun r hexact => ?_⟩
    unfold Exact share at hexact ⊢
    rw [hmarked]
    exact hexact
  | request hf =>
    refine ⟨h.intents (fun row hrow => (hf row hrow).1.commitId) ?_, .of_same rfl rfl⟩
    exact fun row hrow _ _ _ _ hstate => .inl ((hf row hrow).1.complete hstate)
  | @free _ w phase f hf hbefore hafter hintent =>
    have hwritten : phase.written = none := by
      cases phase with
      | finishing target left => cases hafter
      | _ => rfl
    refine ⟨(h.intents (f := f) (fun row hrow => (hf row hrow).1.commitId) ?_).free hwritten,
      .of_same rfl rfl⟩
    exact fun row hrow _ _ _ _ hstate => .inl ((hf row hrow).1.complete hstate)
  | plan hphase hholds hcommit hid hfresh =>
    exact ⟨(h.plan hfanned hcalm hplans hphase hholds hcommit hid).free rfl, .of_same rfl rfl⟩
  | @claim w left row token now hbefore hrow hfirst hopen =>
    have ⟨_, htraced⟩ := htracked
    refine ⟨(h.map (rowKept_claimed htraced hrow hopen token now)
      (fun other hother hattempts => ?_) fun other hother hbehind hstate => ?_).free rfl,
      .of_same rfl rfl⟩
    · split at hattempts
      next hid =>
        rw [htracked.target_eq hother hrow hid]
        exact .inr (settledBefore_of_first hfirst)
      · exact .inl hattempts
    · split at hstate
      · cases hstate
      · exact h.complete other hother hbehind hstate
  | @write w left target hphase =>
    obtain ⟨hwritten, hgrows, hmem⟩ := h.writeTarget hfanned htracked hphase hcalm
    refine ⟨hwritten.worker fun claim hclaim hbehind => ?_, ?_⟩
    · cases hclaim
      exact hmem hbehind
    · exact { hgrows with }
  | raises hphase => exact ⟨h.free rfl, .of_same rfl rfl⟩
  | @finish w left target hphase =>
    have hclaim : ClaimOf s.targets target := htracked.claimOf (w := w) (by rw [hphase]; rfl)
    refine ⟨Beside.free (h.map (fun row _ => rowKept_finished target row)
      (fun row hrow hattempts => .inl ?_) fun row hrow hbehind hstate => ?_) rfl, .of_same rfl rfl⟩
    · split at hattempts <;> exact hattempts
    split at hstate
    next hholds =>
      obtain ⟨hkey, hstamp, -, -⟩ := htracked.holds hclaim hrow hholds
      rw [hkey, hstamp]
      rw [hstamp] at hbehind
      exact h.written w target (by rw [hphase]; rfl) hbehind
    · exact h.complete row hrow hbehind hstate
  | settle hphase =>
    refine ⟨(h.settleIntent hfanned hlinks hphase).free rfl, .of_same ?_ ?_⟩
    · unfold GitlleryOutbox.settleIntent
      split <;> rfl
    · unfold GitlleryOutbox.settleIntent
      split <;> rfl
  | @fail w left target now hphase =>
    refine ⟨Beside.free (h.map (fun row _ => rowKept_failed target _ row)
      (fun row hrow hattempts => .inl ?_) fun row hrow hbehind hstate => ?_) rfl, .of_same rfl rfl⟩
    · split at hattempts <;> exact hattempts
    · split at hstate
      · cases hstate
      · exact h.complete row hrow hbehind hstate
  | crash w => exact ⟨h.free rfl, .of_same rfl rfl⟩

end

end Growing

section Appending

theorem Tracked.marked_nodup (h : Tracked s) (highWater : Option Stamp) :
    ((marked highWater s.commits).map CurationCommit.stamp).Nodup := by
  obtain ⟨_, h⟩ := h
  have hids : ((marked highWater s.commits).map (·.id)).Nodup :=
    h.commitIds.sublist (Sublist.map _ filter_sublist)
  refine Nodup.map_on (fun c hc d hd hstamp => ?_) (Nodup.of_map _ hids)
  exact inj_on_of_nodup_map hids hc hd (congrArg (fun stamp : Stamp => (ofLex stamp).2) hstamp)

variable {commits : List CurationCommit} {r : Repository} {r' : Repository}

theorem mem_marked :
    commit ∈ marked highWater commits ↔ commit ∈ commits ∧ covered highWater commit.stamp = true :=
  mem_filter

theorem mem_items [DecidableEq Repository] :
    commit ∈ items slices batch r ↔ commit ∈ batch ∧ r ∈ slices.repositories commit.id := by
  simp [items]

variable (slices s commits) in
/-- The commits are in the chains of all their repositories. -/
def Written :
    Prop :=
  ∀ commit ∈ commits, ∀ r ∈ slices.repositories commit.id, commit.stamp ∈ s.chains r

theorem Written.mono (h : Written slices s commits) (hsub : ∀ r, s.chains r ⊆ s'.chains r) :
    Written slices s' commits :=
  fun commit hcommit r hr => hsub r (h commit hcommit r hr)

variable (slices highWater s) in
/-- A batch of commits behind a cursor, and what comes before it is written. -/
structure Next (cursor : Option Stamp) (batch : List CurationCommit) : Prop where
  read : ∃ limit, batch = Keyset.batch CurationCommit.stamp (marked highWater s.commits) cursor limit
  written : Written slices s (Keyset.upTo CurationCommit.stamp (marked highWater s.commits) cursor)

variable {cursor : Option Stamp}

theorem Next.mem (h : Next slices highWater s cursor batch) (hcommit : commit ∈ batch) :
    commit ∈ s.commits ∧ covered highWater commit.stamp = true := by
  obtain ⟨limit, rfl⟩ := h.read
  exact mem_marked.mp (Keyset.mem_of_mem_batch hcommit)

/-- What comes before a commit of the batch is written or in the batch. -/
theorem Next.before (h : Next slices highWater s cursor batch) (htracked : Tracked s)
    {other : CurationCommit} (hcommit : commit ∈ batch) (hother : other ∈ s.commits)
    (hle : other.stamp ≤ commit.stamp) :
    other ∈ Keyset.upTo CurationCommit.stamp (marked highWater s.commits) cursor ∨
      other ∈ batch := by
  have hcovered := (h.mem hcommit).2
  have hmarked := mem_marked.mpr ⟨hother, covered_of_le hcovered hle⟩
  obtain ⟨limit, rfl⟩ := h.read
  cases hlast : (Keyset.batch CurationCommit.stamp (marked highWater s.commits) cursor
      limit).getLast? with
  | none =>
    rw [getLast?_eq_none_iff.mp hlast] at hcommit
    cases hcommit
  | some last =>
    have hperm := Keyset.upTo_batch (htracked.marked_nodup highWater) hlast
    have hupTo := hperm.mem_iff.mpr (mem_append_right _ hcommit)
    obtain ⟨-, mark, hmark, hlater⟩ := Keyset.mem_upTo.mp hupTo
    have hmem : other ∈ Keyset.upTo CurationCommit.stamp (marked highWater s.commits)
        (some last.stamp) := Keyset.mem_upTo.mpr ⟨hmarked, mark, hmark, hle.trans hlater⟩
    exact mem_append.mp (hperm.mem_iff.mp hmem)

variable [DecidableEq Repository]

section

variable (h : Beside slices highWater s) (htracked : Tracked s)
  (hnext : Next slices highWater s cursor batch)
include h htracked hnext

/-- The commits of a batch are appended to a repository, or it ends with the last of them. -/
theorem appendItems_cases (r : Repository) :
    (appendItems (items slices batch r) (s.chains r) = s.chains r ∧
        ∃ last, (items slices batch r).getLast? = some last ∧ last.stamp ∈ s.chains r) ∨
      appendItems (items slices batch r) (s.chains r) =
        s.chains r ++ (items slices batch r).map CurationCommit.stamp := by
  unfold appendItems
  split
  next hsame =>
    simp only [Option.any_eq_true, decide_eq_true_eq] at hsame
    obtain ⟨stamp, hstamp, last, hlast, hid⟩ := hsame
    have hmem := mem_of_mem_getLast? hstamp
    obtain ⟨commit, hcommit, rfl, -⟩ := h.known r stamp hmem
    have hitems := (mem_items.mp (mem_of_mem_getLast? hlast)).1
    have heq := htracked.commit_eq hcommit (hnext.mem hitems).1 hid
    exact .inl ⟨rfl, last, hlast, heq ▸ hmem⟩
  · exact .inr rfl

/-- The commits of the batch are in the chain then. -/
theorem mem_appendItems (hcommit : commit ∈ items slices batch r) :
    commit.stamp ∈ appendItems (items slices batch r) (s.chains r) := by
  rcases appendItems_cases h htracked hnext r with ⟨heq, last, hlast, hmem⟩ | heq
  · rw [heq]
    obtain ⟨hbatch, hr⟩ := mem_items.mp hcommit
    have hsorted : (items slices batch r).Pairwise fun c d => c.stamp ≤ d.stamp := by
      obtain ⟨limit, rfl⟩ := hnext.read
      exact (Keyset.batch_pairwise CurationCommit.stamp _ _ _).sublist filter_sublist
    have hle := Keyset.le_getLast CurationCommit.stamp hsorted hlast hcommit
    have hcovered := (hnext.mem (mem_items.mp (mem_of_mem_getLast? hlast)).1).2
    exact h.closed r last.stamp hmem hcovered commit (hnext.mem hbatch).1 hle hr
  · rw [heq]
    exact mem_append_right _ (mem_map_of_mem hcommit)

end

theorem mem_of_mem_appendItems (h : stamp ∈ appendItems batch chain) :
    stamp ∈ chain ∨ ∃ commit ∈ batch, commit.stamp = stamp := by
  unfold appendItems at h
  split at h
  · exact .inl h
  · rcases mem_append.mp h with hold | hnew
    · exact .inl hold
    · exact .inr (mem_map.mp hnew)

theorem subset_appendItems (chain : List Stamp) (batch : List CurationCommit) :
    chain ⊆ appendItems batch chain := by
  unfold appendItems
  split
  · exact fun _ hmem => hmem
  · exact fun _ hmem => mem_append_left _ hmem

variable (slices batch) in
/-- The build appends a batch to a repository. -/
def appendTo (r : Repository) (s : State Repository) : State Repository :=
  { s with chains := Function.update s.chains r (appendItems (items slices batch r) (s.chains r)) }

theorem subset_appendTo (batch : List CurationCommit) (r r' : Repository) :
    s.chains r' ⊆ (appendTo slices batch r s).chains r' := by
  unfold appendTo
  by_cases hr : r' = r
  · subst hr
    dsimp only
    rw [update_self]
    exact subset_appendItems _ _
  · dsimp only
    rw [update_of_ne hr]
    exact fun _ hmem => hmem

theorem mem_of_mem_appendTo (h : stamp ∈ (appendTo slices batch r s).chains r') :
    stamp ∈ s.chains r' ∨
      ∃ commit ∈ batch, commit.stamp = stamp ∧ r' ∈ slices.repositories commit.id ∧ r' = r := by
  unfold appendTo at h
  by_cases hr : r' = r
  · subst hr
    dsimp only at h
    rw [update_self] at h
    rcases mem_of_mem_appendItems h with hold | ⟨commit, hcommit, heq⟩
    · exact .inl hold
    · obtain ⟨hbatch, hslice⟩ := mem_items.mp hcommit
      exact .inr ⟨commit, hbatch, heq, hslice, rfl⟩
  · dsimp only at h
    rw [update_of_ne hr] at h
    exact .inl h

theorem Beside.appendTo (h : Beside slices highWater s) (htracked : Tracked s)
    (hnext : Next slices highWater s cursor batch) (r : Repository) :
    Beside slices highWater (appendTo slices batch r s) := by
  have hsub : ∀ r', s.chains r' ⊆ (GitlleryBuilds.appendTo slices batch r s).chains r' :=
    subset_appendTo batch r
  refine { h with known := ?_, complete := ?_, chained := ?_, written := ?_, closed := ?_ }
  · intro r' stamp hstamp
    rcases mem_of_mem_appendTo hstamp with hold | ⟨commit, hcommit, heq, hslice, -⟩
    · exact h.known r' stamp hold
    · exact ⟨commit, (hnext.mem hcommit).1, heq, hslice⟩
  · exact fun target htarget hbehind hstate => hsub _ (h.complete target htarget hbehind hstate)
  · intro r' stamp hstamp hbehind
    rcases mem_of_mem_appendTo hstamp with hold | ⟨commit, hcommit, heq, -, -⟩
    · exact h.chained r' stamp hold hbehind
    · rw [← heq, (hnext.mem hcommit).2] at hbehind
      cases hbehind
  · exact fun w claim hclaim hbehind => hsub _ (h.written w claim hclaim hbehind)
  · intro r' stamp hstamp hcovered commit hcommit hle hslice
    rcases mem_of_mem_appendTo hstamp with hold | ⟨item, hitem, rfl, -, rfl⟩
    · exact hsub _ (h.closed r' stamp hold hcovered commit hcommit hle hslice)
    · rcases hnext.before htracked hitem hcommit hle with hdone | hbatch
      · exact hsub _ (hnext.written commit hdone r' hslice)
      · change commit.stamp ∈ update s.chains r' _ r'
        rw [update_self]
        exact mem_appendItems h htracked hnext (mem_items.mpr ⟨hbatch, hslice⟩)

/-- A repository of which the build knows nothing is not touched. -/
theorem Exact.appendTo (hnext : Next slices highWater s cursor batch)
    (hnone : share slices highWater s.commits r' = []) (h : Exact slices highWater s r') :
    Exact slices highWater (appendTo slices batch r s) r' := by
  have hsame : (GitlleryBuilds.appendTo slices batch r s).chains r' = s.chains r' := by
    unfold GitlleryBuilds.appendTo
    by_cases hr : r' = r
    · subst hr
      dsimp only
      have hitems : items slices batch r' = [] := by
        refine eq_nil_iff_forall_not_mem.mpr fun commit hcommit => ?_
        obtain ⟨hbatch, hslice⟩ := mem_items.mp hcommit
        have hmem : commit ∈ share slices highWater s.commits r' :=
          mem_items.mpr ⟨mem_marked.mpr (hnext.mem hbatch), hslice⟩
        rw [hnone] at hmem
        cases hmem
      rw [update_self, hitems]
      unfold appendItems
      split
      · rfl
      · exact append_nil _
    · exact update_of_ne hr ..
  unfold Exact at h ⊢
  rw [hsame]
  exact h

end Appending

end GitlleryBuilds
