import AutoGallery.CurationReplay
import Mathlib.Logic.Relation

/-!
# Commands are executed once

A command leaves a commit with the key of the command, its digest, and what it has
changed and skipped.  No other operation takes that commit away or writes to it, but for
its status (`Extends`).  So the same command finds it, whatever has happened since, and
answers from it (`command_idempotent`).
-/

namespace Curation

open PyText List

variable {Digest : Type}

variable {key : Uuid} {inp : Inputs} {command : CommandRequest} {actorId : Option Text}
  {response : CommandResponse}

section Extending

/-- What is never written again once a commit is there. -/
def lasting (commit : Commit Digest) :
    Uuid × Option Uuid × Option Text × Stats × Metadata Digest :=
  (commit.id, commit.parentCommitId, commit.dedupeKey, commit.stats, commit.metadata)

/-- The commits are still there, with what lasts, and more may have come. -/
def Extends (db db' : Database Digest) : Prop :=
  ∃ f more, db'.commits = db.commits.map f ++ more ∧ ∀ c ∈ db.commits, lasting (f c) = lasting c

variable {db db' db'' : Database Digest}

theorem extends_of_commits_eq (h : db'.commits = db.commits) : Extends db db' :=
  ⟨id, [], by simp [h], fun _ _ => rfl⟩

theorem Extends.congr (h : Extends db db') (heq : db''.commits = db'.commits) :
    Extends db db'' := by
  obtain ⟨f, more, hcommits, hlasting⟩ := h
  exact ⟨f, more, heq.trans hcommits, hlasting⟩

theorem extends_createCommit (inp : Inputs) (draft : Draft Digest) (db : Database Digest) :
    Extends db (createCommit inp draft db).1 := by
  unfold createCommit
  split
  · exact extends_of_commits_eq rfl
  · exact ⟨id, _, by rw [map_id], fun _ _ => rfl⟩

theorem Extends.trans (h : Extends db db') (h' : Extends db' db'') : Extends db db'' := by
  obtain ⟨f, more, hcommits, hlasting⟩ := h
  obtain ⟨g, more', hcommits', hlasting'⟩ := h'
  refine ⟨g ∘ f, more.map g ++ more', ?_, fun c hc => ?_⟩
  · rw [hcommits', hcommits, map_append, map_map, append_assoc]
  · refine (hlasting' (f c) ?_).trans (hlasting c hc)
    rw [hcommits]
    exact mem_append_left _ (mem_map_of_mem hc)

/-- A loop over the commits that leaves alone what lasts of the old ones. -/
theorem Extends.map (h : Extends db db') (g : Commit Digest → Commit Digest)
    (hg : ∀ c ∈ db.commits, ∀ c', lasting c' = lasting c → lasting (g c') = lasting c')
    (heq : db''.commits = db'.commits.map g) : Extends db db'' := by
  obtain ⟨f, more, hcommits, hlasting⟩ := h
  refine ⟨g ∘ f, more.map g, ?_, fun c hc => ?_⟩
  · rw [heq, hcommits, map_append, map_map]
  · exact (hg c hc (f c) (hlasting c hc)).trans (hlasting c hc)

/-- The statistics of a new commit. -/
theorem Extends.setStats (h : Extends db db') {id : Uuid} (hfresh : id ∉ (stamps db).map Prod.fst)
    (stats : Stats) : Extends db (Curation.setStats id stats db') := by
  refine h.map _ (fun c hc c' hlasting => ?_) rfl
  have hid : c'.id = c.id := congrArg Prod.fst hlasting
  have hne : ¬ c'.id = id := by
    rw [hid]
    intro heq
    refine hfresh ?_
    rw [← heq]
    exact mem_map.mpr ⟨_, mem_map_of_mem hc, rfl⟩
  rw [if_neg hne]

theorem Extends.assignStatus (h : Extends db db') (target : Commit Digest) (status : CommitStatus) :
    Extends db (Curation.assignStatus target status db') := by
  unfold Curation.assignStatus
  split
  · exact h
  · refine h.map _ (fun c hc c' _ => ?_) rfl
    split <;> rfl

/-- The commit of a command. -/
def commandCommit (idempotencyKey : Uuid) (db : Database Digest) : Option (Commit Digest) :=
  db.commits.find? (·.dedupeKey = some (cliKey idempotencyKey))

theorem find?_map_of_lasting {commits : List (Commit Digest)} {f : Commit Digest → Commit Digest}
    (h : ∀ c ∈ commits, lasting (f c) = lasting c) (key : Option Text) :
    (commits.map f).find? (·.dedupeKey = key) = (commits.find? (·.dedupeKey = key)).map f := by
  induction commits with
  | nil => rfl
  | cons first rest ih =>
    have hkey : (f first).dedupeKey = first.dedupeKey :=
      congrArg (·.2.2.1) (h first mem_cons_self)
    rw [map_cons, find?_cons, find?_cons, hkey, ih fun c hc => h c (mem_cons_of_mem _ hc)]
    split <;> rfl

/-- The commit of a command is still found, with what lasts. -/
theorem Extends.commandCommit (h : Extends db db') {commit : Commit Digest}
    (hfound : Curation.commandCommit key db = some commit) :
    ∃ commit', Curation.commandCommit key db' = some commit' ∧ lasting commit' = lasting commit := by
  obtain ⟨f, more, hcommits, hlasting⟩ := h
  refine ⟨f commit, ?_, hlasting commit (mem_of_find?_eq_some hfound)⟩
  unfold Curation.commandCommit at hfound ⊢
  rw [hcommits, find?_append, find?_map_of_lasting hlasting, hfound]
  rfl

end Extending

section Operations

variable {db db' : Database Digest}

variable {id : Uuid}

section

variable (hfresh : inp.commitId ∉ (stamps db).map Prod.fst)
include hfresh

/-- An operation that creates a commit without a key, then writes no commits but for
statuses and its own statistics. -/
theorem moveWorks_extends {move : Move} {workIds : List Uuid} {reason message : Option Text}
    (hok : moveWorks move workIds reason message inp db = .ok (db', id)) : Extends db db' := by
  obtain ⟨draft, stats, -, rfl⟩ := moveWorks_ok hok
  exact ((extends_createCommit inp draft db).congr
    (commits_moveWorks_loop move reason inp inp.commitId _ _)).setStats hfresh stats

theorem toggleWorkFavorite_extends {workId : Uuid}
    (hok : toggleWorkFavorite workId inp db = .ok (db', id)) : Extends db db' := by
  unfold toggleWorkFavorite recordWorkFavorite at hok
  split at hok
  · cases hok
  dsimp only at hok
  generalize hensured : ensureWorkState _ _ = ensured at hok
  have hcommits : ensured.1.commits = db.commits := by
    rw [← hensured]
    exact commits_ensureWorkState _ _
  have hextends : ∀ draft, Extends db (createCommit inp draft ensured.1).1 := by
    intro draft
    have hmade := extends_createCommit inp draft ensured.1
    unfold Extends at hmade
    rwa [hcommits] at hmade
  cases hok
  exact ((hextends _).congr rfl).setStats hfresh _

theorem revertCommit_extends {commitId : Uuid} {result : RevertResult}
    (hok : revertCommit commitId inp db = .ok (db', result)) : Extends db db' := by
  obtain ⟨target, -, -, -, happly⟩ := revertCommit_ok hok
  obtain ⟨draft, stats, status, works, -, heq⟩ :=
    applyRevert_eq target (changesForCommit commitId db) inp db
  rw [happly] at heq
  cases heq
  exact (((extends_createCommit inp draft db).congr
    (commits_revertChanges inp inp.commitId _ 0 _)).assignStatus target status).setStats hfresh stats

end

variable [DecidableEq Digest] {casefold : Text → Text} {commandHash : CommandRequest → Digest}

omit [DecidableEq Digest] in
theorem commandCommit_setStats (key id : Uuid) (stats : Stats) :
    commandCommit key (setStats id stats db) =
      (commandCommit key db).map fun c => if c.id = id then { c with stats := stats } else c := by
  have hkey : (fun c : Commit Digest => decide (c.dedupeKey = some (cliKey key))) ∘
      (fun c => if c.id = id then { c with stats := stats } else c) =
        fun c => decide (c.dedupeKey = some (cliKey key)) := by
    funext c
    dsimp only [Function.comp]
    split <;> rfl
  unfold commandCommit setStats
  rw [find?_map, hkey]

/-- A command that is executed leaves a commit that tells the same as its response. -/
theorem executeGitlleryCommand_commit (hruns : Executed command db)
    (hok : executeGitlleryCommand casefold commandHash command actorId false inp db =
      .ok (db', response)) :
    (∃ commit, commandCommit command.idempotencyKey db' = some commit ∧
      commit.metadata.commandHash = some (commandHash command) ∧
      replayResponse commit = { response with projectedLagSeconds := none }) ∧
    (inp.commitId ∉ (stamps db).map Prod.fst → Extends db db' ∧
      ∀ c ∈ db'.commits, c ∉ db.commits → c.parentCommitId = latestCommitId db) := by
  obtain ⟨draft, hkey, hhash, heq⟩ := @executeGitlleryCommand_runs Digest casefold command _ commandHash
    db hruns actorId inp
  obtain ⟨hid, -, hcommits, hparent, hdedupe, hmetadata⟩ := @createCommit_new Digest db inp draft (by
    intro key hsome
    rw [hkey] at hsome
    cases hsome
    exact hruns.1)
  have hextends := extends_createCommit inp draft db
  rw [hok] at heq
  generalize createCommit inp draft db = created at hcommits hid hparent hdedupe hmetadata hextends heq
  obtain ⟨made, commit⟩ := created
  dsimp only at hcommits hid hparent hdedupe hmetadata hextends heq
  have happlied := (@applyPlans_frame Digest casefold inp commit.id db
    (planCommand casefold command db).plans 0 made).2.1
  cases heq
  constructor
  · have hfound : commandCommit command.idempotencyKey (applyPlans casefold inp commit.id db 0
        (planCommand casefold command db).plans made) = some commit := by
      unfold commandCommit
      rw [happlied, hcommits, find?_append, hruns.1]
      simp [hdedupe, hkey]
    refine ⟨_, (commandCommit_setStats _ _ _).trans (congrArg _ hfound), ?_, ?_⟩
    · dsimp only
      rw [if_pos rfl]
      dsimp only
      rw [hmetadata, hhash]
    · dsimp only
      rw [if_pos rfl]
      rfl
  · intro hfresh
    refine ⟨(hextends.congr happlied).setStats (hid ▸ hfresh) _, fun c hc hnew => ?_⟩
    obtain ⟨old, hold, rfl⟩ := mem_map.mp hc
    rw [happlied, hcommits, mem_append, mem_singleton] at hold
    rcases hold with hold | rfl
    · have hne : ¬ old.id = commit.id := by
        intro hsame
        refine hfresh ?_
        rw [← hid, ← hsame]
        exact mem_map.mpr ⟨_, mem_map_of_mem hold, rfl⟩
      rw [if_neg hne] at hnew
      exact absurd hold hnew
    · rw [if_pos rfl]
      exact hparent

/-- A command whose commit is there is answered from it, or refused. -/
theorem executeGitlleryCommand_again {commit : Commit Digest}
    (hfound : commandCommit command.idempotencyKey db = some commit) (actorId : Option Text)
    (dryRun : Bool) (inp : Inputs) :
    executeGitlleryCommand casefold commandHash command actorId dryRun inp db =
      if commit.metadata.commandHash ≠ some (commandHash command) then
        .error ⟨409, .idempotencyKeyReused⟩
      else .ok (db, replayResponse commit) := by
  unfold executeGitlleryCommand
  dsimp only
  rw [show db.commits.find? (·.dedupeKey = some (cliKey command.idempotencyKey)) = some commit from
    hfound]

theorem perform_extends {step : Step} (hfresh : step.inputs.commitId ∉ (stamps db).map Prod.fst) :
    Extends db (perform casefold commandHash db step) := by
  have hsettled : ∀ {α : Type} (outcome : Except HttpException (Database Digest × α)),
      (∀ db' result, outcome = .ok (db', result) → Extends db db') →
        Extends db (settled db outcome) := by
    intro α outcome houtcome
    cases hcase : outcome with
    | error e => exact extends_of_commits_eq rfl
    | ok result => exact houtcome result.1 result.2 hcase
  obtain ⟨operation, inp⟩ := step
  cases operation with
  | trash _ _ _ | restore _ _ _ => exact hsettled _ fun _ _ hok => moveWorks_extends hfresh hok
  | favorite workId => exact hsettled _ fun _ _ hok => toggleWorkFavorite_extends hfresh hok
  | revert commitId => exact hsettled _ fun _ _ hok => revertCommit_extends hfresh hok
  | command command actorId dryRun =>
    refine hsettled _ fun db' response hok => ?_
    by_cases hruns : Executed command db ∧ dryRun = false
    · obtain ⟨hruns, rfl⟩ := hruns
      exact ((executeGitlleryCommand_commit hruns hok).2 hfresh).1
    · rw [not_and_or, Bool.not_eq_false] at hruns
      exact extends_of_commits_eq (by rw [executeGitlleryCommand_rests hok hruns])

end Operations

section Idempotence

variable [DecidableEq Digest] (casefold : Text → Text) (commandHash : CommandRequest → Digest)

/-- An operation that is not modelled: imports, purges, decisions on duplicates.  These
have keys of their own kind, and leave the commits of commands alone. -/
def Bystander (db db' : Database Digest) : Prop :=
  ∀ key, db'.commits.filter (·.dedupeKey = some (cliKey key)) =
    db.commits.filter (·.dedupeKey = some (cliKey key))

/-- Another operation, whose commit has a new identity. -/
def Meanwhile (db db' : Database Digest) : Prop :=
  (∃ step : Step, step.inputs.commitId ∉ (stamps db).map Prod.fst ∧
    db' = perform casefold commandHash db step) ∨ Bystander db db'

variable {casefold commandHash} {db db' : Database Digest}

variable {commit : Commit Digest}

/-- The commit of a command outlasts every other operation. -/
theorem commandCommit_meanwhile (hfound : commandCommit key db = some commit)
    (h : Relation.ReflTransGen (Meanwhile casefold commandHash) db db') :
    ∃ commit', commandCommit key db' = some commit' ∧ lasting commit' = lasting commit := by
  induction h with
  | refl => exact ⟨commit, hfound, rfl⟩
  | tail _ hstep ih =>
    obtain ⟨between, hbetween, hlasting⟩ := ih
    rcases hstep with ⟨step, hfresh, rfl⟩ | hbystander
    · obtain ⟨last, hlast, hsame⟩ := (perform_extends hfresh).commandCommit hbetween
      exact ⟨last, hlast, hsame.trans hlasting⟩
    · refine ⟨between, ?_, hlasting⟩
      unfold commandCommit at hbetween ⊢
      rw [← head?_filter, hbystander key, head?_filter]
      exact hbetween

omit [DecidableEq Digest] in
theorem replayResponse_of_lasting {commit' : Commit Digest} (h : lasting commit' = lasting commit) :
    replayResponse commit' = replayResponse commit := by
  simp only [lasting, Prod.mk.injEq] at h
  unfold replayResponse
  rw [h.1, h.2.1, h.2.2.2.1]

/-- What a command that succeeds leaves, whether it was executed or answered. -/
theorem executeGitlleryCommand_ok
    (hok : executeGitlleryCommand casefold commandHash command actorId false inp db =
      .ok (db', response)) :
    ∃ commit, commandCommit command.idempotencyKey db' = some commit ∧
      commit.metadata.commandHash = some (commandHash command) ∧
      replayResponse commit = { response with projectedLagSeconds := none } := by
  rcases executeGitlleryCommand_cases hok with ⟨rfl, ⟨commit, hfound, hhash, rfl⟩ | hdry⟩ | ⟨hruns, -⟩
  · exact ⟨commit, hfound, hhash, rfl⟩
  · cases hdry
  · exact (executeGitlleryCommand_commit hruns hok).1

/-- **Commands are executed once.**  A command that has succeeded, executed again after any
other operations, changes nothing and gets the same answer; another command under the same
key is refused; and a command that names the commit it expects makes a commit only as a
child of it, when it is the latest. -/
theorem command_idempotent (hdigest : Function.Injective commandHash) {command : CommandRequest}
    {actorId : Option Text} {inp : Inputs} {after later : Database Digest} {first : CommandResponse}
    (hok : executeGitlleryCommand casefold commandHash command actorId false inp db =
      .ok (after, first))
    (hmeanwhile : Relation.ReflTransGen (Meanwhile casefold commandHash) after later) :
    (∀ actorId' inp', ∃ again,
      executeGitlleryCommand casefold commandHash command actorId' false inp' later =
          .ok (later, again) ∧
        again.commitId = first.commitId ∧ again.parentCommitId = first.parentCommitId ∧
        again.status = first.status ∧ again.changed = first.changed ∧
        again.skipped = first.skipped) ∧
    (∀ other actorId' dryRun inp', other.idempotencyKey = command.idempotencyKey →
      other ≠ command →
        executeGitlleryCommand casefold commandHash other actorId' dryRun inp' later =
          .error ⟨409, .idempotencyKeyReused⟩) ∧
    (inp.commitId ∉ (stamps db).map Prod.fst → ∀ expected,
      command.expectedParentCommitId = some expected →
        ∀ commit ∈ after.commits, commit ∉ db.commits →
          latestCommitId db = some expected ∧ commit.parentCommitId = some expected) := by
  obtain ⟨commit, hfound, hhash, hresponse⟩ := executeGitlleryCommand_ok hok
  obtain ⟨commit', hfound', hlasting⟩ := commandCommit_meanwhile hfound hmeanwhile
  have hhash' : commit'.metadata.commandHash = some (commandHash command) := by
    rw [← hhash]
    exact congrArg (·.2.2.2.2.commandHash) hlasting
  refine ⟨fun actorId' inp' => ?_, fun other actorId' dryRun inp' hkey hne => ?_, ?_⟩
  · refine ⟨replayResponse commit', ?_, ?_⟩
    · rw [executeGitlleryCommand_again hfound', if_neg (not_not.mpr hhash')]
    · rw [replayResponse_of_lasting hlasting, hresponse]
      exact ⟨rfl, rfl, rfl, rfl, rfl⟩
  · rw [← hkey] at hfound'
    rw [executeGitlleryCommand_again hfound', if_pos]
    rw [hhash']
    exact fun heq => hne (hdigest (Option.some.inj heq)).symm
  · intro hfresh expected hexpected made hmade hnew
    rcases executeGitlleryCommand_cases hok with ⟨rfl, -⟩ | ⟨hruns, -⟩
    · exact absurd hmade hnew
    have hparent := ((executeGitlleryCommand_commit hruns hok).2 hfresh).2 made hmade hnew
    have hlatest : latestCommitId db = some expected := by
      have hhead := hruns.2.1
      rw [hexpected, Option.filter_eq_none_iff] at hhead
      have hsame : some expected = latestCommitId db := by simpa using hhead expected rfl
      exact hsame.symm
    exact ⟨hlatest, hparent.trans hlatest⟩

/-- A command that trashes the one work. -/
def trashCommand : Step := firstStep (.command (commandOn [trashOne]) none false)

/-- The work restored. -/
def restoreStep : Step := ⟨.restore [1] none none, ⟨2, 2, 2, id, id⟩⟩

/-- The command, executed again after the work has been restored, does not trash it. -/
theorem command_idempotent_oneWork :
    let after := perform id id (oneWork : Database CommandRequest) trashCommand
    let later := perform id id after restoreStep
    (live 1 later).1 = .visible ∧ ∃ again,
      executeGitlleryCommand id id (commandOn [trashOne]) none false trashCommand.inputs later =
          .ok (later, again) ∧
        again.commitId = some 1 := by
  intro after later
  refine ⟨by decide, ?_⟩
  have hfirst : executeGitlleryCommand id id (commandOn [trashOne]) none false trashCommand.inputs
      oneWork = .ok (after, ⟨.committed, some 1, none, 1, 0, "pending".toList, some 0⟩) := by
    decide
  have hmeanwhile : Meanwhile id id after later := .inl ⟨restoreStep, by decide, rfl⟩
  obtain ⟨again, hagain, hid, -⟩ := (command_idempotent Function.injective_id hfirst
    (.single hmeanwhile)).1 none trashCommand.inputs
  exact ⟨again, hagain, hid⟩

end Idempotence

end Curation
