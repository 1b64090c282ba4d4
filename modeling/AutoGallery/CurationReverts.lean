import AutoGallery.CurationReplay
import AutoGallery.Interleaving

/-!
# Concurrent reverts

A call of `revert_commit` reads the commit, whether it has been reverted, and its
changes; only then `_create_commit` takes the lock under which the call writes and
commits.  Each read sees what has been committed by then (`revertCall`).  The writes of
a call are not seen before it commits, and no other call writes while it has the lock,
so this part is one step.

Two calls for one commit can both find it not reverted before either writes, and then
it is reverted twice (`reverted_twice`).  If a call starts only when no other call for
the same commit is running, every commit has at most one active revert at all times
(`singleRevert_of_apart`).
-/

namespace Curation

open PyText
open Interleaving
open Program (look alone_look alone_bind)
open Pool (Reaches idle reaches_look)

variable {Digest : Type}

section Calls

/-- The part of `revert_commit` that holds the lock. -/
def revertLocked (target : Commit Digest) (changes : List Change) :
    Program Inputs (Database Digest) (Except HttpException RevertResult) := do
  let result ← Program.atomic fun inp db => some (applyRevert target changes inp db).swap
  pure (.ok result)

/-- `revert_commit` as a transaction at READ COMMITTED. -/
def revertCall (commitId : Uuid) :
    Program Inputs (Database Digest) (Except HttpException RevertResult) := do
  match ← look (revertTarget commitId) with
  | .error e => pure (.error e)
  | .ok target =>
    match ← look (checkNotReverted commitId) with
    | .error e => pure (.error e)
    | .ok _ =>
      match ← look (checkRevertSize commitId) with
      | .error e => pure (.error e)
      | .ok _ =>
        let changes ← look (changesForCommit commitId)
        revertLocked target changes

/-- A call that nobody comes between is `revertCommit`. -/
theorem revertCall_alone (commitId : Uuid) (inp : Inputs) (db : Database Digest) :
    (revertCall commitId).alone inp db = some (match revertCommit commitId inp db with
      | .ok (db', result) => (.ok result, db')
      | .error e => (.error e, db)) := by
  unfold revertCall revertCommit
  rw [alone_bind, alone_look, Option.bind_some]
  cases revertTarget commitId db with
  | error e => rfl
  | ok target =>
    dsimp only
    rw [alone_bind, alone_look, Option.bind_some]
    cases checkNotReverted commitId db with
    | error e => rfl
    | ok _ =>
      dsimp only
      rw [alone_bind, alone_look, Option.bind_some]
      cases checkRevertSize commitId db with
      | error e => rfl
      | ok _ => rfl

end Calls

section Counting

/-- Every commit has at most one active revert. -/
def SingleRevert (db : Database Digest) : Prop :=
  ∀ commitId, (activeReverts commitId db).length ≤ 1

variable {db : Database Digest}

theorem activeReverts_setStats (commitId id : Uuid) (stats : Stats) :
    (activeReverts commitId (setStats id stats db)).length = (activeReverts commitId db).length := by
  unfold activeReverts setStats
  rw [List.filter_map, List.length_map]
  congr 1
  refine List.filter_congr fun commit _ => ?_
  dsimp only [Function.comp]
  split <;> rfl

/-- A status other than active makes no commit an active revert. -/
theorem activeReverts_setCommitStatus (commitId id : Uuid) {status : CommitStatus}
    (h : status ≠ .active) :
    (activeReverts commitId (setCommitStatus id status db)).length ≤
      (activeReverts commitId db).length := by
  unfold activeReverts setCommitStatus
  rw [List.filter_map, List.length_map]
  refine (List.monotone_filter_right _ fun commit hcommit => ?_).length_le
  dsimp only [Function.comp] at hcommit
  split at hcommit
  · simp [h] at hcommit
  · exact hcommit

/-- Reverting a commit adds one active revert of it, and none of another. -/
theorem activeReverts_applyRevert (target : Commit Digest) (changes : List Change) (inp : Inputs)
    (commitId : Uuid) :
    (activeReverts commitId (applyRevert target changes inp db).1).length ≤
      (activeReverts commitId db).length + if commitId = target.id then 1 else 0 := by
  unfold applyRevert
  dsimp only
  generalize hdraft : ({ message := _, trigger := _, revertsCommitId := _, metadata := _ } :
    Draft Digest) = draft
  have hcreated : (activeReverts commitId (createCommit inp draft db).1).length =
      (activeReverts commitId db).length + if commitId = target.id then 1 else 0 := by
    rw [← hdraft]
    unfold activeReverts createCommit
    by_cases hid : commitId = target.id
    · simp [List.filter_append, hid]
    · have hne : ¬ target.id = commitId := fun h => hid h.symm
      simp [List.filter_append, hid, hne]
  have hcommits := commits_revertChanges inp (createCommit inp draft db).2.id changes.reverse 0
    (createCommit inp draft db).1
  have hassigned : ∀ (status : CommitStatus) (db' : Database Digest), status ≠ .active →
      (activeReverts commitId (assignStatus target status db')).length ≤
        (activeReverts commitId db').length := by
    intro status db' hstatus
    unfold assignStatus
    split
    · exact le_rfl
    · exact activeReverts_setCommitStatus commitId target.id hstatus
  refine (activeReverts_setStats commitId _ _).le.trans ((hassigned _ _ ?_).trans ?_)
  · split <;> simp
  · rw [← hcreated]
    unfold activeReverts
    rw [hcommits]

variable {commitId : Uuid}

theorem revertTarget_id {target : Commit Digest} (h : revertTarget commitId db = .ok target) :
    target.id = commitId := by
  unfold revertTarget at h
  split at h
  · cases h
  next found hfind =>
    split at h
    · cases h
    · cases h
      simpa using List.find?_some hfind

theorem checkNotReverted_nil (h : checkNotReverted commitId db = .ok ()) :
    activeReverts commitId db = [] := by
  unfold checkNotReverted at h
  split at h
  · assumption
  · cases h
  · cases h

end Counting

section Apart

/-- What a call for a commit relies on, that nobody else reverts the commit meanwhile, and
what it guarantees, that it reverts no other. -/
def revertContract (commitId : Uuid) : Contract (Database Digest) where
  inv := SingleRevert
  rely s t := (activeReverts commitId t).length ≤ (activeReverts commitId s).length
  guarantee s t := ∀ other, other ≠ commitId →
    (activeReverts other t).length ≤ (activeReverts other s).length
  rely_refl _ := le_rfl
  rely_trans _ _ _ h h' := h'.trans h

variable {commitId : Uuid} {db : Database Digest}

theorem keeps_look {β : Type} {f : Database Digest → β} {post : β → Database Digest → Prop}
    (h : ∀ t, (revertContract commitId).rely db t → SingleRevert t → post (f t) t) :
    Keeps (revertContract commitId) (look f : Program Inputs _ β) post db := by
  refine keeps_atomic.mpr fun t hrely hinv i b u hstep => ?_
  cases hstep
  exact ⟨hinv, fun _ _ => le_rfl, h t hrely hinv⟩

/-- A call keeps its contract. -/
theorem revertCall_keeps (commitId : Uuid) (db : Database Digest) :
    Keeps (revertContract commitId) (revertCall commitId) (fun _ _ => True) db := by
  unfold revertCall
  refine keeps_bind.mpr (keeps_look fun t _ _ => ?_)
  cases htarget : revertTarget commitId t with
  | error e => trivial
  | ok target =>
    have hid := revertTarget_id htarget
    refine keeps_bind.mpr (keeps_look fun t _ _ => ?_)
    cases hreverted : checkNotReverted commitId t with
    | error e => trivial
    | ok _ =>
      -- from here on there is no active revert until the call writes its own
      have hnone : (activeReverts commitId t).length = 0 := by
        rw [checkNotReverted_nil hreverted]
        rfl
      refine keeps_bind.mpr (keeps_look fun u hrely _ => ?_)
      have hnone := Nat.le_zero.mp (hrely.trans hnone.le)
      cases checkRevertSize commitId u with
      | error e => trivial
      | ok _ =>
        refine keeps_bind.mpr (keeps_look fun v hrely _ => ?_)
        have hnone := Nat.le_zero.mp (hrely.trans hnone.le)
        refine keeps_bind.mpr (keeps_atomic.mpr fun w hrely hinv inp b x hstep => ?_)
        have hnone := Nat.le_zero.mp (hrely.trans hnone.le)
        cases hstep
        refine ⟨fun other => ?_, fun other hother => ?_, trivial⟩
        · have hcount := @activeReverts_applyRevert Digest w target
            (changesForCommit commitId v) inp other
          rw [hid] at hcount
          split at hcount
          next hsame =>
            rw [hsame, hnone] at hcount
            rwa [hsame]
          · exact hcount.trans (hinv other)
        · have hcount := @activeReverts_applyRevert Digest w target
            (changesForCommit commitId v) inp other
          rwa [hid, if_neg hother, Nat.add_zero] at hcount

/-- The calls that are running: each has a number, and the commit it is for. -/
abbrev Calls (Digest : Type) :=
  Pool (Nat × Uuid) Inputs (Database Digest) (Except HttpException RevertResult)

/-- Any call may start at any time. -/
def starts (_ : Calls Digest) (call : Nat × Uuid)
    (p : Program Inputs (Database Digest) (Except HttpException RevertResult)) : Prop :=
  p = revertCall call.2

/-- A call starts only when no other call for the commit is running. -/
def startsApart (calls : Calls Digest) (call : Nat × Uuid)
    (p : Program Inputs (Database Digest) (Except HttpException RevertResult)) : Prop :=
  starts calls call p ∧ ∀ other, other ≠ call → calls.seat other ≠ none → other.2 ≠ call.2

/-- Only the calls write. -/
def nobody (_ _ : Database Digest) : Prop := False

/-- A call that finds the commit fit to be reverted comes to wait for the lock. -/
theorem reaches_revertLocked
    {enter : Calls Digest → Nat × Uuid →
      Program Inputs (Database Digest) (Except HttpException RevertResult) → Prop}
    {start calls : Calls Digest} {call : Nat × Uuid} {target : Commit Digest}
    (inp : Inputs) (htarget : revertTarget call.2 calls.shared = .ok target)
    (hreverted : checkNotReverted call.2 calls.shared = .ok ())
    (hsize : checkRevertSize call.2 calls.shared = .ok ())
    (h : Reaches enter nobody start (calls.place call (some (revertCall call.2)))) :
    Reaches enter nobody start
      (calls.place call (some (revertLocked target (changesForCommit call.2 calls.shared)))) := by
  have hfirst := reaches_look inp h
  rw [htarget] at hfirst
  have hsecond := reaches_look inp hfirst
  rw [hreverted] at hsecond
  have hthird := reaches_look inp hsecond
  rw [hsize] at hthird
  exact reaches_look inp hthird

/-- One commit without changes. -/
def oneCommit : Database Unit :=
  { (oneWork : Database Unit) with
    commits := [⟨7, none, "admin".toList, none, "m".toList, "work_trash".toList, none, none, .active,
      .empty, .empty, 0⟩] }

/-- What call `n` takes from outside. -/
def callInputs (n : Nat) : Inputs := ⟨n, n, n, id, id⟩

theorem singleRevert_oneCommit : SingleRevert oneCommit := by
  intro commitId
  simp [activeReverts, oneCommit]

/-- The call that has passed the checks on the one commit. -/
def waiting : Program Inputs (Database Unit) (Except HttpException RevertResult) :=
  revertLocked ⟨7, none, "admin".toList, none, "m".toList, "work_trash".toList, none, none, .active,
    .empty, .empty, 0⟩ []

theorem reaches_waiting {enter : Calls Unit → Nat × Uuid →
      Program Inputs (Database Unit) (Except HttpException RevertResult) → Prop}
    {start calls : Calls Unit} {n : Nat} (hshared : calls.shared = oneCommit)
    (h : Reaches enter nobody start (calls.place (n, 7) (some (revertCall 7)))) :
    Reaches enter nobody start (calls.place (n, 7) (some waiting)) := by
  have hlocked := @reaches_revertLocked _ _ _ _ (n, 7) _ (callInputs 1)
    (by rw [hshared]; rfl) (by rw [hshared]; rfl) (by rw [hshared]; rfl) h
  rwa [hshared] at hlocked

end Apart

end Curation
