import AutoGallery.Curation

/-!
# The order of changes in a projection

`GitlleryService` reads the changes of one commit by their sequence numbers, and those of
many commits by time and identity.  The changes of a transaction have one time, so the two
orders agree just if the identities come in the order of the numbers
(`changeOrders_agree_iff`).
-/

namespace GitlleryService

open Curation Keyset

variable {Digest : Type}

section

variable (commitId : Uuid)

section

variable (db : Database Digest)

def ofCommit : List Change :=
  db.changes.filter (·.commitId = commitId)

/-- `_changes_for_commit`. -/
def changesForCommit : List Change :=
  arranged changePlace (ofCommit commitId db)

/-- The order of the query for many commits. -/
def bulkPlace (change : Change) : Time ×ₗ Uuid := toLex (change.createdAt, change.id)

/-- `_changes_for_commits(commit_ids).get(commit_id, [])`. -/
def changesForCommits (commitIds : List Uuid) (commitId : Uuid) (db : Database Digest) :
    List Change :=
  (arranged bulkPlace (db.changes.filter (·.commitId ∈ commitIds))).filter
    (·.commitId = commitId)

/-- What the projection of the changes leaves for an entity, if it has a change. -/
def finalState (entity : SubjectType × Uuid) (changes : List Change) : Option (Option Snapshot) :=
  changes.foldl (fun state change =>
    if (change.subjectType, change.subjectId) = entity then some change.afterState else state) none

/-- Both paths of the projection see the changes of the commit in one order. -/
def OrdersAgree : Prop :=
  ∀ commitIds, commitId ∈ commitIds →
    changesForCommits commitIds commitId db = changesForCommit commitId db ∧
      ∀ entity, finalState entity (changesForCommits commitIds commitId db) =
        finalState entity (changesForCommit commitId db)

/-- The changes of the commit are numbered, and written in one transaction. -/
structure Numbered : Prop where
  ids : (db.changes.map Change.id).Nodup
  number : ∀ a ∈ ofCommit commitId db, a.sequence.isSome
  numbers : ((ofCommit commitId db).map Change.sequence).Nodup
  time : ∀ a ∈ ofCommit commitId db, ∀ b ∈ ofCommit commitId db, a.createdAt = b.createdAt

/-- The identities come in the order of the numbers. -/
def InOrder : Prop :=
  ∀ a ∈ ofCommit commitId db, ∀ b ∈ ofCommit commitId db,
    a.sequence.getD 0 < b.sequence.getD 0 → a.id < b.id

end

end

variable {commitId : Uuid} {db : Database Digest} {a b : Change}

namespace Numbered

section

variable (h : Numbered commitId db)
include h

theorem changePlace_lt (ha : a ∈ ofCommit commitId db)
    (hb : b ∈ ofCommit commitId db) :
    changePlace a < changePlace b ↔ a.sequence.getD 0 < b.sequence.getD 0 := by
  by_cases heq : a.sequence = b.sequence
  · rw [List.inj_on_of_nodup_map h.numbers ha hb heq]
    simp
  · obtain ⟨m, hm⟩ := Option.isSome_iff_exists.mp (h.number a ha)
    obtain ⟨n, hn⟩ := Option.isSome_iff_exists.mp (h.number b hb)
    unfold changePlace
    rw [hm, hn, Prod.Lex.toLex_lt_toLex]
    have hne : m ≠ n := by rintro rfl; exact heq (hm.trans hn.symm)
    simp [hne]

theorem bulkPlace_lt (ha : a ∈ ofCommit commitId db)
    (hb : b ∈ ofCommit commitId db) : bulkPlace a < bulkPlace b ↔ a.id < b.id := by
  unfold bulkPlace
  rw [Prod.Lex.toLex_lt_toLex]
  simp [h.time a ha b hb]

/-- The query for many commits arranges the changes of each. -/
theorem changesForCommits_eq {commitIds : List Uuid}
    (hmem : commitId ∈ commitIds) :
    changesForCommits commitIds commitId db = arranged bulkPlace (ofCommit commitId db) := by
  have hplaces : (db.changes.map bulkPlace).Nodup :=
    List.Nodup.of_map (fun place => (ofLex place).2)
      (by simpa [Function.comp_def, bulkPlace] using h.ids)
  unfold changesForCommits ofCommit
  rw [← arranged_filter _ (hplaces.sublist (List.filter_sublist.map _)), List.filter_filter]
  congr 1
  refine List.filter_congr fun c _ => ?_
  by_cases hc : c.commitId = commitId <;> simp [hc, hmem]

/-- The two orders agree just if they agree on every two changes. -/
theorem inOrder_iff : InOrder commitId db ↔
    arranged bulkPlace (ofCommit commitId db) = changesForCommit commitId db := by
  have hmem : ∀ {c}, c ∈ changesForCommit commitId db ↔ c ∈ ofCommit commitId db :=
    (arranged_perm _ _).mem_iff
  have hids : ((ofCommit commitId db).map Change.id).Nodup :=
    h.ids.sublist (List.filter_sublist.map _)
  have hbulk := arranged_strict bulkPlace
    (.of_map (fun place => (ofLex place).2) (by rwa [List.map_map]))
  have hone := arranged_strict changePlace
    (.of_map (fun place => (ofLex (ofLex place).2).2) (by rwa [List.map_map]))
  constructor
  · intro horder
    refine eq_of_strict bulkPlace hbulk (hone.imp_of_mem fun ha hb hlt => ?_) fun c =>
      ((arranged_perm _ _).mem_iff).trans hmem.symm
    have ha := hmem.mp ha
    have hb := hmem.mp hb
    exact (h.bulkPlace_lt ha hb).mpr (horder _ ha _ hb ((h.changePlace_lt ha hb).mp hlt))
  · intro heq a ha b hb hlt
    rw [heq] at hbulk
    -- in one list both orders are strict, so of two changes the same one is first in both
    let Alike (a b : Change) : Prop :=
      (changePlace a < changePlace b → bulkPlace a < bulkPlace b) ∧
        (changePlace b < changePlace a → bulkPlace b < bulkPlace a)
    have : Std.Symm Alike := ⟨fun _ _ => And.symm⟩
    have halike : (changesForCommit commitId db).Pairwise Alike :=
      (hone.and hbulk).imp fun hab => ⟨fun _ => hab.2, fun hba => (hba.not_gt hab.1).elim⟩
    have hab := halike.forall_of_forall (fun _ _ => by simp [Alike]) (hmem.mpr ha) (hmem.mpr hb)
    exact (h.bulkPlace_lt ha hb).mp (hab.1 ((h.changePlace_lt ha hb).mpr hlt))

end

end Numbered

/-- For the changes of one transaction, numbered as they were applied, the two paths of the
projection agree just if the identities come in the order of the numbers. -/
theorem changeOrders_agree_iff (commitId : Uuid) (db : Database Digest)
    (h : Numbered commitId db) : OrdersAgree commitId db ↔ InOrder commitId db := by
  rw [h.inOrder_iff]
  constructor
  · intro hagree
    have hself := List.mem_singleton_self commitId
    exact (h.changesForCommits_eq hself).symm.trans (hagree [commitId] hself).1
  · intro heq commitIds hmem
    have hlists := (h.changesForCommits_eq hmem).trans heq
    exact ⟨hlists, fun entity => by rw [hlists]⟩

/-- The snapshot of work 1 in a command's change. -/
def snapshot (isFavorite : Bool) (visibility : WorkDatabase.Visibility) : Option Snapshot :=
  some (.work ⟨1, none, some isFavorite, some visibility, some none, some []⟩)

/-- After command 7, which marks work 1 and trashes it, by changes with these identities. -/
def markedAndTrashed (first second : Uuid) : Database Unit where
  works := []
  workStates := []
  creators := []
  creatorStates := []
  tags := []
  workTags := []
  commits := []
  changes :=
    [⟨first, 7, .work, 1, .workFavorited, some 0, snapshot false .visible,
        snapshot true .visible, 5⟩,
      ⟨second, 7, .work, 1, .workTrashed, some 1, snapshot false .visible,
        snapshot false .trashed, 5⟩]
  projectionIntents := []
  searchRequests := []

theorem changeOrders_agree_identities_in_order : OrdersAgree 7 (markedAndTrashed 1 2) :=
  (changeOrders_agree_iff 7 _ ⟨by decide, by decide, by decide, by decide⟩).mpr
    (by unfold InOrder; decide)

/-- With the identities the other way the paths leave the work in different states. -/
theorem bulk_order_ignores_sequence :
    Numbered 7 (markedAndTrashed 2 1) ∧
      finalState (.work, 1) (changesForCommit 7 (markedAndTrashed 2 1)) =
        some (snapshot false .trashed) ∧
      finalState (.work, 1) (changesForCommits [7] 7 (markedAndTrashed 2 1)) =
        some (snapshot true .visible) :=
  ⟨⟨by decide, by decide, by decide, by decide⟩, by decide, by decide⟩

end GitlleryService
