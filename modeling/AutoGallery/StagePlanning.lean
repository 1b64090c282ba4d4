import AutoGallery.DownloadStage

/-!
# The plan of a promotion

What the completed files of a stage are, and what the loop of `_prepare_promotion_batch` has
collected at its end: an entry or a conflict for every path, each as the path by itself has
it (`Collected`).
-/

namespace DownloadStage

open PyText Stoppable List

/-! ### Dicts -/

section Dicts

variable {α : Type} {d : Dict α} {path : Path}

theorem mem_sortedKeys : path ∈ sortedKeys d ↔ ∃ a, d.lookup path = some a := by
  rw [sortedKeys, mem_insertionSort, ← AList.mem_keys, ← AList.lookup_isSome,
    Option.isSome_iff_exists]

theorem sortedKeys_nodup : (sortedKeys d).Nodup :=
  (perm_insertionSort _ _).nodup_iff.mpr d.keys_nodup

end Dicts

/-! ### The completed files -/

section Completed

variable {Digest : Type}

variable {label : Text} {relative : Path} {node : Node}

theorem validateRegularFile_ok {identity : Nat}
    (h : (validateRegularFile label relative node : Except (StageError Digest) Nat) =
      .ok identity) : node = .file identity := by
  cases node with
  | file n =>
    cases h
    rfl
  | symlink => cases h
  | other => cases h

theorem validateRegularFile_error {e : StageError Digest}
    (h : (validateRegularFile label relative node : Except (StageError Digest) Nat) = .error e) :
    (∀ identity, node ≠ .file identity) ∧ e = .notRegular label relative := by
  cases node with
  | file n => cases h
  | symlink | other =>
    cases h
    exact ⟨fun _ => nofun, rfl⟩

/-- Every staged file that is not a partial download is a regular one. -/
def AllRegular (staged : Dict Node) : Prop :=
  ∀ path node, staged.lookup path = some node → isIncomplete path = false →
    ∃ identity, node = .file identity

/-- The names of a list of files, if all of them are regular. -/
theorem mapM_validate (files : List (Sigma fun _ : Path => Node)) :
    ((∀ file ∈ files, ∃ identity, file.2 = .file identity) ∧
      files.mapM (fun file =>
        (validateRegularFile "staged".toList file.1 file.2 : Except (StageError Digest) Nat).map
          fun _ => file.1) = .ok (files.map Sigma.fst)) ∨
    ((¬∀ file ∈ files, ∃ identity, file.2 = .file identity) ∧
      ∃ name, files.mapM (fun file =>
        (validateRegularFile "staged".toList file.1 file.2 : Except (StageError Digest) Nat).map
          fun _ => file.1) = .error (.notRegular "staged".toList name)) := by
  induction files with
  | nil => exact .inl ⟨forall_mem_nil _, rfl⟩
  | cons file rest ih =>
    rw [mapM_cons]
    obtain ⟨path, node⟩ := file
    cases node with
    | file identity =>
      rcases ih with ⟨hall, hok⟩ | ⟨hnot, name, herror⟩
      · refine .inl ⟨forall_mem_cons.mpr ⟨⟨identity, rfl⟩, hall⟩, ?_⟩
        rw [hok]
        rfl
      · refine .inr ⟨fun h => hnot (forall_mem_cons.mp h).2, name, ?_⟩
        rw [herror]
        rfl
    | symlink | other =>
      refine .inr ⟨fun h => ?_, path, rfl⟩
      obtain ⟨_, hfile⟩ := (forall_mem_cons.mp h).1
      cases hfile

/-- The completed files of a stage, if all of them are regular. -/
theorem completedStagedFiles_cases (staged : Dict Node) :
    (AllRegular staged ∧ ∃ completed,
      (completedStagedFiles staged : Except (StageError Digest) _) = .ok completed ∧
        ∀ path, path ∈ completed ↔
          isIncomplete path = false ∧ ∃ identity, staged.lookup path = some (.file identity)) ∨
    (¬AllRegular staged ∧ ∃ name, (completedStagedFiles staged : Except (StageError Digest) _) =
      .error (.notRegular "staged".toList name)) := by
  have hmem : ∀ file : Sigma fun _ : Path => Node,
      file ∈ staged.entries.filter (fun file => !isIncomplete file.1) ↔
        staged.lookup file.1 = some file.2 ∧ isIncomplete file.1 = false := by
    intro file
    rw [mem_filter, ← AList.mem_lookup_iff, Option.mem_def, Bool.not_eq_true']
  have hall : (∀ file ∈ staged.entries.filter fun file => !isIncomplete file.1,
      ∃ identity, file.2 = .file identity) ↔ AllRegular staged := by
    constructor
    · intro h path node hlookup hcomplete
      exact h ⟨path, node⟩ ((hmem _).mpr ⟨hlookup, hcomplete⟩)
    · intro h file hfile
      obtain ⟨hlookup, hcomplete⟩ := (hmem file).mp hfile
      exact h file.1 file.2 hlookup hcomplete
  rcases @mapM_validate Digest (staged.entries.filter fun file => !isIncomplete file.1)
    with ⟨hregular, hok⟩ | ⟨hnot, name, herror⟩
  · refine .inl ⟨hall.mp hregular, _, hok, fun path => ?_⟩
    rw [mem_map]
    constructor
    · rintro ⟨file, hfile, rfl⟩
      obtain ⟨hlookup, hcomplete⟩ := (hmem file).mp hfile
      obtain ⟨identity, hidentity⟩ := hregular file hfile
      exact ⟨hcomplete, identity, hidentity ▸ hlookup⟩
    · rintro ⟨hcomplete, identity, hlookup⟩
      exact ⟨⟨path, .file identity⟩, (hmem _).mpr ⟨hlookup, hcomplete⟩, rfl⟩
  · exact .inr ⟨fun h => hnot (hall.mpr h), name, herror⟩

theorem plannedWith_lookup {staged : Dict Node} {completed : List Path} {planned : Dict Nat}
    {path : Path} :
    (plannedWith staged completed planned).lookup path =
      match staged.lookup path with
      | some (.file identity) => if path ∈ completed then some identity else planned.lookup path
      | _ => planned.lookup path := by
  induction completed generalizing planned with
  | nil =>
    change planned.lookup path = _
    split <;> simp
  | cons first rest ih =>
    change (plannedWith staged rest (match staged.lookup first with
      | some (.file identity) => planned.insert first identity
      | _ => planned)).lookup path = _
    rw [ih]
    by_cases hfirst : path = first
    · subst hfirst
      cases hnode : staged.lookup path with
      | none => rfl
      | some node =>
        cases node with
        | file identity => simp [AList.lookup_insert]
        | symlink => rfl
        | other => rfl
    · have hsame : (match staged.lookup first with
          | some (.file identity) => planned.insert first identity
          | _ => planned).lookup path = planned.lookup path := by
        split
        · exact AList.lookup_insert_ne hfirst
        · rfl
      rw [hsame]
      simp only [mem_cons, hfirst, false_or]

end Completed

/-! ### The plan of a batch -/

section Plans

variable {Digest : Type} {plan : Path → Plan Digest} {relatives : List Path}
  {planning result : Planning Digest}

variable {relative : Path}

theorem Planning.add_ok (h : planning.add relative (plan relative) = .ok result) :
    (∃ entry update, plan relative = .entry entry update ∧
      result.entries = planning.entries.insert relative entry ∧
      result.conflictDetails = planning.conflictDetails ∧
      result.metadataUpdates = match update with
        | none => planning.metadataUpdates
        | some update => planning.metadataUpdates.insert relative update) ∨
    (∃ detail, plan relative = .conflict detail ∧ result.entries = planning.entries ∧
      result.conflictDetails = planning.conflictDetails ++ [detail] ∧
      result.metadataUpdates = planning.metadataUpdates) := by
  cases hplan : plan relative with
  | entry entry update =>
    rw [hplan] at h
    cases h
    exact .inl ⟨entry, update, rfl, rfl, rfl, rfl⟩
  | conflict detail =>
    rw [hplan] at h
    cases h
    exact .inr ⟨detail, rfl, rfl, rfl, rfl⟩
  | error e =>
    rw [hplan] at h
    cases h

variable (plan relatives planning result) in
/-- What the loop has collected at its end. -/
structure Collected : Prop where
  entry : ∀ relative ∈ relatives, ∀ entry update, plan relative = .entry entry update →
    result.entries.lookup relative = some entry
  conflict : ∀ relative ∈ relatives, ∀ detail, plan relative = .conflict detail →
    result.entries.lookup relative = planning.entries.lookup relative
  others : ∀ relative, relative ∉ relatives →
    result.entries.lookup relative = planning.entries.lookup relative ∧
      result.metadataUpdates.lookup relative = planning.metadataUpdates.lookup relative
  updates : ∀ relative ∈ relatives, ∀ entry update, plan relative = .entry entry (some update) →
    result.metadataUpdates.lookup relative = some update
  details : ∀ detail, detail ∈ result.conflictDetails ↔
    detail ∈ planning.conflictDetails ∨ ∃ relative ∈ relatives, plan relative = .conflict detail
  errors : ∀ relative ∈ relatives, ∀ e, plan relative ≠ .error e

theorem Collected.nil : Collected plan [] planning planning where
  entry _ h := by cases h
  conflict _ h := by cases h
  others _ _ := ⟨rfl, rfl⟩
  updates _ h := by cases h
  details _ := by simp
  errors _ h := by cases h

theorem Collected.cons {middle : Planning Digest} (hnodup : relative ∉ relatives)
    (hadd : planning.add relative (plan relative) = .ok middle)
    (h : Collected plan relatives middle result) :
    Collected plan (relative :: relatives) planning result := by
  obtain ⟨hentries, hupdates⟩ := h.others relative hnodup
  rcases Planning.add_ok hadd with ⟨entry, update, hplan, hmid, hmiddetails, hmidupdates⟩ |
    ⟨detail, hplan, hmid, hmiddetails, hmidupdates⟩
  · refine ⟨fun r hr e u hp => ?_, fun r hr c hp => ?_, fun r hr => ?_, fun r hr e u hp => ?_,
      fun c => ?_, fun r hr e hp => ?_⟩
    · rcases mem_cons.mp hr with rfl | hlater
      · cases hplan.symm.trans hp
        rw [hentries, hmid, AList.lookup_insert]
      · exact h.entry r hlater e u hp
    · rcases mem_cons.mp hr with rfl | hlater
      · cases hplan.symm.trans hp
      · have hne : r ≠ relative := fun heq => hnodup (heq ▸ hlater)
        rw [h.conflict r hlater c hp, hmid, AList.lookup_insert_ne hne]
    · obtain ⟨hne, hlater⟩ := not_or.mp (fun hor => hr (mem_cons.mpr hor))
      obtain ⟨he, hu⟩ := h.others r hlater
      refine ⟨by rw [he, hmid, AList.lookup_insert_ne hne], ?_⟩
      rw [hu, hmidupdates]
      cases update with
      | none => rfl
      | some u => exact AList.lookup_insert_ne hne
    · rcases mem_cons.mp hr with rfl | hlater
      · cases hplan.symm.trans hp
        rw [hupdates, hmidupdates]
        exact AList.lookup_insert _
      · exact h.updates r hlater e u hp
    · rw [h.details c, hmiddetails]
      refine or_congr_right ⟨fun ⟨r, hr, hp⟩ => ⟨r, mem_cons_of_mem _ hr, hp⟩, ?_⟩
      rintro ⟨r, hr, hp⟩
      rcases mem_cons.mp hr with rfl | hlater
      · cases hplan.symm.trans hp
      · exact ⟨r, hlater, hp⟩
    · rcases mem_cons.mp hr with rfl | hlater
      · cases hplan.symm.trans hp
      · exact h.errors r hlater e hp
  · refine ⟨fun r hr e u hp => ?_, fun r hr c hp => ?_, fun r hr => ?_, fun r hr e u hp => ?_,
      fun c => ?_, fun r hr e hp => ?_⟩
    · rcases mem_cons.mp hr with rfl | hlater
      · cases hplan.symm.trans hp
      · exact h.entry r hlater e u hp
    · rcases mem_cons.mp hr with rfl | hlater
      · rw [hentries, hmid]
      · rw [h.conflict r hlater c hp, hmid]
    · obtain ⟨-, hlater⟩ := not_or.mp (fun hor => hr (mem_cons.mpr hor))
      obtain ⟨he, hu⟩ := h.others r hlater
      exact ⟨by rw [he, hmid], by rw [hu, hmidupdates]⟩
    · rcases mem_cons.mp hr with rfl | hlater
      · cases hplan.symm.trans hp
      · exact h.updates r hlater e u hp
    · rw [h.details c, hmiddetails, mem_append, mem_singleton, or_assoc]
      refine or_congr_right ⟨?_, ?_⟩
      · rintro (rfl | ⟨r, hr, hp⟩)
        · exact ⟨relative, mem_cons_self, hplan⟩
        · exact ⟨r, mem_cons_of_mem _ hr, hp⟩
      · rintro ⟨r, hr, hp⟩
        rcases mem_cons.mp hr with rfl | hlater
        · cases hplan.symm.trans hp
          exact .inl rfl
        · exact .inr ⟨r, hlater, hp⟩
    · rcases mem_cons.mp hr with rfl | hlater
      · cases hplan.symm.trans hp
      · exact h.errors r hlater e hp

theorem collected_of_fold (hnodup : relatives.Nodup)
    (h : relatives.foldlM (fun planning relative => planning.add relative (plan relative))
      planning = .ok result) : Collected plan relatives planning result := by
  induction relatives generalizing planning with
  | nil =>
    cases h
    exact .nil
  | cons relative rest ih =>
    rw [foldlM_cons] at h
    obtain ⟨hnot, hrest⟩ := nodup_cons.mp hnodup
    obtain ⟨middle, hadd, h⟩ := bind_ok h
    exact .cons hnot hadd (ih hrest h)

/-- The loop only ends early at a path that it can do nothing with. -/
theorem error_of_fold {e : StageError Digest}
    (h : relatives.foldlM (fun planning relative => planning.add relative (plan relative))
      planning = .error e) : ∃ relative ∈ relatives, plan relative = .error e := by
  induction relatives generalizing planning with
  | nil => cases h
  | cons relative rest ih =>
    rw [foldlM_cons] at h
    cases hplan : plan relative with
    | error e' =>
      rw [hplan] at h
      cases h
      exact ⟨relative, mem_cons_self, hplan⟩
    | entry _ _ | conflict _ =>
      rw [hplan] at h
      obtain ⟨r, hr, hp⟩ := ih h
      exact ⟨r, mem_cons_of_mem _ hr, hp⟩

end Plans

end DownloadStage
