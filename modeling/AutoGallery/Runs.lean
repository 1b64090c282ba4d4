import Mathlib.Logic.Basic

/-!
# Runs of a machine

A machine goes from state to state by actions.  A property that an invariant implies
holds in every state of a run if every step meets the condition under which the
invariant is kept; and only if, when a step from a good state that keeps the property
meets the condition (`throughout_iff_allSteps`).
-/

namespace Runs

open List

variable {σ α : Type} (next : σ → α → σ)

/-- The property holds in every state of the run, the first and the last included. -/
def Throughout (P : σ → Prop) : σ → List α → Prop
  | s, [] => P s
  | s, a :: rest => P s ∧ Throughout P (next s a) rest

/-- Every step of the run meets the condition in the state it is taken in. -/
def AllSteps (Q : σ → α → Prop) : σ → List α → Prop
  | _, [] => True
  | s, a :: rest => Q s a ∧ AllSteps Q (next s a) rest

instance AllSteps.decidable (Q : σ → α → Prop) [∀ s a, Decidable (Q s a)] :
    ∀ s run, Decidable (AllSteps next Q s run)
  | _, [] => .isTrue trivial
  | s, a :: rest =>
    have := AllSteps.decidable Q (next s a) rest
    inferInstanceAs (Decidable (Q s a ∧ AllSteps next Q (next s a) rest))

instance Throughout.decidable (P : σ → Prop) [∀ s, Decidable (P s)] :
    ∀ s run, Decidable (Throughout next P s run)
  | s, [] => inferInstanceAs (Decidable (P s))
  | s, a :: rest =>
    have := Throughout.decidable P (next s a) rest
    inferInstanceAs (Decidable (P s ∧ Throughout next P (next s a) rest))

variable {next}

variable {P : σ → Prop} {s : σ} {run : List α} {Q : σ → α → Prop} {Inv : σ → Prop}

theorem Throughout.start (h : Throughout next P s run) : P s := by
  cases run with
  | nil => exact h
  | cons a rest => exact h.1

theorem AllSteps.last {a : α} (h : AllSteps next Q s (run ++ [a])) : Q (run.foldl next s) a := by
  induction run generalizing s with
  | nil => exact h.1
  | cons b rest ih => exact ih h.2

theorem allSteps_true : AllSteps next (fun _ _ => True) s run := by
  induction run generalizing s with
  | nil => trivial
  | cons a rest ih => exact ⟨trivial, ih⟩

/-- What an invariant implies of a step holds of every step of a run. -/
theorem allSteps_of_inv {I : σ → Prop} (hkeeps : ∀ s a, I s → I (next s a))
    (himplies : ∀ s a, I s → Q s a) (hinv : I s) : AllSteps next Q s run := by
  induction run generalizing s with
  | nil => trivial
  | cons a rest ih => exact ⟨himplies s a hinv, ih (hkeeps s a hinv)⟩

/-- **Invariant rule.** -/
theorem throughout_of_allSteps (himplies : ∀ s, Inv s → P s)
    (hkeeps : ∀ s a, Inv s → Q s a → Inv (next s a)) (hinv : Inv s) (h : AllSteps next Q s run) :
    Throughout next P s run := by
  induction run generalizing s with
  | nil => exact himplies s hinv
  | cons a rest ih => exact ⟨himplies s hinv, ih (hkeeps s a hinv h.1) h.2⟩

/-- The invariant rule, with a condition that is also necessary. -/
theorem throughout_iff_allSteps {Valid : σ → α → Prop} (himplies : ∀ s, Inv s → P s)
    (hkeeps : ∀ s a, Inv s → Valid s a → Q s a → Inv (next s a))
    (hneeds : ∀ s a, Inv s → Valid s a → P (next s a) → Q s a) (hinv : Inv s)
    (hvalid : AllSteps next Valid s run) : Throughout next P s run ↔ AllSteps next Q s run := by
  induction run generalizing s with
  | nil => exact ⟨fun _ => trivial, fun _ => himplies s hinv⟩
  | cons a rest ih =>
    obtain ⟨hfirst, hrest⟩ := hvalid
    constructor
    · rintro ⟨-, hlater⟩
      have hq := hneeds s a hinv hfirst hlater.start
      exact ⟨hq, (ih (hkeeps s a hinv hfirst hq) hrest).mp hlater⟩
    · rintro ⟨hq, hlater⟩
      exact ⟨himplies s hinv, (ih (hkeeps s a hinv hfirst hq) hrest).mpr hlater⟩

/-! ### Commits in a row

A program that commits one thing after the other, and stops at the first that fails. -/

section Commits

variable {β ε : Type} (commit : β → σ → Except ε σ)

/-- The states between the commits, the first and the last included, and how it ends. -/
def commitAll : List β → σ → List σ × Except ε σ
  | [], s => ([s], .ok s)
  | b :: rest, s =>
    match commit b s with
    | .error e => ([s], .error e)
    | .ok s' => (s :: (commitAll rest s').1, (commitAll rest s').2)

variable {commit} {I : σ → Prop} {bs : List β} {s t : σ}

variable {b : β} {rest : List β}

theorem commitAll_cons_ok {s' : σ} (h : commit b s = .ok s') :
    commitAll commit (b :: rest) s =
      (s :: (commitAll commit rest s').1, (commitAll commit rest s').2) := by
  rw [commitAll, h]

theorem commitAll_cons_error {e : ε} (h : commit b s = .error e) :
    commitAll commit (b :: rest) s = ([s], .error e) := by
  rw [commitAll, h]

/-- What every commit keeps holds in all states between them. -/
theorem commitAll_visited (hkeeps : ∀ b ∈ bs, ∀ s s', I s → commit b s = .ok s' → I s') (hs : I s)
    (ht : t ∈ (commitAll commit bs s).1) : I t := by
  induction bs generalizing s with
  | nil => exact mem_singleton.mp ht ▸ hs
  | cons b rest ih =>
    cases hb : commit b s with
    | error e =>
      rw [commitAll_cons_error hb] at ht
      exact mem_singleton.mp ht ▸ hs
    | ok s' =>
      rw [commitAll_cons_ok hb] at ht
      rcases mem_cons.mp ht with rfl | hlater
      · exact hs
      · exact ih (fun c hc => hkeeps c (mem_cons_of_mem _ hc))
          (hkeeps b mem_cons_self s s' hs hb) hlater

theorem commitAll_end_visited (h : (commitAll commit bs s).2 = .ok t) :
    t ∈ (commitAll commit bs s).1 := by
  induction bs generalizing s with
  | nil => exact mem_singleton.mpr (Except.ok.inj h).symm
  | cons b rest ih =>
    cases hb : commit b s with
    | error e =>
      rw [commitAll_cons_error hb] at h
      cases h
    | ok s' =>
      rw [commitAll_cons_ok hb] at h ⊢
      exact mem_cons_of_mem _ (ih h)

/-- Commits that all succeed can be cut in two. -/
theorem commitAll_append {cs : List β} (h : (commitAll commit (bs ++ cs) s).2 = .ok t) :
    ∃ middle, (commitAll commit bs s).2 = .ok middle ∧ (commitAll commit cs middle).2 = .ok t := by
  induction bs generalizing s with
  | nil => exact ⟨s, rfl, h⟩
  | cons b rest ih =>
    rw [cons_append] at h
    cases hb : commit b s with
    | error e =>
      rw [commitAll_cons_error hb] at h
      cases h
    | ok s' =>
      rw [commitAll_cons_ok hb] at h ⊢
      exact ih h

/-- What each commit brings about, and every other one keeps, holds in the end. -/
theorem commitAll_done {Q : β → σ → Prop}
    (hkeeps : ∀ b ∈ bs, ∀ s s', I s → commit b s = .ok s' → I s')
    (hbrings : ∀ b ∈ bs, ∀ s s', I s → commit b s = .ok s' → Q b s')
    (hstays : ∀ b ∈ bs, ∀ c s s', I s → Q c s → commit b s = .ok s' → Q c s') (hs : I s)
    (h : (commitAll commit bs s).2 = .ok t) : ∀ b ∈ bs, Q b t := by
  induction bs generalizing s with
  | nil => exact fun _ hb => by cases hb
  | cons b rest ih =>
    cases hb : commit b s with
    | error e =>
      rw [commitAll_cons_error hb] at h
      cases h
    | ok s' =>
      rw [commitAll_cons_ok hb] at h
      have hs' := hkeeps b mem_cons_self s s' hs hb
      intro c hc
      rcases mem_cons.mp hc with rfl | hlater
      · -- what the first commit has brought about stays to the end
        refine (commitAll_visited (I := fun s => I s ∧ Q c s) ?_
          ⟨hs', hbrings c mem_cons_self s s' hs hb⟩ (commitAll_end_visited h)).2
        intro d hd s₁ s₂ ⟨hI, hQ⟩ hstep
        exact ⟨hkeeps d (mem_cons_of_mem _ hd) s₁ s₂ hI hstep,
          hstays d (mem_cons_of_mem _ hd) c s₁ s₂ hI hQ hstep⟩
      · exact ih (fun d hd => hkeeps d (mem_cons_of_mem _ hd))
          (fun d hd => hbrings d (mem_cons_of_mem _ hd))
          (fun d hd => hstays d (mem_cons_of_mem _ hd)) hs' h c hlater

end Commits

end Runs
