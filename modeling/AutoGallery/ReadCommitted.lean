import Mathlib.Logic.Function.Basic
import Mathlib.Data.List.Basic

/-!
# A table under read committed

The rows of a table have keys.  A transaction sees the committed rows and, in the place
of some of them, the rows it has written itself.  Before it writes a row it takes the
row's lock, which it holds to its end: until the commit, which publishes what it has
written, or the rollback, which drops it.
-/

namespace ReadCommitted

/-- The committed rows, what each open transaction has written, and the transaction that
holds the lock of a row. -/
structure Table (τ ρ α : Type) where
  rows : List α
  pending : τ → List α
  lock : ρ → Option τ

namespace Table

variable {τ ρ α : Type} [DecidableEq τ] [DecidableEq ρ] (key : α → ρ)

/-- The rows, with the transaction's own versions in the place of the older ones. -/
def overlay (own rows : List α) : List α :=
  rows.filter (fun r => own.all fun o => decide (key o ≠ key r)) ++ own

/-- What the transaction sees. -/
def view (t : Table τ ρ α) (k : τ) : List α :=
  overlay key (t.pending k) t.rows

/-- The newest version of a row that the transaction may see. -/
def current (t : Table τ ρ α) (k : τ) (id : ρ) : Option α :=
  (t.view key k).find? fun r => decide (key r = id)

/-- Another transaction holds the row's lock. -/
def Blocked (t : Table τ ρ α) (k : τ) (id : ρ) : Prop :=
  ∃ l ∈ t.lock id, l ≠ k

instance (t : Table τ ρ α) (k : τ) (id : ρ) : Decidable (t.Blocked k id) :=
  inferInstanceAs (Decidable (∃ l ∈ t.lock id, l ≠ k))

section

variable (t : Table τ ρ α)

def lockRow (k : τ) (id : ρ) : Table τ ρ α :=
  { t with lock := Function.update t.lock id (some k) }

/-- Lock a row and write a version of it. -/
def write (k : τ) (row : α) : Table τ ρ α :=
  { t.lockRow k (key row) with
    pending := Function.update t.pending k (overlay key [row] (t.pending k)) }

def unlock (k : τ) : ρ → Option τ :=
  fun id => if t.lock id = some k then none else t.lock id

def commit (k : τ) : Table τ ρ α where
  rows := t.view key k
  pending := Function.update t.pending k []
  lock := t.unlock k

def rollback (k : τ) : Table τ ρ α :=
  { t with
    pending := Function.update t.pending k []
    lock := t.unlock k }

end

variable {key} {t : Table τ ρ α} {k l : τ} {r row : α} {id : ρ}

section

omit [DecidableEq τ]

theorem mem_overlay {own rows : List α} :
    r ∈ overlay key own rows ↔ r ∈ own ∨ r ∈ rows ∧ ∀ o ∈ own, key o ≠ key r := by
  simp only [overlay, List.mem_append, List.mem_filter, List.all_eq_true, decide_eq_true_eq]
  exact or_comm

theorem mem_view :
    r ∈ t.view key k ↔ r ∈ t.pending k ∨ r ∈ t.rows ∧ ∀ o ∈ t.pending k, key o ≠ key r :=
  mem_overlay

theorem view_of_closed (h : t.pending k = []) : t.view key k = t.rows := by
  simp [view, overlay, h]

theorem current_mem (h : t.current key k id = some row) : row ∈ t.view key k ∧ key row = id :=
  ⟨List.mem_of_find?_eq_some h, by simpa using List.find?_some h⟩

end

omit [DecidableEq τ] [DecidableEq ρ] in
theorem not_blocked_iff : ¬t.Blocked k id ↔ t.lock id = none ∨ t.lock id = some k := by
  unfold Blocked
  cases hlock : t.lock id with
  | none => simp
  | some l => simp

section

omit [DecidableEq τ]

/-- To lock a row that is not blocked takes no lock from another transaction. -/
theorem lockRow_other (hfree : ¬t.Blocked k id) (hne : l ≠ k) {other : ρ}
    (h : t.lock other = some l) : (t.lockRow k id).lock other = some l := by
  have hother : other ≠ id := by
    rintro rfl
    rcases not_blocked_iff.mp hfree with hnone | hmine
    · rw [hnone] at h
      cases h
    · rw [hmine] at h
      exact hne (Option.some.inj h).symm
  simpa [lockRow, hother] using h

theorem lockRow_mine (h : t.lock id = some k) (other : ρ) :
    (t.lockRow k other).lock id = some k := by
  by_cases hid : id = other
  · simp [lockRow, hid]
  · simpa [lockRow, hid] using h

end

theorem write_pending : (t.write key k row).pending k = overlay key [row] (t.pending k) := by
  simp [write]

theorem write_pending_other (hne : l ≠ k) : (t.write key k row).pending l = t.pending l := by
  simp [write, hne]

theorem mem_write_pending :
    r ∈ (t.write key k row).pending k ↔ r = row ∨ r ∈ t.pending k ∧ key row ≠ key r := by
  rw [write_pending, mem_overlay]
  simp

/-- After a write the transaction sees the new version and every other row as before. -/
theorem mem_view_write :
    r ∈ (t.write key k row).view key k ↔ r = row ∨ r ∈ t.view key k ∧ key row ≠ key r := by
  rw [mem_view, mem_view, mem_write_pending]
  constructor
  · rintro ((rfl | ⟨hpending, hne⟩) | ⟨hrow, hown⟩)
    · exact .inl rfl
    · exact .inr ⟨.inl hpending, hne⟩
    · have hne : key row ≠ key r := hown row (mem_write_pending.mpr (.inl rfl))
      refine .inr ⟨.inr ⟨hrow, fun o ho => ?_⟩, hne⟩
      by_cases hkey : key row = key o
      · exact hkey ▸ hne
      · exact hown o (mem_write_pending.mpr (.inr ⟨ho, hkey⟩))
  · rintro (rfl | ⟨hpending | ⟨hrow, hown⟩, hne⟩)
    · exact .inl (.inl rfl)
    · exact .inl (.inr ⟨hpending, hne⟩)
    · refine .inr ⟨hrow, fun o ho => ?_⟩
      rcases mem_write_pending.mp ho with rfl | ⟨hold, -⟩
      · exact hne
      · exact hown o hold

omit [DecidableEq τ] in
/-- A row's own version goes before the committed one. -/
theorem find_overlay (own rows : List α) (id : ρ) :
    (overlay key own rows).find? (fun r => decide (key r = id)) =
      (own.find? fun r => decide (key r = id)).or (rows.find? fun r => decide (key r = id)) := by
  rw [overlay, List.find?_append, List.find?_filter]
  cases hown : own.find? fun r => decide (key r = id) with
  | none =>
    have hall : ∀ o ∈ own, key o ≠ id := by simpa using hown
    rw [Option.or_none, Option.none_or]
    congr 1
    funext r
    by_cases hr : key r = id
    · simpa [hr] using hall
    · simp [hr]
  | some o =>
    have hkey : key o = id := by simpa using List.find?_some hown
    rw [List.find?_eq_none.mpr, Option.none_or, Option.some_or]
    intro r _ hr
    simp only [List.all_eq_true, decide_eq_true_eq] at hr
    exact hr.1 o (List.mem_of_find?_eq_some hown) (hkey.trans hr.2.symm)

/-- A write leaves the rows of other keys as the transaction sees them. -/
theorem current_write_other (h : id ≠ key row) :
    (t.write key k row).current key k id = t.current key k id := by
  have hnew : List.find? (fun r => decide (key r = id)) [row] = none := by simp [h.symm]
  rw [current, current, view, view, find_overlay, find_overlay, write_pending, find_overlay, hnew,
    Option.none_or]
  rfl

omit [DecidableEq ρ] in
/-- The end of a transaction takes no lock from another one. -/
theorem unlock_other (hne : l ≠ k) (h : t.lock id = some l) : t.unlock k id = some l := by
  have hother : t.lock id ≠ some k := by
    rw [h]
    exact fun heq => hne (Option.some.inj heq)
  rw [unlock, if_neg hother, h]

end Table

end ReadCommitted
