import Mathlib.Data.Finmap
import Mathlib.Data.Finset.Sort

/-!
# Layers over a function

A layer sets some keys and deletes others.  Where every key belongs to one layer at most,
its own layer has the last word, and the order of the layers does not matter.
-/

namespace Overlays

variable {α β ι : Type} [DecidableEq α]

/-- A layer over a function: `some none` deletes. -/
def laid (layer : Finmap fun _ : α => Option β) (f : α → Option β) (key : α) : Option β :=
  (layer.lookup key).getD (f key)

/-- Layers one over the other, if each has keys of its own only. -/
theorem foldl_laid [DecidableEq ι] (classOf : α → ι) (layers : ι → Finmap fun _ : α => Option β)
    (hown : ∀ i, ∀ key ∈ layers i, classOf key = i) {names : List ι} (hnodup : names.Nodup)
    (f : α → Option β) (key : α) :
    names.foldl (fun f i => laid (layers i) f) f key =
      if classOf key ∈ names then laid (layers (classOf key)) f key else f key := by
  induction names generalizing f with
  | nil => simp
  | cons first rest ih =>
    obtain ⟨hfirst, hrest⟩ := List.nodup_cons.mp hnodup
    rw [List.foldl_cons, ih hrest]
    by_cases hclass : classOf key = first
    · subst hclass
      simp [hfirst]
    · have hnone : (layers first).lookup key = none :=
        Finmap.lookup_eq_none.mpr fun hmem => hclass (hown first key hmem)
      simp [laid, hnone, hclass]

variable (r : α → α → Prop) [DecidableRel r] [IsTrans α r] [Std.Antisymm r] [Std.Total r]

/-- The values of a function at some keys, as a map. -/
def tabulate (keys : Finset α) (f : α → Option β) : Finmap fun _ : α => β :=
  (keys.sort r).foldl (fun m key => ((f key).map (m.insert key)).getD m) ∅

end Overlays
