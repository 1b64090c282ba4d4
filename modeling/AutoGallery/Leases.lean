import Mathlib.Data.List.Basic
import Mathlib.Order.Lattice

/-!
# Leases

A lease gives a row of some work to a holder until a time.  Leases are exclusive when all
leases of a work that have not run out name the same holder.  Leases that run out or are
given back keep this, and so does a new lease for the holder of all that have not run out.
-/

namespace Leases

structure Lease (ρ κ τ T : Type) where
  row : ρ
  work : κ
  token : τ
  expires : T

variable {ρ κ τ T : Type} [LinearOrder T] {F : κ → Prop} {now time : T}
  {L M : List (Lease ρ κ τ T)}

variable (F now L) in
/-- At no time from `now` on a work in `F` has two holders. -/
def ExclusiveOn : Prop :=
  ∀ a ∈ L, ∀ b ∈ L, F a.work → a.work = b.work → now < a.expires → now < b.expires →
    a.token = b.token

/-- No work has two holders. -/
def Exclusive (now : T) (L : List (Lease ρ κ τ T)) : Prop :=
  ∀ a ∈ L, ∀ b ∈ L, a.work = b.work → now < a.expires → now < b.expires → a.token = b.token

instance [DecidableEq κ] [DecidableEq τ] (now : T) (L : List (Lease ρ κ τ T)) :
    Decidable (Exclusive now L) :=
  inferInstanceAs (Decidable (∀ a ∈ L, ∀ b ∈ L, a.work = b.work → now < a.expires →
    now < b.expires → a.token = b.token))

theorem Exclusive.on (h : Exclusive now L) : ExclusiveOn F now L :=
  fun a ha b hb _ => h a ha b hb

/-- The works in `F` and the others. -/
theorem Exclusive.of_on (hin : ExclusiveOn F now L) (hout : ExclusiveOn (fun w => ¬F w) now L) :
    Exclusive now L := by
  intro a ha b hb
  by_cases hF : F a.work
  · exact hin a ha b hb hF
  · exact hout a ha b hb hF

theorem Exclusive.later (h : Exclusive now L) (hle : now ≤ time) : Exclusive time L :=
  fun a ha b hb hwork hlta hltb => h a ha b hb hwork (hle.trans_lt hlta) (hle.trans_lt hltb)

theorem ExclusiveOn.later (h : ExclusiveOn F now L) (hle : now ≤ time) : ExclusiveOn F time L :=
  fun a ha b hb hF hwork hlta hltb =>
    h a ha b hb hF hwork (hle.trans_lt hlta) (hle.trans_lt hltb)

theorem ExclusiveOn.of_subset (h : ExclusiveOn F now L) (hsub : ∀ a ∈ M, F a.work → a ∈ L) :
    ExclusiveOn F now M :=
  fun a ha b hb hF hwork => h a (hsub a ha hF) b (hsub b hb (hwork ▸ hF)) hF hwork

/-- A lease for the holder of the work. -/
theorem ExclusiveOn.grant (h : ExclusiveOn F now L) {a : Lease ρ κ τ T}
    (hholder : ∀ b ∈ L, b.work = a.work → now < b.expires → b.token = a.token)
    (hsub : ∀ c ∈ M, c = a ∨ c ∈ L) : ExclusiveOn F now M := by
  intro c hc d hd hF hwork hltc hltd
  rcases hsub c hc with rfl | hc'
  · rcases hsub d hd with rfl | hd'
    · rfl
    · exact (hholder d hd' hwork.symm hltd).symm
  · rcases hsub d hd with rfl | hd'
    · exact hholder c hc' hwork hltc
    · exact h c hc' d hd' hF hwork hltc hltd

end Leases
