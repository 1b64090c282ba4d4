import Mathlib.Logic.Function.Basic
import Mathlib.Logic.Relation

/-!
# Programs that interleave

A program is a sequence of atomic steps on a shared state.  A step may wait until the
state lets it go on, and it takes an input from outside: the reading of a clock, a
fresh identity, the answer of another system.

Programs run in seats.  In a pool of seats any program may take its next step, a new
program may start in a free seat, a program may stop wherever it stands, and the
surroundings may change the state.

What a program relies on and what it guarantees is its contract.  If every program
that starts keeps its contract when it runs alone among steps it relies on, and what
the one guarantees is what the others rely on, then the invariant holds in every pool
that can be reached (`Pool.Sound.reachable`).
-/

namespace Interleaving

/-- A program with inputs `ι` on a shared state `σ`.  A step without a result has to
wait. -/
inductive Program (ι σ α : Type) : Type 1
  | done (result : α)
  | act {β : Type} (step : ι → σ → Option (β × σ)) (next : β → Program ι σ α)

namespace Program

variable {ι σ α β γ : Type}

/-- First the one program, then the other. -/
def bind : Program ι σ α → (α → Program ι σ β) → Program ι σ β
  | .done a, f => f a
  | .act step next, f => .act step fun b => (next b).bind f

instance : Monad (Program ι σ) where
  pure := .done
  bind := bind

/-- A single step. -/
def atomic (step : ι → σ → Option (β × σ)) : Program ι σ β :=
  .act step .done

/-- A step that only looks. -/
def look (f : σ → β) : Program ι σ β :=
  atomic fun _ s => some (f s, s)

/-- A step that changes the state, whatever it is. -/
def change (f : σ → σ) : Program ι σ Unit :=
  atomic fun _ s => some ((), f s)

/-- One program for each element, in order. -/
def each (f : α → Program ι σ β) : List α → Program ι σ (List β)
  | [] => .done []
  | a :: rest => (f a).bind fun b => (each f rest).bind fun bs => .done (b :: bs)

/-- The program alone, with one input for all its steps. -/
def alone (i : ι) : Program ι σ α → σ → Option (α × σ)
  | .done a, s => some (a, s)
  | .act step next, s => (step i s).bind fun r => (next r.1).alone i r.2

@[simp]
theorem done_bind (a : α) (f : α → Program ι σ β) : (.done a >>= f) = f a := rfl

@[simp]
theorem act_bind {δ : Type} (step : ι → σ → Option (δ × σ)) (next : δ → Program ι σ α)
    (f : α → Program ι σ β) : (.act step next >>= f) = .act step fun d => next d >>= f := rfl

theorem alone_bind (i : ι) (p : Program ι σ α) (f : α → Program ι σ β) (s : σ) :
    (p >>= f).alone i s = (p.alone i s).bind fun r => (f r.1).alone i r.2 := by
  induction p generalizing s with
  | done a => rfl
  | act step next ih =>
    rw [act_bind, alone, alone, Option.bind_assoc]
    congr 1
    funext r
    exact ih r.1 r.2

@[simp]
theorem alone_look (i : ι) (f : σ → β) (s : σ) : (look f : Program ι σ β).alone i s = some (f s, s) :=
  rfl

end Program

/-- What a program relies on and what it guarantees. -/
structure Contract (σ : Type) where
  /-- what holds between any two steps -/
  inv : σ → Prop
  /-- what the others may do between two steps -/
  rely : σ → σ → Prop
  /-- what a step may do -/
  guarantee : σ → σ → Prop
  rely_refl : ∀ s, rely s s
  rely_trans : ∀ s t u, rely s t → rely t u → rely s u

section Contracts

variable {ι σ α β : Type} {C : Contract σ}

/-- The program keeps its contract from the state on, and ends as `post` says. -/
def Keeps (C : Contract σ) : Program ι σ α → (α → σ → Prop) → σ → Prop
  | .done a, post, s => post a s
  | .act step next, post, s => ∀ t, C.rely s t → C.inv t → ∀ i b u, step i t = some (b, u) →
      C.inv u ∧ C.guarantee t u ∧ Keeps C (next b) post u

variable {s : σ} {post : β → σ → Prop} {p : Program ι σ α} {f : α → Program ι σ β}

/-- **The rule of composition.** -/
theorem keeps_bind : Keeps C (p >>= f) post s ↔ Keeps C p (fun a t => Keeps C (f a) post t) s := by
  induction p generalizing s with
  | done a => rfl
  | act step next ih =>
    simp only [Program.act_bind, Keeps]
    refine forall_congr' fun t => imp_congr_right fun _ => imp_congr_right fun _ =>
      forall_congr' fun i => forall_congr' fun b => forall_congr' fun u =>
        imp_congr_right fun _ => ?_
    rw [ih b]

theorem keeps_atomic {step : ι → σ → Option (β × σ)} :
    Keeps C (.atomic step) post s ↔ ∀ t, C.rely s t → C.inv t → ∀ i b u,
      step i t = some (b, u) → C.inv u ∧ C.guarantee t u ∧ post b u := Iff.rfl

theorem keeps_look {f : σ → β} :
    Keeps C (.look f : Program ι σ β) post s ↔ ∀ t, C.rely s t → C.inv t → ι →
      C.inv t ∧ C.guarantee t t ∧ post (f t) t := by
  constructor
  · intro h t hrely hinv i
    exact h t hrely hinv i (f t) t rfl
  · rintro h t hrely hinv i b u hstep
    obtain ⟨rfl, rfl⟩ := Prod.mk.inj (Option.some.inj hstep)
    exact h t hrely hinv i

/-- The rule of consequence. -/
theorem Keeps.mono {post post' : α → σ → Prop} (h : Keeps C p post s)
    (hpost : ∀ a t, post a t → post' a t) : Keeps C p post' s := by
  induction p generalizing s with
  | done a => exact hpost a s h
  | act step next ih =>
    intro t hrely hinv i b u hstep
    obtain ⟨hinv', hguar, hnext⟩ := h t hrely hinv i b u hstep
    exact ⟨hinv', hguar, ih b hnext⟩

/-- The rule of sequence. -/
theorem Keeps.bind {middle : α → σ → Prop} (h : Keeps C p middle s)
    (hnext : ∀ a t, middle a t → Keeps C (f a) post t) : Keeps C (p >>= f) post s :=
  keeps_bind.mpr (h.mono hnext)

/-- **The rule of iteration.** -/
theorem keeps_each {I : σ → Prop} {l : List α}
    (hbody : ∀ a ∈ l, ∀ s, I s → Keeps C (f a) (fun _ t => I t) s) (h : I s) :
    Keeps C (.each f l) (fun _ t => I t) s := by
  induction l generalizing s with
  | nil => exact h
  | cons a rest ih =>
    refine (hbody a List.mem_cons_self s h).bind fun b t ht => ?_
    refine (ih (fun c hc => hbody c (List.mem_cons_of_mem a hc)) ht).bind ?_
    exact fun _ u hu => hu

/-- What the others may do does not hurt a program that has not finished. -/
theorem Keeps.stable {t : σ} (h : Keeps C p (fun _ _ => True) s) (hrely : C.rely s t) :
    Keeps C p (fun _ _ => True) t := by
  cases p with
  | done a => trivial
  | act step next =>
    intro u htu
    exact h u (C.rely_trans s t u hrely htu)

end Contracts

/-- The shared state and the program in each seat. -/
structure Pool (κ ι σ α : Type) : Type 1 where
  shared : σ
  seat : κ → Option (Program ι σ α)

namespace Pool

variable {κ ι σ α : Type} [DecidableEq κ]

/-- Put a program into a seat, or clear the seat. -/
def place (pool : Pool κ ι σ α) (k : κ) (p : Option (Program ι σ α)) : Pool κ ι σ α :=
  { pool with seat := Function.update pool.seat k p }

/-- One step of a pool: `enter` says which programs may start, `surroundings` how the
state may change by itself. -/
inductive Step (enter : Pool κ ι σ α → κ → Program ι σ α → Prop) (surroundings : σ → σ → Prop) :
    Pool κ ι σ α → Pool κ ι σ α → Prop
  | start {pool : Pool κ ι σ α} (k : κ) (p : Program ι σ α) (hfree : pool.seat k = none)
      (henter : enter pool k p) : Step enter surroundings pool (pool.place k (some p))
  | act {pool : Pool κ ι σ α} {β : Type} (k : κ) (i : ι) {step : ι → σ → Option (β × σ)}
      {next : β → Program ι σ α} {b : β} {s : σ} (hseat : pool.seat k = some (.act step next))
      (hstep : step i pool.shared = some (b, s)) :
      Step enter surroundings pool (place { pool with shared := s } k (some (next b)))
  | stop {pool : Pool κ ι σ α} (k : κ) : Step enter surroundings pool (pool.place k none)
  | surroundings {pool : Pool κ ι σ α} (s : σ) (hstep : surroundings pool.shared s) :
      Step enter surroundings pool { pool with shared := s }

/-- The pools that can be reached. -/
def Reaches (enter : Pool κ ι σ α → κ → Program ι σ α → Prop) (surroundings : σ → σ → Prop) :
    Pool κ ι σ α → Pool κ ι σ α → Prop :=
  Relation.ReflTransGen (Step enter surroundings)

/-- Nobody is running. -/
def idle (s : σ) : Pool κ ι σ α :=
  ⟨s, fun _ => none⟩

theorem place_same (pool : Pool κ ι σ α) (k : κ) (p : Option (Program ι σ α)) :
    (pool.place k p).seat k = p := by
  simp [place]

variable {k : κ} {enter : Pool κ ι σ α → κ → Program ι σ α → Prop} {surroundings : σ → σ → Prop}

theorem place_other (pool : Pool κ ι σ α) {l : κ} (h : l ≠ k) (p : Option (Program ι σ α)) :
    (pool.place k p).seat l = pool.seat l := by
  simp [place, h]

theorem place_place (pool : Pool κ ι σ α) (k : κ) (p q : Option (Program ι σ α)) :
    (pool.place k p).place k q = pool.place k q := by
  simp [place]

/-- A program in a seat looks. -/
theorem reaches_look {pool start : Pool κ ι σ α} {β : Type} {f : σ → β} {next : β → Program ι σ α}
    (i : ι) (h : Reaches enter surroundings start (pool.place k (some (Program.look f >>= next)))) :
    Reaches enter surroundings start (pool.place k (some (next (f pool.shared)))) := by
  have hseat : (pool.place k (some (Program.look f >>= next))).seat k =
      some (.act (fun _ s => some (f s, s)) next) := place_same pool k _
  have hlooked : Reaches enter surroundings start
      ((pool.place k (some (Program.look f >>= next))).place k (some (next (f pool.shared)))) :=
    h.tail (.act k i hseat rfl)
  rwa [place_place] at hlooked

/-- The program in the seat takes its next step, unless it has to wait. -/
def advance (i : ι) (pool : Pool κ ι σ α) (k : κ) : Pool κ ι σ α :=
  match pool.seat k with
  | some (.act step next) =>
    match step i pool.shared with
    | some (b, s) => place { pool with shared := s } k (some (next b))
    | none => pool
  | _ => pool

theorem reaches_advance (i : ι) (pool : Pool κ ι σ α) (k : κ) :
    Reaches enter surroundings pool (pool.advance i k) := by
  unfold advance
  split
  · split
    · exact .single (.act k i ‹_› ‹_›)
    · exact .refl
  · exact .refl

/-- The programs take steps in the order of the list. -/
theorem reaches_schedule (i : ι) (pool : Pool κ ι σ α) (order : List κ) :
    Reaches enter surroundings pool (order.foldl (advance i) pool) := by
  induction order generalizing pool with
  | nil => exact .refl
  | cons k rest ih => exact (reaches_advance i pool k).trans (ih (pool.advance i k))

variable (enter surroundings) in
/-- The contracts of the seats fit together. -/
structure Sound (inv : σ → Prop) (C : κ → Contract σ) (beside : κ → κ → Prop) : Prop where
  inv_eq : ∀ k, (C k).inv = inv
  /-- what the surroundings do keeps the invariant, and every seat relies on no more -/
  surroundings_keeps : ∀ s t, inv s → surroundings s t → inv t ∧ ∀ k, (C k).rely s t
  /-- a seat relies on no more than what the seats beside it guarantee -/
  guarantee_rely : ∀ k l, beside k l → ∀ s t, inv s → (C k).guarantee s t → (C l).rely s t
  /-- a program that starts keeps its contract, beside the programs that are running -/
  enter_keeps : ∀ pool k p, inv pool.shared → enter pool k p →
    Keeps (C k) p (fun _ _ => True) pool.shared ∧
      ∀ l, l ≠ k → pool.seat l ≠ none → beside k l ∧ beside l k

/-- What holds of a pool at any time. -/
structure Good (inv : σ → Prop) (C : κ → Contract σ) (beside : κ → κ → Prop)
    (pool : Pool κ ι σ α) : Prop where
  inv : inv pool.shared
  keeps : ∀ k p, pool.seat k = some p → Keeps (C k) p (fun _ _ => True) pool.shared
  beside : ∀ k l, k ≠ l → pool.seat k ≠ none → pool.seat l ≠ none → beside k l

variable {enter : Pool κ ι σ α → κ → Program ι σ α → Prop} {surroundings : σ → σ → Prop}
  {inv : σ → Prop} {C : κ → Contract σ} {beside : κ → κ → Prop} {pool pool' : Pool κ ι σ α}

omit [DecidableEq κ] in
theorem good_idle {s : σ} (h : inv s) : Good inv C beside (idle s : Pool κ ι σ α) :=
  ⟨h, nofun, fun _ _ _ hseat => absurd rfl hseat⟩

section

variable (hsound : Sound enter surroundings inv C beside) (h : Good inv C beside pool)
include hsound h

/-- One step keeps a pool good. -/
theorem Sound.step (hstep : Step enter surroundings pool pool') : Good inv C beside pool' := by
  cases hstep with
  | start k p hfree henter =>
    obtain ⟨hkeeps, hbeside⟩ := hsound.enter_keeps pool k p h.inv henter
    refine ⟨h.inv, fun l q hseat => ?_, fun l m hne hl hm => ?_⟩
    · by_cases hl : l = k
      · subst hl
        rw [place_same] at hseat
        exact Option.some.inj hseat ▸ hkeeps
      · rw [place_other _ hl] at hseat
        exact h.keeps l q hseat
    · by_cases hlk : l = k
      · subst hlk
        rw [place_other _ (Ne.symm hne)] at hm
        exact (hbeside m (Ne.symm hne) hm).1
      · rw [place_other _ hlk] at hl
        by_cases hmk : m = k
        · subst hmk
          exact (hbeside l hlk hl).2
        · rw [place_other _ hmk] at hm
          exact h.beside l m hne hl hm
  | @act β k i step next b s hseat hstep =>
    have hkeeps := h.keeps k _ hseat
    have hrunning : pool.seat k ≠ none := by rw [hseat]; simp
    obtain ⟨hinv, hguar, hnext⟩ := hkeeps pool.shared ((C k).rely_refl _)
      (by rw [hsound.inv_eq]; exact h.inv) i b s hstep
    rw [hsound.inv_eq] at hinv
    refine ⟨hinv, fun l q hl => ?_, fun l m hne hl hm => ?_⟩
    · by_cases hlk : l = k
      · subst hlk
        rw [place_same] at hl
        exact Option.some.inj hl ▸ hnext
      · rw [place_other _ hlk] at hl
        have hbeside := h.beside k l (Ne.symm hlk) hrunning (by rw [hl]; simp)
        exact (h.keeps l q hl).stable (hsound.guarantee_rely k l hbeside _ _ h.inv hguar)
    · refine h.beside l m hne ?_ ?_
      · by_cases hlk : l = k
        · exact hlk ▸ hrunning
        · rwa [place_other _ hlk] at hl
      · by_cases hmk : m = k
        · exact hmk ▸ hrunning
        · rwa [place_other _ hmk] at hm
  | stop k =>
    have hrunning : ∀ l, (pool.place k none).seat l ≠ none →
        (pool.place k none).seat l = pool.seat l := by
      intro l hl
      by_cases hlk : l = k
      · subst hlk
        rw [place_same] at hl
        exact absurd rfl hl
      · exact place_other _ hlk _
    refine ⟨h.inv, fun l q hseat => ?_, fun l m hne hl hm => ?_⟩
    · exact h.keeps l q ((hrunning l (by rw [hseat]; simp)) ▸ hseat)
    · exact h.beside l m hne (hrunning l hl ▸ hl) (hrunning m hm ▸ hm)
  | surroundings s hstep =>
    obtain ⟨hinv, hrely⟩ := hsound.surroundings_keeps _ _ h.inv hstep
    exact ⟨hinv, fun l q hseat => (h.keeps l q hseat).stable (hrely l), h.beside⟩

/-- **The invariant holds in every pool that can be reached.** -/
theorem Sound.reachable (hreach : Reaches enter surroundings pool pool') :
    Good inv C beside pool' := by
  induction hreach with
  | refl => exact h
  | tail _ hstep ih => exact hsound.step ih hstep

end

end Pool

end Interleaving
