import Mathlib.Logic.Relation

/-!
# Calls that may stop

A call looks at a state, writes it a number of times, and returns or raises.  Its process
may stop after any of the writes.  The state is then as the last write has left it, and all
that the call has kept in mind is lost.

`Meets` is a rule of pre- and postconditions with a third part: what holds in every state
that the call goes through.  A call that is started again after every stop only goes through
states with a property if it meets it from each of them (`Restarts.holds`).
-/

namespace Stoppable

/-- What a call has done: the states after its writes, the last state, and how it has
ended. -/
structure Ran (σ ε α : Type) where
  trace : List σ
  state : σ
  result : Except ε α

/-- A call on the state `σ` that returns an `α` or raises an `ε`. -/
def Call (σ ε α : Type) : Type := σ → Ran σ ε α

namespace Call

variable {σ ε α β : Type}

def pure (a : α) : Call σ ε α := fun s => ⟨[], s, .ok a⟩

/-- First the one call, then the other, unless the first one raises. -/
def bind (m : Call σ ε α) (f : α → Call σ ε β) : Call σ ε β := fun s =>
  match (m s).result with
  | .error e => ⟨(m s).trace, (m s).state, .error e⟩
  | .ok a =>
    ⟨(m s).trace ++ (f a (m s).state).trace, (f a (m s).state).state, (f a (m s).state).result⟩

instance : Monad (Call σ ε) where
  pure := pure
  bind := bind

/-- Look at the state. -/
def get : Call σ ε σ := fun s => ⟨[], s, .ok s⟩

def raise (e : ε) : Call σ ε α := fun s => ⟨[], s, .error e⟩

/-- One atomic write. -/
def write (f : σ → σ) : Call σ ε Unit := fun s => ⟨[f s], f s, .ok ()⟩

/-- What has been found out without a look at the state. -/
def lift : Except ε α → Call σ ε α
  | .ok a => pure a
  | .error e => raise e

/-- A loop that carries something on. -/
def fold (f : β → α → Call σ ε β) : List α → β → Call σ ε β
  | [], b => pure b
  | a :: rest, b => bind (f b a) fun b' => fold f rest b'

/-- A loop. -/
def each (f : α → Call σ ε Unit) (l : List α) : Call σ ε Unit :=
  fold (fun _ a => f a) l ()

/-- The state after so many writes, or at the end if there are fewer. -/
def stopped (m : Call σ ε α) (writes : Nat) (s : σ) : σ :=
  ((s :: (m s).trace)[writes]?).getD (m s).state

end Call

variable {σ ε α : Type} {I : σ → Prop} {s : σ} {fail : ε → σ → Prop} {m : Call σ ε α}
  {f : α → Call σ ε Unit}

open Call

section Rules

variable {β : Type} {post : α → σ → Prop}

/-- The property holds in every state that the call goes through from here, and it ends as
`post` or `fail` has it. -/
def Meets (I : σ → Prop) (m : Call σ ε α) (post : α → σ → Prop) (fail : ε → σ → Prop) (s : σ) :
    Prop :=
  (∀ t ∈ (m s).trace, I t) ∧
    match (m s).result with
    | .ok a => post a (m s).state
    | .error e => fail e (m s).state

variable {a : α} {e : ε} {l : List α}

theorem meets_pure (h : post a s) : Meets I (Pure.pure a : Call σ ε α) post fail s :=
  ⟨List.forall_mem_nil _, h⟩

theorem meets_raise (h : fail e s) : Meets I (raise e : Call σ ε α) post fail s :=
  ⟨List.forall_mem_nil _, h⟩

theorem meets_get {post : σ → σ → Prop} (h : post s s) :
    Meets I (get : Call σ ε σ) post fail s :=
  ⟨List.forall_mem_nil _, h⟩

theorem meets_write {f : σ → σ} {post : Unit → σ → Prop} (hinv : I (f s)) (h : post () (f s)) :
    Meets I (write f : Call σ ε Unit) post fail s :=
  ⟨List.forall_mem_singleton.mpr hinv, h⟩

theorem meets_lift {x : Except ε α} (hok : ∀ a, x = .ok a → post a s)
    (herror : ∀ e, x = .error e → fail e s) : Meets I (lift x : Call σ ε α) post fail s := by
  cases x with
  | ok a => exact meets_pure (hok a rfl)
  | error e => exact meets_raise (herror e rfl)

/-- **The rule of composition.** -/
theorem meets_bind {m : Call σ ε β} {f : β → Call σ ε α}
    (h : Meets I m (fun b t => Meets I (f b) post fail t) fail s) :
    Meets I (m >>= f) post fail s := by
  obtain ⟨htrace, hresult⟩ := h
  unfold Meets at *
  simp only [Bind.bind, Call.bind]
  cases hr : (m s).result with
  | error e =>
    rw [hr] at hresult
    exact ⟨htrace, hresult⟩
  | ok b =>
    rw [hr] at hresult
    refine ⟨fun t ht => ?_, hresult.2⟩
    rcases List.mem_append.mp ht with hfirst | hsecond
    · exact htrace t hfirst
    · exact hresult.1 t hsecond

/-- **The rule of consequence.** -/
theorem Meets.mono {post' : α → σ → Prop} {fail' : ε → σ → Prop}
    (h : Meets I m post fail s) (hpost : ∀ a t, post a t → post' a t)
    (hfail : ∀ e t, fail e t → fail' e t) : Meets I m post' fail' s := by
  refine ⟨h.1, ?_⟩
  have hresult := h.2
  cases hr : (m s).result with
  | ok a =>
    rw [hr] at hresult
    exact hpost a _ hresult
  | error e =>
    rw [hr] at hresult
    exact hfail e _ hresult

/-- A call and the one after it. -/
theorem Meets.bind {post' : β → σ → Prop} {f : α → Call σ ε β} (h : Meets I m post fail s)
    (hnext : ∀ a t, post a t → Meets I (f a) post' fail t) : Meets I (m >>= f) post' fail s :=
  meets_bind (h.mono hnext fun _ _ h => h)

theorem meets_lift_ok {f : α → Call σ ε β} {post : β → σ → Prop}
    (h : Meets I (f a) post fail s) : Meets I (lift (.ok a) >>= f) post fail s :=
  meets_bind (meets_pure h)

/-- **The rule of iteration.**  What holds before the loop with the elements still to come. -/
theorem meets_fold {f : β → α → Call σ ε β} {L : List α → β → σ → Prop}
    (hbody : ∀ a rest b t, L (a :: rest) b t → Meets I (f b a) (L rest) fail t) {b : β}
    (h : L l b s) : Meets I (fold f l b) (L []) fail s := by
  induction l generalizing b s with
  | nil => exact meets_pure h
  | cons a rest ih =>
    exact (hbody a rest b s h).bind fun b' t ht => ih ht

/-- The rule of iteration for a loop without a result. -/
theorem meets_each {L : List α → σ → Prop}
    (hbody : ∀ a rest t, L (a :: rest) t → Meets I (f a) (fun _ => L rest) fail t) (h : L l s) :
    Meets I (each f l) (fun _ => L []) fail s :=
  meets_fold (L := fun rest _ => L rest) (fun a rest _ t ht => hbody a rest t ht) h

/-- A loop whose body keeps a property. -/
theorem meets_each_mem {J : σ → Prop}
    (hbody : ∀ a ∈ l, ∀ t, J t → Meets I (f a) (fun _ => J) fail t) (h : J s) :
    Meets I (each f l) (fun _ => J) fail s := by
  induction l generalizing s with
  | nil => exact meets_pure h
  | cons a rest ih =>
    obtain ⟨hfirst, hrest⟩ := List.forall_mem_cons.mp hbody
    exact (hfirst s h).bind fun _ t ht => ih hrest ht

theorem Meets.ok (h : Meets I m post fail s) (hresult : (m s).result = .ok a) : post a (m s).state := by
  have := h.2
  rwa [hresult] at this

theorem Meets.error (h : Meets I m post fail s) (hresult : (m s).result = .error e) :
    fail e (m s).state := by
  have := h.2
  rwa [hresult] at this

/-- A call that cannot fail returns. -/
theorem Meets.returns (h : Meets I m post (fun _ _ => False) s) :
    ∃ a, (m s).result = .ok a ∧ post a (m s).state := by
  cases hr : (m s).result with
  | ok a => exact ⟨a, rfl, h.ok hr⟩
  | error e => exact (h.error hr).elim

end Rules

section Restart

/-- The process of the call may stop in this state, or the call ends in it. -/
def Stops (m : Call σ ε α) (s t : σ) : Prop :=
  t ∈ (m s).trace ∨ t = (m s).state

/-- One of the calls is started again after every stop. -/
def Restarts (calls : Call σ ε α → Prop) : σ → σ → Prop :=
  Relation.ReflTransGen fun s t => ∃ m, calls m ∧ Stops m s t

variable {calls : Call σ ε α → Prop} {t : σ}

theorem Meets.stops (h : Meets I m (fun _ => I) (fun _ => I) s) (hstop : Stops m s t) : I t := by
  rcases hstop with hmem | rfl
  · exact h.1 t hmem
  · cases hr : (m s).result with
    | ok a => exact h.ok hr
    | error e => exact h.error hr

/-- A stop after any number of writes. -/
theorem restarts_stopped (hm : calls m) (writes : Nat) (s : σ) :
    Restarts calls s (m.stopped writes s) := by
  unfold Call.stopped
  cases hstate : (s :: (m s).trace)[writes]? with
  | none => exact .single ⟨m, hm, .inr rfl⟩
  | some t =>
    rcases List.mem_cons.mp (List.mem_of_getElem? hstate) with rfl | hmem
    · exact .refl
    · exact .single ⟨m, hm, .inl hmem⟩

/-- **The rule of restarts.** -/
theorem Restarts.holds (hmeets : ∀ m, calls m → ∀ s, I s → Meets I m (fun _ => I) (fun _ => I) s)
    (hs : I s) (h : Restarts calls s t) : I t := by
  induction h with
  | refl => exact hs
  | tail _ hstep ih =>
    obtain ⟨m, hm, hstop⟩ := hstep
    exact (hmeets m hm _ ih).stops hstop

end Restart

end Stoppable
