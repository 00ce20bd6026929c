import Mathlib.Logic.Basic
import Mathlib.Data.Nat.Notation

/-!
# Computations with a state and exceptions

`Comp σ ε α` is a computation over a state `σ` that returns an `α` or raises an
`ε`. The state reached is kept when it raises, as in an imperative language:
what a block did before its exception stays done.

* `attempt` and `ensuring` are `try/except` and `try/finally`. An exception of the
  handler or of the final part replaces the one it handles.
* `Triple P m Q E` is the partial-correctness triple with two postconditions, one
  for a normal return and one for an exception; `Keeps I m` says `m` keeps an
  invariant however it ends. The rules below follow the shape of the program.
-/

namespace Effect

variable {σ ε α β : Type}

/-- A computation over `σ` that may raise an `ε`. -/
def Comp (σ ε α : Type) : Type := σ → Except ε α × σ

namespace Comp

protected def pure (a : α) : Comp σ ε α := fun s => (.ok a, s)

protected def bind (m : Comp σ ε α) (f : α → Comp σ ε β) : Comp σ ε β := fun s =>
  match m s with
  | (.ok a, s') => f a s'
  | (.error e, s') => (.error e, s')

instance : Monad (Comp σ ε) where
  pure := Comp.pure
  bind := Comp.bind

/-- Read the state through `f`. -/
def reads (f : σ → α) : Comp σ ε α := fun s => (.ok (f s), s)

/-- Change the state. -/
def modify (f : σ → σ) : Comp σ ε Unit := fun s => (.ok (), f s)

/-- Raise `e`. -/
def raise (e : ε) : Comp σ ε α := fun s => (.error e, s)

/-- `try: m except e: handler e`. -/
def attempt (m : Comp σ ε α) (handler : ε → Comp σ ε α) : Comp σ ε α := fun s =>
  match m s with
  | (.ok a, s') => (.ok a, s')
  | (.error e, s') => handler e s'

/-- `try: m finally: last`. An exception of `last` replaces what `m` gave. -/
def ensuring (m : Comp σ ε α) (last : Comp σ ε Unit) : Comp σ ε α := fun s =>
  match m s with
  | (r, s') =>
    match last s' with
    | (.ok (), s'') => (r, s'')
    | (.error e, s'') => (.error e, s'')

/-- Run `f` on each element, in order; the first exception ends the run. -/
def each (f : β → Comp σ ε Unit) : List β → Comp σ ε Unit
  | [] => Comp.pure ()
  | b :: bs => Comp.bind (f b) fun _ => each f bs

@[simp] theorem pure_run (a : α) (s : σ) : (Pure.pure a : Comp σ ε α) s = (.ok a, s) := rfl

@[simp] theorem bind_run (m : Comp σ ε α) (f : α → Comp σ ε β) (s : σ) :
    (m >>= f) s = match m s with
      | (.ok a, s') => f a s'
      | (.error e, s') => (.error e, s') := rfl

theorem map_run (f : α → β) (m : Comp σ ε α) (s : σ) :
    (f <$> m) s = match m s with
      | (.ok a, s') => (.ok (f a), s')
      | (.error e, s') => (.error e, s') := rfl

@[simp] theorem reads_run (f : σ → α) (s : σ) : (reads f : Comp σ ε α) s = (.ok (f s), s) := rfl

@[simp] theorem modify_run (f : σ → σ) (s : σ) :
    (modify f : Comp σ ε Unit) s = (.ok (), f s) := rfl

@[simp] theorem raise_run (e : ε) (s : σ) : (raise e : Comp σ ε α) s = (.error e, s) := rfl

theorem attempt_run (m : Comp σ ε α) (handler : ε → Comp σ ε α) (s : σ) :
    attempt m handler s = match m s with
      | (.ok a, s') => (.ok a, s')
      | (.error e, s') => handler e s' := rfl

end Comp

open Effect.Comp

/-- An outcome returns in `Q` or raises in `E`. -/
def Ends (Q : α → σ → Prop) (E : ε → σ → Prop) : Except ε α × σ → Prop
  | (.ok a, s) => Q a s
  | (.error e, s) => E e s

namespace Ends

variable {Q Q' : α → σ → Prop} {E E' : ε → σ → Prop} {m : Comp σ ε α} {s : σ}

theorem mono {r : Except ε α × σ} (h : Ends Q E r) (hQ : ∀ a s, Q a s → Q' a s)
    (hE : ∀ e s, E e s → E' e s) : Ends Q' E' r := by
  rcases r with ⟨e | a, s⟩
  · exact hE e s h
  · exact hQ a s h

theorem and {r : Except ε α × σ} (h : Ends Q E r) (h' : Ends Q' E' r) :
    Ends (fun a s => Q a s ∧ Q' a s) (fun e s => E e s ∧ E' e s) r := by
  rcases r with ⟨e | a, s⟩ <;> exact ⟨h, h'⟩

theorem with_inv {r : Except ε α × σ} {I : σ → Prop} (h : Ends Q E r) (hI : I r.2) :
    Ends (fun a s => Q a s ∧ I s) (fun e s => E e s ∧ I s) r := by
  rcases r with ⟨e | a, s⟩ <;> exact ⟨h, hI⟩

/-- Whatever `m` does, its end is one of its two kinds. -/
theorem inv {r : Except ε α × σ} {I : σ → Prop} (h : Ends (fun _ => I) (fun _ => I) r) : I r.2 := by
  rcases r with ⟨e | a, s⟩ <;> exact h

theorem of_inv {r : Except ε α × σ} {I : σ → Prop} (h : I r.2) : Ends (fun _ => I) (fun _ => I) r := by
  rcases r with ⟨e | a, s⟩ <;> exact h

theorem bind_rule {f : α → Comp σ ε β} {R : β → σ → Prop} (h : Ends Q E (m s))
    (hf : ∀ a s', Q a s' → Ends R E (f a s')) : Ends R E ((m >>= f) s) := by
  rw [bind_run]
  rcases hm : m s with ⟨e | a, s'⟩ <;> rw [hm] at h
  · exact h
  · exact hf a s' h

theorem attempt_rule {handler : ε → Comp σ ε α} {F : ε → σ → Prop} (h : Ends Q F (m s))
    (hh : ∀ e s', F e s' → Ends Q E (handler e s')) : Ends Q E (attempt m handler s) := by
  rw [attempt_run]
  rcases hm : m s with ⟨e | a, s'⟩ <;> rw [hm] at h
  · exact hh e s' h
  · exact h

theorem ensuring_rule {last : Comp σ ε Unit} (h : Ends Q' E' (m s))
    (hq : ∀ a s', Q' a s' → Ends (fun _ => Q a) E (last s'))
    (he : ∀ e s', E' e s' → Ends (fun _ => E e) E (last s')) : Ends Q E (ensuring m last s) := by
  unfold ensuring
  rcases hm : m s with ⟨e | a, s'⟩ <;> rw [hm] at h
  · have h2 := he e s' h
    rcases hl : last s' with ⟨e2 | u, s''⟩ <;> simp only [hl] at h2 ⊢ <;> exact h2
  · have h2 := hq a s' h
    rcases hl : last s' with ⟨e2 | u, s''⟩ <;> simp only [hl] at h2 ⊢ <;> exact h2

theorem ite_rule {c : Prop} [Decidable c] {m' : Comp σ ε α} (h : c → Ends Q E (m s))
    (h' : ¬c → Ends Q E (m' s)) : Ends Q E ((if c then m else m') s) := by
  by_cases hc : c
  · rw [if_pos hc]; exact h hc
  · rw [if_neg hc]; exact h' hc

end Ends

/-- `m`, run from a state with `P`, returns in `Q` or raises in `E`. -/
def Triple (P : σ → Prop) (m : Comp σ ε α) (Q : α → σ → Prop) (E : ε → σ → Prop) : Prop :=
  ∀ s, P s → Ends Q E (m s)

/-- `m` keeps the invariant `I`, whether it returns or raises. -/
def Keeps (I : σ → Prop) (m : Comp σ ε α) : Prop := ∀ s, I s → I (m s).2

namespace Triple

variable {P P' : σ → Prop} {m : Comp σ ε α} {Q Q' : α → σ → Prop} {E E' : ε → σ → Prop}

theorem conseq (h : Triple P m Q E) (hP : ∀ s, P' s → P s) (hQ : ∀ a s, Q a s → Q' a s)
    (hE : ∀ e s, E e s → E' e s) : Triple P' m Q' E' :=
  fun s hs => (h s (hP s hs)).mono hQ hE

/-- What the program makes of a state, however it ends. -/
theorem inv {I : σ → Prop} (h : Triple P m (fun _ => I) (fun _ => I)) {s : σ} (hs : P s) : I (m s).2 :=
  (h s hs).inv

theorem pure_rule (a : α) (h : ∀ s, P s → Q a s) : Triple P (Pure.pure a : Comp σ ε α) Q E :=
  fun s hs => h s hs

theorem reads_rule (f : σ → α) (h : ∀ s, P s → Q (f s) s) :
    Triple P (reads f : Comp σ ε α) Q E := fun s hs => h s hs

theorem modify_rule (f : σ → σ) {Q : Unit → σ → Prop} (h : ∀ s, P s → Q () (f s)) :
    Triple P (modify f : Comp σ ε Unit) Q E := fun s hs => h s hs

theorem raise_rule (e : ε) (h : ∀ s, P s → E e s) : Triple P (raise e : Comp σ ε α) Q E :=
  fun s hs => h s hs

/-- **Sequencing.** -/
theorem bind_rule {f : α → Comp σ ε β} {R : β → σ → Prop} (h : Triple P m Q E)
    (hf : ∀ a, Triple (Q a) (f a) R E) : Triple P (m >>= f) R E :=
  fun s hs => (h s hs).bind_rule hf

/-- **`try/except`.** -/
theorem attempt_rule {handler : ε → Comp σ ε α} (h : Triple P m Q E')
    (hh : ∀ e, Triple (E' e) (handler e) Q E) : Triple P (attempt m handler) Q E :=
  fun s hs => (h s hs).attempt_rule hh

/-- **`try/finally`.** `Q'` and `E'` are what `m` leaves for the final part. -/
theorem ensuring_rule {last : Comp σ ε Unit} (h : Triple P m Q' E')
    (hq : ∀ a, Triple (Q' a) last (fun _ => Q a) E)
    (he : ∀ e, Triple (E' e) last (fun _ => E e) E) : Triple P (ensuring m last) Q E :=
  fun s hs => (h s hs).ensuring_rule hq he

/-- **`try/finally`**, with one outcome. -/
theorem ensuring_inv {I : σ → Prop} {last : Comp σ ε Unit} (h : Triple P m (fun _ => I) (fun _ => I))
    (hl : Keeps I last) : Triple P (ensuring m last) (fun _ => I) (fun _ => I) :=
  h.ensuring_rule (fun _ s hs => .of_inv (hl s hs)) fun _ s hs => .of_inv (hl s hs)

theorem ite_rule {c : Prop} [Decidable c] {m' : Comp σ ε α}
    (h : c → Triple P m Q E) (h' : ¬c → Triple P m' Q E) :
    Triple P (if c then m else m') Q E :=
  fun s hs => .ite_rule (fun hc => h hc s hs) fun hc => h' hc s hs

end Triple

namespace Keeps

variable {I : σ → Prop} {m : Comp σ ε α}

theorem iff_triple : Keeps I m ↔ Triple I m (fun _ => I) (fun _ => I) := by
  constructor
  · intro h s hs
    have := h s hs
    rcases hm : m s with ⟨e | a, s'⟩ <;> rw [hm] at this <;> exact this
  · intro h s hs
    have := h s hs
    rcases hm : m s with ⟨e | a, s'⟩ <;> rw [hm] at this <;> exact this

theorem triple (h : Keeps I m) : Triple I m (fun _ => I) (fun _ => I) := iff_triple.1 h

theorem of_triple (h : Triple I m (fun _ => I) (fun _ => I)) : Keeps I m := iff_triple.2 h

theorem pure_rule (a : α) : Keeps I (Pure.pure a : Comp σ ε α) := fun _ h => h

theorem reads_rule (f : σ → α) : Keeps I (reads f : Comp σ ε α) := fun _ h => h

theorem raise_rule (e : ε) : Keeps I (raise e : Comp σ ε α) := fun _ h => h

theorem modify_rule {f : σ → σ} (h : ∀ s, I s → I (f s)) : Keeps I (modify f : Comp σ ε Unit) := h

theorem bind_rule {f : α → Comp σ ε β} (h : Keeps I m) (hf : ∀ a, Keeps I (f a)) :
    Keeps I (m >>= f) :=
  of_triple (h.triple.bind_rule fun a => (hf a).triple)

/-- What is read is read from a state with `I`. -/
theorem reads_bind {f : σ → α} {k : α → Comp σ ε β} (h : ∀ s, I s → Keeps I (k (f s))) :
    Keeps I (reads f >>= k) := fun s hs => h s hs s hs

theorem attempt_rule {handler : ε → Comp σ ε α} (h : Keeps I m) (hh : ∀ e, Keeps I (handler e)) :
    Keeps I (attempt m handler) :=
  of_triple (h.triple.attempt_rule fun e => (hh e).triple)

theorem ensuring_rule {last : Comp σ ε Unit} (h : Keeps I m) (hl : Keeps I last) :
    Keeps I (ensuring m last) :=
  of_triple (h.triple.ensuring_rule (fun _ => hl.triple) (fun _ => hl.triple))

theorem ite_rule {c : Prop} [Decidable c] {m' : Comp σ ε α} (h : c → Keeps I m)
    (h' : ¬c → Keeps I m') : Keeps I (if c then m else m') := by
  by_cases hc : c
  · rw [if_pos hc]; exact h hc
  · rw [if_neg hc]; exact h' hc

theorem each_rule {f : β → Comp σ ε Unit} {bs : List β} (h : ∀ b ∈ bs, Keeps I (f b)) :
    Keeps I (each f bs) := by
  induction bs with
  | nil => exact pure_rule ()
  | cons b bs ih =>
    exact bind_rule (h b List.mem_cons_self) fun _ => ih fun b' hb' => h b' (List.mem_cons_of_mem _ hb')

end Keeps

end Effect
