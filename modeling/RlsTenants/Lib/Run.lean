import Mathlib.Logic.Basic
import Mathlib.Data.List.Basic

/-!
# Runs

A system that takes one step per event. `run` is the state after a list of events;
`Along P` says that `P` holds of every step of a run, taken where it is taken, and
`Always Q` that `Q` holds in every state of it.

* `run_keeps`: what every step keeps, a run keeps.
* `always_iff_along`: the condition on the steps is exact when a bad step taken from
  a good state breaks `Q`.
-/

namespace Run

variable {σ ε : Type} (step : σ → ε → σ)

/-- The state after the events. -/
def run (s : σ) (es : List ε) : σ := es.foldl step s

/-- `P` holds of every step, in the state it is taken in. -/
def Along (P : σ → ε → Prop) : σ → List ε → Prop
  | _, [] => True
  | s, e :: es => P s e ∧ Along P (step s e) es

/-- `Q` holds in every state of the run. -/
def Always (Q : σ → Prop) : σ → List ε → Prop
  | s, [] => Q s
  | s, e :: es => Q s ∧ Always Q (step s e) es

variable {step}

@[simp] theorem run_nil (s : σ) : run step s [] = s := rfl

@[simp] theorem run_cons (s : σ) (e : ε) (es : List ε) :
    run step s (e :: es) = run step (step s e) es := rfl

theorem run_append (s : σ) (es es' : List ε) :
    run step s (es ++ es') = run step (run step s es) es' := List.foldl_append

theorem run_keeps {I : σ → Prop} (h : ∀ s e, I s → I (step s e)) {s : σ} (hs : I s) (es : List ε) :
    I (run step s es) := by
  induction es generalizing s with
  | nil => exact hs
  | cons e es ih => exact ih (h s e hs)

theorem run_keeps_along {I : σ → Prop} {P : σ → ε → Prop} (h : ∀ s e, I s → P s e → I (step s e))
    {s : σ} (hs : I s) {es : List ε} (hp : Along step P s es) : I (run step s es) := by
  induction es generalizing s with
  | nil => exact hs
  | cons e es ih => exact ih (h s e hs hp.1) hp.2

theorem along_of_forall {P : ε → Prop} {es : List ε} (h : ∀ e ∈ es, P e) (s : σ) :
    Along step (fun _ e => P e) s es := by
  induction es generalizing s with
  | nil => trivial
  | cons e es ih => exact ⟨h e List.mem_cons_self, ih (fun e' he => h e' (List.mem_cons_of_mem _ he)) _⟩

theorem along_append {P : σ → ε → Prop} {s : σ} {es es' : List ε} :
    Along step P s (es ++ es') ↔ Along step P s es ∧ Along step P (run step s es) es' := by
  induction es generalizing s with
  | nil => exact (iff_of_eq (true_and _)).symm
  | cons e es ih => exact (and_congr_right fun _ => ih).trans and_assoc.symm

/-- What holds of all steps holds of the last one. -/
theorem Along.last {P : σ → ε → Prop} {s : σ} {es : List ε} {e : ε} (h : Along step P s (es ++ [e])) :
    P (run step s es) e := (along_append.1 h).2.1

/-- What every good step from a state with `I` has, all steps of a good run have. -/
theorem along_of_along {I : σ → Prop} {P Q : σ → ε → Prop} (hI : ∀ s e, I s → P s e → I (step s e))
    (h : ∀ s e, I s → P s e → Q s e) {s : σ} (hs : I s) {es : List ε} (hp : Along step P s es) :
    Along step Q s es := by
  induction es generalizing s with
  | nil => trivial
  | cons e es ih => exact ⟨h s e hs hp.1, ih (hI s e hs hp.1) hp.2⟩

/-- **The condition on the steps is exact.** `I` is what every step keeps, `Q` what
only the good ones do. -/
theorem always_iff_along {I Q : σ → Prop} {P : σ → ε → Prop} (hI : ∀ s e, I s → I (step s e))
    (h : ∀ s e, I s → Q s → (Q (step s e) ↔ P s e)) {s : σ} (hs : I s) (hq : Q s) {es : List ε} :
    Always step Q s es ↔ Along step P s es := by
  induction es generalizing s with
  | nil => simp [Always, Along, hq]
  | cons e es ih =>
    constructor
    · rintro ⟨-, h2⟩
      have hq' : Q (step s e) := by cases es with
        | nil => exact h2
        | cons => exact h2.1
      exact ⟨(h s e hs hq).1 hq', (ih (hI s e hs) hq').1 h2⟩
    · rintro ⟨h1, h2⟩
      have hq' := (h s e hs hq).2 h1
      exact ⟨hq, (ih (hI s e hs) hq').2 h2⟩

theorem Always.last {Q : σ → Prop} {s : σ} {es : List ε} (h : Always step Q s es) :
    Q (run step s es) := by
  induction es generalizing s with
  | nil => exact h
  | cons e es ih => exact ih h.2

end Run
