import Mathlib.Data.Nat.Notation

/-!
# Context variables

Python's `contextvars`. A `Context` maps variables to values; `set` returns a token
that can put the old value back once, in the `Context` it was made in.

`Scope μ` is what code that runs in one `Context` sees: the `Context`'s name, its
values `μ`, and the tokens handed out so far. A variable is a field of `μ`.
-/

namespace ContextVar



/-- What `set` found, and where. -/
structure Token (α : Type) where
  id : ℕ
  context : ℕ
  old : α
deriving DecidableEq

/-- Why a token cannot be used: it was used before (`RuntimeError`), or it belongs to
another `Context` (`ValueError`). -/
inductive TokenError
  | used
  | elsewhere
deriving DecidableEq

/-- The tokens handed out: how many, and which were used. -/
structure Ledger where
  next : ℕ
  used : List ℕ
deriving DecidableEq

/-- A variable: a field of the values `μ`. -/
structure Var (μ α : Type) where
  get : μ → α
  put : α → μ → μ

variable {μ α : Type}

/-- `var.set(a)`, in the `Context` called `context`. -/
def Var.set (x : Var μ α) (context : ℕ) (a : α) (m : μ) (l : Ledger) : Token α × μ × Ledger :=
  (⟨l.next, context, x.get m⟩, x.put a m, { l with next := l.next + 1 })

/-- `var.reset(token)`. -/
def Var.reset (x : Var μ α) (context : ℕ) (t : Token α) (m : μ) (l : Ledger) :
    Except TokenError (μ × Ledger) :=
  if t.id ∈ l.used then .error .used
  else if t.context ≠ context then .error .elsewhere
  else .ok (x.put t.old m, { l with used := t.id :: l.used })

end ContextVar
