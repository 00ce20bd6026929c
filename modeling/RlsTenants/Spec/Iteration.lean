import RlsTenants.Lib.Generator

/-!
# Iteration over a `for_user()` queryset

`iterator()` and `aiterator()` of `tenants/managers.py`: Django's row source is pulled
chunk by chunk, each chunk inside a scope of the user's, and the rows are handed out
between the scopes.

A `Thread` is what the consumer and the library share: the tenant `ContextVar` values and
the alias that the queryset is pinned to. `pulls` is where each pull on the row source
happened.
-/

namespace RlsTenants

namespace Iteration

open Generator

variable {κ α ε β : Type}

/-- What the code of a thread sees: the tenant `ContextVar` values, and the queryset's
`_db`. -/
structure Surroundings (κ : Type) where
  vars : κ
  db : Option String
deriving DecidableEq

/-- A thread, and what surrounded each pull on the row source, newest first. -/
structure Thread (κ : Type) where
  here : Surroundings κ
  pulls : List (Surroundings κ)

/-- Django's row source: what it has yet to give. -/
def source : Gen (Rest α ε) (Thread κ) α ε where
  next rest t := (rest.pull.1, rest.pull.2, { t with pulls := t.here :: t.pulls })

/-! ## Scopes -/

/-- Make `self.db` return `using` inside the block (`_pinned_db`). -/
def pinnedDb (using_ : String) (block : Thread κ → β × Thread κ) (t : Thread κ) : β × Thread κ :=
  let db := t.here.db
  let (b, t) := block { t with here := { t.here with db := some using_ } }
  (b, { t with here := { t.here with db } })

/-- Set the tenant `ContextVar` values around the block (`_rls_state`). -/
def rlsState (vars : κ) (block : Thread κ → β × Thread κ) (t : Thread κ) : β × Thread κ :=
  let enclosing := t.here.vars
  let (b, t) := block { t with here := { t.here with vars } }
  (b, { t with here := { t.here with vars := enclosing } })

/-- Apply the user's RLS context around the block, on the alias (`_rls_scope`). -/
def rlsScope (user : κ) (using_ : String) (block : Thread κ → β × Thread κ) : Thread κ → β × Thread κ :=
  pinnedDb using_ (rlsState user block)

/-- A scope around the pulls of a chunk: the block gives rows or an error, and the row
source. -/
def chunkScope {σ : Type} (user : κ) (using_ : String) (block : Thread κ → Except ε (List α) × σ × Thread κ)
    (t : Thread κ) : Except ε (List α) × σ × Thread κ :=
  let ((rows, s), t) := rlsScope user using_ (fun t => let (rows, s, t) := block t; ((rows, s), t)) t
  (rows, s, t)

/-! ## Iteration -/

/-- `QuerySet.iterator()`'s default chunk size (`_ITERATOR_CHUNK_SIZE`). -/
def iteratorChunkSize : ℕ := 2000

/-- `chunk_size or _ITERATOR_CHUNK_SIZE`. -/
def sizeOf (chunkSize : Option ℕ) : ℕ :=
  match chunkSize with
  | none => iteratorChunkSize
  | some 0 => iteratorChunkSize
  | some size => size

/-- The states of the generator that `iterator()` returns. -/
abbrev ScopedRows (α ε : Type) : Type := Chunked (Rest α ε) α

/-- Yield the rows, pulling every chunk inside a scope (`_scoped_chunks`, for the alias
that `iterator()` resolved). -/
def scopedChunks (user : κ) (using_ : String) (chunkSize : Option ℕ) : Gen (ScopedRows α ε) (Thread κ) α ε :=
  source.chunked (sizeOf chunkSize) (chunkScope user using_)

/-- A thread-sensitive hop: it runs on the values of the coroutine's context, and hands
their changes back. -/
def syncToAsync {σ : Type} (block : Thread κ → Except ε (List α) × σ × Thread κ) :
    Thread κ → Except ε (List α) × σ × Thread κ := block

/-- `aiterator()`: each chunk of `iterator()` is pulled in a hop. -/
def aiterator (user : κ) (using_ : String) (chunkSize : ℕ) :
    Gen (Chunked (ScopedRows α ε) α) (Thread κ) α ε :=
  (scopedChunks user using_ (some chunkSize)).chunked chunkSize syncToAsync

/-- The alias of the scopes: the queryset's, else the router's answer (`self.db`). -/
def readAlias (router : String) (t : Thread κ) : String := t.here.db.getD router

/-- The calls of `next` on `iterator()`, from the thread it is called on: what each gives,
and the threads before and after it. -/
def iterate (user : κ) (router : String) (chunkSize : Option ℕ) (rows : Rest α ε) (consumer : List (Thread κ → Thread κ))
    (t : Thread κ) : List (Pull α ε × Thread κ × Thread κ) :=
  (scopedChunks user (readAlias router t) chunkSize).calls consumer (.fetch rows) t

/-- The calls of `anext` on `aiterator()`, which calls `iterator()` at the first of them. -/
def aiterate (user : κ) (router : String) (chunkSize : ℕ) (rows : Rest α ε) :
    List (Thread κ → Thread κ) → Thread κ → List (Pull α ε × Thread κ × Thread κ)
  | [], _ => []
  | consume :: rest, t =>
    (aiterator user (readAlias router (consume t)) chunkSize).calls (consume :: rest) (.fetch (.fetch rows)) t

/-- A call of `next` that leaves the consumer's surroundings alone, and pulls only inside
the scope. -/
structure InScope (user : κ) (using_ : String) (before after : Thread κ) : Prop where
  here : after.here = before.here
  pulls : ∃ new, after.pulls = new ++ before.pulls ∧ ∀ p ∈ new, p = ⟨user, some using_⟩

end Iteration

end RlsTenants
