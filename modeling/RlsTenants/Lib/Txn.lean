import Mathlib.Logic.Basic
import Mathlib.Data.List.Basic

/-!
# Values that transactions undo

A variable whose writes a transaction may keep or undo, with two scopes. A write
**for the session** stays after a commit; a **local** write hides the session's value
until the transaction ends, however it ends. Savepoints form a stack of named
levels: going back to one restores both values, releasing one keeps them.

`Stack` is a stack of named entries, newest first; a name stands for the newest
entry that bears it. `Follows H D R S` says that the stack `R` is a record of the
stack `S`: it may hold entries `S` has dropped (as long as the name of such an entry
is not that of one below it) and may lack entries whose names are in `H`. Going to a
name outside `H` finds matching entries on both sides (`Follows.seek`).
-/

namespace Txn

variable {ν α β γ : Type}

/-! ## Named stacks -/

/-- A stack of named entries, newest first. -/
abbrev Stack (ν β : Type) : Type := List (ν × β)

/-- The newest entry called `n`, and what lies below it. -/
def seek [DecidableEq ν] (n : ν) : Stack ν β → Option (β × Stack ν β)
  | [] => none
  | (m, b) :: rest => if m = n then some (b, rest) else seek n rest

section Seek

variable [DecidableEq ν]

@[simp] theorem seek_nil (n : ν) : seek n ([] : Stack ν β) = none := rfl

theorem seek_cons (n m : ν) (b : β) (rest : Stack ν β) :
    seek n ((m, b) :: rest) = if m = n then some (b, rest) else seek n rest := rfl

@[simp] theorem seek_head (n : ν) (b : β) (rest : Stack ν β) :
    seek n ((n, b) :: rest) = some (b, rest) := if_pos rfl

theorem seek_mem {n : ν} {S S' : Stack ν β} {b : β} (h : seek n S = some (b, S')) :
    (n, b) ∈ S ∧ ∀ e ∈ S', e ∈ S := by
  induction S with
  | nil => simp at h
  | cons e rest ih =>
    obtain ⟨m, c⟩ := e
    rw [seek_cons] at h
    by_cases hm : m = n
    · subst hm
      simp only [if_true, Option.some.injEq, Prod.mk.injEq] at h
      obtain ⟨rfl, rfl⟩ := h
      exact ⟨List.mem_cons_self, fun e he => List.mem_cons_of_mem _ he⟩
    · rw [if_neg hm] at h
      exact ⟨List.mem_cons_of_mem _ (ih h).1, fun e he => List.mem_cons_of_mem _ ((ih h).2 e he)⟩

theorem seek_eq_none {n : ν} {S : Stack ν β} : seek n S = none ↔ n ∉ S.map Prod.fst := by
  induction S with
  | nil => simp
  | cons e rest ih =>
    obtain ⟨m, c⟩ := e
    rw [seek_cons]
    by_cases hm : m = n
    · simp [hm]
    · rw [if_neg hm, ih]; simp [Ne.symm hm]

end Seek

/-- `R` is a record of the stack `S`, up to entries dropped from `S` and entries
named in `H` that were pushed unseen. -/
inductive Follows (H : ν → Prop) (D : β → γ → Prop) : Stack ν β → Stack ν γ → Prop
  | nil : Follows H D [] []
  | kept {R S} (n : ν) {b : β} {c : γ} : Follows H D R S → D b c →
      Follows H D ((n, b) :: R) ((n, c) :: S)
  | stale {R S} (n : ν) {b : β} : Follows H D R S → n ∉ S.map Prod.fst →
      Follows H D ((n, b) :: R) S
  | unseen {R S} (n : ν) {c : γ} : Follows H D R S → H n → Follows H D R ((n, c) :: S)

namespace Follows

variable {H : ν → Prop} {D D' : β → γ → Prop} {R : Stack ν β} {S S' : Stack ν γ}

theorem mono (h : Follows H D R S) (hD : ∀ b, ∀ e ∈ S, D b e.2 → D' b e.2) : Follows H D' R S := by
  induction h with
  | nil => exact nil
  | kept n _ hbc ih =>
    exact (ih fun b e he => hD b e (List.mem_cons_of_mem _ he)).kept n (hD _ _ List.mem_cons_self hbc)
  | stale n _ hn ih => exact (ih hD).stale n hn
  | unseen n _ hn ih => exact (ih fun b e he => hD b e (List.mem_cons_of_mem _ he)).unseen n hn

/-- **A name stands for matching entries.** Going to a name outside `H` on the stack
finds the record of that very entry, and what lies below it is still recorded. -/
theorem seek [DecidableEq ν] (h : Follows H D R S) {n : ν} {c : γ} (hn : ¬H n)
    (hs : Txn.seek n S = some (c, S')) :
    ∃ b R', Txn.seek n R = some (b, R') ∧ D b c ∧ Follows H D R' S' := by
  induction h with
  | nil => simp at hs
  | kept m hf hbc ih =>
    rw [seek_cons] at hs
    by_cases hm : m = n
    · subst hm
      simp only [if_true, Option.some.injEq, Prod.mk.injEq] at hs
      obtain ⟨rfl, rfl⟩ := hs
      exact ⟨_, _, seek_head _ _ _, hbc, hf⟩
    · rw [if_neg hm] at hs
      obtain ⟨b, R', h1, h2⟩ := ih hs
      exact ⟨b, R', by rw [seek_cons, if_neg hm]; exact h1, h2⟩
  | stale m hf hm ih =>
    have hne : m ≠ n := by
      rintro rfl
      rw [seek_eq_none.2 hm] at hs
      simp at hs
    obtain ⟨b, R', h1, h2⟩ := ih hs
    exact ⟨b, R', by rw [seek_cons, if_neg hne]; exact h1, h2⟩
  | unseen m hf hH ih =>
    have hne : m ≠ n := by rintro rfl; exact hn hH
    rw [seek_cons, if_neg hne] at hs
    exact ih hs

end Follows

/-! ## The variable -/

/-- What one level of a transaction holds: the value a commit keeps, and the value
statements see. -/
structure Level (α : Type) where
  session : α
  current : α
deriving DecidableEq

/-- An open transaction. -/
structure Open (ν α : Type) where
  start : α
  level : Level α
  savepoints : Stack ν (Level α)
  failed : Bool
deriving DecidableEq

/-- A session's variable: outside a transaction, or in one. -/
inductive State (ν α : Type)
  | idle (v : α)
  | inTx (o : Open ν α)
deriving DecidableEq

/-- A transaction that has just started. -/
def Open.fresh (v : α) : Open ν α := ⟨v, ⟨v, v⟩, [], false⟩

/-- What a commit of the transaction keeps: nothing, when it has failed. -/
def Open.committed (o : Open ν α) : α := if o.failed then o.start else o.level.session

namespace State

/-- What a statement sees. -/
def current : State ν α → α
  | idle v => v
  | inTx o => o.level.current

/-- What is left if the transaction, if any, is undone. -/
def durable : State ν α → α
  | idle v => v
  | inTx o => o.start

/-- Start a transaction; in one, nothing happens. -/
def start : State ν α → State ν α
  | idle v => inTx (Open.fresh v)
  | inTx o => inTx o

def commit : State ν α → State ν α
  | idle v => idle v
  | inTx o => idle o.committed

def rollback (s : State ν α) : State ν α := idle s.durable

/-- A statement failed: the transaction, if any, can only be undone. -/
def fail : State ν α → State ν α
  | idle v => idle v
  | inTx o => inTx { o with failed := true }

/-- Write for the session: `f` maps the old value to the new one. -/
def write (f : α → α) : State ν α → State ν α
  | idle v => idle (f v)
  | inTx o => inTx { o with level := ⟨f o.level.session, f o.level.current⟩ }

/-- Write for the transaction only; outside one, the write ends with its statement. -/
def writeLocal (f : α → α) : State ν α → State ν α
  | idle v => idle v
  | inTx o => inTx { o with level := ⟨o.level.session, f o.level.current⟩ }

def isFailed : State ν α → Bool
  | idle _ => false
  | inTx o => o.failed

end State

/-- Set a savepoint. -/
def Open.savepoint (n : ν) (o : Open ν α) : Open ν α :=
  { o with savepoints := (n, o.level) :: o.savepoints }

/-- Release the newest savepoint called `n`, and those set after it. -/
def Open.release [DecidableEq ν] (n : ν) (o : Open ν α) : Option (Open ν α) :=
  (seek n o.savepoints).map fun (_, below) => { o with savepoints := below }

/-- Go back to the newest savepoint called `n`, which stays; also out of a failure. -/
def Open.rollbackTo [DecidableEq ν] (n : ν) (o : Open ν α) : Option (Open ν α) :=
  (seek n o.savepoints).map fun (l, below) =>
    { o with level := l, savepoints := (n, l) :: below, failed := false }

@[simp] theorem Open.fresh_start (v : α) : (Open.fresh v : Open ν α).start = v := rfl
@[simp] theorem Open.fresh_level (v : α) : (Open.fresh v : Open ν α).level = ⟨v, v⟩ := rfl
@[simp] theorem Open.fresh_savepoints (v : α) : (Open.fresh v : Open ν α).savepoints = [] := rfl
@[simp] theorem Open.fresh_failed (v : α) : (Open.fresh v : Open ν α).failed = false := rfl

@[simp] theorem State.durable_fail (s : State ν α) : s.fail.durable = s.durable := by cases s <;> rfl

theorem Open.release_eq_some [DecidableEq ν] {n : ν} {o o' : Open ν α} (h : o.release n = some o') :
    ∃ l below, seek n o.savepoints = some (l, below) ∧ o' = { o with savepoints := below } := by
  simp only [Open.release, Option.map_eq_some_iff, Prod.exists] at h
  obtain ⟨l, below, hs, rfl⟩ := h
  exact ⟨l, below, hs, rfl⟩

theorem Open.rollbackTo_eq_some [DecidableEq ν] {n : ν} {o o' : Open ν α}
    (h : o.rollbackTo n = some o') :
    ∃ l below, seek n o.savepoints = some (l, below) ∧
      o' = { o with level := l, savepoints := (n, l) :: below, failed := false } := by
  simp only [Open.rollbackTo, Option.map_eq_some_iff, Prod.exists] at h
  obtain ⟨l, below, hs, rfl⟩ := h
  exact ⟨l, below, hs, rfl⟩

end Txn
