import RlsTenants.Lib.Txn

/-!
# The record of a session's GUCs

`ContextGucs` are the admin and tenant GUC values an RLS context sets
(`tenants/state.py`). `SessionGUCs` is what the library knows about the two GUCs of
one database session (`_SessionGUCs` in `tenants/affinity.py`): the values it left
there, and how the open transaction may undo them.
-/

namespace RlsTenants

open Txn

/-- The admin and tenant GUC values an RLS context sets. -/
structure ContextGucs where
  isAdmin : String
  currentTenant : String
deriving DecidableEq, Repr

/-- The values of `tenant_context(tenant_id)`, for `str(tenant_id)`. -/
def ContextGucs.forTenant (tenantId : String) : ContextGucs := ⟨"false", tenantId⟩

/-- The values of `admin_context()`: the tenant GUC is cleared, not a sentinel. -/
def adminGucs : ContextGucs := ⟨"true", ""⟩

/-- Both GUCs empty. PostgreSQL's policies read an unset GUC and an empty one alike. -/
def ContextGucs.cleared : ContextGucs := ⟨"", ""⟩

/-- The two GUCs. -/
inductive Guc
  | isAdmin
  | currentTenant
deriving DecidableEq

/-- The value of one GUC. -/
def ContextGucs.get (g : ContextGucs) : Guc → String
  | .isAdmin => g.isAdmin
  | .currentTenant => g.currentTenant

/-- Set one GUC. -/
def ContextGucs.put (name : Guc) (value : String) (g : ContextGucs) : ContextGucs :=
  match name with
  | .isAdmin => { g with isAdmin := value }
  | .currentTenant => { g with currentTenant := value }

@[simp] theorem ContextGucs.get_put_same (name : Guc) (v : String) (g : ContextGucs) :
    (g.put name v).get name = v := by cases name <;> rfl

theorem ContextGucs.get_put_other {name name' : Guc} (h : name' ≠ name) (v : String) (g : ContextGucs) :
    (g.put name v).get name' = g.get name' := by
  cases name <;> cases name' <;> first | rfl | exact absurd rfl h

/-- The values a session holds in the active context, none for no context. -/
def valuesOf : Option ContextGucs → ContextGucs
  | none => .cleared
  | some g => g

/-- The values the library left on a session; `known none` when no context's values
are in force. -/
inductive Tracked
  | unknown
  | known (values : Option ContextGucs)
deriving DecidableEq

/-- libpq's transaction status. -/
inductive Status
  | idle
  | active
  | inTransaction
  | inError
  | bad
deriving DecidableEq

/-- A savepoint's name, as PostgreSQL compares it. -/
abbrev Name : Type := List Char

instance : LawfulBEq Name := inferInstanceAs (LawfulBEq (List Char))

/-- What the library knows about the admin and tenant GUCs of one database session.
`savepoints` is newest first. -/
structure SessionGUCs where
  raw : Option ℕ
  values : Tracked
  inTransaction : Bool
  base : Tracked
  changed : Bool
  wroteLocal : Bool
  wroteSession : Bool
  savepoints : Stack Name Tracked

namespace SessionGUCs

/-- A record that has no session yet. -/
def init : SessionGUCs := ⟨none, .unknown, false, .unknown, false, false, false, []⟩

/-- Start tracking a new session, whose GUCs hold `values`. -/
def attach (_ : SessionGUCs) (raw : ℕ) (values : Tracked) : SessionGUCs :=
  ⟨some raw, values, false, values, false, false, false, []⟩

/-- Record `values` as what the session holds. -/
def setValues (t : SessionGUCs) (values : Tracked) (isLocal : Bool) : SessionGUCs :=
  let t :=
    if t.inTransaction then
      if isLocal then { t with wroteLocal := true } else { t with wroteSession := true }
    else t
  if values ≠ t.values then
    { t with values := values, changed := if t.inTransaction then true else t.changed }
  else t

/-- Record that the values are not known, as after a change for the session. -/
def forget (t : SessionGUCs) : SessionGUCs := t.setValues .unknown false

/-- Record that the session's own values may have changed unseen. -/
def suspectSession (t : SessionGUCs) (underLocalValues : Bool) : SessionGUCs :=
  if t.inTransaction && underLocalValues then { t with wroteSession := true, wroteLocal := true }
  else t.forget

/-- What the end of the transaction leaves on the session; `committed` is `none` if
it is not known whether it committed. -/
def valuesAfter (t : SessionGUCs) (committed : Option Bool) : Tracked :=
  if committed = some false ∨ t.wroteSession = false then t.base
  else if t.wroteLocal = true ∨ (committed = none ∧ t.values ≠ t.base) then .unknown
  else t.values

/-- Follow the end of the transaction, and what it leaves on the session. -/
def endTransaction (t : SessionGUCs) (committed : Option Bool) : SessionGUCs :=
  let t :=
    if t.inTransaction then { t with values := t.valuesAfter committed, inTransaction := false } else t
  { t with savepoints := [] }

/-- Bring the record up to date with the session's transaction status. -/
def syncTransaction (t : SessionGUCs) (status : Status) : SessionGUCs :=
  if status = .idle then
    if t.inTransaction then t.endTransaction none else t
  else if t.inTransaction then t
  else { t with
    inTransaction := true, base := t.values, changed := false, wroteLocal := false,
    wroteSession := false, savepoints := [] }

end SessionGUCs

end RlsTenants
