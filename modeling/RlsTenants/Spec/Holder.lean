import RlsTenants.Lib.ContextVar
import RlsTenants.Lib.Effect
import RlsTenants.Spec.Tracker

/-!
# The holder of the active context

The tenant state of `tenants/state.py`: three context variables, and the holders
that record the GUC values of the contexts (`_Live`). Every copy of a `Context`
shares the holders, so ending one ends its context for every copy. A holder is named
by its `serial`, its position in the store.

`pyNe` is the `!=` that `asgiref` evaluates before it copies a holder from one
`Context` into another.
-/

namespace RlsTenants

open ContextVar Effect

/-- A tenant's primary key. -/
inductive TenantId
  | int (n : Int)
  | str (s : String)
deriving DecidableEq

/-- `str(tenant_id)`. -/
def TenantId.toStr : TenantId → String
  | int n => toString n
  | str s => s

/-- A context's GUC values, shared by every copy of the context (`_Live`). -/
structure Live where
  values : Option ContextGucs
  block : Bool
  alive : Bool
deriving DecidableEq

/-- What every `Context` shares: the holders, by serial, and the tokens. -/
structure Store where
  lives : List Live
  ledger : Ledger
deriving DecidableEq

/-- The tenant variables of one `Context`. -/
structure Vars where
  tenantId : Option TenantId
  active : Bool
  live : Option ℕ
deriving DecidableEq

/-- What code that runs in the `Context` called `context` sees. -/
structure Scope where
  context : ℕ
  vars : Vars
  store : Store
deriving DecidableEq

/-- No tenant, no context. -/
def Vars.init : Vars := ⟨none, false, none⟩

def Vars.tenantIdVar : Var Vars (Option TenantId) := ⟨tenantId, fun a v => { v with tenantId := a }⟩
def Vars.activeVar : Var Vars Bool := ⟨active, fun a v => { v with active := a }⟩
def Vars.liveVar : Var Vars (Option ℕ) := ⟨live, fun a v => { v with live := a }⟩

/-- What entering a context returns: the variable's token, and the holder it set. -/
structure GucsToken where
  token : Token (Option ℕ)
  live : ℕ
deriving DecidableEq

namespace Store

/-- Whether a holder records a live context. -/
def isAlive (s : Store) (i : ℕ) : Bool := (s.lives[i]?).any (·.alive)

/-- Whether a holder is a block's. -/
def isBlock (s : Store) (i : ℕ) : Bool := (s.lives[i]?).any (·.block)

/-- The values a holder records, none if it has ended (or there is none). -/
def valuesOf (s : Store) (live : Option ℕ) : Option ContextGucs :=
  live.bind fun i => (s.lives[i]?).bind fun l => if l.alive then l.values else none

/-- End a holder, for every copy. -/
def endLive (i : ℕ) (s : Store) : Store :=
  { s with lives := s.lives.modify i fun l => { l with alive := false } }

/-- End `live`, a holder left current, if it is newer than `than` (or there is no `than`). -/
def endIfNewer (live than : Option ℕ) (s : Store) : Store :=
  match live, than with
  | none, _ => s
  | some i, none => s.endLive i
  | some i, some j => if j < i then s.endLive i else s

/-- A new holder; its serial is the number of holders so far. -/
def create (values : Option ContextGucs) (block : Bool) (s : Store) : Store :=
  { s with lives := s.lives ++ [⟨values, block, true⟩] }

/-- `!=` on holders: a block's holder differs from no other holder. -/
def pyNe (s : Store) : Option ℕ → Option ℕ → Bool
  | none, none => false
  | none, some _ => true
  | some _, none => true
  | some i, some j => i ≠ j && !s.isBlock j

end Store

namespace Scope

/-- The GUC values of the active context, none if none is live. -/
def contextGucs (s : Scope) : Option ContextGucs := s.store.valuesOf s.vars.live

/-- Set a variable. -/
def setVar {α : Type} (x : Var Vars α) (a : α) (s : Scope) : Token α × Scope :=
  let (t, vars, ledger) := x.set s.context a s.vars s.store.ledger
  (t, { s with vars := vars, store := { s.store with ledger := ledger } })

/-- Put back what a token found. -/
def resetVar {α : Type} (x : Var Vars α) (t : Token α) : Comp Scope TokenError Unit := fun s =>
  match x.reset s.context t s.vars s.store.ledger with
  | .error e => (.error e, s)
  | .ok (vars, ledger) => (.ok (), { s with vars := vars, store := { s.store with ledger := ledger } })

/-- Record the GUC values of the context being entered (`_set_context_gucs`). -/
def setContextGucs (values : Option ContextGucs) (block : Bool) (s : Scope) : GucsToken × Scope :=
  let live := s.store.lives.length
  let (t, s) := setVar Vars.liveVar (some live) { s with store := s.store.create values block }
  (⟨t, live⟩, s)

/-- End the context whose values are current (`_end_live_context`). -/
def endLiveContext (s : Scope) : Scope :=
  { s with store := s.vars.live.elim s.store fun i => s.store.endLive i }

/-- End the context entered with `entered`, and restore the enclosing one
(`_reset_context_gucs`). -/
def resetContextGucs (entered : GucsToken) : Comp Scope TokenError Unit := fun s =>
  let s := { s with store := s.store.endLive entered.live }
  let current := s.vars.live
  match resetVar Vars.liveVar entered.token s with
  | (.error .used, s) => (.error .used, s.endLiveContext)
  | (.error .elsewhere, s) => (.error .elsewhere, s)
  | (.ok (), s) => (.ok (), { s with store := s.store.endIfNewer current (some entered.live) })

/-- Hold the current holder until the release, or one of no context (`_hold_context_gucs`). -/
def holdContextGucs (s : Scope) : GucsToken × Scope :=
  match s.vars.live with
  | some live =>
    let (t, s) := setVar Vars.liveVar (some live) s
    (⟨t, live⟩, s)
  | none => setContextGucs none true s

/-- Restore the holder that was current when `held` was (`_release_context_gucs`). -/
def releaseContextGucs (held : GucsToken) : Comp Scope TokenError Unit := fun s =>
  let current := s.vars.live
  match resetVar Vars.liveVar held.token s with
  | (.error e, s) => (.error e, s)
  | (.ok (), s) => (.ok (), { s with store := s.store.endIfNewer current (some held.live) })

end Scope

end RlsTenants
