import RlsTenants.Spec.Guard
import RlsTenants.Spec.Holder

/-!
# Context blocks

The context managers of `tenants/context.py` and the `for_user()` scope of
`tenants/managers.py`, in one thread: what it sees of the context variables, and its
connections, by alias. The configured aliases are the guarded ones.

A block is an entry that returns a `Frame` and an exit that takes it, so that blocks
can be exited in any order. `pending` says that an exception is propagating.
-/

namespace RlsTenants

open Effect Comp ContextVar

/-- A thread: its settings, its context variables, and its connections. -/
structure Thread where
  conf : Conf
  scope : Scope
  conns : List Connection

/-- A computation of a thread. -/
abbrev Prog (α : Type) : Type := Comp Thread Exc α

/-- Run on one connection, with the context that is active now. -/
def on {α : Type} (dbAlias : ℕ) (m : Env → Db α) : Prog α := fun t =>
  match t.conns[dbAlias]? with
  | none => (.error (.exception 0), t)
  | some c =>
    match m ⟨t.conf, t.scope.contextGucs⟩ c with
    | (r, c') => (r, { t with conns := t.conns.set dbAlias c' })

/-- Run on the context variables. -/
def inScope {α : Type} (m : Comp Scope TokenError α) : Prog α := fun t =>
  match m t.scope with
  | (.ok a, s) => (.ok a, { t with scope := s })
  | (.error _, s) => (.error (.exception 0), { t with scope := s })

/-- The alias is one of `RLS_TENANTS["DATABASES"]`. -/
def Thread.configured (t : Thread) (dbAlias : ℕ) : Bool := (t.conns[dbAlias]?).any (·.guarded)

/-- Do something on every configured alias. -/
def onConfigured (f : ℕ → Prog Unit) : Prog Unit := do
  let aliases ← reads fun t => (List.range t.conns.length).filter t.configured
  each f aliases

/-- Take a context's values off the other connections (`settle_other_aliases`). -/
def settleOtherAliases (dbAlias? : Option ℕ) (cleared : Bool) : Prog Unit :=
  onConfigured fun dbAlias =>
    if some dbAlias = dbAlias? then pure () else on dbAlias fun env => settle env dbAlias?.isNone cleared

/-- Treat what the configured connections hold for the session as unknown
(`suspect_sessions`). -/
def suspectSessions (underLocalValues : Bool) : Prog Unit :=
  onConfigured fun dbAlias => on dbAlias fun _ => suspect underLocalValues

/-! ## One GUC at a time -/

/-- The text of `get_guc`. -/
def getGucSql : Text := "SELECT current_setting(%s, true)".toList

/-- The text of `set_guc`. -/
def setGucSql (conf : Conf) (name : Guc) (isLocal : Bool) : Text :=
  if isLocal then
    "SET LOCAL ".toList ++ (match name with
      | .isAdmin => conf.gucIsAdmin
      | .currentTenant => conf.gucCurrentTenant) ++ " TO %s".toList
  else "SELECT set_config(%s, %s, false)".toList

/-- Read a GUC; empty reads as none (`get_guc`). The statement changes nothing, so the
value it reads is the one the session holds when it has run. -/
def getGuc (env : Env) (name : Guc) : Db (Option String) := do
  ensureConnection env
  guard env ⟨.str getGucSql, [.other]⟩
  let value ← reads fun c => c.pg.current.gucs.get name
  pure (if value = "" then none else some value)

/-- Set a GUC, as the library's own write (`set_guc`, inside `writing`). -/
def setGuc (env : Env) (name : Guc) (value : String) (isLocal : Bool) : Db Unit := do
  if isLocal ∧ !(← reads (·.inAtomicBlock)) then throw (.exception 0)
  ensureConnection env
  guardWriting env ⟨.str (setGucSql env.conf name isLocal), [.setGuc name value isLocal]⟩

/-- Set several GUCs in turn. -/
def setGucEach (env : Env) (isLocal : Bool) : List (Guc × String) → Db Unit
  | [] => pure ()
  | (name, value) :: rest => do
    setGuc env name value isLocal
    setGucEach env isLocal rest

/-- Put GUCs back one by one; says whether all were (the loop of `restore_gucs`). -/
def restoreEach (env : Env) (isLocal pending : Bool) : List (Guc × Option String) → Db Bool
  | [] => pure true
  | (name, previous) :: rest => do
    let restored ← attempt
      (do
        setGuc env name (previous.getD "") isLocal
        pure true)
      fun e => if e.isDatabaseError && pending then pure false else raise e
    let others ← restoreEach env isLocal pending rest
    pure (restored && others)

/-- Put GUCs back to the values saved before a block, with Django's mark for rollback
lifted (`restore_gucs`). -/
def restoreGucs (env : Env) (previous : List (Guc × Option String)) (isLocal pending : Bool) : Db Bool := do
  if previous = [] then
    pure true
  else
    let needsRollback ← reads (·.needsRollback)
    modify fun c => { c with needsRollback := false }
    ensuring (restoreEach env isLocal pending previous)
      (modify fun c => { c with needsRollback := needsRollback })

/-! ## The tenant state -/

/-- The tokens of the three variables that a block sets. -/
structure StateTokens where
  active : Token Bool
  tenant : Token (Option TenantId)
  entered : GucsToken

/-- Set the tenant variables of a block, or of one without context (the entries of
`_rls_state` and `_no_rls_state`). -/
def enterState (active : Bool) (tenantId : Option TenantId) (gucs : Option ContextGucs) :
    Prog StateTokens := fun t =>
  let (a, s) := Scope.setVar Vars.activeVar active t.scope
  let (i, s) := Scope.setVar Vars.tenantIdVar tenantId s
  let (e, s) := Scope.setContextGucs gucs true s
  (.ok ⟨a, i, e⟩, { t with scope := s })

/-- Reset them, newest first; a failing reset does not skip the others. -/
def exitState (tokens : StateTokens) : Prog Unit :=
  ensuring (inScope (Scope.resetContextGucs tokens.entered))
    (ensuring (inScope (Scope.resetVar Vars.tenantIdVar tokens.tenant))
      (inScope (Scope.resetVar Vars.activeVar tokens.active)))

/-! ## Blocks -/

/-- What a block's exit needs: its tokens, the values it has to restore (none if it
wrote nothing), the session it entered on, and the enclosing holder. -/
structure Frame where
  dbAlias : ℕ
  tokens : StateTokens
  previous : Option (List (Guc × Option String))
  session : Option ℕ
  enclosing : Option ℕ

/-- Read both GUCs, after the guard has brought the connection to the active context
(`_snapshot_gucs`). -/
def snapshotGucs (env : Env) : Db (List (Guc × Option String)) := do
  let isAdmin ← getGuc env .isAdmin
  let currentTenant ← getGuc env .currentTenant
  pure [(.isAdmin, isAdmin), (.currentTenant, currentTenant)]

/-- Whether a block entered on the alias writes the GUCs itself (`_writes_gucs`). -/
def Thread.writesGucs (t : Thread) (dbAlias : ℕ) : Bool := !t.conf.useLocalSet || !t.configured dbAlias

/-- The driver connection of the alias, none if it is closed (`_session_of`). -/
def Thread.sessionOf (t : Thread) (dbAlias : ℕ) : Option ℕ :=
  (t.conns[dbAlias]?).bind fun c => if c.link = .closed then none else some c.raw

/-- Restore a block's snapshot on its alias and settle the others (`_restore_snapshot`). -/
def restoreSnapshot (f : Frame) (previous : List (Guc × Option String)) (pending : Bool) : Prog Unit := do
  let t ← reads id
  let isLocal := t.conf.useLocalSet
  let ended := f.enclosing.any fun live => !t.scope.store.isAlive live
  let previous := if ended then [(.isAdmin, none), (.currentTenant, none)] else previous
  if t.scope.vars.live ≠ f.enclosing then
    -- a generator closed in another `Context`: the snapshot is not this one's
    if f.session.isSome ∧ t.sessionOf f.dbAlias = f.session then
      on f.dbAlias fun env => writing .unknown isLocal do
        let _ ← restoreGucs env previous isLocal pending
    else on f.dbAlias fun _ => forget
    settleOtherAliases (some f.dbAlias) false
  else
    let restored ← on f.dbAlias fun env =>
      writing (.known env.context) isLocal (restoreGucs env previous isLocal pending)
    if !restored then on f.dbAlias fun _ => forget
    settleOtherAliases (some f.dbAlias) false

/-- Restore what a block changed, on its exit (`_restore_tenant_gucs`). -/
def restoreTenantGucs (f : Frame) (pending : Bool) : Prog Unit := do
  let isLocal ← reads (·.conf.useLocalSet)
  ensuring
    (match f.previous with
    | none => settleOtherAliases none false
    | some previous => restoreSnapshot f previous pending)
    (if isLocal then suspectSessions true else pure ())

/-- The exit of a context block. -/
def exitContext (f : Frame) (pending : Bool) : Prog Unit := do
  attempt (exitState f.tokens) fun e => do
    restoreTenantGucs f true
    raise e
  restoreTenantGucs f pending

/-- Enter a block: set its variables, write `writes` on its alias, and leave it again if
that fails. -/
def enterBlock (dbAlias : ℕ) (tenantId : Option TenantId) (gucs : ContextGucs)
    (previous : Option (List (Guc × Option String))) (writes : List (Guc × String)) : Prog Frame := do
  let t ← reads id
  let tokens ← enterState true tenantId (some gucs)
  let f : Frame := ⟨dbAlias, tokens, previous, t.sessionOf dbAlias, t.scope.vars.live⟩
  if previous.isSome then
    attempt
      (on dbAlias fun env =>
        writing (.known (some gucs)) t.conf.useLocalSet (setGucEach env t.conf.useLocalSet writes))
      fun e => do
        exitContext f true
        raise e
  pure f

/-- The entry of `tenant_context(tenant_id)` and, without a tenant, `admin_context()`. -/
def enterContext (dbAlias : ℕ) (tenantId : Option TenantId) (gucs : ContextGucs) : Prog Frame := do
  if ← reads (·.writesGucs dbAlias) then
    let previous ← on dbAlias snapshotGucs
    enterBlock dbAlias tenantId gucs (some previous)
      [(.isAdmin, gucs.isAdmin), (.currentTenant, gucs.currentTenant)]
  else enterBlock dbAlias tenantId gucs none []

/-- `tenant_context(tenant_id, using=alias)`. -/
def tenantContext (dbAlias : ℕ) (tenantId : TenantId) : Prog Frame :=
  enterContext dbAlias (some tenantId) (.forTenant tenantId.toStr)

/-- `admin_context(using=alias)`. -/
def adminContext (dbAlias : ℕ) : Prog Frame := enterContext dbAlias none adminGucs

/-- The GUCs of a snapshot that differ from the user's values: what a `for_user()` scope
changes, and what it found there. -/
def changedGucs (previous : List (Guc × Option String)) (gucs : ContextGucs) :
    List (Guc × Option String) :=
  previous.filter fun (name, value) => value.getD "" ≠ gucs.get name

/-- The entry of the `for_user()` scope of a user with this tenant and these values
(`_rls_scope`). -/
def forUser (dbAlias : ℕ) (tenantId : Option TenantId) (gucs : ContextGucs) : Prog Frame := do
  if ← reads (·.writesGucs dbAlias) then
    let previous ← on dbAlias snapshotGucs
    let changed := changedGucs previous gucs
    enterBlock dbAlias tenantId gucs (some changed) (changed.map fun (name, _) => (name, gucs.get name))
  else enterBlock dbAlias tenantId gucs none []

/-- Put the enclosing context back on the configured connections
(`_settle_after_no_context`). -/
def settleAfterNoContext : Prog Unit := do
  let isLocal ← reads (·.conf.useLocalSet)
  ensuring (suspectSessions isLocal) (settleOtherAliases none true)

/-- The exit of `_no_rls_state`; its entry is `enterState false none none`. -/
def exitNoContext (tokens : StateTokens) : Prog Unit := ensuring (exitState tokens) settleAfterNoContext

end RlsTenants
