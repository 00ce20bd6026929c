import RlsTenants.Lib.Run
import RlsTenants.Spec.Blocks
import RlsTenants.Spec.Session

/-!
# The runs of a thread

What a thread does with its connections, in any order: statements on any alias, context
blocks and blocks without context entered and left, the middleware's clears, Django's
commits and rollbacks, and code of another `Context` that comes to run. What goes wrong is
in the `fates`, `faults` and `opens` of the connections.

* `Deed` is one thing it does, and `Running.step` does it.
* `sessionGucs` are the GUC values that a session holds for itself: what it would have after
  a commit, after a rollback, or back at a savepoint.
* `Deed.written` and `Running.found` say where such values can come from other than the
  library: a statement that writes them, or a pool's session that held them already.
-/

namespace RlsTenants

open Txn Effect Comp

/-- A thread, with the blocks it has entered (newest first). -/
structure Running where
  thread : Thread
  blocks : List Frame
  noContexts : List StateTokens

/-- A context block: `tenant_context()`, `admin_context()`, or the scope of `for_user()`. -/
inductive ContextBlock
  | tenant (tenantId : TenantId)
  | admin
  | user (tenantId : Option TenantId) (gucs : ContextGucs)

def ContextBlock.enter (dbAlias : ℕ) : ContextBlock → Prog Frame
  | tenant tenantId => tenantContext dbAlias tenantId
  | admin => adminContext dbAlias
  | user tenantId gucs => forUser dbAlias tenantId gucs

/-- One thing that a thread does. -/
inductive Deed
  | connect (dbAlias : ℕ)
  | statement (dbAlias : ℕ) (sql : Sql)
  | enter (dbAlias : ℕ) (block : ContextBlock)
  | exit (block : ℕ) (pending : Bool)
  | enterNoContext
  | exitNoContext (block : ℕ)
  | clearAliasGucs (dbAlias : ℕ)
  | suspectSessions
  | transactionEnd (dbAlias : ℕ) (committed : Bool)
  | atomic (dbAlias : ℕ) (inAtomicBlock needsRollback : Bool)
  | setAutocommit (dbAlias : ℕ) (autocommit : Bool)
  | close (dbAlias : ℕ)
  | switch (scope : Scope)

namespace Running

variable (s : Running)

/-- Do something, whether it raises or not. -/
def does (m : Prog Unit) : Running := { s with thread := (m s.thread).2 }

/-- Enter a block: one whose entry raises is not entered. -/
def enters (m : Prog Frame) : Running :=
  match m s.thread with
  | (.ok f, t) => { s with thread := t, blocks := f :: s.blocks }
  | (.error _, t) => { s with thread := t }

def entersNoContext : Running :=
  match enterState false none none s.thread with
  | (.ok tokens, t) => { s with thread := t, noContexts := tokens :: s.noContexts }
  | (.error _, t) => { s with thread := t }

/-- The state after a deed. A block that has been left stays in the list. -/
def step (s : Running) : Deed → Running
  | .connect dbAlias => s.does (on dbAlias ensureConnection)
  | .statement dbAlias sql => s.does (on dbAlias fun env => throughCursor env sql)
  | .enter dbAlias block => s.enters (block.enter dbAlias)
  | .exit i pending => (s.blocks[i]?).elim s fun f => s.does (exitContext f pending)
  | .enterNoContext => s.entersNoContext
  | .exitNoContext i => (s.noContexts[i]?).elim s fun tokens => s.does (RlsTenants.exitNoContext tokens)
  | .clearAliasGucs dbAlias => s.does (on dbAlias fun env => writeGucs env none false)
  | .suspectSessions => s.does (RlsTenants.suspectSessions true)
  | .transactionEnd dbAlias committed => s.does (on dbAlias fun _ => RlsTenants.transactionEnd committed)
  | .atomic dbAlias inAtomicBlock needsRollback => s.does (on dbAlias fun _ =>
      modify fun c => { c with inAtomicBlock := inAtomicBlock, needsRollback := needsRollback })
  | .setAutocommit dbAlias autocommit => s.does (on dbAlias fun _ => RlsTenants.setAutocommit autocommit)
  | .close dbAlias => s.does (on dbAlias fun _ => RlsTenants.close)
  | .switch scope => { s with thread := { s.thread with scope := scope } }

end Running

/-! ## What a session holds for itself -/

/-- The GUC values that a session holds for itself. -/
def sessionGucs : Backend → List ContextGucs
  | .idle v => [v.gucs]
  | .inTx o => o.start.gucs :: o.level.session.gucs :: o.savepoints.map fun p => p.2.session.gucs

/-- The values of both GUCs, by name. -/
def ContextGucs.named (g : ContextGucs) : List (Guc × String) :=
  [(.isAdmin, g.isAdmin), (.currentTenant, g.currentTenant)]

/-- The values that a command writes for the session. -/
def Command.written : Command → List (Guc × String)
  | .setGucs values false => values.named
  | .setGuc name value false => [(name, value)]
  | _ => []

/-- The values that a deed's own statement writes for the session of the alias. -/
def Deed.written (dbAlias : ℕ) : Deed → List (Guc × String)
  | statement target sql => if target = dbAlias then sql.commands.flatMap Command.written else []
  | _ => []

/-- The values on the sessions that connecting will give. -/
def Connection.found (c : Connection) : List (Guc × String) :=
  c.opens.flatMap fun new => new.found.elim [] ContextGucs.named

/-- The same, for an alias. -/
def Running.found (s : Running) (dbAlias : ℕ) : List (Guc × String) :=
  (s.thread.conns[dbAlias]?).elim [] Connection.found

/-- A value on the session of the alias that the library did not write: an empty one, one that
was there when a pool handed the session out, or one that a statement of the run wrote. -/
def FromElsewhere (s : Running) (deeds : List Deed) (dbAlias : ℕ) (name : Guc) (value : String) : Prop :=
  value = "" ∨ (name, value) ∈ s.found dbAlias ∨ (name, value) ∈ deeds.flatMap (Deed.written dbAlias)

/-- A thread that has not connected to any alias. -/
structure Running.Unconnected (s : Running) : Prop where
  closed : ∀ c ∈ s.thread.conns, c.link = .closed
  empty : ∀ c ∈ s.thread.conns, sessionGucs c.pg = [.cleared]

end RlsTenants
