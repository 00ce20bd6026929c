import RlsTenants.Spec.Postgres

/-!
# The GUC affinity guard

The execute wrapper of `tenants/affinity.py`, and the library's own writes. The
functions are the source's, on one connection:

* `observe`, `record`, `forget` and `writing` keep the record beside the session;
* `follow` updates it after transaction control and resets;
* `writeGucs` writes both GUCs, and `applyIfStale` brings the session to the active
  context;
* `runInOwnTransaction` gives an autocommit statement a transaction of its own;
* `guard` is the wrapper, and `guardWriting` the wrapper while the library writes
  (`_writes.depth` above 0), which only follows the transaction.
-/

namespace RlsTenants

open Txn Effect Comp

/-- The settings the guard reads. -/
structure Conf where
  useLocalSet : Bool
  gucPrefix : Text

def Conf.gucIsAdmin (conf : Conf) : Text := conf.gucPrefix ++ ".is_admin".toList
def Conf.gucCurrentTenant (conf : Conf) : Text := conf.gucPrefix ++ ".current_tenant".toList

/-- What a statement runs under: the settings, and the active context's values. -/
structure Env where
  conf : Conf
  context : Option ContextGucs

/-- A statement: what is handed to the cursor, and what PostgreSQL takes it for. -/
structure Sql where
  object : SqlObject
  commands : List Command

/-! ## The record beside the session -/

/-- Bring the record up to date with the session, and return its transaction status
(`_observe`). -/
def observe : Db Status := do
  if (← reads (·.link)) = .closed then
    pure .bad
  else
    modify fun c =>
      if c.tracker.raw = some c.raw then c else { c with tracker := c.tracker.attach c.raw .unknown }
    let status ← readStatus
    modify fun c => { c with tracker := c.tracker.syncTransaction status }
    pure status

/-- Note that the library has left the GUCs at `values` (`_record`). -/
def record (values : Tracked) (isLocal : Bool) : Db Unit := do
  if (← reads (·.link)) ≠ .closed then
    let _ ← observe
    modify fun c =>
      { c with tracker := c.tracker.setValues (if c.guarded then values else .unknown) isLocal }

/-- Mark the values unknown (`_forget`). -/
def forget : Db Unit := modify fun c => { c with tracker := c.tracker.forget }

/-- A block that is the library's own write: `values` is recorded when it exits, or
nothing known if it raised (`writing`). -/
def writing {α : Type} (values : Tracked) (isLocal : Bool) (block : Db α) : Db α := do
  let a ← attempt block fun e => do
    forget
    raise e
  record values isLocal
  pure a

/-! ## Following the SQL that runs -/

/-- Follow `RELEASE` or `ROLLBACK TO` of a savepoint, `none` if it is unclear which
(`_follow_savepoint_end`). -/
def SessionGUCs.followSavepointEnd (name : Option Name) (rolledBack : Bool) (t : SessionGUCs) :
    SessionGUCs :=
  match name with
  | none => t.forget
  | some n =>
    match seek n t.savepoints with
    -- set where the guard could not see it: nothing to go back to
    | none => if t.changed then t.forget else t
    | some (values, below) =>
      if rolledBack then { t with values := values, savepoints := (n, values) :: below }
      else { t with savepoints := below }

/-- The statement's first argument, in upper case. -/
def Statement.argument (s : Statement) : Text := ((s.words[1]?).map fun w => upper (identifier w)).getD []

/-- The statement is `ROLLBACK ... TO ...`. -/
def Statement.rollsBackTo (s : Statement) : Bool :=
  s.command = "ROLLBACK".toList && (s.words.map upper).contains "TO".toList

/-- The end of a transaction that the statement is read as (the first half of `_follow`). -/
def SessionGUCs.followEnd (s : Statement) (statusBefore : Status) (t : SessionGUCs) : SessionGUCs :=
  if (s.command = "ROLLBACK".toList ∨ s.command = "ABORT".toList) ∧ ¬s.rollsBackTo then
    t.endTransaction (some false)
  else if s.command = "COMMIT".toList ∨ s.command = "END".toList then
    -- PostgreSQL answers COMMIT in a failed transaction with ROLLBACK
    t.endTransaction (some (statusBefore ≠ .inError))
  else if s.command = "PREPARE".toList ∧ s.argument = "TRANSACTION".toList then
    (t.endTransaction (some false)).forget
  else t

/-- The savepoint that the statement is read as setting or ending (the second half). -/
def SessionGUCs.followSavepoint (s : Statement) (t : SessionGUCs) : SessionGUCs :=
  if s.command = "SAVEPOINT".toList then
    match savepointName s.words "SAVEPOINT".toList with
    | none => t.forget
    | some n => { t with savepoints := (n, t.values) :: t.savepoints }
  else if s.command = "RELEASE".toList then
    t.followSavepointEnd (savepointName s.words "RELEASE".toList) false
  else if s.rollsBackTo then
    t.followSavepointEnd (savepointName s.words "TO".toList) true
  else t

/-- The statement resets the GUCs, as far as the reader can tell. -/
def Statement.resetsGucs (conf : Conf) (s : Statement) : Bool :=
  s.argument = "ALL".toList || (s.command = "RESET".toList &&
    (s.argument = upper conf.gucIsAdmin || s.argument = upper conf.gucCurrentTenant))

/-- Update the record after a statement in `followed` has run (`_follow`). -/
def follow (conf : Conf) (s : Statement) (statusBefore : Status) : Db Unit := do
  if s.command = "RESET".toList ∨ s.command = "DISCARD".toList then
    if s.resetsGucs conf then forget
  else if s.argument ≠ "PREPARED".toList then
    modify fun c => { c with tracker := c.tracker.followEnd s statusBefore }
    let _ ← observe
    modify fun c => { c with tracker := c.tracker.followSavepoint s }

/-- What the wrapper does once the statement has run: follow it, or forget the values
if it cannot be followed. -/
def afterStatement (conf : Conf) (statement : Option Statement) (statusBefore : Status) : Db Unit :=
  match statement with
  | none => forget
  | some s =>
    if s.compound then forget
    else if s.isFollowed then follow conf s statusBefore
    else pure ()

/-- What the wrapper does when the statement raised. -/
def forgetIfFollowed (statement : Option Statement) : Db Unit :=
  if statement.all (·.isFollowed) then forget else pure ()

/-! ## The library's own writes -/

/-- The text of the library's own writes of both GUCs (`_SET_GUCS_SQL`). -/
def setGucsSql : Text := "SELECT set_config(%s, %s, %s), set_config(%s, %s, %s)".toList

/-- The wrapper while the library writes: the transaction is followed, no context
applied. -/
def guardWriting (env : Env) (sql : Sql) : Db Unit := do
  let statement := parse sql.object
  let status ← observe
  attempt (execute env.context sql.commands) fun e => do
    forgetIfFollowed statement
    raise e
  afterStatement env.conf statement status

/-- The `set_config()` statement for both GUCs. -/
def setGucs (env : Env) (values : Option ContextGucs) (isLocal : Bool) : Db Unit :=
  guardWriting env ⟨.str setGucsSql, [.setGucs (valuesOf values) isLocal]⟩

/-! ## New sessions -/

/-- Clear the GUCs on a connection that must start without context; a failure on a
pooled one ends its session (`_clear_new_connection_gucs`). -/
def clearNewConnectionGucs (env : Env) (pooled : Bool) : Db Unit :=
  attempt
    (writing (.known none) false do
      setGucs env none false
      -- outside autocommit the clear is committed on the driver connection
      if !(← reads (·.autocommit)) then driverEnd true)
    fun e => do
      if !e.isException then raise e
      if pooled then
        modify fun c => { c with link := .broken, pg := c.pg.rollback }
        attempt close fun e' => if e'.isException then pure () else raise e'
        raise e

/-- Set the active context's GUCs on a connection that the request's thread opens
(`_apply_request_gucs`). -/
def applyRequestGucs (env : Env) : Db Unit :=
  match env.context with
  | none => pure ()
  | some g =>
    attempt (writing (.known (some g)) false (setGucs env (some g) false)) fun e =>
      if e.isException then pure () else raise e

/-- Set up a new connection (`_prepare_new_connection`). -/
def prepareNewConnection (env : Env) (new : NewSession) : Db Unit := do
  modify fun c =>
    { c with tracker := c.tracker.attach c.raw (if new.found.isSome then .unknown else .known none) }
  if ← reads (·.guarded) then
    if new.requestThread = some false then
      clearNewConnectionGucs env new.found.isSome
    else
      if new.found.isSome then clearNewConnectionGucs env true
      if new.requestThread = some true ∧ !env.conf.useLocalSet then applyRequestGucs env

/-- `connection.ensure_connection()`: open a connection that is closed. -/
def ensureConnection (env : Env) : Db Unit := do
  if (← reads (·.link)) = .closed then
    mayRaise
    let new ← reads fun c => c.opens.headD ⟨none, none⟩
    modify fun c =>
      { c with
        raw := c.raw + 1
        link := .up
        pg := .idle ⟨valuesOf new.found, c.pg.durable.rows⟩
        autocommit := c.autocommitSetting
        needsRollback := false
        inAtomicBlock := false
        opens := c.opens.tail }
    prepareNewConnection env new

/-! ## Applying the active context -/

/-- Whether a statement runs in a transaction block now (`_will_run_in_transaction`). -/
def willRunInTransaction (c : Connection) (status : Status) : Bool := status ≠ .idle || !c.autocommit

/-- Set both GUCs in one statement, and record it (`write_gucs`). -/
def writeGucs (env : Env) (values : Option ContextGucs) (isLocal : Bool) : Db Unit := do
  if isLocal then
    ensureConnection env
    let status ← readStatus
    if !(← reads fun c => willRunInTransaction c status) then throw (.exception 0)
  writing (.known values) isLocal do
    ensureConnection env
    setGucs env values isLocal

/-- Apply the active context's values if the session holds others, and return the
transaction status before any statement ran (`_apply_if_stale`). -/
def applyIfStale (env : Env) : Db Status := do
  let status ← observe
  let c ← reads id
  if c.tracker.values = .known env.context then pure status
  else if status = .inError ∨ status = .bad ∨ c.needsRollback then pure status
  else if !c.guarded then pure status
  else
    let isLocal := env.context.isSome && env.conf.useLocalSet
    if isLocal && !willRunInTransaction c status then pure status
    else
      writeGucs env env.context isLocal
      pure status

/-! ## A transaction of its own -/

/-- Whether the guard runs a statement in a transaction of its own
(`_needs_own_transaction`). -/
def needsOwnTransaction (env : Env) (c : Connection) (status : Status) (statement : Option Statement) :
    Bool :=
  status = .idle && env.conf.useLocalSet && c.autocommit && env.context.isSome && c.guarded &&
    !refusedInATransaction statement

/-- Roll the guard's own transaction back, and say whether it has ended. -/
def rollBackOwnTransaction : Db Bool := do
  if (← readStatus) ≠ .idle then send none [.rollback false]
  return (← readStatus) = .idle

/-- What the clean-up leaves, once it is known whether the transaction has ended. -/
def leaveOwnTransaction (ended : Bool) : Db Unit := do
  if ended then modify fun c => { c with tracker := c.tracker.endTransaction (some false) }
  else
    forget
    attempt close fun e => if e.isException then pure () else raise e

/-- Clean up after a failure in the guard's own transaction
(`_abandon_own_transaction`). -/
def abandonOwnTransaction : Db Unit := do
  let ended ← attempt (attempt rollBackOwnTransaction fun e =>
      if e.isException then pure false else raise e)
    -- `finally`: an interruption goes on once the connection is closed
    fun e => do
      leaveOwnTransaction false
      raise e
  leaveOwnTransaction ended

/-- Run an autocommit statement in a transaction of its own, with the context's values
(`_run_in_own_transaction`). -/
def runInOwnTransaction (env : Env) (sql : Sql) : Db Unit := do
  attempt
    (do
      send none [.begin]
      let _ ← observe
      writeGucs env env.context true
      execute env.context sql.commands
      send none [.commit false])
    fun e => do
      abandonOwnTransaction
      raise e
  modify fun c => { c with tracker := c.tracker.endTransaction (some true) }

/-! ## The execute wrapper -/

/-- Apply the active context before the statement if needed, run it, and follow it
(`_guard`). -/
def guard (env : Env) (sql : Sql) : Db Unit := do
  let statement := parse sql.object
  let control := controlsTheTransaction statement
  let status ← if control then observe else applyIfStale env
  let c ← reads id
  let own := !control && needsOwnTransaction env c status statement
  attempt (if own then runInOwnTransaction env sql else execute env.context sql.commands) fun e => do
    forgetIfFollowed statement
    raise e
  afterStatement env.conf statement status
  let t ← reads (·.tracker)
  -- a statement run under local values may have written the GUCs for the session
  if own || (t.wroteLocal && t.inTransaction) then
    modify fun c => { c with tracker := c.tracker.suspectSession true }

/-! ## Ends of transactions past the cursor -/

/-- Follow a commit or rollback of the driver, from the status before and after; `none`
if it is not known which (`_follow_end`). -/
def followDriverEnd (before : Status) (committed : Option Bool) : Db Unit := do
  let after ← readStatus
  if before ≠ .idle ∧ after = .idle then
    modify fun c =>
      { c with tracker := c.tracker.endTransaction (if before = .inError then some false else committed) }
  else if before ≠ after then forget

/-- Django's `_commit` or `_rollback`, followed (`_transaction_end`). -/
def transactionEnd (committed : Bool) : Db Unit := do
  let c ← reads id
  if c.link = .closed ∨ c.tracker.raw ≠ some c.raw then driverEnd committed
  else
    let before ← readStatus
    attempt (driverEnd committed) fun e => do
      -- a commit that raised a database error rolled back
      followDriverEnd before
        (if e.isDatabaseError then some false else if committed then none else some false)
      raise e
    followDriverEnd before (some committed)

/-! ## Other connections -/

/-- Take a context's values off a connection once the context has ended; `wroteNothing`
if the block wrote nothing on entry, `cleared` if it held no context (the loop body of
`settle_other_aliases`). -/
def settle (env : Env) (wroteNothing cleared : Bool) : Db Unit := do
  if (← reads (·.link)) ≠ .closed then
    let held ← reads (·.tracker.values)
    let unknownInTransaction ←
      if wroteNothing ∧ held = .unknown then do
        let status ← observe
        pure (decide (status ≠ .idle))
      else pure false
    let clearedByTheBlock := cleared && (held = .known none || held = .unknown)
    let holdsContext := match held with
      | .known (some _) => true
      | _ => false
    if holdsContext || unknownInTransaction || clearedByTheBlock then
      attempt (do let _ ← applyIfStale env) fun e => if e.isDatabaseError then forget else raise e

/-- Treat what the session holds for itself as unknown (the loop body of
`suspect_sessions`). -/
def suspect (underLocalValues : Bool) : Db Unit := do
  if (← reads (·.link)) ≠ .closed then
    attempt (do let _ ← observe) fun e => if e.isException then pure () else raise e
    modify fun c => { c with tracker := c.tracker.suspectSession underLocalValues }

end RlsTenants
