import RlsTenants.Lib.Run
import RlsTenants.Spec.Guard
import RlsTenants.Spec.Grammar

/-!
# The life of a guarded connection

What can happen to one guarded connection, in any order: statements of any number of
tasks, each in its own context, transaction control in plain form, Django's commits and
rollbacks, contexts that end, and sessions that are closed and opened again. `fates`
says what becomes of the messages of an event.
-/

namespace RlsTenants

open Txn Effect Comp

/-- What a statement does that neither controls the transaction nor writes the GUCs. -/
inductive DataKind
  | rows (id : ℕ)
  | other
  | fault

def DataKind.command : DataKind → Command
  | rows id => .rows id
  | other => .other
  | fault => .fault

/-- A data statement: what is handed to the cursor, and what PostgreSQL makes of it. -/
structure DataStatement where
  object : SqlObject
  kind : DataKind

/-- The cursor's statement. -/
def DataStatement.sql (d : DataStatement) : Sql := ⟨d.object, [d.kind.command]⟩

/-- An event in the life of a connection. -/
inductive Event
  | data (context : Option ContextGucs) (statement : DataStatement) (fates : List Fate)
  | control (context : Option ContextGucs) (statement : Plain) (fates : List Fate)
  | driverEnd (committed : Bool) (fates : List Fate)
  | settle (context : Option ContextGucs) (wroteNothing cleared : Bool) (fates : List Fate)
  | suspect (underLocalValues : Bool)
  | markForRollback (needsRollback : Bool)
  | setAutocommit (autocommit : Bool)
  | close

/-- A statement through Django's cursor: the connection is opened if need be, and the
wrapper runs. -/
def throughCursor (env : Env) (sql : Sql) : Db Unit := do
  ensureConnection env
  guard env sql

/-- `connection.set_autocommit()`: the driver refuses it in a transaction. -/
def setAutocommit (autocommit : Bool) : Db Unit := modify fun c =>
  if c.status = .idle then { c with autocommit := autocommit } else c

/-- What happens to the connection. -/
def Event.happens (conf : Conf) : Event → Db Unit
  | data context statement _ =>
    throughCursor ⟨conf, context⟩ statement.sql
  | control context statement _ =>
    throughCursor ⟨conf, context⟩ ⟨.str statement.text, [statement.form.command]⟩
  | driverEnd committed _ => transactionEnd committed
  | settle context wroteNothing cleared _ => RlsTenants.settle ⟨conf, context⟩ wroteNothing cleared
  | suspect underLocalValues => RlsTenants.suspect underLocalValues
  | markForRollback needsRollback => modify fun c => { c with needsRollback := needsRollback }
  | setAutocommit autocommit => RlsTenants.setAutocommit autocommit
  | close => RlsTenants.close

/-- What becomes of its messages. -/
def Event.fates : Event → List Fate
  | data _ _ fates => fates
  | control _ _ fates => fates
  | driverEnd _ fates => fates
  | settle _ _ _ fates => fates
  | _ => []

/-- The connection after an event, whether it raised or not. -/
def Event.step (conf : Conf) (c : Connection) (e : Event) : Connection :=
  (e.happens conf { c with fates := e.fates }).2

/-- A guarded connection that has not been opened, whose driver reports its status. -/
structure Unopened (c : Connection) : Prop where
  link : c.link = .closed
  guarded : c.guarded = true
  ran : c.ran = []
  faults : c.faults = []

end RlsTenants
