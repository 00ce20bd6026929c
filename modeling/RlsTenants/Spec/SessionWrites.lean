import RlsTenants.Spec.Session

/-!
# Session writes inside contexts

The life of a guarded connection on which code inside a context writes the GUCs for the
session, through Django's cursor: `set_guc()`, `rls_context()` (on entry and on exit), or a
`SELECT set_config(.., false)`.

* `SessionWrite` is one such statement.
* `WriteEvent` adds it, and the middleware's clear, to the events of a connection. A write has
  a context: nothing writes the GUCs outside one.
-/

namespace RlsTenants

open Txn Effect Comp

/-- What a statement writes for the session: one GUC, or both. -/
inductive SessionValues
  | one (name : Guc) (value : String)
  | both (values : ContextGucs)

def SessionValues.command : SessionValues → Command
  | one name value => .setGuc name value false
  | both values => .setGucs values false

/-- A statement that writes the GUCs for the session: what is handed to the cursor, and what
PostgreSQL makes of it. -/
structure SessionWrite where
  object : SqlObject
  values : SessionValues

/-- The cursor's statement. -/
def SessionWrite.sql (w : SessionWrite) : Sql := ⟨w.object, [w.values.command]⟩

/-- The statement of `set_guc()`. -/
def SessionWrite.setGuc (name : Guc) (value : String) : SessionWrite :=
  ⟨.str "SELECT set_config(%s, %s, false)".toList, .one name value⟩

/-- An event in the life of a connection on which contexts write for the session. -/
inductive WriteEvent
  | plain (event : Event)
  | write (context : ContextGucs) (statement : SessionWrite) (fates : List Fate)
  | clear (context : Option ContextGucs) (fates : List Fate)

/-- What happens to the connection; a clear is that of `_clear_alias_gucs()`. -/
def WriteEvent.happens (conf : Conf) : WriteEvent → Db Unit
  | plain event => event.happens conf
  | write context statement _ => throughCursor ⟨conf, some context⟩ statement.sql
  | clear context _ => writeGucs ⟨conf, context⟩ none false

/-- What becomes of its messages. -/
def WriteEvent.fates : WriteEvent → List Fate
  | plain event => event.fates
  | write _ _ fates => fates
  | clear _ fates => fates

/-- The connection after an event, whether it raised or not. -/
def WriteEvent.step (conf : Conf) (c : Connection) (e : WriteEvent) : Connection :=
  (e.happens conf { c with fates := e.fates }).2

end RlsTenants
