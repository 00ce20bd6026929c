import RlsTenants.Lib.Effect
import RlsTenants.Spec.Statement

/-!
# The database session and Django's connection

What the code relies on from PostgreSQL, the driver and Django, as their
documentation describes it.

* A message holds one command or several. Outside a transaction, several commands
  form an implicit transaction that commits at the end of the message or at a
  `COMMIT` in it, and that a `BEGIN` in it turns into a regular one. `Command.step`
  is one command, `runMessage` a whole message.
* GUC writes follow the transaction (`Txn`): `set_config(.., false)` and `RESET`
  write for the session, `set_config(.., true)` locally. The rows a statement writes
  are in the same transaction.
* `Connection` is Django's connection with its driver connection and its record.
  Each call of the driver takes a `Fate` from `fates` (run, refused with a database
  error, cut off with the link, interrupted); a call that sends nothing may raise
  what `faults` holds. An empty list means that nothing goes wrong.
-/

namespace RlsTenants

open Txn Effect

/-- What a transaction may undo: the two GUCs, and the rows written. -/
structure Visible where
  gucs : ContextGucs
  rows : List ℕ
deriving DecidableEq

/-- Change the GUCs. -/
def Visible.setGucs (f : ContextGucs → ContextGucs) (v : Visible) : Visible := { v with gucs := f v.gucs }

/-- A session's state in the server. -/
abbrev Backend : Type := State Name Visible

/-! ## Commands -/

/-- One SQL command, as far as this model tells commands apart. -/
inductive Command
  | rows (id : ℕ)
  | setGucs (values : ContextGucs) (isLocal : Bool)
  | setGuc (name : Guc) (value : String) (isLocal : Bool)
  | resetGucs (names : List Guc)
  | begin
  | commit (chain : Bool)
  | rollback (chain : Bool)
  | savepoint (name : Name)
  | release (name : Name)
  | rollbackTo (name : Name)
  | other
  | fault
deriving DecidableEq

/-- A message under way: the transaction, whether it is the message's implicit one,
and the GUC values that commands on rows have run under (newest first). -/
structure Work where
  tx : Open Name Visible
  implicit : Bool
  seen : List ContextGucs
deriving DecidableEq

/-- Write at a scope. -/
def Work.write (f : Visible → Visible) (isLocal : Bool) (w : Work) : Work :=
  { w with tx := { w.tx with
    level := ⟨if isLocal then w.tx.level.session else f w.tx.level.session, f w.tx.level.current⟩ } }

/-- The transaction ends at `v`; `chain` starts another one. -/
def Work.ended (v : Visible) (chain : Bool) (w : Work) : Work :=
  { w with tx := .fresh v, implicit := !chain }

/-- One command; `none` is an error. -/
def Command.step (c : Command) (w : Work) : Option Work :=
  match c with
  | .commit chain =>
    if w.implicit ∧ chain then none else some (w.ended w.tx.committed chain)
  | .rollback chain =>
    if w.implicit ∧ chain then none else some (w.ended w.tx.start chain)
  | .rollbackTo n =>
    if w.implicit then none else (w.tx.rollbackTo n).map fun o => { w with tx := o }
  | c =>
    -- a failed transaction takes no other command
    if w.tx.failed then none else
    match c with
    | .rows id =>
      some { w.write (fun v => { v with rows := id :: v.rows }) false with
        seen := w.tx.level.current.gucs :: w.seen }
    | .setGucs values isLocal => some (w.write (Visible.setGucs fun _ => values) isLocal)
    | .setGuc name value isLocal => some (w.write (Visible.setGucs (·.put name value)) isLocal)
    | .resetGucs names =>
      some (w.write (Visible.setGucs fun g => names.foldl (fun g name => g.put name "") g) false)
    | .begin => some { w with implicit := false }
    | .savepoint n => if w.implicit then none else some { w with tx := w.tx.savepoint n }
    | .release n =>
      if w.implicit then none else (w.tx.release n).map fun o => { w with tx := o }
    | .other => some w
    | _ => none

/-- The session a message starts from. -/
def Work.enter : Backend → Work
  | .idle v => ⟨.fresh v, true, []⟩
  | .inTx o => ⟨o, false, []⟩

/-- The session after the message's last command. -/
def Work.leave (w : Work) : Backend := if w.implicit then .idle w.tx.committed else .inTx w.tx

/-- The session after a command that failed. -/
def Work.abort (w : Work) : Backend :=
  if w.implicit then .idle w.tx.start else .inTx { w.tx with failed := true }

/-- The rest of a message: the session it leaves, whether it succeeded, and what its
commands on rows ran under. -/
def runCommands : List Command → Work → Backend × Bool × List ContextGucs
  | [], w => (w.leave, true, w.seen)
  | c :: cs, w =>
    match c.step w with
    | some w' => runCommands cs w'
    | none => (w.abort, false, w.seen)

/-- A whole message. -/
def runMessage (cs : List Command) (s : Backend) : Backend × Bool × List ContextGucs :=
  runCommands cs (Work.enter s)

/-- A message the server refuses: a failed commit rolls back, any other command fails
where it stands, after it may have read rows. -/
def refuseMessage (cs : List Command) (s : Backend) : Backend × List ContextGucs :=
  match cs with
  | .commit _ :: _ => (s.rollback, [])
  | .rows _ :: _ => (s.fail, if s.isFailed then [] else [s.current.gucs])
  | _ => (s.fail, [])

/-! ## The connection -/

/-- Exceptions: database errors, other exceptions, and interruptions (a
`BaseException` that is no `Exception`). The number tells one from another. -/
inductive Exc
  | databaseError (n : ℕ)
  | exception (n : ℕ)
  | interruption (n : ℕ)
deriving DecidableEq

def Exc.isDatabaseError : Exc → Bool
  | .databaseError _ => true
  | _ => false

/-- `except Exception` catches it. -/
def Exc.isException : Exc → Bool
  | .interruption _ => false
  | _ => true

/-- How far a message got. -/
inductive Reach
  | notRun
  | failed
  | run
deriving DecidableEq

/-- What becomes of a message. -/
inductive Fate
  | runs
  | refused (n : ℕ)
  | lost (reach : Reach) (n : ℕ)
  | interrupted (reach : Reach) (busy : Bool) (n : ℕ)
deriving DecidableEq

/-- The driver connection's link to the server. -/
inductive Link
  | up
  | busy
  | broken
  | closed
deriving DecidableEq

/-- A command on rows that ran: the context it was run for, and the GUC values the
session held. -/
structure Ran where
  context : Option ContextGucs
  seen : ContextGucs
deriving DecidableEq

/-- The session that opening a connection gives: a new one, or one a pool has lent out
before, holding `found`; and whether the code that opens it runs on the thread that set
a request's GUCs (`none`: no request has set any). -/
structure NewSession where
  found : Option ContextGucs
  requestThread : Option Bool
deriving DecidableEq

/-- Django's connection to one alias: the driver connection (`raw` names it, `link`
and `pg` are its state), Django's flags, and the library's record. `opens` are the
sessions that connecting gives, in order; `ran` and `raised` log, newest first, the
commands on rows that ran and the exceptions that arose. -/
structure Connection where
  guarded : Bool
  raw : ℕ
  link : Link
  pg : Backend
  autocommit : Bool
  autocommitSetting : Bool
  needsRollback : Bool
  inAtomicBlock : Bool
  tracker : SessionGUCs
  opens : List NewSession
  fates : List Fate
  faults : List (Option Exc)
  ran : List Ran
  raised : List Exc

/-- A computation on one connection. -/
abbrev Db (α : Type) : Type := Comp Connection Exc α

open Comp

namespace Connection

/-- The transaction status the driver reports. -/
def status (c : Connection) : Status :=
  match c.link with
  | .up =>
    match c.pg with
    | .idle _ => .idle
    | .inTx o => if o.failed then .inError else .inTransaction
  | .busy => .active
  | _ => .bad

/-- The session a message starts from: with autocommit off the driver starts a
transaction first. -/
def ready (c : Connection) : Backend :=
  match c.pg with
  | .idle v => if c.autocommit then .idle v else .inTx (.fresh v)
  | .inTx o => .inTx o

/-- The session after a message that got as far as `reach`. -/
def reached (c : Connection) (cs : List Command) : Reach → Backend
  | .notRun => c.pg
  | .failed => (refuseMessage cs c.ready).1
  | .run => (runMessage cs c.ready).1

/-- What its commands on rows ran under. -/
def sightings (c : Connection) (cs : List Command) : Reach → List ContextGucs
  | .notRun => []
  | .failed => (refuseMessage cs c.ready).2
  | .run => (runMessage cs c.ready).2.2

/-- Note what a message's commands on rows ran under, for the context it was sent in. -/
def saw (context : Option ContextGucs) (seen : List ContextGucs) (c : Connection) : Connection :=
  { c with ran := seen.map (fun g => ⟨context, g⟩) ++ c.ran }

end Connection

/-- An exception arises. -/
def throw {α : Type} (e : Exc) : Db α := do
  modify fun c => { c with raised := e :: c.raised }
  raise e

/-- A message that got as far as `reach`, without its outcome. -/
def Connection.sent (context : Option ContextGucs) (cs : List Command) (reach : Reach) (c : Connection) :
    Connection :=
  { c.saw context (c.sightings cs reach) with pg := c.reached cs reach, fates := c.fates.tail }

/-- Send a message on the driver connection. -/
def send (context : Option ContextGucs) (cs : List Command) : Db Unit := fun c =>
  if c.link = .up then
    match c.fates.headD .runs with
    | .runs =>
      if (runMessage cs c.ready).2.1 then (.ok (), c.sent context cs .run)
      else throw (.databaseError 0) (c.sent context cs .run)
    | .refused n => throw (.databaseError n) (c.sent context cs .failed)
    | .lost reach n =>
      throw (.databaseError n)
        { c.sent context cs reach with link := .broken, pg := (c.reached cs reach).rollback }
    | .interrupted reach busy n =>
      throw (.interruption n) { c.sent context cs reach with link := if busy then .busy else .up }
  else throw (.databaseError 0) c

/-- A call that sends nothing raises the next of `faults`, if any. -/
def mayRaise : Db Unit := fun c =>
  match c.faults with
  | some e :: rest => throw e { c with faults := rest }
  | none :: rest => (.ok (), { c with faults := rest })
  | [] => (.ok (), c)

/-- Read the transaction status from the driver. -/
def readStatus : Db Status := do
  mayRaise
  reads (·.status)

/-- `connection.close()`: an open transaction is undone, also when the call raises. In
an atomic block Django keeps the dead driver connection until the block ends. -/
def close : Db Unit := do
  if (← reads (·.link)) ≠ .closed then
    modify fun c =>
      if c.inAtomicBlock then { c with link := .broken, needsRollback := true, pg := c.pg.rollback }
      else { c with link := .closed, pg := c.pg.rollback }
    mayRaise

/-- Django's innermost `execute`: refused while the transaction is marked for rollback. -/
def execute (context : Option ContextGucs) (cs : List Command) : Db Unit := do
  if ← reads (·.needsRollback) then throw (.databaseError 0)
  send context cs

/-- Django's `_commit` and `_rollback`, on the driver connection: nothing is sent
outside a transaction. -/
def driverEnd (committed : Bool) : Db Unit := fun c =>
  match c.link, c.pg with
  | .closed, _ => (.ok (), c)
  | .up, .idle _ => (.ok (), c)
  | _, _ => send none [if committed then .commit false else .rollback false] c

end RlsTenants
