import RlsTenants.Spec.Guard

/-!
# What a transaction of its own is for

In transaction-local mode the wrapper gives an autocommit statement a transaction of its
own, so that it can set the context's values for it. For its caller the statement is to do
what it does in autocommit: run, and be committed, or fail and leave nothing.

* `Command.effect` is what a statement leaves when it runs in autocommit.
* `commitCutOff`: the three messages before the `COMMIT` run, and it is cut off.
-/

namespace RlsTenants

open Txn

/-- A command that does not control the transaction. -/
def Command.staysInside : Command → Bool
  | .begin => false
  | .commit _ => false
  | .rollback _ => false
  | .savepoint _ => false
  | .release _ => false
  | .rollbackTo _ => false
  | _ => true

/-- What a command leaves of `v` when it runs in autocommit. -/
def Command.effect (cmd : Command) (v : Visible) : Visible := (runMessage [cmd] (.idle v)).1.durable

/-- The link breaks, or the call is interrupted. -/
def Fate.cutsOff : Fate → Bool
  | .lost _ _ => true
  | .interrupted _ _ _ => true
  | _ => false

/-- Of the messages of a transaction of its own (`BEGIN`, the values, the statement, `COMMIT`)
the last one is cut off. -/
def commitCutOff (fates : List Fate) : Prop :=
  (∀ f ∈ fates.take 3, f = .runs) ∧ ((fates.drop 3).headD .runs).cutsOff = true

/-- A connection in autocommit, outside a transaction. -/
structure Idle (v : Visible) (c : Connection) : Prop where
  link : c.link = .up
  pg : c.pg = .idle v
  autocommit : c.autocommit = true
  outside : c.inAtomicBlock = false

/-- **What the wrapper leaves of a statement** that had a transaction of its own: `c` is the
connection before it, `v` what the session held, `cmd` the statement. -/
structure Returned (v : Visible) (cmd : Command) (c : Connection) : Prop where
  idle : Idle (cmd.effect v) c
  ran : (runMessage [cmd] (.idle v)).2.1 = true

/-- What it leaves when it raises `e`. -/
structure Raised (v : Visible) (cmd : Command) (c : Connection) (e : Exc) (c' : Connection) : Prop where
  /-- The connection is idle or closed. -/
  ended : c'.status = .idle ∨ c'.link = .closed
  /-- The statement is undone, unless the `COMMIT` was cut off. -/
  durable : c'.pg.durable = v ∨ (commitCutOff c.fates ∧ c'.pg.durable = cmd.effect v)
  /-- The first failure propagates, unless an interruption replaces it. -/
  first : ∃ later first, c'.raised = later ++ first :: c.raised ∧ (e = first ∨ (e ∈ later ∧ e.isException = false))

end RlsTenants
