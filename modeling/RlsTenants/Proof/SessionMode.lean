import RlsTenants.Spec.Blocks
import RlsTenants.Spec.Session
import RlsTenants.Proof.Frames

/-!
# Nothing is local with session GUCs

With session GUCs the library writes nothing locally, and statements on rows write no GUC. So
what a session holds for itself is what statements see, at every savepoint (`Flat`).

* `step_flat`: a command that is not local (`Command.Global`) keeps it, and so does a message.
* The functions of the guard keep it, by the shape of the program.
-/

namespace RlsTenants

open Txn Effect Comp

/-! ## Sessions -/

/-- The level hides no value of the session. -/
def Level.Flat (l : Level Visible) : Prop := l.current = l.session

/-- So does none of the transaction. -/
def Flat : Backend → Prop
  | .idle _ => True
  | .inTx o => Level.Flat o.level ∧ ∀ e ∈ o.savepoints, Level.Flat e.2

/-- What the session holds after a commit. -/
def kept : Backend → ContextGucs
  | .idle v => v.gucs
  | .inTx o => o.level.session.gucs

theorem Flat.kept {s : Backend} (h : Flat s) : kept s = s.current.gucs := by
  cases s with
  | idle v => rfl
  | inTx o => exact congrArg Visible.gucs h.1.symm

theorem flat_fresh (v : Visible) : Flat (.inTx (.fresh v)) := ⟨rfl, by simp [Open.fresh]⟩

theorem Flat.fail {s : Backend} (h : Flat s) : Flat s.fail := by
  cases s with
  | idle v => trivial
  | inTx o => exact h

/-! ## Messages -/

/-- The command writes nothing locally. -/
def Command.Global : Command → Prop
  | .setGucs _ isLocal => isLocal = false
  | .setGuc _ _ isLocal => isLocal = false
  | _ => True

/-- A message under way hides nothing. -/
def Work.Flat (w : Work) : Prop := RlsTenants.Flat (.inTx w.tx)

theorem Work.Flat.write {w : Work} (h : w.Flat) (f : Visible → Visible) : (w.write f false).Flat :=
  ⟨congrArg f h.1, h.2⟩

theorem step_flat {c : Command} (hc : c.Global) {w w' : Work} (h : w.Flat) (hs : c.step w = some w') : w'.Flat := by
  cases c with
  | commit chain =>
    simp only [Command.step, Option.ite_none_left_eq_some, Option.some.injEq] at hs
    rw [← hs.2]
    exact flat_fresh _
  | rollback chain =>
    simp only [Command.step, Option.ite_none_left_eq_some, Option.some.injEq] at hs
    rw [← hs.2]
    exact flat_fresh _
  | rollbackTo n =>
    simp only [Command.step, Option.ite_none_left_eq_some, Option.map_eq_some_iff] at hs
    obtain ⟨-, o, ho, rfl⟩ := hs
    obtain ⟨l, below, hseek, rfl⟩ := Open.rollbackTo_eq_some ho
    have hmem := seek_mem hseek
    have hl : Level.Flat l := h.2 _ hmem.1
    exact ⟨hl, List.forall_mem_cons.2 ⟨hl, fun e he => h.2 e (hmem.2 e he)⟩⟩
  | release n =>
    simp only [Command.step, Option.ite_none_left_eq_some, Option.map_eq_some_iff] at hs
    obtain ⟨-, -, o, ho, rfl⟩ := hs
    obtain ⟨l, below, hseek, rfl⟩ := Open.release_eq_some ho
    exact ⟨h.1, fun e he => h.2 e ((seek_mem hseek).2 e he)⟩
  | savepoint n =>
    simp only [Command.step, Option.ite_none_left_eq_some, Option.some.injEq] at hs
    obtain ⟨-, -, rfl⟩ := hs
    exact ⟨h.1, List.forall_mem_cons.2 ⟨h.1, h.2⟩⟩
  | rows id =>
    simp only [Command.step, Option.ite_none_left_eq_some, Option.some.injEq] at hs
    obtain ⟨-, rfl⟩ := hs
    exact h.write fun v => { v with rows := id :: v.rows }
  | setGucs values isLocal =>
    obtain rfl : isLocal = false := hc
    simp only [Command.step, Option.ite_none_left_eq_some, Option.some.injEq] at hs
    obtain ⟨-, rfl⟩ := hs
    exact h.write _
  | setGuc name value isLocal =>
    obtain rfl : isLocal = false := hc
    simp only [Command.step, Option.ite_none_left_eq_some, Option.some.injEq] at hs
    obtain ⟨-, rfl⟩ := hs
    exact h.write _
  | resetGucs names =>
    simp only [Command.step, Option.ite_none_left_eq_some, Option.some.injEq] at hs
    obtain ⟨-, rfl⟩ := hs
    exact h.write _
  | begin =>
    simp only [Command.step, Option.ite_none_left_eq_some, Option.some.injEq] at hs
    obtain ⟨-, rfl⟩ := hs
    exact h
  | other =>
    simp only [Command.step, Option.ite_none_left_eq_some, Option.some.injEq] at hs
    obtain ⟨-, rfl⟩ := hs
    exact h
  | fault => simp [Command.step] at hs

theorem Work.Flat.enter {s : Backend} (h : RlsTenants.Flat s) : (Work.enter s).Flat := by
  cases s with
  | idle v => exact flat_fresh v
  | inTx o => exact h

theorem Work.Flat.leave {w : Work} (h : w.Flat) : RlsTenants.Flat w.leave := by
  unfold Work.leave
  split
  · trivial
  · exact h

theorem Work.Flat.abort {w : Work} (h : w.Flat) : RlsTenants.Flat w.abort := by
  unfold Work.abort
  split
  · trivial
  · exact h

theorem runCommands_flat {cs : List Command} (hcs : ∀ c ∈ cs, c.Global) {w : Work} (h : w.Flat) :
    Flat (runCommands cs w).1 := by
  induction cs generalizing w with
  | nil => exact h.leave
  | cons c cs ih =>
    rw [runCommands]
    cases hs : c.step w with
    | none => exact h.abort
    | some w' =>
      have h' : w'.Flat := step_flat (hcs c List.mem_cons_self) h hs
      exact ih (fun c' hc' => hcs c' (List.mem_cons_of_mem _ hc')) h'

theorem refuseMessage_flat (cs : List Command) {s : Backend} (h : Flat s) : Flat (refuseMessage cs s).1 := by
  unfold refuseMessage
  split
  · trivial
  · exact h.fail
  · exact h.fail

/-! ## Connections -/

/-- The session of a connection hides nothing. -/
def FlatConn (c : Connection) : Prop := Flat c.pg

theorem flat_passive : Passive FlatConn := fun _ _ _ _ h => h

section Connections

variable {c : Connection} {env : Env}

theorem FlatConn.ready (h : FlatConn c) : Flat c.ready := by
  unfold FlatConn at h
  unfold Connection.ready
  split
  · split
    · trivial
    · exact flat_fresh _
  · rename_i o ho
    rw [ho] at h
    exact h

theorem flat_undone (c : Connection) (link : Link) (needsRollback : Bool) :
    FlatConn { c with link := link, needsRollback := needsRollback, pg := c.pg.rollback } := trivial

/-- **A message keeps it** that writes nothing locally, however it ends. -/
theorem send_flat {context : Option ContextGucs} {cs : List Command} (hcs : ∀ cmd ∈ cs, cmd.Global) :
    Keeps FlatConn (send context cs) := by
  intro c h
  have hreach : ∀ reach, Flat (c.reached cs reach) := by
    intro reach
    cases reach with
    | notRun => exact h
    | failed => exact refuseMessage_flat cs h.ready
    | run => exact runCommands_flat hcs (.enter h.ready)
  unfold send
  split
  · split
    · split
      · exact hreach .run
      · exact hreach .run
    · exact hreach .failed
    · trivial
    · exact hreach _
  · exact h

theorem send_flat_one {context : Option ContextGucs} {cmd : Command} (h : cmd.Global) :
    Keeps FlatConn (send context [cmd]) :=
  send_flat fun cmd' hcmd' => by rwa [List.mem_singleton.1 hcmd']

theorem close_flat : Keeps FlatConn close := flat_passive.close fun c link needsRollback _ => flat_undone c link needsRollback

theorem driverEnd_flat (committed : Bool) : Keeps FlatConn (driverEnd committed) := by
  apply driverEnd_keeps
  apply send_flat_one
  cases committed <;> trivial

theorem transactionEnd_flat (committed : Bool) : Keeps FlatConn (transactionEnd committed) := by
  have hfollow : ∀ before o, Keeps FlatConn (followDriverEnd before o) := fun before o =>
    flat_passive.readStatus.bind_rule fun _ => .ite_rule (fun _ => flat_passive.track _) fun _ =>
      .ite_rule (fun _ => flat_passive.forget) fun _ => .pure_rule _
  refine .bind_rule (.reads_rule _) fun c => .ite_rule (fun _ => driverEnd_flat committed) fun _ => ?_
  refine flat_passive.readStatus.bind_rule fun before => .bind_rule
    (.attempt_rule (driverEnd_flat committed) fun e => ?_) fun _ => hfollow _ _
  exact (hfollow _ _).bind_rule fun _ => .raise_rule _

theorem ensureConnection_flat : Keeps FlatConn (ensureConnection env) := by
  refine flat_passive.ensureConnection (fun c _ => trivial) (flat_passive.prepareNewConnection ?_ ?_)
  · exact flat_passive.clearNewConnectionGucs (fun c link needsRollback _ => flat_undone c link needsRollback)
      (send_flat_one rfl) (send_flat_one trivial)
  · exact fun _ => flat_passive.applyRequestGucs (send_flat_one rfl)

theorem writeGucs_flat (values : Option ContextGucs) : Keeps FlatConn (writeGucs env values false) :=
  flat_passive.writeGucs ensureConnection_flat (send_flat_one rfl)

section Mode

variable (hmode : env.conf.useLocalSet = false)
include hmode

theorem applyIfStale_flat : Keeps FlatConn (applyIfStale env) := by
  refine flat_passive.applyIfStale ensureConnection_flat (send_flat_one ?_)
  simp [Command.Global, hmode]

/-- **The wrapper**: there is no transaction of its own in this mode. -/
theorem guard_flat {sql : Sql} (hsql : ∀ cmd ∈ sql.commands, cmd.Global) : Keeps FlatConn (guard env sql) := by
  have hstatement : Keeps FlatConn (execute env.context sql.commands) := flat_passive.execute (send_flat hsql)
  have hnot : ∀ control c status st, (!control && needsOwnTransaction env c status st) = false := by
    simp [needsOwnTransaction, hmode]
  have hafter : ∀ control c status st, Keeps FlatConn (do
      attempt (if (!control && needsOwnTransaction env c status st) = true then runInOwnTransaction env sql
        else execute env.context sql.commands) fun e => do
        forgetIfFollowed (parse sql.object)
        raise e
      afterStatement env.conf (parse sql.object) status
      let t ← reads (·.tracker)
      if (!control && needsOwnTransaction env c status st) || (t.wroteLocal && t.inTransaction) then
        modify fun c => { c with tracker := c.tracker.suspectSession true } : Db Unit) := by
    intro control c status st
    rw [hnot]
    refine .bind_rule (.attempt_rule hstatement fun e => ?_) fun _ => ?_
    · exact (flat_passive.forgetIfFollowed _).bind_rule fun _ => .raise_rule _
    · exact (flat_passive.afterStatement _ _ _).bind_rule fun _ => .bind_rule (.reads_rule _) fun _ =>
        .ite_rule (fun _ => flat_passive.track _) fun _ => .pure_rule _
  exact .ite_rule (fun _ => flat_passive.observe.bind_rule fun _ => .bind_rule (.reads_rule _) fun _ => hafter _ _ _ _)
    fun _ => (applyIfStale_flat hmode).bind_rule fun _ => .bind_rule (.reads_rule _) fun _ => hafter _ _ _ _

theorem settle_flat (wroteNothing cleared : Bool) : Keeps FlatConn (settle env wroteNothing cleared) :=
  settle_keeps_of flat_passive.observe (applyIfStale_flat hmode) flat_passive.forget wroteNothing cleared

theorem snapshotGucs_flat : Keeps FlatConn (snapshotGucs env) := by
  have hread : ∀ name, Keeps FlatConn (getGuc env name) := fun name =>
    ensureConnection_flat.bind_rule fun _ => (guard_flat hmode (by simp [Command.Global])).bind_rule fun _ =>
      .bind_rule (.reads_rule _) fun _ => .pure_rule _
  exact (hread _).bind_rule fun _ => (hread _).bind_rule fun _ => .pure_rule _

end Mode

theorem suspect_flat (under : Bool) : Keeps FlatConn (suspect under) :=
  suspect_keeps_of flat_passive.observe under fun _ h => h

/-! ## One GUC at a time -/

theorem setGuc_flat (name : Guc) (value : String) : Keeps FlatConn (setGuc env name value false) := by
  have hwrite : Keeps FlatConn (do
      ensureConnection env
      guardWriting env ⟨.str (setGucSql env.conf name false), [.setGuc name value false]⟩ : Db Unit) :=
    ensureConnection_flat.bind_rule fun _ => flat_passive.guardWriting (send_flat_one rfl)
  exact .bind_rule (.reads_rule _) fun _ => .ite_rule (fun _ => (flat_passive.throws _).bind_rule fun _ => hwrite)
    fun _ => hwrite

theorem setGucEach_flat (writes : List (Guc × String)) : Keeps FlatConn (setGucEach env false writes) := by
  induction writes with
  | nil => exact .pure_rule _
  | cons w rest ih => exact (setGuc_flat w.1 w.2).bind_rule fun _ => ih

theorem restoreEach_flat (pending : Bool) (previous : List (Guc × Option String)) :
    Keeps FlatConn (restoreEach env false pending previous) := by
  induction previous with
  | nil => exact .pure_rule _
  | cons p rest ih =>
    refine .bind_rule (.attempt_rule ((setGuc_flat p.1 _).bind_rule fun _ => .pure_rule _) fun _ => ?_)
      fun _ => ih.bind_rule fun _ => .pure_rule _
    exact .ite_rule (fun _ => .pure_rule _) fun _ => .raise_rule _

theorem restoreGucs_flat (previous : List (Guc × Option String)) (pending : Bool) :
    Keeps FlatConn (restoreGucs env previous false pending) := by
  have hmark : ∀ needsRollback : Connection → Bool,
      Keeps FlatConn (modify fun c => { c with needsRollback := needsRollback c } : Db Unit) := fun _ _ h => h
  refine .ite_rule (fun _ => .pure_rule _) fun _ => .bind_rule (.reads_rule _) fun _ => ?_
  exact (hmark _).bind_rule fun _ => .ensuring_rule (restoreEach_flat pending previous) (hmark _)

end Connections

end RlsTenants
