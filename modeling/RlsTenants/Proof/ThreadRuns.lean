import RlsTenants.Spec.ThreadRuns
import RlsTenants.Proof.OwnTransaction

/-!
# The library writes nothing for the session

In transaction-local mode: what a session holds for itself was on it when a pool handed it
out, or a statement wrote it, or is empty.

* `Holds P`: the values that a session holds for itself have `P`. A message keeps it if the
  values it writes for the session have `P` (`runMessage_holds`); local values are free.
* `Own P` is `Holds P` for a connection and for the sessions it will be given. The functions of
  the guard keep it, by the shape of the program, and so does every deed of a thread
  (`deed_keeps`).
* `local_mode_leaves_nothing`: a transaction of its own ends, and a run leaves no values of the
  library's.
-/

namespace RlsTenants

open Txn Effect Comp ContextVar

variable {P : Guc → String → Prop}

/-! ## Sessions -/

/-- The values of both GUCs have `P`. -/
def Have (P : Guc → String → Prop) (g : ContextGucs) : Prop := ∀ name, P name (g.get name)

/-- What the session holds for itself has `P`. -/
def Holds (P : Guc → String → Prop) (s : Backend) : Prop := ∀ g ∈ sessionGucs s, Have P g

theorem have_named {g : ContextGucs} (h : ∀ w ∈ g.named, P w.1 w.2) : Have P g := by
  intro name
  cases name with
  | isAdmin => exact h (.isAdmin, g.isAdmin) List.mem_cons_self
  | currentTenant => exact h (.currentTenant, g.currentTenant) (List.mem_cons_of_mem _ List.mem_cons_self)

theorem have_cleared (hempty : ∀ name, P name "") : Have P .cleared := by
  intro name
  cases name <;> exact hempty _

theorem Have.put {g : ContextGucs} (h : Have P g) {name : Guc} {value : String} (hv : P name value) :
    Have P (g.put name value) := by
  intro other
  by_cases ho : other = name
  · subst ho
    rw [ContextGucs.get_put_same]
    exact hv
  · rw [ContextGucs.get_put_other ho]
    exact h other

theorem Have.reset (hempty : ∀ name, P name "") (names : List Guc) {g : ContextGucs} (h : Have P g) :
    Have P (names.foldl (fun g name => g.put name "") g) := by
  induction names generalizing g with
  | nil => exact h
  | cons name names ih => exact ih (h.put (hempty name))

theorem holds_idle {v : Visible} : Holds P (.idle v) ↔ Have P v.gucs := by
  simp [Holds, sessionGucs]

theorem holds_inTx {o : Open Name Visible} : Holds P (.inTx o) ↔
    Have P o.start.gucs ∧ Have P o.level.session.gucs ∧ ∀ e ∈ o.savepoints, Have P e.2.session.gucs := by
  simp only [Holds, sessionGucs, List.forall_mem_cons, List.forall_mem_map]

theorem holds_fresh {v : Visible} (h : Have P v.gucs) : Holds P (.inTx (.fresh v)) :=
  holds_inTx.2 ⟨h, h, by simp⟩

namespace Holds

variable {s : Backend} {o : Open Name Visible}

theorem durable (h : Holds P s) : Have P s.durable.gucs := by
  cases s with
  | idle v => exact holds_idle.1 h
  | inTx o => exact (holds_inTx.1 h).1

theorem rollback (h : Holds P s) : Holds P s.rollback := holds_idle.2 h.durable

theorem fail (h : Holds P s) : Holds P s.fail := by
  cases s with
  | idle v => exact h
  | inTx o => exact h

theorem committed (h : Holds P (.inTx o)) : Have P o.committed.gucs := by
  obtain ⟨hstart, hlevel, -⟩ := holds_inTx.1 h
  unfold Open.committed
  split
  · exact hstart
  · exact hlevel

theorem seek {n : Name} {l : Level Visible} {below : Stack Name (Level Visible)} (h : Holds P (.inTx o))
    (hs : Txn.seek n o.savepoints = some (l, below)) :
    Have P l.session.gucs ∧ ∀ e ∈ below, Have P e.2.session.gucs := by
  have hall := (holds_inTx.1 h).2.2
  have hmem := seek_mem hs
  exact ⟨hall _ hmem.1, fun e he => hall e (hmem.2 e he)⟩

end Holds

/-! ## Messages -/

/-- What the command writes for the session has `P`. -/
def Command.Leaves (P : Guc → String → Prop) (c : Command) : Prop := ∀ w ∈ c.written, P w.1 w.2

/-- A message under way holds values with `P` for the session. -/
def Work.Holds (P : Guc → String → Prop) (w : Work) : Prop := RlsTenants.Holds P (.inTx w.tx)

theorem Work.Holds.write {w : Work} (h : w.Holds P) {f : Visible → Visible} {isLocal : Bool}
    (hf : isLocal = false → ∀ v, Have P v.gucs → Have P (f v).gucs) : (w.write f isLocal).Holds P := by
  obtain ⟨hstart, hlevel, hsave⟩ := holds_inTx.1 h
  refine holds_inTx.2 ⟨hstart, ?_, hsave⟩
  cases isLocal with
  | true => exact hlevel
  | false => exact hf rfl _ hlevel

theorem Work.Holds.ended {w : Work} {v : Visible} (hv : Have P v.gucs) (chain : Bool) : (w.ended v chain).Holds P :=
  holds_fresh hv

theorem Work.Holds.enter {s : Backend} (h : RlsTenants.Holds P s) : (Work.enter s).Holds P := by
  cases s with
  | idle v => exact holds_fresh (holds_idle.1 h)
  | inTx o => exact h

theorem Work.Holds.leave {w : Work} (h : w.Holds P) : RlsTenants.Holds P w.leave := by
  unfold Work.leave
  split
  · exact holds_idle.2 h.committed
  · exact h

theorem Work.Holds.abort {w : Work} (h : w.Holds P) : RlsTenants.Holds P w.abort := by
  unfold Work.abort
  split
  · exact holds_idle.2 (holds_inTx.1 h).1
  · exact h

theorem step_holds (hempty : ∀ name, P name "") {c : Command} (hc : c.Leaves P) {w w' : Work} (h : w.Holds P)
    (hs : c.step w = some w') : w'.Holds P := by
  -- a transaction that ends leaves one of the values it could end with
  cases c with
  | commit chain =>
    simp only [Command.step, Option.ite_none_left_eq_some, Option.some.injEq] at hs
    rw [← hs.2]
    exact Work.Holds.ended h.committed chain
  | rollback chain =>
    simp only [Command.step, Option.ite_none_left_eq_some, Option.some.injEq] at hs
    rw [← hs.2]
    exact Work.Holds.ended (holds_inTx.1 h).1 chain
  | rollbackTo n =>
    simp only [Command.step, Option.ite_none_left_eq_some, Option.map_eq_some_iff] at hs
    obtain ⟨-, o, ho, rfl⟩ := hs
    obtain ⟨l, below, hseek, rfl⟩ := Open.rollbackTo_eq_some ho
    obtain ⟨hl, hbelow⟩ := h.seek hseek
    exact holds_inTx.2 ⟨(holds_inTx.1 h).1, hl, List.forall_mem_cons.2 ⟨hl, hbelow⟩⟩
  | release n =>
    simp only [Command.step, Option.ite_none_left_eq_some, Option.map_eq_some_iff] at hs
    obtain ⟨-, -, o, ho, rfl⟩ := hs
    obtain ⟨l, below, hseek, rfl⟩ := Open.release_eq_some ho
    obtain ⟨hstart, hlevel, -⟩ := holds_inTx.1 h
    exact holds_inTx.2 ⟨hstart, hlevel, (h.seek hseek).2⟩
  | savepoint n =>
    simp only [Command.step, Option.ite_none_left_eq_some, Option.some.injEq] at hs
    obtain ⟨-, -, rfl⟩ := hs
    obtain ⟨hstart, hlevel, hsave⟩ := holds_inTx.1 h
    exact holds_inTx.2 ⟨hstart, hlevel, List.forall_mem_cons.2 ⟨hlevel, hsave⟩⟩
  | rows id =>
    simp only [Command.step, Option.ite_none_left_eq_some, Option.some.injEq] at hs
    obtain ⟨-, rfl⟩ := hs
    exact Work.Holds.write (f := fun v => { v with rows := id :: v.rows }) h fun _ _ hv => hv
  | setGucs values isLocal =>
    simp only [Command.step, Option.ite_none_left_eq_some, Option.some.injEq] at hs
    obtain ⟨-, rfl⟩ := hs
    refine h.write fun hl _ _ => ?_
    subst hl
    exact have_named hc
  | setGuc name value isLocal =>
    simp only [Command.step, Option.ite_none_left_eq_some, Option.some.injEq] at hs
    obtain ⟨-, rfl⟩ := hs
    refine h.write fun hl v hv => ?_
    subst hl
    exact hv.put (hc (name, value) List.mem_cons_self)
  | resetGucs names =>
    simp only [Command.step, Option.ite_none_left_eq_some, Option.some.injEq] at hs
    obtain ⟨-, rfl⟩ := hs
    exact h.write fun _ _ hv => hv.reset hempty names
  | begin =>
    simp only [Command.step, Option.ite_none_left_eq_some, Option.some.injEq] at hs
    obtain ⟨-, rfl⟩ := hs
    exact h
  | other =>
    simp only [Command.step, Option.ite_none_left_eq_some, Option.some.injEq] at hs
    obtain ⟨-, rfl⟩ := hs
    exact h
  | fault => simp [Command.step] at hs

theorem runCommands_holds (hempty : ∀ name, P name "") {cs : List Command} (hcs : ∀ c ∈ cs, c.Leaves P) {w : Work}
    (h : w.Holds P) : Holds P (runCommands cs w).1 := by
  induction cs generalizing w with
  | nil => exact h.leave
  | cons c cs ih =>
    rw [runCommands]
    cases hs : c.step w with
    | none => exact h.abort
    | some w' =>
      have h' : w'.Holds P := step_holds hempty (hcs c List.mem_cons_self) h hs
      exact ih (fun c' hc' => hcs c' (List.mem_cons_of_mem _ hc')) h'

theorem runMessage_holds (hempty : ∀ name, P name "") {cs : List Command} (hcs : ∀ c ∈ cs, c.Leaves P)
    {s : Backend} (h : Holds P s) : Holds P (runMessage cs s).1 :=
  runCommands_holds hempty hcs (.enter h)

theorem refuseMessage_holds (cs : List Command) {s : Backend} (h : Holds P s) : Holds P (refuseMessage cs s).1 := by
  unfold refuseMessage
  split
  · exact h.rollback
  · exact h.fail
  · exact h.fail

/-! ## Connections -/

/-- What the session of a connection, and those it will be given, hold for themselves. -/
structure Own (P : Guc → String → Prop) (c : Connection) : Prop where
  holds : Holds P c.pg
  opens : ∀ new ∈ c.opens, Have P (valuesOf new.found)

theorem own_passive : Passive (Own P) := fun _ _ _ _ h => ⟨h.holds, h.opens⟩

section Own

variable {c : Connection} {env : Env}

theorem Own.ready (h : Own P c) : Holds P c.ready := by
  unfold Connection.ready
  have hpg := h.holds
  split
  · rename_i v hv
    rw [hv] at hpg
    split
    · exact hpg
    · exact holds_fresh (holds_idle.1 hpg)
  · rename_i o ho
    rw [ho] at hpg
    exact hpg

/-- The link goes down, and the open transaction is undone. -/
theorem Own.undone (h : Own P c) (link : Link) (needsRollback : Bool) :
    Own P { c with link := link, needsRollback := needsRollback, pg := c.pg.rollback } :=
  ⟨h.holds.rollback, h.opens⟩

theorem close_own : Keeps (Own P) close := own_passive.close fun _ link needsRollback h => h.undone link needsRollback

variable (hempty : ∀ name, P name "")
include hempty

theorem Own.opened (h : Own P c) : Own P { c with
    raw := c.raw + 1
    link := .up
    pg := .idle ⟨valuesOf (c.opens.headD ⟨none, none⟩).found, c.pg.durable.rows⟩
    autocommit := c.autocommitSetting
    needsRollback := false
    inAtomicBlock := false
    opens := c.opens.tail } := by
  refine ⟨holds_idle.2 ?_, fun new hnew => h.opens new (List.mem_of_mem_tail hnew)⟩
  cases hopens : c.opens with
  | nil => exact have_cleared hempty
  | cons new rest => exact h.opens new (by rw [hopens]; exact List.mem_cons_self)

/-- **A message keeps it** if the values it writes for the session do, however it ends. -/
theorem send_own {context : Option ContextGucs} {cs : List Command} (hcs : ∀ cmd ∈ cs, cmd.Leaves P) :
    Keeps (Own P) (send context cs) := by
  intro c h
  have hreach : ∀ reach, Holds P (c.reached cs reach) := by
    intro reach
    cases reach with
    | notRun => exact h.holds
    | failed => exact refuseMessage_holds cs h.ready
    | run => exact runMessage_holds hempty hcs h.ready
  unfold send
  split
  · split
    · split
      · exact ⟨hreach .run, h.opens⟩
      · exact ⟨hreach .run, h.opens⟩
    · exact ⟨hreach .failed, h.opens⟩
    · exact ⟨(hreach _).rollback, h.opens⟩
    · exact ⟨hreach _, h.opens⟩
  · exact ⟨h.holds, h.opens⟩

/-- A message that writes nothing for the session. -/
theorem send_silent {context : Option ContextGucs} {cmd : Command} (h : cmd.written = []) :
    Keeps (Own P) (send context [cmd]) := by
  refine send_own hempty fun cmd' hcmd' => ?_
  obtain rfl := List.mem_singleton.1 hcmd'
  intro w hw
  rw [h] at hw
  exact absurd hw List.not_mem_nil

/-- The library writes a context's values locally, and only empty ones for the session. -/
theorem send_setGucs {context values : Option ContextGucs} {isLocal : Bool}
    (h : isLocal = false → values = none) : Keeps (Own P) (send context [.setGucs (valuesOf values) isLocal]) := by
  cases isLocal with
  | true => exact send_silent hempty rfl
  | false =>
    refine send_own hempty fun cmd hcmd => ?_
    obtain rfl := List.mem_singleton.1 hcmd
    rw [h rfl]
    intro w hw
    have hw : w ∈ [(Guc.isAdmin, ""), (Guc.currentTenant, "")] := hw
    rcases List.mem_pair.1 hw with rfl | rfl <;> exact hempty _

theorem driverEnd_own (committed : Bool) : Keeps (Own P) (driverEnd committed) := by
  apply driverEnd_keeps
  apply send_silent hempty
  cases committed <;> rfl

theorem rollBackOwnTransaction_own : Keeps (Own P) rollBackOwnTransaction := by
  have hread : Keeps (Own P) (do return (← readStatus) = .idle : Db Bool) :=
    own_passive.readStatus.bind_rule fun _ => .pure_rule _
  exact own_passive.readStatus.bind_rule fun _ =>
    .ite_rule (fun _ => (send_silent hempty rfl).bind_rule fun _ => hread) fun _ => hread

theorem abandonOwnTransaction_own : Keeps (Own P) abandonOwnTransaction := by
  have hleave : ∀ ended, Keeps (Own P) (leaveOwnTransaction ended) := by
    intro ended
    refine .ite_rule (fun _ => own_passive.track _) fun _ => own_passive.forget.bind_rule fun _ => ?_
    exact close_own.attempt_rule fun _ => .ite_rule (fun _ => .pure_rule _) fun _ => .raise_rule _
  refine .bind_rule (.attempt_rule (.attempt_rule (rollBackOwnTransaction_own hempty) fun _ => ?_) fun _ => ?_)
    fun ended => hleave ended
  · exact .ite_rule (fun _ => .pure_rule _) fun _ => .raise_rule _
  · exact (hleave false).bind_rule fun _ => .raise_rule _

theorem transactionEnd_own (committed : Bool) : Keeps (Own P) (transactionEnd committed) := by
  have hfollow : ∀ before o, Keeps (Own P) (followDriverEnd before o) := fun before o =>
    own_passive.readStatus.bind_rule fun _ => .ite_rule (fun _ => own_passive.track _) fun _ =>
      .ite_rule (fun _ => own_passive.forget) fun _ => .pure_rule _
  have hend : Keeps (Own P) (driverEnd committed) := driverEnd_own hempty committed
  refine .bind_rule (.reads_rule _) fun c => .ite_rule (fun _ => hend) fun _ => ?_
  refine own_passive.readStatus.bind_rule fun before => .bind_rule (.attempt_rule hend fun e => ?_) fun _ => hfollow _ _
  exact (hfollow _ _).bind_rule fun _ => .raise_rule _

variable (hlocal : env.conf.useLocalSet = true)
include hlocal

theorem ensureConnection_own : Keeps (Own P) (ensureConnection env) := by
  refine own_passive.ensureConnection (fun c h => h.opened hempty) (own_passive.prepareNewConnection ?_ ?_)
  · exact own_passive.clearNewConnectionGucs (fun _ link needsRollback h => h.undone link needsRollback)
      (send_setGucs hempty fun _ => rfl) (send_silent hempty rfl)
  -- a request's values are not set on a new connection in this mode
  · intro hnot
    rw [hlocal] at hnot
    exact absurd hnot (by simp)

theorem writeGucs_own {values : Option ContextGucs} {isLocal : Bool} (h : isLocal = false → values = none) :
    Keeps (Own P) (writeGucs env values isLocal) :=
  own_passive.writeGucs (ensureConnection_own hempty hlocal) (send_setGucs hempty h)

theorem applyIfStale_own : Keeps (Own P) (applyIfStale env) := by
  refine own_passive.applyIfStale (ensureConnection_own hempty hlocal) (send_setGucs hempty fun h => ?_)
  -- only the values of no context are written for the session
  simpa [hlocal] using h

/-- **The wrapper** writes for the session what the statement writes. -/
theorem guard_own {sql : Sql} (hsql : ∀ cmd ∈ sql.commands, cmd.Leaves P) : Keeps (Own P) (guard env sql) := by
  have hstatement : Keeps (Own P) (execute env.context sql.commands) := own_passive.execute (send_own hempty hsql)
  have hown : Keeps (Own P) (runInOwnTransaction env sql) := by
    refine .bind_rule (.attempt_rule ?_ fun e => ?_) fun _ => own_passive.track _
    · refine (send_silent hempty rfl).bind_rule fun _ => own_passive.observe.bind_rule fun _ => ?_
      refine (writeGucs_own hempty hlocal (by simp)).bind_rule fun _ => hstatement.bind_rule fun _ => ?_
      exact send_silent hempty rfl
    · exact (abandonOwnTransaction_own hempty).bind_rule fun _ => .raise_rule _
  have hafter : ∀ own status, Keeps (Own P) (do
      attempt (if own then runInOwnTransaction env sql else execute env.context sql.commands) fun e => do
        forgetIfFollowed (parse sql.object)
        raise e
      afterStatement env.conf (parse sql.object) status
      let t ← reads (·.tracker)
      if own || (t.wroteLocal && t.inTransaction) then
        modify fun c => { c with tracker := c.tracker.suspectSession true } : Db Unit) := by
    intro own status
    refine .bind_rule (.attempt_rule (.ite_rule (fun _ => hown) fun _ => hstatement) fun e => ?_) fun _ => ?_
    · exact (own_passive.forgetIfFollowed _).bind_rule fun _ => .raise_rule _
    · exact (own_passive.afterStatement _ _ _).bind_rule fun _ => .bind_rule (.reads_rule _) fun _ =>
        .ite_rule (fun _ => own_passive.track _) fun _ => .pure_rule _
  exact .ite_rule (fun _ => own_passive.observe.bind_rule fun _ => .bind_rule (.reads_rule _) fun _ => hafter _ _)
    fun _ => (applyIfStale_own hempty hlocal).bind_rule fun _ => .bind_rule (.reads_rule _) fun _ => hafter _ _

theorem settle_own (wroteNothing cleared : Bool) : Keeps (Own P) (settle env wroteNothing cleared) :=
  settle_keeps_of own_passive.observe (applyIfStale_own hempty hlocal) own_passive.forget wroteNothing cleared

/-! ## One GUC at a time -/

theorem getGuc_own (name : Guc) : Keeps (Own P) (getGuc env name) := by
  have hread : ∀ cmd ∈ [Command.other], cmd.Leaves P := by
    intro cmd hcmd
    obtain rfl := List.mem_singleton.1 hcmd
    intro w hw
    exact absurd hw List.not_mem_nil
  refine (ensureConnection_own hempty hlocal).bind_rule fun _ => ?_
  refine (guard_own hempty hlocal hread).bind_rule fun _ => ?_
  exact .bind_rule (.reads_rule _) fun _ => .pure_rule _

theorem snapshotGucs_own : Keeps (Own P) (snapshotGucs env) :=
  (getGuc_own hempty hlocal _).bind_rule fun _ => (getGuc_own hempty hlocal _).bind_rule fun _ => .pure_rule _

/-- A local write. -/
theorem setGuc_own (name : Guc) (value : String) : Keeps (Own P) (setGuc env name value true) := by
  have hwrite : Keeps (Own P) (do
      ensureConnection env
      guardWriting env ⟨.str (setGucSql env.conf name true), [.setGuc name value true]⟩ : Db Unit) :=
    (ensureConnection_own hempty hlocal).bind_rule fun _ => own_passive.guardWriting (send_silent hempty rfl)
  exact .bind_rule (.reads_rule _) fun _ => .ite_rule (fun _ => (own_passive.throws _).bind_rule fun _ => hwrite)
    fun _ => hwrite

theorem setGucEach_own (writes : List (Guc × String)) : Keeps (Own P) (setGucEach env true writes) := by
  induction writes with
  | nil => exact .pure_rule _
  | cons w rest ih => exact (setGuc_own hempty hlocal w.1 w.2).bind_rule fun _ => ih

theorem restoreEach_own (pending : Bool) (previous : List (Guc × Option String)) :
    Keeps (Own P) (restoreEach env true pending previous) := by
  induction previous with
  | nil => exact .pure_rule _
  | cons p rest ih =>
    refine .bind_rule (.attempt_rule ((setGuc_own hempty hlocal p.1 _).bind_rule fun _ => .pure_rule _) fun _ => ?_)
      fun _ => ih.bind_rule fun _ => .pure_rule _
    exact .ite_rule (fun _ => .pure_rule _) fun _ => .raise_rule _

theorem restoreGucs_own (previous : List (Guc × Option String)) (pending : Bool) :
    Keeps (Own P) (restoreGucs env previous true pending) := by
  have hmark : ∀ needsRollback : Connection → Bool,
      Keeps (Own P) (modify fun c => { c with needsRollback := needsRollback c } : Db Unit) :=
    fun _ _ h => ⟨h.holds, h.opens⟩
  refine .ite_rule (fun _ => .pure_rule _) fun _ => .bind_rule (.reads_rule _) fun _ => ?_
  exact (hmark _).bind_rule fun _ => .ensuring_rule (restoreEach_own hempty hlocal pending previous) (hmark _)

end Own

/-! ## Threads -/

/-- Every connection of a thread in transaction-local mode. -/
structure OwnAll (P : ℕ → Guc → String → Prop) (t : Thread) : Prop where
  isLocal : t.conf.useLocalSet = true
  conns : ∀ dbAlias c, t.conns[dbAlias]? = some c → Own (P dbAlias) c

section Threads

variable {P : ℕ → Guc → String → Prop} {dbAlias : ℕ}

theorem on_keeps {α : Type} {m : Env → Db α}
    (h : ∀ env : Env, env.conf.useLocalSet = true → Keeps (Own (P dbAlias)) (m env)) : Keeps (OwnAll P) (on dbAlias m) := by
  intro t ht
  unfold on
  cases hc : t.conns[dbAlias]? with
  | none => exact ht
  | some c =>
    have hm : Own (P dbAlias) (m ⟨t.conf, t.scope.contextGucs⟩ c).2 := h _ ht.isLocal c (ht.conns dbAlias c hc)
    refine ⟨ht.isLocal, fun other c' hc' => ?_⟩
    by_cases ho : dbAlias = other
    · subst ho
      have hlt : dbAlias < t.conns.length := (List.getElem?_eq_some_iff.1 hc).1
      obtain rfl : (m ⟨t.conf, t.scope.contextGucs⟩ c).2 = c' := by
        simpa [List.getElem?_set_self hlt] using hc'
      exact hm
    · exact ht.conns other c' (by simpa [List.getElem?_set_ne ho] using hc')

variable (hempty : ∀ dbAlias name, P dbAlias name "")

/-- Only the context variables change. -/
theorem scope_keeps {t : Thread} (ht : OwnAll P t) (scope : Scope) : OwnAll P { t with scope := scope } :=
  ⟨ht.isLocal, ht.conns⟩

theorem inScope_keeps {α : Type} (m : Comp Scope TokenError α) : Keeps (OwnAll P) (inScope m) := by
  intro t ht
  unfold inScope
  split
  · exact scope_keeps ht _
  · exact scope_keeps ht _

theorem enterState_keeps (active : Bool) (tenantId : Option TenantId) (gucs : Option ContextGucs) :
    Keeps (OwnAll P) (enterState active tenantId gucs) := fun _ ht => scope_keeps ht _

theorem exitState_keeps (tokens : StateTokens) : Keeps (OwnAll P) (exitState tokens) :=
  (inScope_keeps _).ensuring_rule ((inScope_keeps _).ensuring_rule (inScope_keeps _))

theorem onConfigured_keeps {f : ℕ → Prog Unit} (h : ∀ dbAlias, Keeps (OwnAll P) (f dbAlias)) :
    Keeps (OwnAll P) (onConfigured f) :=
  .bind_rule (.reads_rule _) fun _ => .each_rule fun dbAlias _ => h dbAlias

theorem suspectSessions_keeps (underLocalValues : Bool) : Keeps (OwnAll P) (suspectSessions underLocalValues) :=
  onConfigured_keeps fun _ => on_keeps fun _ _ =>
    suspect_keeps_of own_passive.observe underLocalValues fun _ h => ⟨h.holds, h.opens⟩

theorem forget_keeps_all : Keeps (OwnAll P) (on dbAlias fun _ => forget) := on_keeps fun _ _ => own_passive.forget

include hempty

theorem settleOtherAliases_keeps (dbAlias? : Option ℕ) (cleared : Bool) :
    Keeps (OwnAll P) (settleOtherAliases dbAlias? cleared) := by
  refine onConfigured_keeps fun dbAlias => .ite_rule (fun _ => .pure_rule _) fun _ => on_keeps fun env hlocal => ?_
  exact settle_own (hempty dbAlias) hlocal _ cleared

theorem restoreSnapshot_keeps (f : Frame) (previous : List (Guc × Option String)) (pending : Bool) :
    Keeps (OwnAll P) (restoreSnapshot f previous pending) := by
  have hsettle : Keeps (OwnAll P) (settleOtherAliases (some f.dbAlias) false) := settleOtherAliases_keeps hempty _ _
  have hforget : Keeps (OwnAll P) (do
      on f.dbAlias fun _ => forget
      settleOtherAliases (some f.dbAlias) false) := forget_keeps_all.bind_rule fun _ => hsettle
  refine .reads_bind fun t ht => ?_
  have hl : (id t).conf.useLocalSet = true := ht.isLocal
  have hrestore : ∀ (env : Env) (values : List (Guc × Option String)), env.conf.useLocalSet = true →
      Keeps (Own (P f.dbAlias)) (restoreGucs env values (id t).conf.useLocalSet pending) := by
    intro env values hlocal
    rw [hl]
    exact restoreGucs_own (hempty f.dbAlias) hlocal values pending
  refine .ite_rule (fun _ => .ite_rule (fun _ => ?_) fun _ => hforget) fun _ => ?_
  · refine .bind_rule (on_keeps fun env hlocal => own_passive.writing ?_ _ _) fun _ => hsettle
    exact (hrestore env _ hlocal).bind_rule fun _ => .pure_rule _
  · refine .bind_rule (on_keeps fun env hlocal => own_passive.writing (hrestore env _ hlocal) _ _) fun restored => ?_
    exact .ite_rule (fun _ => hforget) fun _ => hsettle

theorem restoreTenantGucs_keeps (f : Frame) (pending : Bool) : Keeps (OwnAll P) (restoreTenantGucs f pending) := by
  refine .bind_rule (.reads_rule _) fun isLocal => .ensuring_rule ?_ ?_
  · cases f.previous with
    | none => exact settleOtherAliases_keeps hempty _ _
    | some previous => exact restoreSnapshot_keeps hempty f previous pending
  · exact .ite_rule (fun _ => suspectSessions_keeps _) fun _ => .pure_rule _

theorem exitContext_keeps (f : Frame) (pending : Bool) : Keeps (OwnAll P) (exitContext f pending) := by
  refine .bind_rule (.attempt_rule (exitState_keeps f.tokens) fun e => ?_) fun _ => restoreTenantGucs_keeps hempty f pending
  exact (restoreTenantGucs_keeps hempty f true).bind_rule fun _ => .raise_rule e

/-- In this mode a block writes local values, if any. -/
theorem enterBlock_keeps (tenantId : Option TenantId) (gucs : ContextGucs)
    (previous : Option (List (Guc × Option String))) (writes : List (Guc × String)) :
    Keeps (OwnAll P) (enterBlock dbAlias tenantId gucs previous writes) := by
  refine .reads_bind fun t ht => (enterState_keeps _ _ _).bind_rule fun tokens => .ite_rule (fun _ => ?_) fun _ => .pure_rule _
  have hl : (id t).conf.useLocalSet = true := ht.isLocal
  refine .bind_rule (.attempt_rule (on_keeps fun env hlocal => own_passive.writing ?_ _ _) fun e => ?_) fun _ => .pure_rule _
  · rw [hl]
    exact setGucEach_own (hempty dbAlias) hlocal writes
  · exact (exitContext_keeps hempty _ true).bind_rule fun _ => .raise_rule e

theorem enter_keeps (block : ContextBlock) : Keeps (OwnAll P) (block.enter dbAlias) := by
  have hsnapshot : Keeps (OwnAll P) (on dbAlias snapshotGucs) :=
    on_keeps fun env hlocal => snapshotGucs_own (hempty dbAlias) hlocal
  have hcontext : ∀ tenantId gucs, Keeps (OwnAll P) (enterContext dbAlias tenantId gucs) := fun tenantId gucs =>
    .bind_rule (.reads_rule _) fun _ =>
      .ite_rule (fun _ => hsnapshot.bind_rule fun _ => enterBlock_keeps hempty _ _ _ _) fun _ => enterBlock_keeps hempty _ _ _ _
  cases block with
  | tenant tenantId => exact hcontext _ _
  | admin => exact hcontext _ _
  | user tenantId gucs =>
    refine .bind_rule (.reads_rule _) fun _ => .ite_rule (fun _ => ?_) fun _ => enterBlock_keeps hempty _ _ _ _
    exact hsnapshot.bind_rule fun _ => enterBlock_keeps hempty _ _ _ _

theorem exitNoContext_keeps (tokens : StateTokens) : Keeps (OwnAll P) (exitNoContext tokens) := by
  refine (exitState_keeps tokens).ensuring_rule (.bind_rule (.reads_rule _) fun isLocal => ?_)
  exact (suspectSessions_keeps isLocal).ensuring_rule (settleOtherAliases_keeps hempty none true)

end Threads

/-! ## Runs -/

section Runs

variable {P : ℕ → Guc → String → Prop} {s : Running}

theorem does_keeps {m : Prog Unit} (h : Keeps (OwnAll P) m) (hs : OwnAll P s.thread) : OwnAll P (s.does m).thread :=
  h s.thread hs

theorem enters_keeps {m : Prog Frame} (h : Keeps (OwnAll P) m) (hs : OwnAll P s.thread) :
    OwnAll P (s.enters m).thread := by
  have hm := h s.thread hs
  unfold Running.enters
  split
  · rename_i f t ht
    rw [ht] at hm
    exact hm
  · rename_i e t ht
    rw [ht] at hm
    exact hm

theorem entersNoContext_keeps (hs : OwnAll P s.thread) : OwnAll P s.entersNoContext.thread := by
  have hm := enterState_keeps false none none s.thread hs
  unfold Running.entersNoContext
  split
  · rename_i tokens t ht
    rw [ht] at hm
    exact hm
  · rename_i e t ht
    rw [ht] at hm
    exact hm

/-- **One deed.** What it leaves on the sessions, its own statement wrote there. -/
theorem deed_keeps (hempty : ∀ dbAlias name, P dbAlias name "") {d : Deed}
    (hd : ∀ dbAlias, ∀ w ∈ d.written dbAlias, P dbAlias w.1 w.2) (hs : OwnAll P s.thread) :
    OwnAll P (s.step d).thread := by
  cases d with
  | connect dbAlias => exact does_keeps (on_keeps fun env hlocal => ensureConnection_own (hempty dbAlias) hlocal) hs
  | statement dbAlias sql =>
    have hsql : ∀ cmd ∈ sql.commands, cmd.Leaves (P dbAlias) := by
      intro cmd hcmd w hw
      apply hd dbAlias w
      simp only [Deed.written, if_true]
      exact List.mem_flatMap.2 ⟨cmd, hcmd, hw⟩
    refine does_keeps (on_keeps fun env hlocal => ?_) hs
    exact (ensureConnection_own (hempty dbAlias) hlocal).bind_rule fun _ => guard_own (hempty dbAlias) hlocal hsql
  | enter dbAlias block => exact enters_keeps (enter_keeps hempty block) hs
  | exit i pending =>
    simp only [Running.step]
    cases s.blocks[i]? with
    | none => exact hs
    | some f => exact does_keeps (exitContext_keeps hempty f pending) hs
  | enterNoContext => exact entersNoContext_keeps hs
  | exitNoContext i =>
    simp only [Running.step]
    cases s.noContexts[i]? with
    | none => exact hs
    | some tokens => exact does_keeps (exitNoContext_keeps hempty tokens) hs
  | clearAliasGucs dbAlias =>
    exact does_keeps (on_keeps fun env hlocal => writeGucs_own (hempty dbAlias) hlocal fun _ => rfl) hs
  | suspectSessions => exact does_keeps (suspectSessions_keeps true) hs
  | transactionEnd dbAlias committed =>
    exact does_keeps (on_keeps fun env hlocal => transactionEnd_own (hempty dbAlias) committed) hs
  | atomic dbAlias inAtomicBlock needsRollback =>
    exact does_keeps (on_keeps fun env hlocal => .modify_rule fun c h => ⟨h.holds, h.opens⟩) hs
  | setAutocommit dbAlias autocommit =>
    refine does_keeps (on_keeps fun env hlocal => .modify_rule fun c h => ?_) hs
    split
    · exact ⟨h.holds, h.opens⟩
    · exact h
  | close dbAlias => exact does_keeps (on_keeps fun env hlocal => close_own) hs
  | switch scope => exact scope_keeps hs scope

theorem fromElsewhere_start (hs : s.Unconnected) (hlocal : s.thread.conf.useLocalSet = true) (deeds : List Deed) :
    OwnAll (FromElsewhere s deeds) s.thread := by
  refine ⟨hlocal, fun dbAlias c hc => ⟨?_, fun new hnew => ?_⟩⟩
  · intro g hg
    rw [hs.empty c (List.mem_of_getElem? hc), List.mem_singleton] at hg
    rw [hg]
    exact have_cleared fun _ => .inl rfl
  · cases hfound : new.found with
    | none => exact have_cleared fun _ => .inl rfl
    | some g =>
      refine have_named fun w hw => .inr (.inl ?_)
      have hfind : s.found dbAlias = c.found := by
        unfold Running.found
        rw [hc]
        rfl
      rw [hfind]
      refine List.mem_flatMap.2 ⟨new, hnew, ?_⟩
      rw [hfound]
      exact hw

theorem run_fromElsewhere (hs : s.Unconnected) (hlocal : s.thread.conf.useLocalSet = true) (deeds : List Deed) :
    OwnAll (FromElsewhere s deeds) (Run.run Running.step s deeds).thread := by
  have hdeeds : ∀ d ∈ deeds, ∀ dbAlias, ∀ w ∈ d.written dbAlias, FromElsewhere s deeds dbAlias w.1 w.2 :=
    fun d hd dbAlias w hw => .inr (.inr (List.mem_flatMap.2 ⟨d, hd, hw⟩))
  exact Run.run_keeps_along (I := fun s' => OwnAll (FromElsewhere s deeds) s'.thread)
    (fun s' d hs' hd => deed_keeps (fun _ _ => .inl rfl) hd hs') (fromElsewhere_start hs hlocal deeds)
    (Run.along_of_forall hdeeds s)

/-- **A transaction of its own leaves nothing behind**: in transaction-local mode an autocommit
statement that gets one ends idle and committed, or idle or closed and undone; and in no run
does a session hold, for itself, a value that the library wrote. -/
theorem local_mode_leaves_nothing {conf : Conf} (hlocal : conf.useLocalSet = true) :
    (∀ (context : ContextGucs) (object : SqlObject) (cmd : Command) (v : Visible) (c : Connection),
      c.guarded = true → Idle v c → controlsTheTransaction (parse object) = false →
      refusedInATransaction (parse object) = false → cmd.staysInside = true →
      Ends (fun _ c' => Returned v cmd c') (fun e c' => Raised v cmd c e c')
        (guard ⟨conf, some context⟩ ⟨object, [cmd]⟩ c)) ∧
    ∀ (s : Running) (deeds : List Deed), s.Unconnected → s.thread.conf = conf →
      ∀ dbAlias c, (Run.run Running.step s deeds).thread.conns[dbAlias]? = some c →
        ∀ g ∈ sessionGucs c.pg, ∀ name, FromElsewhere s deeds dbAlias name (g.get name) := by
  constructor
  · intro context object cmd v c hguarded hidle hctl href hcmd
    exact guard_own_ends hlocal rfl hguarded hidle hctl href hcmd
  · intro s deeds hs hconf dbAlias c hc g hg name
    have hmode : s.thread.conf.useLocalSet = true := by rw [hconf]; exact hlocal
    exact ((run_fromElsewhere hs hmode deeds).conns dbAlias c hc).holds g hg name

/-- Transaction-local mode. -/
def Conf.local : Conf := ⟨true, "rls".toList⟩

/-- An idle connection whose fourth message is refused. -/
def Connection.commitRefused : Connection :=
  ⟨true, 0, .up, .idle ⟨.cleared, []⟩, true, true, false, false, .init, [], [.runs, .runs, .runs, .refused 1], [], [], []⟩

/-- A thread with one configured alias, whose pool gives it a session that holds tenant 9. -/
def Running.pooled : Running :=
  ⟨⟨.local, ⟨0, .init, ⟨[], ⟨0, []⟩⟩⟩, [⟨true, 0, .closed, .idle ⟨.cleared, []⟩, true, true, false, false, .init,
    [⟨some (.forTenant "9"), none⟩], [], [], [], []⟩]⟩, [], []⟩

/-- A statement in a block, and one after it. -/
def blockRun : List Deed :=
  let select := Deed.statement 0 ⟨.str "SELECT 1".toList, [.rows 0]⟩
  [.enter 0 (.tenant (.int 1)), select, .exit 0 false, select]

theorem commit_refused_leaves_nothing :
    Ends (fun _ c' => Returned ⟨.cleared, []⟩ (.rows 7) c') (fun e c' => Raised ⟨.cleared, []⟩ (.rows 7) .commitRefused e c')
      (guard ⟨.local, some (.forTenant "1")⟩ ⟨.str "SELECT 1".toList, [.rows 7]⟩ .commitRefused) ∧
    ∀ c, (Run.run Running.step .pooled blockRun).thread.conns[0]? = some c →
      ∀ g ∈ sessionGucs c.pg, ∀ name, FromElsewhere .pooled blockRun 0 name (g.get name) := by
  have hunconnected : Running.pooled.Unconnected := ⟨by simp [Running.pooled], by simp [Running.pooled, sessionGucs]⟩
  obtain ⟨hown, hrun⟩ := local_mode_leaves_nothing (show Conf.local.useLocalSet = true from rfl)
  refine ⟨hown _ _ _ _ _ rfl ⟨rfl, rfl, rfl, rfl⟩ (by decide +kernel) (by decide +kernel) rfl, fun c hc => ?_⟩
  exact hrun .pooled blockRun hunconnected rfl 0 c hc

end Runs

end RlsTenants
