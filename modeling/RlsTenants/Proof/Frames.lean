import RlsTenants.Proof.Messages
import RlsTenants.Spec.Guard

/-!
# What the guard leaves alone

A property of a connection that does not look at the record, nor at what went wrong
(`Passive`), is kept by everything that only sends messages that keep it. `ensureConnection`
does nothing on a connection that is not closed.
-/

namespace RlsTenants

open Txn Effect Comp

/-- The property does not look at the record, the faults to come or the exceptions so far. -/
def Passive (F : Connection → Prop) : Prop :=
  ∀ c t fa ra, F c → F { c with tracker := t, faults := fa, raised := ra }

variable {F : Connection → Prop} {env : Env}

namespace Passive

variable (hF : Passive F)
include hF

theorem track (f : Connection → SessionGUCs) :
    Keeps F (modify fun c => { c with tracker := f c } : Db Unit) :=
  fun c h => hF c (f c) c.faults c.raised h

theorem throws {α : Type} (e : Exc) : Keeps F (throw e : Db α) :=
  fun c h => hF c c.tracker c.faults (e :: c.raised) h

theorem mayRaise : Keeps F mayRaise := by
  intro c h
  unfold RlsTenants.mayRaise
  split
  · exact hF c c.tracker _ (_ :: c.raised) h
  · exact hF c c.tracker _ c.raised h
  · exact h

theorem readStatus : Keeps F readStatus := .bind_rule hF.mayRaise fun _ => .reads_rule _

theorem observe : Keeps F observe := by
  refine .bind_rule (.reads_rule _) fun l => .ite_rule (fun _ => .pure_rule _) fun _ => ?_
  refine .bind_rule (.modify_rule fun c h => ?_) fun _ => .bind_rule hF.readStatus fun _ =>
    .bind_rule (hF.track _) fun _ => .pure_rule _
  split
  · exact h
  · exact hF c _ c.faults c.raised h

theorem forget : Keeps F forget := hF.track _

theorem record (v : Tracked) (isLocal : Bool) : Keeps F (record v isLocal) :=
  .bind_rule (.reads_rule _) fun _ => .ite_rule
    (fun _ => .bind_rule hF.observe fun _ => hF.track _) (fun _ => .pure_rule _)

theorem writing {α : Type} {block : Db α} (h : Keeps F block) (v : Tracked) (isLocal : Bool) :
    Keeps F (writing v isLocal block) :=
  .bind_rule (.attempt_rule h fun _ => .bind_rule hF.forget fun _ => .raise_rule _) fun _ =>
    .bind_rule (hF.record v isLocal) fun _ => .pure_rule _

theorem forgetIfFollowed (st : Option Statement) : Keeps F (forgetIfFollowed st) :=
  .ite_rule (fun _ => hF.forget) fun _ => .pure_rule _

theorem afterStatement (conf : Conf) (st : Option Statement) (before : Status) :
    Keeps F (afterStatement conf st before) := by
  rcases st with _ | s
  · exact hF.forget
  refine .ite_rule (fun _ => hF.forget) fun _ => .ite_rule (fun _ => ?_) fun _ => .pure_rule _
  refine .ite_rule (fun _ => .ite_rule (fun _ => hF.forget) fun _ => .pure_rule _) fun _ =>
    .ite_rule (fun _ => ?_) fun _ => .pure_rule _
  exact .bind_rule (hF.track _) fun _ => .bind_rule hF.observe fun _ => hF.track _

theorem execute {context : Option ContextGucs} {cs : List Command} (h : Keeps F (send context cs)) :
    Keeps F (execute context cs) :=
  .bind_rule (.reads_rule _) fun _ =>
    .ite_rule (fun _ => .bind_rule (hF.throws _) fun _ => h) fun _ => h

theorem guardWriting {sql : Sql} (h : Keeps F (send env.context sql.commands)) :
    Keeps F (guardWriting env sql) :=
  .bind_rule hF.observe fun _ => .bind_rule
    (.attempt_rule (hF.execute h) fun _ => .bind_rule (hF.forgetIfFollowed _) fun _ => .raise_rule _)
    fun _ => hF.afterStatement _ _ _

theorem setGucs {values : Option ContextGucs} {isLocal : Bool}
    (h : Keeps F (send env.context [.setGucs (valuesOf values) isLocal])) :
    Keeps F (setGucs env values isLocal) := hF.guardWriting h

end Passive

theorem ensureConnection_open {c : Connection} (h : c.link ≠ .closed) :
    ensureConnection env c = (.ok (), c) := by
  simp [ensureConnection, h]

theorem ensureConnection_keeps (hopen : ∀ c, F c → c.link ≠ .closed) : Keeps F (ensureConnection env) := by
  intro c h
  rw [ensureConnection_open (hopen c h)]
  exact h

theorem driverEnd_keeps (committed : Bool)
    (h : Keeps F (send none [if committed then .commit false else .rollback false])) :
    Keeps F (driverEnd committed) := by
  intro c hc
  unfold driverEnd
  split
  · exact hc
  · exact hc
  · exact h c hc

/-! ## Other connections -/

section Others

variable (hobserve : Keeps F observe)
include hobserve

theorem settle_keeps_of (happly : Keeps F (applyIfStale env)) (hforget : Keeps F forget) (wroteNothing cleared : Bool) :
    Keeps F (settle env wroteNothing cleared) := by
  refine .bind_rule (.reads_rule _) fun _ => .ite_rule (fun _ => ?_) fun _ => .pure_rule _
  have hsettle : Keeps F
      (attempt (do let _ ← applyIfStale env) fun e => if e.isDatabaseError then forget else raise e) :=
    .attempt_rule (.bind_rule happly fun _ => .pure_rule _) fun e =>
      .ite_rule (fun _ => hforget) fun _ => .raise_rule _
  refine .bind_rule (.reads_rule _) fun held => .ite_rule (fun _ => ?_) fun _ => ?_
  · refine .bind_rule hobserve fun _ => .bind_rule (.pure_rule _) fun unknown => ?_
    exact .ite_rule (fun _ => hsettle) fun _ => .pure_rule _
  · refine .bind_rule (.pure_rule _) fun unknown => ?_
    exact .ite_rule (fun _ => hsettle) fun _ => .pure_rule _

theorem suspect_keeps_of (underLocalValues : Bool)
    (hsuspect : ∀ c, F c → F { c with tracker := c.tracker.suspectSession underLocalValues }) :
    Keeps F (suspect underLocalValues) := by
  refine .bind_rule (.reads_rule _) fun _ => .ite_rule (fun _ => ?_) fun _ => .pure_rule _
  exact .bind_rule (.attempt_rule (.bind_rule hobserve fun _ => .pure_rule _) fun e =>
    .ite_rule (fun _ => .pure_rule _) fun _ => .raise_rule _) fun _ => .modify_rule hsuspect

end Others

/-- The link is not closed. -/
def Unclosed (c : Connection) : Prop := c.link ≠ .closed

theorem unclosed_passive : Passive Unclosed := fun _ _ _ _ h => h

theorem send_unclosed (context : Option ContextGucs) (cs : List Command) : Keeps Unclosed (send context cs) :=
  fun _ h => Ends.inv <| send_ends (Q := Unclosed) (E := fun _ => Unclosed) (fun _ _ => h)
    (fun _ _ _ _ => h) fun _ _ _ hcl _ _ _ _ _ => fun hc => h (hcl.1 hc)

/-- The link is not closed, and `autocommit` is as it was. -/
def Autocommit (b : Bool) (c : Connection) : Prop := c.link ≠ .closed ∧ c.autocommit = b

theorem autocommit_passive (b : Bool) : Passive (Autocommit b) := fun _ _ _ _ h => h

theorem send_autocommit (b : Bool) (context : Option ContextGucs) (cs : List Command) :
    Keeps (Autocommit b) (send context cs) := by
  intro c h
  refine ⟨send_unclosed context cs c h.1, ?_⟩
  rw [← h.2]
  unfold send
  split
  · split
    · split <;> rfl
    · rfl
    · rfl
    · rfl
  · rfl

/-- A session whose link is open is in a transaction. -/
def InsideTx (c : Connection) : Prop := c.link ≠ .closed ∧ (c.link = .up → ∃ o, c.pg = .inTx o)

theorem insideTx_passive : Passive InsideTx := fun _ _ _ _ h => h

theorem SameTx.inTx_iff {s s' : Backend} (h : SameTx s s') : (∃ o, s = .inTx o) → ∃ o, s' = .inTx o := by
  rintro ⟨o, rfl⟩
  cases h
  exact ⟨_, rfl⟩

theorem send_insideTx {cs : List Command} (hcs : Stays cs) (context : Option ContextGucs) :
    Keeps InsideTx (send context cs) := by
  intro c h
  have hreach : c.link = .up → ∀ reach, ∃ o, c.reached cs reach = .inTx o := by
    intro hl reach
    obtain ⟨o, ho⟩ := h.2 hl
    have hready : c.ready = .inTx o := by simp [Connection.ready, ho]
    cases reach with
    | notRun => exact ⟨o, ho⟩
    | failed =>
      simp only [Connection.reached, hready]
      exact (hcs (.inTx o)).2.inTx_iff ⟨o, rfl⟩
    | run =>
      simp only [Connection.reached, hready]
      exact (hcs (.inTx o)).1.inTx_iff ⟨o, rfl⟩
  exact Ends.inv <| send_ends (Q := InsideTx) (E := fun _ => InsideTx)
    (fun hl _ => ⟨h.1, fun _ => hreach hl .run⟩) (fun hl _ reach _ => ⟨h.1, fun _ => hreach hl reach⟩)
    fun _ _ hup hcl _ _ _ _ _ => ⟨fun hc => h.1 (hcl.1 hc), fun hl => absurd hl hup⟩

namespace Passive

variable (hF : Passive F)
include hF

section Writes

variable (hensure : Keeps F (ensureConnection env))
include hensure

theorem writeGucs {values : Option ContextGucs} {isLocal : Bool}
    (h : Keeps F (send env.context [.setGucs (valuesOf values) isLocal])) :
    Keeps F (writeGucs env values isLocal) := by
  have hw : Keeps F (RlsTenants.writing (.known values) isLocal do
      RlsTenants.ensureConnection env
      RlsTenants.setGucs env values isLocal) :=
    hF.writing (.bind_rule hensure fun _ => hF.setGucs h) _ _
  refine .ite_rule (fun _ => ?_) fun _ => hw
  refine .bind_rule hensure fun _ => .bind_rule hF.readStatus fun _ =>
    .bind_rule (.reads_rule _) fun _ => .ite_rule (fun _ => .bind_rule (hF.throws _) fun _ => hw) fun _ => hw

theorem applyIfStale (h : Keeps F
    (send env.context [.setGucs (valuesOf env.context) (env.context.isSome && env.conf.useLocalSet)])) :
    Keeps F (applyIfStale env) := by
  refine .bind_rule hF.observe fun _ => .bind_rule (.reads_rule _) fun _ =>
    .ite_rule (fun _ => .pure_rule _) fun _ => .ite_rule (fun _ => .pure_rule _) fun _ =>
    .ite_rule (fun _ => .pure_rule _) fun _ => .ite_rule (fun _ => .pure_rule _) fun _ => ?_
  exact .bind_rule (hF.writeGucs hensure h) fun _ => .pure_rule _

end Writes

/-! ## Opening a connection -/

section Undone

-- a link that goes down, with the open transaction undone
variable (hundo : ∀ c link needsRollback, F c →
  F { c with link := link, needsRollback := needsRollback, pg := c.pg.rollback })
include hundo

theorem close : Keeps F close := by
  refine .bind_rule (.reads_rule _) fun _ => .ite_rule (fun _ => ?_) fun _ => .pure_rule _
  refine .bind_rule (.modify_rule fun c h => ?_) fun _ => hF.mayRaise
  split
  · exact hundo c .broken true h
  · exact hundo c .closed c.needsRollback h

theorem clearNewConnectionGucs (hclear : Keeps F (send env.context [.setGucs (valuesOf none) false]))
    (hcommit : Keeps F (send none [.commit false])) (pooled : Bool) : Keeps F (clearNewConnectionGucs env pooled) := by
  refine .attempt_rule (hF.writing (.bind_rule (hF.setGucs hclear) fun _ => .bind_rule (.reads_rule _)
    fun _ => .ite_rule (fun _ => driverEnd_keeps true hcommit) fun _ => .pure_rule _) _ _) fun e => ?_
  have hrest : Keeps F (do
      if pooled then
        modify fun c => { c with link := .broken, pg := c.pg.rollback }
        attempt RlsTenants.close fun e' => if e'.isException then pure () else raise e'
        raise e : Db Unit) := by
    refine .ite_rule (fun _ => .bind_rule (.modify_rule fun c h => hundo c .broken c.needsRollback h) fun _ => ?_)
      fun _ => .pure_rule _
    exact .bind_rule (.attempt_rule (hF.close hundo) fun _ => .ite_rule (fun _ => .pure_rule _) fun _ => .raise_rule _)
      fun _ => .raise_rule _
  exact .ite_rule (fun _ => .bind_rule (.raise_rule _) fun _ => hrest) fun _ => hrest

end Undone

theorem applyRequestGucs (h : Keeps F (send env.context [.setGucs (valuesOf env.context) false])) :
    Keeps F (applyRequestGucs env) := by
  unfold RlsTenants.applyRequestGucs
  split
  · exact .pure_rule _
  · rename_i g hg
    rw [hg] at h
    refine .attempt_rule (hF.writing (hF.setGucs ?_) _ _) fun _ => .ite_rule (fun _ => .pure_rule _) fun _ => .raise_rule _
    rw [hg]
    exact h

theorem prepareNewConnection (hclear : ∀ pooled, Keeps F (RlsTenants.clearNewConnectionGucs env pooled))
    (happly : env.conf.useLocalSet = false → Keeps F (RlsTenants.applyRequestGucs env)) (new : NewSession) :
    Keeps F (prepareNewConnection env new) := by
  have hthread : Keeps F (if new.requestThread = some true ∧ (!env.conf.useLocalSet) = true then
      RlsTenants.applyRequestGucs env else pure ()) :=
    .ite_rule (fun h => happly (by simpa using h.2)) fun _ => .pure_rule _
  refine .bind_rule (hF.track _) fun _ => .bind_rule (.reads_rule _) fun _ =>
    .ite_rule (fun _ => ?_) fun _ => .pure_rule _
  exact .ite_rule (fun _ => hclear _) fun _ =>
    .ite_rule (fun _ => .bind_rule (hclear _) fun _ => hthread) fun _ => hthread

/-- `hopen` is about the connection that has just been opened. -/
theorem ensureConnection (hopen : ∀ c, F c → F { c with
      raw := c.raw + 1
      link := .up
      pg := .idle ⟨valuesOf (c.opens.headD ⟨none, none⟩).found, c.pg.durable.rows⟩
      autocommit := c.autocommitSetting
      needsRollback := false
      inAtomicBlock := false
      opens := c.opens.tail })
    (hprepare : ∀ new, Keeps F (RlsTenants.prepareNewConnection env new)) : Keeps F (ensureConnection env) := by
  refine .bind_rule (.reads_rule _) fun _ => .ite_rule (fun _ => .bind_rule hF.mayRaise fun _ => ?_) fun _ => .pure_rule _
  intro c h
  exact hprepare _ _ (hopen c h)

end Passive

/-- The property does not look at the session either. -/
def Remote (F : Connection → Prop) : Prop :=
  ∀ c raw link pg autocommit needsRollback inAtomicBlock opens, F c → F { c with
    raw := raw, link := link, pg := pg, autocommit := autocommit, needsRollback := needsRollback,
    inAtomicBlock := inAtomicBlock, opens := opens }

/-- Such a property is kept by opening a connection, if every message keeps it. -/
theorem Remote.ensureConnection (hR : Remote F) (hF : Passive F) (hsend : ∀ context cs, Keeps F (send context cs)) :
    Keeps F (ensureConnection env) := by
  have hundo : ∀ c link needsRollback, F c →
      F { c with link := link, needsRollback := needsRollback, pg := c.pg.rollback } :=
    fun c link needsRollback h => hR c c.raw link _ c.autocommit needsRollback c.inAtomicBlock c.opens h
  exact hF.ensureConnection (fun c h => hR c _ .up _ c.autocommitSetting false false c.opens.tail h) <|
    hF.prepareNewConnection (hF.clearNewConnectionGucs hundo (hsend _ _) (hsend _ _))
      fun _ => hF.applyRequestGucs (hsend _ _)

section Unclosed

variable {c : Connection}

variable (env) in
/-- The clear of a new session closes no connection. -/
theorem clear_unclosed : Keeps Unclosed (writing (.known none) false do
    setGucs env none false
    if !(← reads (·.autocommit)) then driverEnd true) := by
  refine unclosed_passive.writing (.bind_rule (unclosed_passive.setGucs (send_unclosed _ _)) fun _ =>
    .bind_rule (.reads_rule _) fun _ => .ite_rule (fun _ => ?_) fun _ => .pure_rule _) _ _
  exact driverEnd_keeps _ (send_unclosed _ _)

/-- A connection whose clear succeeded, or was not needed, is still open. -/
theorem clearNewConnectionGucs_unclosed (ho : Unclosed c) (pooled : Bool) :
    Ends (fun _ => Unclosed) (fun _ _ => True) (clearNewConnectionGucs env pooled c) := by
  refine Ends.attempt_rule ((clear_unclosed env).triple c ho) fun e c' ho => ?_
  cases e.isException with
  | false => trivial
  | true =>
    cases pooled with
    | false => exact ho
    | true =>
      simp only [Bool.not_true, Bool.false_eq_true, if_false, if_true]
      exact Ends.bind_rule (Q := fun _ _ => True) trivial fun _ c _ =>
        Ends.bind_rule (Q := fun _ _ => True) (by rcases attempt _ _ c with ⟨_ | _, _⟩ <;> trivial) fun _ _ _ => trivial

theorem applyRequestGucs_unclosed : Keeps Unclosed (applyRequestGucs env) := by
  unfold applyRequestGucs
  split
  · exact .pure_rule _
  · exact .attempt_rule (unclosed_passive.writing (unclosed_passive.setGucs (send_unclosed _ _)) _ _) fun _ =>
      .ite_rule (fun _ => .pure_rule _) fun _ => .raise_rule _

theorem prepareNewConnection_unclosed (ho : Unclosed c) (new : NewSession) :
    Ends (fun _ => Unclosed) (fun _ _ => True) (prepareNewConnection env new c) := by
  have hthread : ∀ c, Unclosed c → Ends (fun _ => Unclosed) (fun _ _ => True)
      ((if new.requestThread = some true ∧ (!env.conf.useLocalSet) = true then applyRequestGucs env
        else pure ()) c) := by
    intro c ho
    split
    · exact (applyRequestGucs_unclosed.triple c ho).mono (fun _ _ h => h) fun _ _ _ => trivial
    · exact ho
  refine Ends.bind_rule (Q := fun _ => Unclosed) ho fun _ c ho => Ends.bind_rule (Q := fun _ => Unclosed) ho
    fun _ c ho => Ends.ite_rule (fun _ => ?_) fun _ => ho
  exact Ends.ite_rule (fun _ => clearNewConnectionGucs_unclosed ho _) fun _ => Ends.ite_rule
    (fun _ => (clearNewConnectionGucs_unclosed ho true).bind_rule fun _ c ho => hthread c ho) fun _ => hthread c ho

/-- **A connection that could be ensured is open.** -/
theorem ensureConnection_unclosed (c : Connection) :
    Ends (fun _ => Unclosed) (fun _ _ => True) (ensureConnection env c) := by
  by_cases hl : c.link = .closed
  · simp only [ensureConnection, bind_run, reads_run, hl, if_true]
    rcases mayRaise c with ⟨e | u, c'⟩
    · trivial
    · exact prepareNewConnection_unclosed (by simp [Unclosed]) _
  · rw [ensureConnection_open hl]
    exact hl

end Unclosed

end RlsTenants
