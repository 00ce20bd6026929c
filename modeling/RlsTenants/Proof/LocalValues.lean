import RlsTenants.Proof.Outside
import RlsTenants.Spec.SessionWrites

/-!
# Context values are local

With `USE_LOCAL_SET` the library writes a context's values in transactions only, and only
locally. `LocalOnly` says so of a record: it holds such values in a transaction with local
writes, and never as what the transaction started from.

* `writeGucs_local`, `applyIfStale_local`, `guard_local`: the guard's functions keep it.
* `step_local`: so does every event.
-/

namespace RlsTenants

open Txn Effect Comp

/-! ## The record -/

/-- A tracked value that is a context's is held where `inside` says. -/
def Tracked.HeldIf (inside : Prop) (v : Tracked) : Prop := ∀ g, v = .known (some g) → inside

/-- The record is in a transaction with local values. -/
def SessionGUCs.HasLocal (t : SessionGUCs) : Prop := t.inTransaction = true ∧ t.wroteLocal = true

/-- The record holds a context's values in a transaction with local values only. -/
structure SessionGUCs.LocalOnly (t : SessionGUCs) : Prop where
  values : t.values.HeldIf t.HasLocal
  base : t.base.HeldIf False
  savepoints : ∀ e ∈ t.savepoints, e.2.HeldIf t.HasLocal

theorem heldIf_unknown (p : Prop) : Tracked.unknown.HeldIf p := by
  intro g hg
  cases hg

theorem heldIf_none (p : Prop) : (Tracked.known none).HeldIf p := by
  intro g hg
  cases hg

theorem Tracked.HeldIf.mono {p q : Prop} {v : Tracked} (h : v.HeldIf p) (hpq : p → q) : v.HeldIf q :=
  fun g hg => hpq (h g hg)

namespace SessionGUCs.LocalOnly

variable {t : SessionGUCs}

theorem of_attach {v : Tracked} (t : SessionGUCs) (raw : ℕ) (hv : v.HeldIf False) : (t.attach raw v).LocalOnly :=
  ⟨hv.mono False.elim, hv, by simp [SessionGUCs.attach]⟩

/-- Outside a transaction no context's values are held. -/
theorem outside (h : t.LocalOnly) (hout : t.inTransaction = false) : t.values.HeldIf False :=
  h.values.mono fun hlocal => by simp [hlocal.1] at hout

/-- A context's values are recorded as local ones, in a transaction. -/
theorem setValues (h : t.LocalOnly) {v : Tracked} {isLocal : Bool}
    (hv : v.HeldIf (isLocal = true ∧ t.inTransaction = true)) : (t.setValues v isLocal).LocalOnly := by
  cases hin : t.inTransaction with
  | false =>
    rw [setValues_outside t hin]
    exact ⟨hv.mono fun hlocal => by simp [hlocal.2] at hin, h.base, h.savepoints⟩
  | true =>
    rw [setValues_inside t hin]
    have hmore : t.HasLocal → t.inTransaction = true ∧ (t.wroteLocal || isLocal) = true :=
      fun hlocal => ⟨hin, by simp [hlocal.2]⟩
    exact ⟨hv.mono fun hlocal => ⟨hin, by simp [hlocal.1]⟩, h.base,
      fun e he => (h.savepoints e he).mono hmore⟩

theorem forget (h : t.LocalOnly) : t.forget.LocalOnly := h.setValues (heldIf_unknown _)

theorem suspectSession (h : t.LocalOnly) (under : Bool) : (t.suspectSession under).LocalOnly := by
  unfold SessionGUCs.suspectSession
  split
  · rename_i hin
    have hlocal : t.inTransaction = true := (Bool.and_eq_true _ _ ▸ hin).1
    exact ⟨h.values.mono fun _ => ⟨hlocal, rfl⟩, h.base,
      fun e he => (h.savepoints e he).mono fun _ => ⟨hlocal, rfl⟩⟩
  · exact h.forget

/-- What the end of the transaction leaves is no context's. -/
theorem valuesAfter (h : t.LocalOnly) (committed : Option Bool) : (t.valuesAfter committed).HeldIf False := by
  unfold SessionGUCs.valuesAfter
  split
  · exact h.base
  split
  · exact heldIf_unknown _
  · rename_i hkept
    have hwrote : t.wroteLocal ≠ true := fun hw => hkept (.inl hw)
    exact h.values.mono fun hlocal => hwrote hlocal.2

theorem endTransaction (h : t.LocalOnly) (committed : Option Bool) : (t.endTransaction committed).LocalOnly := by
  cases hin : t.inTransaction with
  | false =>
    simp only [SessionGUCs.endTransaction, hin, Bool.false_eq_true, if_false]
    exact ⟨(h.outside hin).mono False.elim, h.base, by simp⟩
  | true =>
    simp only [SessionGUCs.endTransaction, hin, if_true]
    exact ⟨(h.valuesAfter committed).mono False.elim, h.base, by simp⟩

theorem syncTransaction (h : t.LocalOnly) (status : Status) : (t.syncTransaction status).LocalOnly := by
  by_cases hidle : status = .idle
  · simp only [SessionGUCs.syncTransaction, hidle, if_true]
    split
    · exact h.endTransaction _
    · exact h
  · rw [sync_of_ne t hidle]
    cases hin : t.inTransaction with
    | true => rw [sync_inside t hin]; exact h
    | false =>
      rw [sync_fresh t hin]
      exact ⟨(h.outside hin).mono False.elim, h.outside hin, by simp⟩

theorem followEnd (h : t.LocalOnly) (s : Statement) (before : Status) : (t.followEnd s before).LocalOnly := by
  unfold SessionGUCs.followEnd
  split
  · exact h.endTransaction _
  split
  · exact h.endTransaction _
  split
  · exact (h.endTransaction _).forget
  · exact h

theorem followSavepointEnd (h : t.LocalOnly) (name : Option Name) (rolledBack : Bool) :
    (t.followSavepointEnd name rolledBack).LocalOnly := by
  cases name with
  | none => exact h.forget
  | some n =>
    simp only [SessionGUCs.followSavepointEnd]
    split
    · split
      · exact h.forget
      · exact h
    · rename_i values below hseek
      obtain ⟨hmem, hbelow⟩ := seek_mem hseek
      have hbelow : ∀ e ∈ below, e.2.HeldIf t.HasLocal := fun e he => h.savepoints e (hbelow e he)
      split
      · exact ⟨h.savepoints _ hmem, h.base, List.forall_mem_cons.2 ⟨h.savepoints _ hmem, hbelow⟩⟩
      · exact ⟨h.values, h.base, hbelow⟩

theorem followSavepoint (h : t.LocalOnly) (s : Statement) : (t.followSavepoint s).LocalOnly := by
  unfold SessionGUCs.followSavepoint
  split
  · split
    · exact h.forget
    · exact ⟨h.values, h.base, List.forall_mem_cons.2 ⟨h.values, h.savepoints⟩⟩
  split
  · exact h.followSavepointEnd _ _
  split
  · exact h.followSavepointEnd _ _
  · exact h

end SessionGUCs.LocalOnly

/-! ## The connection -/

/-- The record of an open connection holds a context's values as local ones. -/
def LocalConn (c : Connection) : Prop := c.link ≠ .closed → c.tracker.LocalOnly

section Keeping

variable {c : Connection} {env : Env}

theorem track_local {f : Connection → SessionGUCs} (hf : ∀ c, c.tracker.LocalOnly → (f c).LocalOnly) :
    Keeps LocalConn (modify fun c => { c with tracker := f c } : Db Unit) :=
  fun c h hl => hf c (h hl)

theorem throw_local {α : Type} (e : Exc) : Keeps LocalConn (throw e : Db α) := fun _ h => h

theorem mayRaise_local : Keeps LocalConn mayRaise := by
  intro c h
  unfold mayRaise
  split
  · exact h
  · exact h
  · exact h

theorem readStatus_local : Keeps LocalConn readStatus := mayRaise_local.bind_rule fun _ => .reads_rule _

theorem observe_local : Keeps LocalConn observe := by
  refine .bind_rule (.reads_rule _) fun _ => .ite_rule (fun _ => .pure_rule _) fun _ => ?_
  refine .bind_rule (.modify_rule fun c h => ?_) fun _ => readStatus_local.bind_rule fun status =>
    .bind_rule (track_local fun _ h => h.syncTransaction status) fun _ => .pure_rule _
  split
  · exact h
  · exact fun _ => .of_attach c.tracker c.raw (heldIf_unknown _)

theorem forget_local : Keeps LocalConn forget := track_local fun _ h => h.forget

/-- A record of no context's values. -/
theorem record_local {v : Tracked} (hv : v.HeldIf False) (isLocal : Bool) : Keeps LocalConn (record v isLocal) := by
  refine .bind_rule (.reads_rule _) fun _ => .ite_rule (fun _ => ?_) fun _ => .pure_rule _
  refine observe_local.bind_rule fun _ => track_local fun c h => h.setValues ?_
  split
  · exact hv.mono False.elim
  · exact heldIf_unknown _

theorem writing_local {α : Type} {block : Db α} (h : Keeps LocalConn block) {v : Tracked} (hv : v.HeldIf False)
    (isLocal : Bool) : Keeps LocalConn (writing v isLocal block) :=
  .bind_rule (.attempt_rule h fun _ => forget_local.bind_rule fun _ => .raise_rule _) fun _ =>
    (record_local hv isLocal).bind_rule fun _ => .pure_rule _

theorem forgetIfFollowed_local (st : Option Statement) : Keeps LocalConn (forgetIfFollowed st) :=
  .ite_rule (fun _ => forget_local) fun _ => .pure_rule _

theorem afterStatement_local (conf : Conf) (st : Option Statement) (before : Status) :
    Keeps LocalConn (afterStatement conf st before) := by
  rcases st with _ | s
  · exact forget_local
  refine .ite_rule (fun _ => forget_local) fun _ => .ite_rule (fun _ => ?_) fun _ => .pure_rule _
  refine .ite_rule (fun _ => .ite_rule (fun _ => forget_local) fun _ => .pure_rule _) fun _ =>
    .ite_rule (fun _ => ?_) fun _ => .pure_rule _
  exact .bind_rule (track_local fun _ h => h.followEnd s before) fun _ =>
    observe_local.bind_rule fun _ => track_local fun _ h => h.followSavepoint s

/-- A message changes no record, and opens no connection. -/
theorem send_local (context : Option ContextGucs) (cs : List Command) : Keeps LocalConn (send context cs) := by
  intro c h
  refine Ends.inv (I := LocalConn) (send_ends (fun _ _ => h) (fun _ _ _ _ => h) ?_)
  intro e c' _ hclosed ht _ _ _ _ hl
  rw [ht]
  exact h fun hc => hl (hclosed.2 hc)

theorem execute_local (context : Option ContextGucs) (cs : List Command) : Keeps LocalConn (execute context cs) :=
  .bind_rule (.reads_rule _) fun _ =>
    .ite_rule (fun _ => (throw_local _).bind_rule fun _ => send_local _ _) fun _ => send_local _ _

theorem guardWriting_local (sql : Sql) : Keeps LocalConn (guardWriting env sql) :=
  observe_local.bind_rule fun _ => .bind_rule
    (.attempt_rule (execute_local _ _) fun _ => (forgetIfFollowed_local _).bind_rule fun _ => .raise_rule _)
    fun _ => afterStatement_local _ _ _

theorem close_local : Keeps LocalConn close := by
  intro c h
  unfold close
  simp only [bind_run, reads_run]
  by_cases hl : c.link = .closed
  · rw [if_neg (by simp [hl])]
    exact h
  rw [if_pos hl]
  simp only [bind_run, modify_run]
  refine mayRaise_local _ ?_
  split
  · exact fun _ => h hl
  · exact fun hl' => absurd rfl hl'

/-! ## New sessions -/

theorem clearNewConnectionGucs_local (h : LocalConn c) (ho : Unclosed c) (pooled : Bool) :
    LocalConn (clearNewConnectionGucs env pooled c).2 := by
  have hclear : Keeps LocalConn (writing (.known none) false do
      setGucs env none false
      if !(← reads (·.autocommit)) then driverEnd true) :=
    writing_local (.bind_rule (guardWriting_local _) fun _ => .bind_rule (.reads_rule _) fun _ =>
      .ite_rule (fun _ => driverEnd_keeps true (send_local _ _)) fun _ => .pure_rule _) (heldIf_none _) _
  have hboth := ((hclear.triple c h).with_inv (clear_unclosed env c ho))
  refine Ends.inv (I := LocalConn) (Ends.attempt_rule (hboth.mono (fun _ _ h => h.1) fun _ _ h => h) ?_)
  rintro e c' ⟨h', ho'⟩
  cases e.isException with
  | false => exact h'
  | true =>
    cases pooled with
    | false => exact h'
    | true =>
      have hclose : Keeps LocalConn (do
          attempt close fun e' => if e'.isException then pure () else raise e'
          raise e : Db Unit) :=
        .bind_rule (.attempt_rule close_local fun _ => .ite_rule (fun _ => .pure_rule _) fun _ => .raise_rule _)
          fun _ => .raise_rule _
      exact hclose.triple { c' with link := .broken, pg := c'.pg.rollback } fun _ => h' ho'

/-- A new session is recorded without a context's values. -/
theorem prepareNewConnection_local (hlocal : env.conf.useLocalSet = true) (new : NewSession) (ho : Unclosed c) :
    LocalConn (prepareNewConnection env new c).2 := by
  have hattach : LocalConn { c with
      tracker := c.tracker.attach c.raw (if new.found.isSome then .unknown else .known none) } := by
    refine fun _ => .of_attach c.tracker c.raw ?_
    split
    · exact heldIf_unknown _
    · exact heldIf_none _
  have hrest : ∀ c : Connection, LocalConn c →
      LocalConn ((if new.requestThread = some true ∧ (!env.conf.useLocalSet) = true then applyRequestGucs env
        else pure () : Db Unit) c).2 := by
    intro c h
    rw [if_neg (by simp [hlocal])]
    exact h
  have hclear : ∀ pooled, LocalConn (clearNewConnectionGucs env pooled _).2 :=
    fun pooled => clearNewConnectionGucs_local hattach ho pooled
  simp only [prepareNewConnection, bind_run, modify_run, reads_run]
  generalize ({ c with
    tracker := c.tracker.attach c.raw (if new.found.isSome then .unknown else .known none) } : Connection) = c'
    at hattach hclear ⊢
  split
  · split
    · exact hclear _
    split
    · exact Ends.inv (I := LocalConn) <|
        Ends.bind_rule (Ends.of_inv (I := LocalConn) (hclear true)) fun _ c' h => Ends.of_inv (hrest c' h)
    · exact hrest _ hattach
  · exact hattach

theorem ensureConnection_local (hlocal : env.conf.useLocalSet = true) : Keeps LocalConn (ensureConnection env) := by
  intro c h
  by_cases hl : c.link = .closed
  · simp only [ensureConnection, bind_run, reads_run, hl, if_true]
    rcases hm : mayRaise c with ⟨e | u, c'⟩
    · have := mayRaise_local c h
      rw [hm] at this
      exact this
    · exact prepareNewConnection_local hlocal _ (by simp [Unclosed])
  · rw [ensureConnection_open hl]
    exact h

/-! ## Writing values -/

/-- The next message runs in a transaction. -/
def ReadyInside (c : Connection) : Prop := c.link ≠ .closed ∧ (c.link = .up → ∃ o, c.ready = .inTx o)

theorem readyInside_passive : Passive ReadyInside := fun _ _ _ _ h => h

/-- The session is in a transaction. -/
def UpInside (c : Connection) : Prop := c.link = .up ∧ ∃ o, c.pg = .inTx o

theorem upInside_passive : Passive UpInside := fun _ _ _ _ h => h

theorem setGucs_inside (values : Option ContextGucs) (h : LocalConn c) (hr : ReadyInside c) :
    Ends (fun _ c' => LocalConn c' ∧ UpInside c') (fun _ => LocalConn) (setGucs env values true c) := by
  refine Ends.bind_rule (Q := fun _ c' => LocalConn c' ∧ ReadyInside c')
    (((observe_local.triple c h).with_inv (readyInside_passive.observe c hr)).mono (fun _ _ h => h) fun _ _ h => h.1) ?_
  rintro status c1 ⟨h1, hr1⟩
  refine Ends.bind_rule (Q := fun _ c' => LocalConn c' ∧ UpInside c')
    (Ends.attempt_rule (F := fun _ => LocalConn) ?_ fun e c' h' => ?_) fun _ c' h' => ?_
  · rw [execute_run]
    split
    · exact h1
    refine ((send_ends (Q := UpInside) (E := fun _ _ => True) (fun hl _ => ?_) (fun _ _ _ _ => trivial)
      fun _ _ _ _ _ _ _ _ _ => trivial).with_inv (send_local _ _ c1 h1)).mono
      (fun _ _ h => ⟨h.2, h.1⟩) fun _ _ h => h.2
    obtain ⟨o, ho⟩ := hr1.2 hl
    refine ⟨hl, ?_⟩
    show ∃ o, (runMessage _ c1.ready).1 = .inTx o
    rw [ho]
    exact (writes_stays (c := .setGucs _ _) trivial (.inTx o)).1.inTx_iff ⟨o, rfl⟩
  · exact ((forgetIfFollowed_local _).triple c' h').bind_rule fun _ _ h => h
  · exact (((afterStatement_local _ _ _).triple c' h'.1).with_inv (upInside_passive.afterStatement _ _ _ c' h'.2)).mono
      (fun _ _ h => h) fun _ _ h => h.1

theorem readStatus_of_passive {F : Connection → Prop} (hF : Passive F) (h : LocalConn c) (hc : F c) :
    Ends (fun status c' => LocalConn c' ∧ F c' ∧ status = c'.status) (fun _ => LocalConn) (readStatus c) := by
  refine (((mayRaise_local.triple c h).with_inv (hF.mayRaise c hc)).mono (fun _ _ h => h) fun _ _ h => h.1).bind_rule ?_
  rintro _ c' ⟨h', hc'⟩
  exact ⟨h', hc', rfl⟩

/-- The record of a session in a transaction says so, once it is up to date. -/
theorem observe_inside (h : LocalConn c) (hup : UpInside c) :
    Ends (fun _ c' => LocalConn c' ∧ c'.tracker.inTransaction = true) (fun _ => LocalConn) (observe c) := by
  have hopen : c.link ≠ .closed := by simp [hup.1]
  simp only [observe, bind_run, reads_run, hopen, if_false, modify_run]
  refine Ends.bind_rule (readStatus_of_passive upInside_passive ?_ ?_) ?_
  · split
    · exact h
    · exact fun _ => .of_attach c.tracker c.raw (heldIf_unknown _)
  · split <;> exact hup
  · rintro status c' ⟨h', ⟨hl, o, ho⟩, hst⟩
    have hne : status ≠ .idle := by
      rw [hst, status_up hl, ho]
      exact statusOf_ne_idle o
    refine ⟨fun hl => (h' hl).syncTransaction status, ?_⟩
    show (c'.tracker.syncTransaction status).inTransaction = true
    rw [sync_of_ne _ hne]
    exact sync_inTransaction _

/-- **Values are recorded as local ones** in a transaction. -/
theorem record_inside (values : Option ContextGucs) (h : LocalConn c) (hup : UpInside c) :
    LocalConn (record (.known values) true c).2 := by
  have hopen : c.link ≠ .closed := by simp [hup.1]
  refine Ends.inv (I := LocalConn) ?_
  simp only [record, bind_run, reads_run, hopen, ne_eq, not_false_eq_true, if_true]
  refine (observe_inside h hup).bind_rule ?_
  rintro _ c' ⟨h', hin⟩ hl
  refine (h' hl).setValues ?_
  split
  · exact fun _ _ => ⟨rfl, hin⟩
  · exact heldIf_unknown _

/-- **A context's values are written locally**, in a transaction. -/
theorem writeGucs_local (hlocal : env.conf.useLocalSet = true) {values : Option ContextGucs} {isLocal : Bool}
    (hvalues : values.isSome = true → isLocal = true) : Keeps LocalConn (writeGucs env values isLocal) := by
  cases isLocal with
  | false =>
    obtain rfl : values = none := by
      rw [← Option.not_isSome_iff_eq_none]
      exact fun h => by simpa using hvalues h
    exact writing_local ((ensureConnection_local hlocal).bind_rule fun _ => guardWriting_local _) (heldIf_none _) _
  | true =>
    intro c h
    refine Ends.inv (I := LocalConn) ?_
    simp only [writeGucs, if_true]
    refine (((ensureConnection_local hlocal).triple c h).and (ensureConnection_unclosed c)).mono
      (fun _ _ h => h) (fun _ _ h => h.1) |>.bind_rule ?_
    rintro _ c1 ⟨h1, ho1⟩
    refine (readStatus_of_passive unclosed_passive h1 ho1).bind_rule ?_
    rintro status c2 ⟨h2, ho2, hst⟩
    simp only [bind_run, reads_run]
    cases hwill : willRunInTransaction c2 status with
    | false => exact h2
    | true =>
      have hr : ReadyInside c2 := ⟨ho2, fun hl => willRun_ready hl (hst ▸ hwill)⟩
      have hset : Ends _ _ (setGucs env values true c2) := setGucs_inside values h2 hr
      refine Ends.of_inv ?_
      simp only [Bool.not_true, Bool.false_eq_true, if_false, writing_run, bind_run, ensureConnection_open ho2]
      rcases hm : setGucs env values true c2 with ⟨e | u, c3⟩ <;> rw [hm] at hset
      · exact fun hl => (hset hl).forget
      · have hrec := record_inside values hset.1 hset.2
        dsimp only
        rcases hm' : record (.known values) true c3 with ⟨e | u', c4⟩ <;> rw [hm'] at hrec <;> exact hrec

/-! ## The wrapper -/

section Wrapper

variable (hlocal : env.conf.useLocalSet = true)
include hlocal

theorem applyIfStale_local : Keeps LocalConn (applyIfStale env) := by
  have hcontext : env.context.isSome = true → (env.context.isSome && env.conf.useLocalSet) = true :=
    fun h => by simp [h, hlocal]
  refine observe_local.bind_rule fun _ => .bind_rule (.reads_rule _) fun _ =>
    .ite_rule (fun _ => .pure_rule _) fun _ => .ite_rule (fun _ => .pure_rule _) fun _ =>
    .ite_rule (fun _ => .pure_rule _) fun _ => .ite_rule (fun _ => .pure_rule _) fun _ => ?_
  exact (writeGucs_local hlocal hcontext).bind_rule fun _ => .pure_rule _

omit hlocal in
theorem abandonOwnTransaction_local : Keeps LocalConn abandonOwnTransaction := by
  have hleave : ∀ ended, Keeps LocalConn (leaveOwnTransaction ended) := fun ended =>
    .ite_rule (fun _ => track_local fun _ h => h.endTransaction _) fun _ => forget_local.bind_rule fun _ =>
      .attempt_rule close_local fun _ => .ite_rule (fun _ => .pure_rule _) fun _ => .raise_rule _
  have hroll : Keeps LocalConn rollBackOwnTransaction :=
    readStatus_local.bind_rule fun _ => .ite_rule
      (fun _ => (send_local _ _).bind_rule fun _ => readStatus_local.bind_rule fun _ => .pure_rule _)
      fun _ => readStatus_local.bind_rule fun _ => .pure_rule _
  refine .bind_rule (.attempt_rule (.attempt_rule hroll fun _ => .ite_rule (fun _ => .pure_rule _) fun _ => .raise_rule _)
    fun _ => ?_) fun _ => hleave _
  exact (hleave false).bind_rule fun _ => .raise_rule _

theorem runInOwnTransaction_local (sql : Sql) : Keeps LocalConn (runInOwnTransaction env sql) := by
  refine .bind_rule (.attempt_rule ?_ fun _ => abandonOwnTransaction_local.bind_rule fun _ => .raise_rule _) fun _ =>
    track_local fun _ h => h.endTransaction _
  exact (send_local _ _).bind_rule fun _ => observe_local.bind_rule fun _ =>
    (writeGucs_local hlocal fun _ => rfl).bind_rule fun _ => (execute_local _ _).bind_rule fun _ => send_local _ _

/-- **The wrapper** keeps a context's values local. -/
theorem guard_local (sql : Sql) : Keeps LocalConn (guard env sql) := by
  have hbody : ∀ own : Bool, Keeps LocalConn (attempt
      (if own then runInOwnTransaction env sql else execute env.context sql.commands) fun e => do
        forgetIfFollowed (parse sql.object)
        raise e) := fun own =>
    .attempt_rule (.ite_rule (fun _ => runInOwnTransaction_local hlocal sql) fun _ => execute_local _ _) fun _ =>
      (forgetIfFollowed_local _).bind_rule fun _ => .raise_rule _
  have hrest : ∀ status, Keeps LocalConn (do
      let c ← reads id
      let own := !controlsTheTransaction (parse sql.object) && needsOwnTransaction env c status (parse sql.object)
      attempt (if own then runInOwnTransaction env sql else execute env.context sql.commands) fun e => do
        forgetIfFollowed (parse sql.object)
        raise e
      afterStatement env.conf (parse sql.object) status
      let t ← reads (·.tracker)
      if own || (t.wroteLocal && t.inTransaction) then
        modify fun c => { c with tracker := c.tracker.suspectSession true } : Db Unit) := fun status =>
    .bind_rule (.reads_rule _) fun c => (hbody _).bind_rule fun _ => (afterStatement_local _ _ _).bind_rule fun _ =>
      .bind_rule (.reads_rule _) fun _ =>
        .ite_rule (fun _ => track_local fun _ h => h.suspectSession true) fun _ => .pure_rule _
  exact .ite_rule (fun _ => observe_local.bind_rule hrest) fun _ => (applyIfStale_local hlocal).bind_rule hrest

theorem throughCursor_local (sql : Sql) : Keeps LocalConn (throughCursor env sql) :=
  (ensureConnection_local hlocal).bind_rule fun _ => guard_local hlocal sql

end Wrapper

theorem transactionEnd_local (committed : Bool) : Keeps LocalConn (transactionEnd committed) := by
  have hdriver : Keeps LocalConn (driverEnd committed) := driverEnd_keeps committed (send_local _ _)
  have hfollow : ∀ before o, Keeps LocalConn (followDriverEnd before o) := fun before o =>
    readStatus_local.bind_rule fun _ => .ite_rule (fun _ => track_local fun _ h => h.endTransaction _) fun _ =>
      .ite_rule (fun _ => forget_local) fun _ => .pure_rule _
  refine .bind_rule (.reads_rule _) fun c => .ite_rule (fun _ => hdriver) fun _ => ?_
  refine readStatus_local.bind_rule fun before => .bind_rule (.attempt_rule hdriver fun e => ?_) fun _ => hfollow _ _
  exact (hfollow _ _).bind_rule fun _ => .raise_rule _

end Keeping

/-! ## Events -/

/-- **Every event keeps a context's values local.** -/
theorem step_local {conf : Conf} (hlocal : conf.useLocalSet = true) (e : WriteEvent) {c : Connection} (h : LocalConn c) :
    LocalConn (e.step conf c) := by
  have h : LocalConn { c with fates := e.fates } := h
  cases e with
  | write context statement fates => exact throughCursor_local hlocal _ _ h
  | clear context fates => exact writeGucs_local hlocal (by simp) _ h
  | plain event =>
    cases event with
    | data context statement fates => exact throughCursor_local hlocal _ _ h
    | control context statement fates => exact throughCursor_local hlocal _ _ h
    | driverEnd committed fates => exact transactionEnd_local committed _ h
    | settle context wroteNothing cleared fates =>
      exact settle_keeps_of observe_local (applyIfStale_local hlocal) forget_local wroteNothing cleared _ h
    | suspect under => exact suspect_keeps_of observe_local under (fun _ h hl => (h hl).suspectSession under) _ h
    | markForRollback b => exact h
    | setAutocommit b =>
      show LocalConn (if _ then _ else _)
      split <;> exact h
    | close => exact close_local _ h

end RlsTenants
