import RlsTenants.Proof.LocalValues
import RlsTenants.Proof.Reads

/-!
# Session writes end with their contexts

With `USE_LOCAL_SET`, what code inside a context writes for the session is cleared before the
next statement outside a context. The record is trusted only where it holds no context's
values (`NoContext`).

* `own_write_ends`: a write in a transaction of its own is committed, and forgotten.
* `execute_write_ends`: one in an open transaction is undone, or left open.
* `guard_write_ends`: the wrapper keeps the record right.
* `session_writes_end`: so in every run the reads outside contexts see no values.
  `write_outlives_its_context` is a run in which the reader misses such a read.
-/

namespace RlsTenants

open Txn Effect Comp Run

/-- Only the record of no context's values is trusted. -/
def NoContext (context : Option ContextGucs) : Prop := context = none

variable {conf : Conf} {env : Env} {H : Name → Prop} {L : Ran → Prop} {c : Connection} {w : SessionWrite}

theorem describes_context (g g' : ContextGucs) : Describes NoContext (.known (some g)) g' := by
  intro o ho hT
  cases ho
  cases hT

/-! ## The statement -/

/-- What the statement makes of the GUCs. -/
def SessionValues.apply : SessionValues → ContextGucs → ContextGucs
  | one name value => (·.put name value)
  | both values => fun _ => values

theorem SessionValues.writes (v : SessionValues) : v.command.Writes := by
  cases v <;> trivial

theorem run_sessionWrite (v : SessionValues) {s : Backend} (hs : s.isFailed = false) :
    runMessage [v.command] s = (s.write (Visible.setGucs v.apply), true, []) := by
  cases v with
  | one name value => exact run_setGuc name value false hs
  | both values => exact run_setGucs values false hs

/-- A failed transaction takes none. -/
theorem run_sessionWrite_failed (v : SessionValues) {s : Backend} (hs : s.isFailed = true) :
    runMessage [v.command] s = (s, false, []) :=
  run_failed hs (by cases v <;> simp [SessionValues.command, Command.step, hs])

theorem sessionWrite_ok (v : SessionValues) {s : Backend} (h : (runMessage [v.command] s).2.1 = true) :
    s.isFailed = false := by
  refine Bool.eq_false_iff.2 fun hf => ?_
  rw [run_sessionWrite_failed v hf] at h
  cases h

/-- One that fails has changed nothing. -/
theorem sessionWrite_fails (v : SessionValues) {s : Backend} (h : (runMessage [v.command] s).2.1 = false) :
    (runMessage [v.command] s).1 = s := by
  cases hf : s.isFailed with
  | false =>
    rw [run_sessionWrite v hf] at h
    cases h
  | true => rw [run_sessionWrite_failed v hf]

/-- However far a write gets that does not succeed, a record is as right as before. -/
theorem Stepped.reached_sessionWrite (h : Stepped NoContext H true L c) (hl : c.link = .up) (v : SessionValues)
    {reach : Reach} (hr : reach = .run → (runMessage [v.command] c.ready).2.1 = false) :
    Matches NoContext H true c.tracker (c.reached [v.command] reach) := by
  have hm : Matches NoContext H true c.tracker c.pg := (h.session hl).matches
  have hready : Matches NoContext H true c.tracker c.ready := (h.session hl).ready
  cases reach with
  | notRun => exact hm
  | failed =>
    simp only [Connection.reached, writes_refuseMessage v.writes]
    exact hready.alike (.fail _)
  | run =>
    simp only [Connection.reached, sessionWrite_fails v (hr rfl)]
    exact hready

/-! ## In an open transaction -/

/-- The write has run under local values, and the record still holds what it held before. -/
structure Overwritten (H : Name → Prop) (L : Ran → Prop) (c : Connection) : Prop extends Sane L c where
  link : c.link = .up
  hasLocal : c.tracker.HasLocal
  session : ∀ t, t = c.tracker ∨ t = c.tracker.forget → Matches NoContext H true (t.suspectSession true) c.pg

/-- The session's own values have changed under a context's: once they are left open, the
record is right. -/
theorem Tracks.overwritten {t : SessionGUCs} {o : Open Name Visible} {ok ok' : Bool}
    (h : Tracks NoContext H ok t o) (hv : ∃ g, t.values = .known (some g)) (l : Level Visible) :
    ∀ t', t' = t ∨ t' = t.forget →
      Matches NoContext H ok' (t'.suspectSession true) (.inTx { o with level := l }) := by
  obtain ⟨g, hg⟩ := hv
  rintro t' (rfl | rfl)
  · refine (Tracks.suspect (o := { o with level := l }) h.inside h.base (fun _ _ => ?_)
      (h.savepoints.mono fun _ _ _ hd => hd.mono (by simp))).matches
    rw [hg]
    exact describes_context g _
  · have hf : Tracks NoContext H ok' t.forget { o with level := l, failed := o.failed } := h.forget l
    exact hf.matches.suspect true

/-- **A write under local values** can be left open. -/
theorem execute_write_ends {g : ContextGucs} (h : Stepped NoContext H true L c) (hj : LocalConn c)
    (hF : FatesPlain c)
    (hv : c.link = .up → c.needsRollback = false → c.pg.isFailed = false → c.tracker.values = .known (some g)) :
    Ends (fun _ => Overwritten H L) (fun _ => Inv NoContext H true L) (execute env.context w.sql.commands c) := by
  have hw := w.values.writes
  refine execute_sane h.toSane
    (fun _ _ reach g hg => by rw [SessionWrite.sql, sightings_one hw.not_rows] at hg; simp at hg)
    (fun hl hn hr hs => ?_) (fun hl _ e reach hr hs => ⟨hs, fun _ => ?_⟩)
    (fun _ _ hs hl => .of_down hs hl) (fun _ es _ => h.inv.raised es)
  · have hhealthy := sessionWrite_ok w.values hr
    have hvalues := hv hl hn (isFailed_of_ready hhealthy)
    have hlocal : c.tracker.HasLocal := (hj (by simp [hl])).values _ hvalues
    have hin := h.session hl
    cases hp : c.pg with
    | idle v =>
      -- outside a transaction no context's values are held
      rw [hp] at hin
      exact absurd hlocal.1 (by simp [hin.1])
    | inTx o =>
      rw [hp] at hin
      have hready : c.ready = .inTx o := by simp [Connection.ready, hp]
      refine ⟨hs, hl, hlocal, ?_⟩
      show ∀ t, t = c.tracker ∨ t = c.tracker.forget → Matches NoContext H true (t.suspectSession true)
        (runMessage [w.values.command] c.ready).1
      rw [run_sessionWrite w.values hhealthy, hready]
      exact Tracks.overwritten hin ⟨g, hvalues⟩ _
  · exact h.reached_sessionWrite hl w.values (hr (.inl hF.head))

/-! ## In a transaction of its own -/

theorem fatesPlain_passive : Passive FatesPlain := fun _ _ _ _ h => h

theorem fatesPlain_remote : Remote FatesPlain := fun _ _ _ _ _ _ _ _ h => h

/-- The transaction is undone to where the record says it started. -/
theorem Undoable.of_durable {c' : Connection}
    (h : Describes NoContext (c.tracker.endTransaction (some false)).values c.pg.durable.gucs) (ht : c'.tracker = c.tracker) (hd : c'.pg.durable = c.pg.durable) : Undoable NoContext c' := by
  intro _
  rw [ht, hd]
  exact h

theorem SameTx.durable {o : Open Name Visible} {s : Backend} (h : SameTx (.inTx o) s) : s.durable = o.start := by
  cases h
  rfl

/-- **A write in a transaction of its own** is committed or undone. -/
theorem own_write_ends (h : OwnValues NoContext H true L env c) (hF : FatesPlain c) :
    Ends (fun _ c' => Sane L c' ∧ ∃ v, c'.pg = .idle v) (fun _ c' => Sane L c' ∧ Undoable NoContext c')
      ((do
        execute env.context w.sql.commands
        send none [.commit false] : Db Unit) c) := by
  obtain ⟨o, ho⟩ := h.inside
  have hready : c.ready = .inTx o := by simp [Connection.ready, ho]
  have hw := w.values.writes
  have hopen : c.link ≠ .closed := by simp [h.link]
  have hundo : Describes NoContext (c.tracker.endTransaction (some false)).values c.pg.durable.gucs :=
    h.toStepped.inv.undoable ⟨hopen, fun _ => ⟨o, ho⟩⟩ h.link
  have hdurable : ∀ reach, (c.reached [w.values.command] reach).durable = c.pg.durable := by
    intro reach
    have hstays := writes_stays hw (.inTx o)
    cases reach with
    | notRun => rfl
    | failed =>
      simp only [Connection.reached, hready, ho]
      exact hstays.2.durable
    | run =>
      simp only [Connection.reached, hready, ho]
      exact hstays.1.durable
  have hexecute : Ends
      (fun _ c' => Sane L c' ∧ (∃ o', c'.pg = .inTx o') ∧ c'.tracker = c.tracker ∧ c'.pg.durable = c.pg.durable)
      (fun _ c' => Sane L c' ∧ Undoable NoContext c') (execute env.context w.sql.commands c) := by
    refine execute_sane h.toSane
      (fun _ _ reach g hg => by rw [SessionWrite.sql, sightings_one hw.not_rows] at hg; simp at hg)
      (fun _ _ _ hs => ⟨hs, ?_, rfl, hdurable .run⟩)
      (fun _ _ e reach _ hs => ⟨hs, .of_durable hundo rfl (hdurable reach)⟩)
      (fun _ _ hs hl => ⟨hs, fun hl' => absurd hl' hl⟩)
      (fun _ es _ => ⟨h.toSane.raised es, .of_durable hundo rfl rfl⟩)
    show ∃ o', (runMessage [w.values.command] c.ready).1 = .inTx o'
    rw [hready]
    exact (writes_stays hw (.inTx o)).1.inTx_iff ⟨o, rfl⟩
  refine ((hexecute.with_inv (fatesPlain_passive.execute (send_fatesPlain _ _) c hF)).mono (fun _ _ h => h)
    fun _ _ h => h.1).bind_rule ?_
  rintro _ c' ⟨⟨hs, ⟨o', ho'⟩, ht, hd⟩, hF'⟩
  have hready' : c'.ready = .inTx o' := by simp [Connection.ready, ho']
  refine send_sane hs (fun _ reach g hg => by rw [sightings_one (by simp)] at hg; simp at hg)
    (fun _ _ hs => ⟨hs, o'.committed, ?_⟩) (fun _ e reach hr hs => ⟨hs, ?_⟩)
    (fun _ _ hs hl => ⟨hs, fun hl' => absurd hl' hl⟩)
  · show (runMessage [.commit false] c'.ready).1 = _
    rw [run_commit, hready']
    rfl
  · refine .of_durable hundo ht ?_
    show (c'.reached [.commit false] reach).durable = _
    rw [← hd]
    cases reach with
    | notRun => rfl
    | failed =>
      simp only [Connection.reached, refuseMessage, hready', ho']
      rfl
    | run =>
      -- a commit that has run is not cut off
      have hnot := hr (.inl hF'.head) rfl
      rw [run_commit] at hnot
      cases hnot

/-! ## The wrapper -/

/-- The reader takes the write for neither transaction control nor a command that PostgreSQL
refuses in a transaction. -/
def SessionWrite.Clear (w : SessionWrite) : Prop :=
  controlsTheTransaction (parse w.object) = false ∧ refusedInATransaction (parse w.object) = false

theorem suspectSession_raw (t : SessionGUCs) (under : Bool) : (t.suspectSession under).raw = t.raw := by
  unfold SessionGUCs.suspectSession
  split <;> simp

theorem SessionGUCs.HasLocal.forget {t : SessionGUCs} (h : t.HasLocal) : t.forget.HasLocal := by
  refine ⟨by simpa using h.1, ?_⟩
  rw [SessionGUCs.forget, setValues_inside t h.1]
  simp [h.2]

/-- What the wrapper does after a write in a transaction of its own. -/
theorem own_rest {v : Visible} (hs : Sane L c) (hp : c.pg = .idle v)
    (hout : c.tracker.inTransaction = false) {t : SessionGUCs} (ht : t = c.tracker ∨ t = c.tracker.forget) :
    Inv NoContext H true L { c with tracker := t.suspectSession true } := by
  have hraw : t.raw = c.tracker.raw := by rcases ht with rfl | rfl <;> simp
  have hin : t.inTransaction = false := by rcases ht with rfl | rfl <;> simpa using hout
  refine ⟨hs.track ((suspectSession_raw _ _).trans hraw), fun _ => ?_⟩
  have hforget : t.suspectSession true = t.forget := by simp [SessionGUCs.suspectSession, hin]
  show Matches NoContext H _ (t.suspectSession true) c.pg
  rw [hforget, hp]
  exact matches_forget_idle _ _

/-- **The wrapper on a write for the session** keeps the record right. -/
theorem guard_write_ends (hlocal : env.conf.useLocalSet = true) {g : ContextGucs} (hcontext : env.context = some g)
    (h : Inv NoContext H true L c) (hj : LocalConn c) (hF : FatesPlain c) (hw : w.Clear) :
    Ends (fun _ => Inv NoContext H true L) (fun _ => Inv NoContext H true L) (guard env w.sql c) := by
  have hcontrol : controlsTheTransaction (parse w.sql.object) = false := hw.1
  have hkeep := (applyIfStale_local hlocal).triple c hj |>.with_inv
    (fatesPlain_passive.applyIfStale ensureConnection_fatesPlain (send_fatesPlain _ _) c hF)
  simp only [guard, hcontrol, Bool.false_eq_true, if_false, Bool.not_false, Bool.true_and]
  refine ((applyIfStale_ends h).and hkeep).mono (fun _ _ h => h) (fun _ _ h => h.1) |>.bind_rule fun st c' h' => ?_
  obtain ⟨⟨hst, hc', happ⟩, hj', hF'⟩ := h'
  subst hst
  refine Ends.bind_rule (Q := fun a s => a = c' ∧ s = c') ⟨rfl, rfl⟩ ?_
  rintro a s ⟨ha, hs⟩
  rw [ha, hs]
  cases hown : needsOwnTransaction env c' c.status (parse w.sql.object) with
  | true =>
    -- committed with the write, the session is outside a transaction when it is suspected
    simp only [needsOwnTransaction, Bool.and_eq_true, decide_eq_true_eq, Bool.not_eq_true'] at hown
    obtain ⟨⟨⟨⟨⟨hidle, -⟩, hauto⟩, hctx⟩, -⟩, -⟩ := hown
    obtain ⟨hl, v, hv⟩ := status_idle hidle
    rcases happ with ⟨rfl, -⟩ | ⟨-, hauto', hnot⟩
    · simp only [if_true, Bool.true_or]
      refine Ends.bind_rule (Q := fun _ c' => Sane L c' ∧ c'.tracker.inTransaction = false ∧ ∃ v, c'.pg = .idle v)
        (Ends.attempt_rule (F := fun _ => Inv NoContext H true L) ?_ fun e c3 h3 =>
          (forgetIfFollowed_ends h3 _).bind_rule fun _ _ h => h) ?_
      · exact runInOwnTransaction_rule hc' hl hv hauto fatesPlain_passive fatesPlain_remote send_fatesPlain hF'
          (fun _ h2 hF2 => own_write_ends h2 hF2)
          fun _ h3 => ⟨h3.1.track (endTransaction_raw _ _), endTransaction_inTransaction _ _, h3.2⟩
      · rintro _ c3 ⟨hs3, hin3, v3, hv3⟩
        obtain ⟨t, ht, hrun⟩ := afterStatement_data_run env.conf hcontrol c.status c3
        simp only [bind_run, hrun, reads_run]
        exact own_rest hs3 hv3 hin3 ht
    · refine absurd ⟨hctx, hlocal, ?_⟩ hnot
      simp only [willRunInTransaction, hidle, ← hauto', hauto]
      rfl
  | false =>
    -- wherever the write can run, it runs in a transaction that holds the context's values locally
    have hvalues : c'.link = .up → c'.needsRollback = false → c'.pg.isFailed = false →
        c'.tracker.values = .known (some g) := by
      intro hl hn hf
      rw [← hcontext]
      rcases happ with ⟨rfl, happ⟩ | ⟨hat, -⟩
      · refine (happ hl hn hf).resolve_right fun hlo => ?_
        have hneeds := LocalOutside.needsOwn (c := c) hlo h.guarded hw.2
        exact absurd (hneeds.symm.trans hown) (by simp)
      · exact hat.values
    simp only [Bool.false_eq_true, if_false, Bool.false_or]
    refine Ends.bind_rule (Q := fun _ => Overwritten H L)
      (Ends.attempt_rule (execute_write_ends hc' hj' hF' hvalues) fun e c3 h3 =>
        (forgetIfFollowed_ends h3 _).bind_rule fun _ _ h => h) fun _ c3 h3 => ?_
    obtain ⟨t, ht, hrun⟩ := afterStatement_data_run env.conf hcontrol c.status c3
    have hraw : t.raw = c3.tracker.raw := by rcases ht with rfl | rfl <;> simp
    have hhas : t.HasLocal := by
      rcases ht with rfl | rfl
      · exact h3.hasLocal
      · exact h3.hasLocal.forget
    simp only [bind_run, hrun, reads_run, hhas.1, hhas.2, Bool.and_self, if_true]
    exact ⟨h3.toSane.track ((suspectSession_raw _ _).trans hraw), fun _ => h3.session t ht⟩

/-! ## Runs -/

/-- The reader takes the statement of the event for no transaction control but what it is, and
no write for a command that PostgreSQL refuses in a transaction; control and writes end as
they are told. -/
def WriteEvent.Clear : WriteEvent → Prop
  | .plain (.data _ statement _) => controlsTheTransaction (parse statement.object) = false
  | .plain (.control _ statement fates) => statement.form.Clear statement.text ∧ ∀ f ∈ fates, f.Plain
  | .write _ statement fates => statement.Clear ∧ ∀ f ∈ fates, f.Plain
  | _ => True

/-- A read outside contexts sees no values. -/
def ClearedOutside (r : Ran) : Prop := r.context = none → r.seen = .cleared

theorem DataKind.neutral (k : DataKind) : k.command.Neutral := by
  cases k <;> trivial

theorem WriteEvent.Clear.read {e : Event} (h : (WriteEvent.plain e).Clear) : e.Read ClearedOutside conf := by
  cases e with
  | data context statement fates =>
    refine ⟨h, fun cmd hcmd => ?_, fun _ hsome _ _ _ _ hnone => ?_⟩
    · exact (List.mem_singleton.1 hcmd).symm ▸ statement.kind.neutral
    -- nothing is asked of what is read in a context
    · have hnone : context = none := hnone
      simp [hnone] at hsome
  | control context statement fates => exact h
  | _ => trivial

/-- The record is right, and holds a context's values as local ones. -/
structure RightOutside (c : Connection) : Prop where
  inv : Inv NoContext (fun _ => False) true ClearedOutside c
  values : LocalConn c

/-- **An event keeps the record right.** -/
theorem step_rightOutside (hlocal : conf.useLocalSet = true) {e : WriteEvent} (h : RightOutside c) (he : e.Clear) :
    RightOutside (e.step conf c) := by
  refine ⟨?_, step_local hlocal e h.values⟩
  cases e with
  | plain event =>
    refine step_keeps h.inv he.read (fun _ _ _ _ _ _ h => h) fun context g hg hnone => ?_
    obtain rfl : context = none := hnone
    exact hg rfl
  | clear context fates =>
    exact Ends.inv ((writeGucs_ends _ (h.inv.with_fates fates) none false).mono
      (fun _ _ h => h.toStepped.inv) fun _ _ h => h)
  | write context statement fates =>
    obtain ⟨hclear, hfates⟩ := he
    have hstart := ((ensureConnection_ends ⟨conf, some context⟩ (h.inv.with_fates fates)).and
      ((ensureConnection_local hlocal).triple _ h.values)).with_inv (ensureConnection_fatesPlain _ hfates)
    refine Ends.inv ((hstart.mono (fun _ _ h => h) fun _ _ h => h.1.1).bind_rule ?_)
    rintro _ c' ⟨⟨⟨hi, -⟩, hj⟩, hF⟩
    exact guard_write_ends hlocal rfl hi hj hF hclear

theorem Unopened.rightOutside (h : Unopened c) : RightOutside c := ⟨h.inv, fun hl => absurd h.link hl⟩

/-- **Session writes end with their contexts.** In transaction-local mode, in every run whose
statements are read as what they are, every command on rows that runs outside contexts runs
while both GUCs are empty. -/
theorem session_writes_end (hlocal : conf.useLocalSet = true) (hc : Unopened c) {es : List WriteEvent}
    (hes : ∀ e ∈ es, e.Clear) :
    ∀ r ∈ (run (WriteEvent.step conf) c es).ran, r.context = none → r.seen = .cleared := by
  have hrun : RightOutside (run (WriteEvent.step conf) c es) :=
    run_keeps_along (P := fun _ e => e.Clear) (fun c e hs he => step_rightOutside hlocal hs he) hc.rightOutside
      (along_of_forall hes c)
  exact hrun.inv.log

/-- Tenant 1's context writes tenant 2 for the session, under a savepoint in a transaction that
is committed after the context has ended. -/
def writeRun : List WriteEvent :=
  let one := ContextGucs.forTenant "1"
  [.plain (.control none .begin []), .plain (.data (some one) .select []),
    .plain (.control (some one) (.savepoint .a short_a) []), .write one (.setGuc .currentTenant "2") [],
    .plain (.settle none true false []), .plain (.suspect true), .plain (.driverEnd true []),
    .plain (.data none .select [])]

theorem setGuc_clear (name : Guc) (value : String) : (SessionWrite.setGuc name value).Clear := by
  have h : controlsTheTransaction (parse (.str "SELECT set_config(%s, %s, false)".toList)) = false ∧
      refusedInATransaction (parse (.str "SELECT set_config(%s, %s, false)".toList)) = false := by decide +kernel
  exact h

theorem session_writes_end_committed :
    (run (WriteEvent.step ⟨true, "rls".toList⟩) .unopened writeRun).ran.all
      (fun r => decide (r.context = none → r.seen = .cleared)) = true := by
  have ha : Ident.a.Clear := by simp [Ident.Clear, Ident.a, Ident.written, isSpace]
  have hprep : upper Ident.a.name ≠ "PREPARED".toList := by decide +kernel
  refine List.all_eq_true.2 fun r hr => decide_eq_true (session_writes_end rfl unopened_unopened ?_ r hr)
  intro e he
  simp only [writeRun, List.mem_cons, List.not_mem_nil, or_false] at he
  rcases he with rfl | rfl | rfl | rfl | rfl | rfl | rfl | rfl
  · exact ⟨trivial, by simp⟩
  · exact (select_clear ⟨⟨true, []⟩, none⟩).1
  · exact ⟨⟨by decide +kernel, ha, hprep⟩, by simp⟩
  · exact ⟨setGuc_clear _ _, by simp⟩
  · trivial
  · trivial
  · trivial
  · exact (select_clear ⟨⟨true, []⟩, none⟩).1

/-- Tenant 1's context writes its tenant for the session, in autocommit. After the context, a
query that the reader takes for `COMMIT` runs outside any. -/
def readAfterWrite : List WriteEvent :=
  [.write (.forTenant "1") (.setGuc .currentTenant "1") [],
    .plain (.settle none true false []), .plain (.suspect true),
    .plain (.data none ⟨.str "-- all\rSELECT * FROM notes\nCOMMIT".toList, .rows 0⟩ [])]

/-- **A write that outlives its context.** -/
theorem write_outlives_its_context :
    ¬∀ (conf : Conf) (c : Connection) (es : List WriteEvent), conf.useLocalSet = true → Unopened c →
      ∀ r ∈ (run (WriteEvent.step conf) c es).ran, r.context = none → r.seen = .cleared := by
  intro h
  have := h ⟨true, "rls".toList⟩ .unopened readAfterWrite rfl unopened_unopened
  revert this
  decide +kernel

end RlsTenants
