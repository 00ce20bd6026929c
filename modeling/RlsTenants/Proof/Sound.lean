import RlsTenants.Proof.Record
import RlsTenants.Proof.Frames

/-!
# The record follows the session

`Inv` is the invariant of a guarded connection: its record matches the session in the
server. Reading the transaction status of an open driver connection is taken not to
fail here (`quiet`).

A statement may be run as the guard reads it when what the guard makes of its text is
what PostgreSQL does with it (`Reads`): after it has run, and after it has failed, the
updated record matches the session again.
-/

namespace RlsTenants

open Txn Effect Comp

variable {T : Option ContextGucs → Prop} {H : Name → Prop} {strict : Bool} {L : Ran → Prop}

/-- The transaction status of a session. -/
def statusOf : Backend → Status
  | .idle _ => .idle
  | .inTx o => if o.failed then .inError else .inTransaction

/-- The record is up to date with the session's transaction status, and matches it. -/
def InStep (T : Option ContextGucs → Prop) (H : Name → Prop) (ok : Bool) (t : SessionGUCs) : Backend → Prop
  | .idle v => t.inTransaction = false ∧ Describes T t.values v.gucs
  | .inTx o => Tracks T H ok t o

/-- What a guarded connection has whatever its record says. `L` is what every command
on rows that ran has. -/
structure Sane (L : Ran → Prop) (c : Connection) : Prop where
  quiet : c.faults = []
  raw : c.link ≠ .closed → c.tracker.raw = some c.raw
  guarded : c.guarded = true
  log : ∀ r ∈ c.ran, L r

/-- The connection's record matches its session. -/
structure Inv (T : Option ContextGucs → Prop) (H : Name → Prop) (strict : Bool) (L : Ran → Prop)
    (c : Connection) : Prop extends Sane L c where
  session : c.link = .up → Matches T H (strict || !c.needsRollback) c.tracker c.pg

/-- The same, up to date with the transaction status. -/
structure Stepped (T : Option ContextGucs → Prop) (H : Name → Prop) (strict : Bool) (L : Ran → Prop)
    (c : Connection) : Prop extends Sane L c where
  session : c.link = .up → InStep T H (strict || !c.needsRollback) c.tracker c.pg

/-- The record matches the session once it holds nothing. -/
structure Unsure (T : Option ContextGucs → Prop) (H : Name → Prop) (L : Ran → Prop) (c : Connection) :
    Prop extends Sane L c where
  session : c.link = .up → Matches T H true c.tracker.forget c.pg

/-- The GUCs have been left at `values`, which is not yet recorded. -/
structure Written (T : Option ContextGucs → Prop) (H : Name → Prop) (L : Ran → Prop) (values : Tracked)
    (isLocal : Bool) (c : Connection) : Prop extends Sane L c where
  link : c.link = .up
  session : InStep T H true ((c.tracker.syncTransaction (statusOf c.pg)).setValues values isLocal) c.pg

theorem statusOf_ne_idle (o : Open Name Visible) : statusOf (.inTx o) ≠ .idle := by
  simp only [statusOf]; split <;> simp

theorem status_up {c : Connection} (h : c.link = .up) : c.status = statusOf c.pg := by
  simp only [Connection.status, h]
  cases c.pg <;> rfl

theorem InStep.matches {ok : Bool} {t : SessionGUCs} {s : Backend} (h : InStep T H ok t s) :
    Matches T H ok t s := by
  cases s with
  | idle v => exact matches_idle_of_values h.1 h.2
  | inTx o => exact Tracks.matches h

theorem InStep.of_true {ok : Bool} {t : SessionGUCs} {s : Backend} (h : InStep T H true t s) :
    InStep T H ok t s := by
  cases s with
  | idle v => exact h
  | inTx o => exact ⟨h.inside, h.base, h.session, fun _ hf => h.current rfl hf, h.savepoints⟩

theorem Matches.of_true {ok : Bool} {t : SessionGUCs} {s : Backend} (h : Matches T H true t s) :
    Matches T H ok t s := by
  cases s with
  | idle v => exact h
  | inTx o => exact InStep.of_true (s := .inTx o) h

/-- Bringing a record up to date. -/
theorem Matches.sync {ok : Bool} {t : SessionGUCs} {s : Backend} (h : Matches T H ok t s) :
    InStep T H ok (t.syncTransaction (statusOf s)) s := by
  cases s with
  | idle v => exact ⟨sync_inTransaction_idle t, h⟩
  | inTx o =>
    rw [sync_of_ne t (statusOf_ne_idle o)]
    exact h

theorem Stepped.inv {c : Connection} (h : Stepped T H strict L c) : Inv T H strict L c :=
  ⟨h.toSane, fun hl => (h.session hl).matches⟩

/-! ## Running the small steps -/

section Runs

variable {c : Connection}

theorem mayRaise_run (h : c.faults = []) : mayRaise c = (.ok (), c) := by
  simp [mayRaise, h]

theorem readStatus_run (h : c.faults = []) : readStatus c = (.ok c.status, c) := by
  simp [readStatus, mayRaise_run h]

theorem observe_run (hq : c.faults = []) (hr : c.tracker.raw = some c.raw) (hl : c.link ≠ .closed) :
    observe c = (.ok c.status, { c with tracker := c.tracker.syncTransaction c.status }) := by
  simp [observe, hl, hr, readStatus_run hq]

theorem observe_closed (hl : c.link = .closed) : observe c = (.ok .bad, c) := by
  simp [observe, hl]

/-- The record after a statement that has run, from the status before and after it. -/
def afterTracker (conf : Conf) (statement : Option Statement) (before after : Status) (t : SessionGUCs) :
    SessionGUCs :=
  match statement with
  | none => t.forget
  | some s =>
    if s.compound then t.forget
    else if s.isFollowed then
      if s.command = "RESET".toList ∨ s.command = "DISCARD".toList then
        if s.resetsGucs conf then t.forget else t
      else if s.argument ≠ "PREPARED".toList then
        ((t.followEnd s before).syncTransaction after).followSavepoint s
      else t
    else t

/-- The record after a statement that has failed. -/
def failTracker (statement : Option Statement) (t : SessionGUCs) : SessionGUCs :=
  if statement.all (·.isFollowed) then t.forget else t

@[simp] theorem followEnd_raw (s : Statement) (st : Status) (t : SessionGUCs) :
    (t.followEnd s st).raw = t.raw := by
  simp only [SessionGUCs.followEnd]
  split
  · simp
  · split
    · simp
    · split <;> simp

@[simp] theorem followSavepointEnd_raw (n : Option Name) (b : Bool) (t : SessionGUCs) :
    (t.followSavepointEnd n b).raw = t.raw := by
  rcases n with _ | n
  · simp [SessionGUCs.followSavepointEnd]
  · simp only [SessionGUCs.followSavepointEnd]
    split
    · split <;> simp
    · split <;> rfl

@[simp] theorem followSavepoint_raw (s : Statement) (t : SessionGUCs) :
    (t.followSavepoint s).raw = t.raw := by
  simp only [SessionGUCs.followSavepoint]
  split
  · split <;> simp
  · split
    · simp
    · split <;> simp

theorem afterTracker_raw (conf : Conf) (st : Option Statement) (b a : Status) (t : SessionGUCs) :
    (afterTracker conf st b a t).raw = t.raw := by
  rcases st with _ | s
  · simp [afterTracker]
  · simp only [afterTracker]
    split
    · simp
    · split
      · split
        · split <;> simp
        · split <;> simp
      · rfl

theorem afterStatement_run (conf : Conf) (st : Option Statement) (b : Status) (hq : c.faults = [])
    (hr : c.tracker.raw = some c.raw) (hl : c.link ≠ .closed) :
    afterStatement conf st b c = (.ok (), { c with tracker := afterTracker conf st b c.status c.tracker }) := by
  rcases st with _ | s
  · rfl
  · simp only [afterStatement, afterTracker]
    split
    · rfl
    · split
      · simp only [follow]
        split
        · split <;> rfl
        · split
          · have hobs := observe_run (c := { c with tracker := c.tracker.followEnd s b }) hq
              (by simpa using hr) hl
            have hst : Connection.status { c with tracker := c.tracker.followEnd s b } = c.status := rfl
            simp only [bind_run, modify_run]
            rw [hobs, hst]
          · rfl
      · rfl

/-- After a statement that does not control the transaction the values are forgotten, at most. -/
theorem afterStatement_data_run (conf : Conf) {st : Option Statement} (hctl : controlsTheTransaction st = false)
    (before : Status) (c : Connection) :
    ∃ t, (t = c.tracker ∨ t = c.tracker.forget) ∧
      afterStatement conf st before c = (.ok (), { c with tracker := t }) := by
  cases st with
  | none => exact ⟨_, .inr rfl, rfl⟩
  | some s =>
    simp only [afterStatement]
    by_cases hc : s.compound = true
    · rw [if_pos hc]
      exact ⟨_, .inr rfl, rfl⟩
    rw [if_neg hc]
    by_cases hf : s.isFollowed = true
    · rw [if_pos hf]
      have hmem : s.command ∈ followed := by simpa [Statement.isFollowed] using hf
      have hnot : s.command ∉ transactionControl := by
        intro h
        simp [controlsTheTransaction, hc, h] at hctl
      have hreset : s.command = "RESET".toList ∨ s.command = "DISCARD".toList := by
        rcases List.mem_append.1 hmem with h | h
        · exact absurd h hnot
        · simpa [or_comm] using h
      simp only [follow, if_pos hreset]
      split
      · exact ⟨_, .inr rfl, rfl⟩
      · exact ⟨_, .inl rfl, rfl⟩
    · rw [if_neg hf]
      exact ⟨_, .inl rfl, rfl⟩

theorem forgetIfFollowed_run (st : Option Statement) :
    forgetIfFollowed st c = (.ok (), { c with tracker := failTracker st c.tracker }) := by
  simp only [forgetIfFollowed, failTracker]
  split <;> rfl

end Runs

/-! ## Sending -/

section Sending

variable {c : Connection} {cs : List Command} {context : Option ContextGucs} {reach : Reach}

theorem Sane.track (h : Sane L c) {t : SessionGUCs} (ht : t.raw = c.tracker.raw) :
    Sane L { c with tracker := t } := ⟨h.quiet, fun hl => ht.trans (h.raw hl), h.guarded, h.log⟩

theorem Sane.sent (h : Sane L c) (hlog : ∀ g ∈ c.sightings cs reach, L ⟨context, g⟩) :
    Sane L (c.sent context cs reach) := by
  refine ⟨h.quiet, h.raw, h.guarded, fun r hr => ?_⟩
  rcases List.mem_append.1 hr with hr | hr
  · obtain ⟨g, hg, rfl⟩ := List.mem_map.1 hr
    exact hlog g hg
  · exact h.log r hr

/-- A connection that raised. -/
theorem Sane.raised (h : Sane L c) (es : List Exc) : Sane L { c with raised := es } :=
  ⟨h.quiet, h.raw, h.guarded, h.log⟩

theorem Inv.raised (h : Inv T H strict L c) (es : List Exc) : Inv T H strict L { c with raised := es } :=
  ⟨h.toSane.raised es, h.session⟩

theorem Inv.of_down (h : Sane L c) (hl : c.link ≠ .up) : Inv T H strict L c :=
  ⟨h, fun hl' => absurd hl' hl⟩

theorem Unsure.of_down (h : Sane L c) (hl : c.link ≠ .up) : Unsure T H L c :=
  ⟨h, fun hl' => absurd hl' hl⟩

theorem send_sane {Q : Connection → Prop} {E : Exc → Connection → Prop} (h : Sane L c)
    (hlog : c.link = .up → ∀ reach, ∀ g ∈ c.sightings cs reach, L ⟨context, g⟩)
    (hok : c.link = .up → (runMessage cs c.ready).2.1 = true → Sane L (c.sent context cs .run) →
      Q (c.sent context cs .run))
    (herr : c.link = .up → ∀ e reach,
      ((c.fates.headD .runs).Plain ∨ e.isDatabaseError = true → reach = .run →
        (runMessage cs c.ready).2.1 = false) →
      Sane L (c.failedAt context cs reach e) → E e (c.failedAt context cs reach e))
    (hdown : ∀ e c', Sane L c' → c'.link ≠ .up → E e c') : Ends (fun _ => Q) E (send context cs c) := by
  refine send_ends (fun hl hr => hok hl hr (h.sent (hlog hl .run)))
    (fun hl e reach hr => herr hl e reach hr ((h.sent (hlog hl reach)).raised _)) ?_
  intro e c' hup hcl ht hraw hg hq hran
  refine hdown e c' ⟨hq.trans h.quiet, fun hl => ?_, hg.trans h.guarded, ?_⟩ hup
  · rw [ht, hraw]
    exact h.raw fun h => hl (hcl.2 h)
  · rcases hran with hr | ⟨hl, reach, hr⟩
    · rw [hr]; exact h.log
    · rw [hr]; exact (h.sent (hlog hl reach)).log

theorem execute_run : execute context cs c =
    if c.needsRollback then throw (.databaseError 0) c else send context cs c := by
  unfold execute
  cases hn : c.needsRollback <;> simp [hn, throw]

theorem execute_sane {Q : Connection → Prop} {E : Exc → Connection → Prop} (h : Sane L c)
    (hlog : c.link = .up → c.needsRollback = false → ∀ reach, ∀ g ∈ c.sightings cs reach, L ⟨context, g⟩)
    (hok : c.link = .up → c.needsRollback = false → (runMessage cs c.ready).2.1 = true →
      Sane L (c.sent context cs .run) → Q (c.sent context cs .run))
    (herr : c.link = .up → c.needsRollback = false → ∀ e reach,
      ((c.fates.headD .runs).Plain ∨ e.isDatabaseError = true → reach = .run →
        (runMessage cs c.ready).2.1 = false) →
      Sane L (c.failedAt context cs reach e) → E e (c.failedAt context cs reach e))
    (hdown : ∀ e c', Sane L c' → c'.link ≠ .up → E e c')
    (hmarked : ∀ e es, c.needsRollback = true → E e { c with raised := es }) :
    Ends (fun _ => Q) E (execute context cs c) := by
  rw [execute_run]
  by_cases hn : c.needsRollback = true
  · rw [if_pos hn]
    exact hmarked _ _ hn
  · rw [if_neg hn]
    have hn := Bool.eq_false_iff.2 hn
    exact send_sane h (fun hl => hlog hl hn) (fun hl => hok hl hn) (fun hl => herr hl hn) hdown

/-- The connection after `observe`. -/
def Connection.observed (c : Connection) : Connection :=
  { c with tracker := if c.link = .closed then c.tracker else c.tracker.syncTransaction c.status }

theorem observe_sane (h : Sane L c) : observe c = (.ok c.status, c.observed) := by
  by_cases hl : c.link = .closed
  · have hst : c.status = .bad := by simp [Connection.status, hl]
    have hob : c.observed = c := by unfold Connection.observed; rw [if_pos hl]
    rw [observe_closed hl, hst, hob]
  · rw [observe_run h.quiet (h.raw hl) hl]
    simp only [Connection.observed, hl, if_false]

theorem Sane.observed (h : Sane L c) : Sane L c.observed := by
  refine h.track ?_
  split <;> simp

theorem Inv.observed (h : Inv T H strict L c) : Stepped T H strict L c.observed := by
  refine ⟨h.toSane.observed, fun hl => ?_⟩
  have hl : c.link = .up := hl
  show InStep T H _ (if c.link = .closed then _ else _) c.pg
  rw [if_neg (by simp [hl]), status_up hl]
  exact (h.session hl).sync

theorem InStep.ready {ok : Bool} (h : InStep T H ok c.tracker c.pg) : Matches T H ok c.tracker c.ready := by
  unfold Connection.ready
  cases hp : c.pg with
  | idle v =>
    rw [hp] at h
    dsimp only
    split
    · exact h.matches
    · exact h.matches.fresh h.1
  | inTx o => rw [hp] at h; exact h.matches

theorem InStep.ready_idle {ok : Bool} (h : InStep T H ok c.tracker c.pg) {v : Visible} (hr : c.ready = .idle v) :
    c.tracker.inTransaction = false := by
  unfold Connection.ready at hr
  cases hp : c.pg with
  | idle w => rw [hp] at h; exact h.1
  | inTx o => rw [hp] at hr; simp at hr

end Sending

/-! ## The library's own writes -/

section Writes

variable {c : Connection} {env : Env} {context : Option ContextGucs} {sql : Sql} {st : Statement}

theorem statusOf_wrote (s : Backend) (f : Visible → Visible) (isLocal : Bool) :
    statusOf (if isLocal then s.writeLocal f else s.write f) = statusOf s := by
  cases s <;> cases isLocal <;> rfl

/-- A write of the GUCs, recorded. -/
theorem Matches.written {ok ok' isLocal : Bool} {t : SessionGUCs} {s : Backend} (h : Matches T H ok t s)
    {v : Tracked} {f : ContextGucs → ContextGucs} (hf : ∀ g, Describes T v (f g))
    (hs : isLocal = true → ∃ o, s = .inTx o) :
    InStep T H ok' ((t.syncTransaction (statusOf s)).setValues v isLocal)
      (if isLocal then s.writeLocal (Visible.setGucs f) else s.write (Visible.setGucs f)) := by
  have h := h.sync
  cases s with
  | idle w =>
    cases isLocal with
    | true => obtain ⟨o, ho⟩ := hs rfl; cases ho
    | false =>
      refine ⟨by simpa using h.1, ?_⟩
      rw [setValues_values]
      exact hf _
  | inTx o =>
    cases isLocal with
    | true =>
      exact Tracks.write (l := ⟨o.level.session, Visible.setGucs f o.level.current⟩) h (hf _)
        (by simp) (fun _ => rfl)
    | false =>
      exact Tracks.write (l := ⟨Visible.setGucs f o.level.session, Visible.setGucs f o.level.current⟩) h
        (hf _) (fun _ => hf _) (by simp)

theorem Command.Writes.not_rows {cmd : Command} (hc : cmd.Writes) : ∀ id, cmd ≠ .rows id := by
  rintro id rfl
  exact hc

/-- However far a write got, the record that holds nothing is right. -/
theorem Stepped.unsure_writes (h : Stepped T H strict L c) (hl : c.link = .up) {cmd : Command}
    (hc : cmd.Writes) (reach : Reach) : Matches T H true c.tracker.forget (c.reached [cmd] reach) := by
  cases reach with
  | notRun => exact (h.session hl).matches.forget
  | failed =>
    simp only [Connection.reached, writes_refuseMessage hc]
    exact (h.session hl).ready.forget_sameTx (.fail _)
  | run => exact (h.session hl).ready.forget_sameTx (writes_runMessage hc c.ready)

/-- A statement whose text the wrapper only runs. -/
def Unfollowed (sql : Sql) : Prop :=
  ∃ s, parse sql.object = some s ∧ s.compound = false ∧ s.isFollowed = false

theorem guardWriting_run (hs : Unfollowed sql) (h : Sane L c) :
    guardWriting env sql c = execute env.context sql.commands c.observed := by
  obtain ⟨s, hp, hc, hf⟩ := hs
  simp only [guardWriting, bind_run, observe_sane h, hp, attempt, forgetIfFollowed, afterStatement, hc, hf,
    Option.all_some, Bool.false_eq_true, if_false, pure_run, raise_run]
  rcases execute env.context sql.commands c.observed with ⟨e | u, c'⟩ <;> rfl

theorem setGucs_unfollowed (values : Option ContextGucs) (isLocal : Bool) :
    Unfollowed ⟨.str setGucsSql, [.setGucs (valuesOf values) isLocal]⟩ :=
  ⟨_, rfl, by decide, by decide⟩

/-- Writing both GUCs leaves them at the values. -/
theorem setGucs_ends (env : Env) (values : Option ContextGucs) (isLocal : Bool) (h : Inv T H strict L c)
    (hin : isLocal = true → c.link = .up → ∃ o, c.ready = .inTx o) :
    Ends (fun _ c' => Written T H L (.known values) isLocal c' ∧ c'.tracker = c.observed.tracker ∧
        c.ready.isFailed = false ∧ c'.autocommit = c.autocommit ∧ c'.pg =
          if isLocal then c.ready.writeLocal (Visible.setGucs fun _ => valuesOf values)
          else c.ready.write (Visible.setGucs fun _ => valuesOf values))
      (fun _ => Unsure T H L) (setGucs env values isLocal c) := by
  have hst := h.observed
  rw [setGucs, guardWriting_run (setGucs_unfollowed values isLocal) h.toSane]
  have hw : (Command.setGucs (valuesOf values) isLocal).Writes := trivial
  refine execute_sane hst.toSane (fun _ _ reach g hg => by rw [sightings_one hw.not_rows] at hg; simp at hg)
    (fun hl _ hr hs => ?_) (fun hl _ e reach _ hs => ⟨hs, fun _ => hst.unsure_writes hl hw reach⟩)
    (fun e c' hs hl => .of_down hs hl)
    (fun e es _ => ⟨hst.toSane.raised es, fun hl => (hst.session hl).matches.forget⟩)
  have hnf : c.observed.ready.isFailed = false := by
    refine Bool.eq_false_iff.2 fun hf => ?_
    rw [run_failed hf (by simp [Command.step, hf])] at hr
    simp at hr
  have hpg : (c.observed.sent env.context [.setGucs (valuesOf values) isLocal] .run).pg =
      if isLocal then c.ready.writeLocal (Visible.setGucs fun _ => valuesOf values)
      else c.ready.write (Visible.setGucs fun _ => valuesOf values) := by
    show (runMessage _ _).1 = _
    rw [run_setGucs _ _ hnf]
    rfl
  refine ⟨⟨hs, hl, ?_⟩, rfl, hnf, rfl, hpg⟩
  rw [hpg, statusOf_wrote]
  exact (hst.session hl).ready.written (fun _ => describes_known values) fun hloc => hin hloc hl

end Writes

end RlsTenants
