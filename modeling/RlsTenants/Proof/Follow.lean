import RlsTenants.Proof.Guard

/-!
# Transaction control the reader understands

A statement is legible when the reader takes it for what PostgreSQL does with it
(`Legible`). The record, updated after a legible statement that has run, matches the
session again (`Legible.follows`); after one that has failed it holds nothing
(`Legible.failed`). `H` are savepoint names that the statements of a run never go to.
-/

namespace RlsTenants

open Txn Effect Comp

variable {T : Option ContextGucs → Prop} {H : Name → Prop} {strict : Bool} {L : Ran → Prop}

/-- The reader takes the statement for the command. -/
def Statement.Reads (st : Statement) : Command → Prop
  | .begin => st.command = "BEGIN".toList ∨ st.command = "START".toList
  | .commit _ => st.command = "COMMIT".toList ∨ st.command = "END".toList
  | .rollback _ => (st.command = "ROLLBACK".toList ∨ st.command = "ABORT".toList) ∧ st.rollsBackTo = false
  | .savepoint n => st.command = "SAVEPOINT".toList ∧ savepointName st.words "SAVEPOINT".toList = some n
  | .release n => st.command = "RELEASE".toList ∧ savepointName st.words "RELEASE".toList = some n
  | .rollbackTo n => st.rollsBackTo = true ∧ savepointName st.words "TO".toList = some n
  | _ => False

/-- The statement is single, is read as the command, and is not taken for one about a
prepared transaction. -/
structure Legible (st : Statement) (cmd : Command) : Prop where
  single : st.compound = false
  argument : st.argument ≠ "PREPARED".toList
  reads : st.Reads cmd

/-- The savepoint a command goes to. -/
def Command.target : Command → Option Name
  | .release n => some n
  | .rollbackTo n => some n
  | _ => none

theorem Statement.rollsBackTo_command {st : Statement} (h : st.rollsBackTo = true) :
    st.command = "ROLLBACK".toList := by
  simp only [Statement.rollsBackTo, Bool.and_eq_true, decide_eq_true_eq] at h
  exact h.1

namespace Legible

variable {st : Statement} {cmd : Command} (h : Legible st cmd)
include h

theorem command : st.command ∈ transactionControl := by
  have hr := h.reads
  cases cmd with
  | begin => rcases hr with hr | hr <;> rw [hr] <;> decide
  | commit chain => rcases hr with hr | hr <;> rw [hr] <;> decide
  | rollback chain => rcases hr with ⟨hr | hr, -⟩ <;> rw [hr] <;> decide
  | savepoint n => rw [hr.1]; decide
  | release n => rw [hr.1]; decide
  | rollbackTo n => rw [Statement.rollsBackTo_command hr.1]; decide
  | _ => exact hr.elim

theorem followed : st.isFollowed = true :=
  decide_eq_true (List.mem_append_left _ h.command)

theorem control : controlsTheTransaction (some st) = true := by
  simp only [controlsTheTransaction, h.single, Bool.false_eq_true, if_false]
  rw [if_pos h.command]

theorem not_reset : ¬(st.command = "RESET".toList ∨ st.command = "DISCARD".toList) := by
  have hm := h.command
  rintro (hc | hc) <;> rw [hc] at hm <;> revert hm <;> decide

theorem afterTracker_eq (conf : Conf) (before after : Status) (t : SessionGUCs) :
    afterTracker conf (some st) before after t =
      ((t.followEnd st before).syncTransaction after).followSavepoint st := by
  simp only [afterTracker, h.single, h.followed, Bool.false_eq_true, if_false, if_true]
  rw [if_neg h.not_reset, if_pos h.argument]

theorem failTracker_eq (t : SessionGUCs) : failTracker (some st) t = t.forget := by
  simp [failTracker, h.followed]

end Legible

/-! ## What the reader makes of it -/

section Read

variable {st : Statement} {n : Name} (t : SessionGUCs) (before : Status)

theorem rollsBackTo_false (h : st.command ≠ "ROLLBACK".toList) : st.rollsBackTo = false :=
  Bool.eq_false_iff.2 fun h' => h (Statement.rollsBackTo_command h')

/-- A statement that ends no transaction. -/
theorem followEnd_other (h1 : st.rollsBackTo = true ∨ st.command ≠ "ROLLBACK".toList ∧ st.command ≠ "ABORT".toList)
    (h2 : st.command ≠ "COMMIT".toList ∧ st.command ≠ "END".toList) (h3 : st.command ≠ "PREPARE".toList) :
    t.followEnd st before = t := by
  have h1' : ¬((st.command = "ROLLBACK".toList ∨ st.command = "ABORT".toList) ∧ ¬st.rollsBackTo = true) := by
    rintro ⟨h, hn⟩
    rcases h1 with h1 | h1
    · exact hn h1
    · exact h.elim h1.1 h1.2
  simp only [SessionGUCs.followEnd]
  rw [if_neg h1', if_neg fun h => h.elim h2.1 h2.2, if_neg fun h => h3 h.1]

theorem followEnd_commit (h : st.command = "COMMIT".toList ∨ st.command = "END".toList) :
    t.followEnd st before = t.endTransaction (some (before ≠ .inError)) := by
  have hn : ¬(st.command = "ROLLBACK".toList ∨ st.command = "ABORT".toList) := by
    rcases h with h | h <;> rw [h] <;> decide
  simp only [SessionGUCs.followEnd]
  rw [if_neg fun h' => hn h'.1, if_pos h]

theorem followEnd_rollback (h : st.command = "ROLLBACK".toList ∨ st.command = "ABORT".toList)
    (h' : st.rollsBackTo = false) : t.followEnd st before = t.endTransaction (some false) := by
  simp only [SessionGUCs.followEnd]
  rw [if_pos ⟨h, by simp [h']⟩]

theorem followSavepoint_other (h : st.command ≠ "SAVEPOINT".toList ∧ st.command ≠ "RELEASE".toList)
    (h' : st.rollsBackTo = false) : t.followSavepoint st = t := by
  simp only [SessionGUCs.followSavepoint]
  rw [if_neg h.1, if_neg h.2, if_neg (by simp [h'])]

theorem followSavepoint_savepoint (h : st.Reads (.savepoint n)) :
    t.followSavepoint st = { t with savepoints := (n, t.values) :: t.savepoints } := by
  simp only [SessionGUCs.followSavepoint]
  rw [if_pos h.1, h.2]

theorem followSavepoint_release (h : st.Reads (.release n)) :
    t.followSavepoint st = t.followSavepointEnd (some n) false := by
  simp only [SessionGUCs.followSavepoint]
  rw [if_neg (by rw [h.1]; decide), if_pos h.1, h.2]

theorem followSavepoint_rollbackTo (h : st.Reads (.rollbackTo n)) :
    t.followSavepoint st = t.followSavepointEnd (some n) true := by
  have hc := Statement.rollsBackTo_command h.1
  simp only [SessionGUCs.followSavepoint]
  rw [if_neg (by rw [hc]; decide), if_neg (by rw [hc]; decide), if_pos h.1, h.2]

end Read

/-! ## What PostgreSQL does -/

section Step

variable {s s' : Backend} {n : Name}

theorem run_ok {cmd : Command} (h : (runMessage [cmd] s).2.1 = true) :
    ∃ w, cmd.step (Work.enter s) = some w ∧ (runMessage [cmd] s).1 = w.leave := by
  rw [runMessage_one] at h ⊢
  cases hc : cmd.step (Work.enter s) with
  | none => rw [hc] at h; simp at h
  | some w => exact ⟨w, rfl, rfl⟩

/-- What the session is left at when its transaction ends so, `chain` starting another. -/
def endedAt (v : Visible) (chain : Bool) : Backend := if chain then .inTx (.fresh v) else .idle v

theorem ended_leave (w : Work) (v : Visible) (chain : Bool) : (w.ended v chain).leave = endedAt v chain := by
  cases chain <;> rfl

theorem run_commit_ok {chain : Bool} (h : (runMessage [.commit chain] s).2.1 = true) :
    (runMessage [.commit chain] s).1 = endedAt s.commit.durable chain := by
  obtain ⟨w, hw, hl⟩ := run_ok h
  simp only [Command.step] at hw
  split at hw
  · simp at hw
  · obtain rfl := Option.some.inj hw
    rw [hl, ended_leave]
    cases s <;> rfl

theorem run_rollback_ok {chain : Bool} (h : (runMessage [.rollback chain] s).2.1 = true) :
    (runMessage [.rollback chain] s).1 = endedAt s.durable chain := by
  obtain ⟨w, hw, hl⟩ := run_ok h
  simp only [Command.step] at hw
  split at hw
  · simp at hw
  · obtain rfl := Option.some.inj hw
    rw [hl, ended_leave]
    cases s <;> rfl

theorem run_begin_ok (h : (runMessage [.begin] s).2.1 = true) : (runMessage [.begin] s).1 = s.start := by
  have hf : s.isFailed = false := by
    refine Bool.eq_false_iff.2 fun hf => ?_
    rw [run_failed hf (by simp [Command.step, hf])] at h
    simp at h
  rw [run_begin hf]

theorem run_savepoint_ok (h : (runMessage [.savepoint n] s).2.1 = true) :
    ∃ o, s = .inTx o ∧ o.failed = false ∧ (runMessage [.savepoint n] s).1 = .inTx (o.savepoint n) := by
  obtain ⟨w, hw, hl⟩ := run_ok h
  rw [hl]
  cases s with
  | idle v => simp [Command.step, Work.enter] at hw
  | inTx o =>
    cases hf : o.failed with
    | true => simp [Command.step, Work.enter, hf] at hw
    | false =>
      simp only [Command.step, Work.enter, hf, Bool.false_eq_true, if_false, Option.some.injEq] at hw
      subst hw
      exact ⟨o, rfl, hf, rfl⟩

theorem run_release_ok (h : (runMessage [.release n] s).2.1 = true) :
    ∃ o o', s = .inTx o ∧ o.failed = false ∧ o.release n = some o' ∧ (runMessage [.release n] s).1 = .inTx o' := by
  obtain ⟨w, hw, hl⟩ := run_ok h
  rw [hl]
  cases s with
  | idle v => simp [Command.step, Work.enter] at hw
  | inTx o =>
    cases hf : o.failed with
    | true => simp [Command.step, Work.enter, hf] at hw
    | false =>
      simp only [Command.step, Work.enter, hf, Bool.false_eq_true, if_false, Option.map_eq_some_iff] at hw
      obtain ⟨o', ho', rfl⟩ := hw
      exact ⟨o, o', rfl, hf, ho', rfl⟩

theorem run_rollbackTo_ok (h : (runMessage [.rollbackTo n] s).2.1 = true) :
    ∃ o o', s = .inTx o ∧ o.rollbackTo n = some o' ∧ (runMessage [.rollbackTo n] s).1 = .inTx o' := by
  obtain ⟨w, hw, hl⟩ := run_ok h
  rw [hl]
  cases s with
  | idle v => simp [Command.step, Work.enter] at hw
  | inTx o =>
    simp only [Command.step, Work.enter, Bool.false_eq_true, if_false, Option.map_eq_some_iff] at hw
    obtain ⟨o', ho', rfl⟩ := hw
    exact ⟨o, o', rfl, ho', rfl⟩

end Step

/-! ## The record of it -/

section Follows

variable {conf : Conf} {st : Statement} {cmd : Command} {c : Connection}

theorem matches_endedAt {t : SessionGUCs} {v : Visible} (ht : t.inTransaction = false)
    (hd : Describes T t.values v.gucs) (chain : Bool) {ok : Bool} : Matches T H ok t (endedAt v chain) := by
  have hm : Matches T H ok t (.idle v) := matches_idle_of_values ht hd
  cases chain with
  | false => exact hm
  | true => exact hm.fresh ht

/-- The record of a commit or rollback describes what is left. -/
theorem InStep.ended (h : InStep T H true c.tracker c.pg) {b : Option Bool} :
    (b = some (statusOf c.pg ≠ .inError : Bool) →
      Describes T (c.tracker.endTransaction b).values c.ready.commit.durable.gucs) ∧
    (b = some false → Describes T (c.tracker.endTransaction b).values c.ready.durable.gucs) := by
  unfold Connection.ready
  cases hp : c.pg with
  | idle v =>
    rw [hp] at h
    rw [endTransaction_outside h.1]
    refine ⟨fun _ => ?_, fun _ => ?_⟩
    · dsimp only
      split <;> exact h.2
    · dsimp only
      split <;> exact h.2
  | inTx o =>
    rw [hp] at h
    refine ⟨?_, ?_⟩
    · rintro rfl
      cases hf : o.failed with
      | true =>
        have : (.inTx o : Backend).commit.durable = o.start := by simp [State.commit, State.durable, Open.committed, hf]
        rw [this]
        simpa [statusOf, hf] using Tracks.rolledBack h
      | false =>
        have : (.inTx o : Backend).commit.durable = o.level.session := by
          simp [State.commit, State.durable, Open.committed, hf]
        rw [this]
        simpa [statusOf, hf] using Tracks.committed h hf
    · rintro rfl
      exact Tracks.rolledBack h

/-- **The record follows a legible statement.** -/
theorem Legible.follows (hst : Legible st cmd) (h : InStep T H true c.tracker c.pg)
    (hH : ∀ n, cmd.target = some n → ¬H n) (hr : (runMessage [cmd] c.ready).2.1 = true) :
    Matches T H true (afterTracker conf (some st) (statusOf c.pg)
      (statusOf (runMessage [cmd] c.ready).1) c.tracker) (runMessage [cmd] c.ready).1 := by
  rw [hst.afterTracker_eq]
  have hread := hst.reads
  have hready := h.ready
  cases cmd with
  | begin =>
    have hc : st.command ≠ "ROLLBACK".toList ∧ st.command ≠ "ABORT".toList := by
      rcases hread with hr | hr <;> rw [hr] <;> decide
    rw [followSavepoint_other _ (by rcases hread with hr | hr <;> rw [hr] <;> decide) (rollsBackTo_false hc.1),
      followEnd_other _ _ (.inr hc) (by rcases hread with hr | hr <;> rw [hr] <;> decide)
        (by rcases hread with hr | hr <;> rw [hr] <;> decide), run_begin_ok hr]
    refine (Matches.sync ?_).matches
    cases hs : c.ready with
    | idle v =>
      rw [hs] at hready
      exact hready.fresh (h.ready_idle hs)
    | inTx o =>
      rw [hs] at hready
      exact hready
  | commit chain =>
    have hc : st.command ≠ "ROLLBACK".toList := by rcases hread with hr | hr <;> rw [hr] <;> decide
    rw [followSavepoint_other _ (by rcases hread with hr | hr <;> rw [hr] <;> decide) (rollsBackTo_false hc),
      followEnd_commit _ _ hread, run_commit_ok hr]
    exact (matches_endedAt (endTransaction_inTransaction _ _) (h.ended.1 rfl) chain).sync.matches
  | rollback chain =>
    rw [followSavepoint_other _ (by rcases hread.1 with hr | hr <;> rw [hr] <;> decide) hread.2,
      followEnd_rollback _ _ hread.1 hread.2, run_rollback_ok hr]
    exact (matches_endedAt (endTransaction_inTransaction _ _) (h.ended.2 rfl) chain).sync.matches
  | savepoint n =>
    obtain ⟨o, hs, hf, hs'⟩ := run_savepoint_ok hr
    rw [hs] at hready
    have ht : Tracks T H true (c.tracker.syncTransaction .inTransaction) o := hready
    have hc := hread.1
    rw [followSavepoint_savepoint _ hread, followEnd_other _ _ (.inr (by rw [hc]; decide)) (by rw [hc]; decide)
      (by rw [hc]; decide), hs', sync_of_ne _ (statusOf_ne_idle _)]
    exact (ht.savepoint hf n).matches
  | release n =>
    obtain ⟨o, o', hs, hf, ho', hs'⟩ := run_release_ok hr
    rw [hs] at hready
    have ht : Tracks T H true (c.tracker.syncTransaction .inTransaction) o := hready
    have hc := hread.1
    rw [followSavepoint_release _ hread, followEnd_other _ _ (.inr (by rw [hc]; decide)) (by rw [hc]; decide)
      (by rw [hc]; decide), hs', sync_of_ne _ (statusOf_ne_idle _)]
    exact (ht.release (hH n rfl) ho').matches
  | rollbackTo n =>
    obtain ⟨o, o', hs, ho', hs'⟩ := run_rollbackTo_ok hr
    rw [hs] at hready
    have ht : Tracks T H true (c.tracker.syncTransaction .inTransaction) o := hready
    have hc := Statement.rollsBackTo_command hread.1
    rw [followSavepoint_rollbackTo _ hread, followEnd_other _ _ (.inl hread.1) (by rw [hc]; decide)
      (by rw [hc]; decide), hs', sync_of_ne _ (statusOf_ne_idle _)]
    exact (ht.rollbackTo (hH n rfl) ho').matches
  | _ => exact hread.elim

theorem Legible.not_rows (hst : Legible st cmd) : ∀ id, cmd ≠ .rows id := by
  rintro id rfl
  exact hst.reads

/-- After a legible statement that failed, the record holds nothing. -/
theorem InStep.failed (h : InStep T H true c.tracker c.pg) {reach : Reach}
    (hr : reach = .run → (runMessage [cmd] c.ready).2.1 = false) :
    Matches T H true c.tracker.forget (c.reached [cmd] reach) := by
  have hm := h.ready
  have hfail : Matches T H true c.tracker.forget c.ready.fail := hm.forget_sameTx (.fail _)
  cases reach with
  | notRun => exact h.matches.forget
  | failed =>
    rcases refuseMessage_one cmd c.ready with he | he <;> simp only [Connection.reached, he]
    · exact matches_forget_idle _ _
    · exact hfail
  | run =>
    have hno := hr rfl
    simp only [Connection.reached]
    rw [runMessage_one] at hno ⊢
    cases hc : cmd.step (Work.enter c.ready) with
    | none => exact hfail
    | some w => rw [hc] at hno; simp at hno

end Follows

/-- **The wrapper on legible transaction control** keeps the record right, unless the
statement is cut off after it has run. -/
theorem guard_control_ends {c : Connection} {env : Env} {object : SqlObject} {st : Statement} {cmd : Command}
    (h : Inv T H strict L c) (hp : parse object = some st) (hst : Legible st cmd)
    (hH : ∀ n, cmd.target = some n → ¬H n) (hfate : (c.fates.headD .runs).Plain) :
    Ends (fun _ => Inv T H strict L) (fun _ => Inv T H strict L) (guard env ⟨object, [cmd]⟩ c) := by
  have hob := h.observed
  simp only [guard, hp, hst.control, if_true, Bool.not_true, Bool.false_and, Bool.false_eq_true, if_false]
  rw [bind_run, observe_sane h.toSane]
  refine Ends.bind_rule (Q := fun _ s => s = c.observed) rfl ?_
  rintro a s hs
  rw [hs]
  have hin : c.link = .up → c.needsRollback = false → InStep T H true c.observed.tracker c.observed.pg := by
    intro hl hn
    have := hob.session hl
    rwa [show c.observed.needsRollback = false from hn, Bool.not_false, Bool.or_true] at this
  refine Ends.bind_rule (Q := fun _ c' => Sane L c' ∧ c'.link = .up ∧ Matches T H true
    (afterTracker env.conf (some st) c.status (statusOf c'.pg) c'.tracker) c'.pg)
    (Ends.attempt_rule (F := fun _ => Unsure T H L) ?_ fun e c' hu => ?_) fun _ c' h' => ?_
  · refine execute_sane hob.toSane
      (fun _ _ reach g hg => by rw [sightings_one hst.not_rows] at hg; simp at hg)
      (fun hl hn hr hs => ⟨hs, hl, ?_⟩) (fun hl hn e reach hr hs => ⟨hs, fun _ => (hin hl hn).failed (hr (.inl hfate))⟩)
      (fun _ _ hs hl => .of_down hs hl) (fun _ es _ => (hob.inv.raised es).unsure)
    rw [status_up (c := c) hl]
    exact hst.follows (hin hl hn) hH hr
  · rw [bind_run, forgetIfFollowed_run, hst.failTracker_eq]
    exact hu.forget
  · obtain ⟨hs, hl, hm⟩ := h'
    rw [bind_run, afterStatement_run _ _ _ hs.quiet (hs.raw (by simp [hl])) (by simp [hl]), status_up hl]
    refine guard_rest_ends ⟨hs.track (afterTracker_raw _ _ _ _ _), fun _ => ?_⟩ false
    exact hm.of_true

end RlsTenants
