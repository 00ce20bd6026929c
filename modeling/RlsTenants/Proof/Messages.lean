import RlsTenants.Spec.Postgres

/-!
# What a message does to a session

* `runMessage_one`: a message of one command is that command; the lemmas after it say
  what each kind does, in the words of `Txn.State`.
* `Alike`: a session changed in its rows only, or failed. Messages that do not control
  the transaction and do not write the GUCs (`Command.Neutral`) leave such a session,
  and their commands on rows ran under the values it held (`neutral_runMessage`).
* `send_ends`: every way a message can end, as a rule.
-/

namespace RlsTenants

open Txn Effect Comp

/-! ## One command -/

section One

variable {s : Backend} {c : Command}

@[simp] theorem enter_failed : (Work.enter s).tx.failed = s.isFailed := by cases s <;> rfl

theorem runMessage_one (c : Command) (s : Backend) : runMessage [c] s =
    match c.step (Work.enter s) with
    | some w => (w.leave, true, w.seen)
    | none => (s.fail, false, []) := by
  simp only [runMessage, runCommands]
  cases c.step (Work.enter s) with
  | some w => rfl
  | none => cases s <;> rfl

theorem fail_of_failed (h : s.isFailed = true) : s.fail = s := by
  cases s with
  | idle v => rfl
  | inTx o => obtain ⟨a, b, d, f⟩ := o; obtain rfl : f = true := h; rfl

/-- `BEGIN` outside a transaction keeps the message's transaction open. -/
example (w : Work) (h : w.tx.failed = false) : Command.begin.step w = some { w with implicit := false } := by
  simp [Command.step, h]

theorem run_begin (h : s.isFailed = false) : runMessage [.begin] s = (s.start, true, []) := by
  rw [runMessage_one]
  cases s with
  | idle v => simp [Command.step, Work.enter, Work.leave, State.start]
  | inTx o =>
    have : o.failed = false := h
    simp [Command.step, Work.enter, Work.leave, State.start, this]

theorem run_commit (s : Backend) : runMessage [.commit false] s = (s.commit, true, []) := by
  rw [runMessage_one]
  cases s with
  | idle v => simp [Command.step, Work.enter, Work.leave, State.commit, Work.ended, Open.committed]
  | inTx o => rfl

theorem run_rollback (s : Backend) : runMessage [.rollback false] s = (s.rollback, true, []) := by
  rw [runMessage_one]
  cases s <;>
    simp [Command.step, Work.enter, Work.leave, State.rollback, State.durable, Work.ended, Open.committed]

/-- A command that writes the GUCs. -/
theorem run_write {f : ContextGucs → ContextGucs} {l : Bool}
    (hc : c.step (Work.enter s) = some ((Work.enter s).write (Visible.setGucs f) l)) :
    runMessage [c] s =
      (if l then s.writeLocal (Visible.setGucs f) else s.write (Visible.setGucs f), true, []) := by
  rw [runMessage_one, hc]
  cases s <;> cases l <;>
    simp [Work.enter, Work.write, Work.leave, State.write, State.writeLocal, Open.committed]

theorem run_failed (h : s.isFailed = true) (hc : c.step (Work.enter s) = none) :
    runMessage [c] s = (s, false, []) := by
  rw [runMessage_one, hc]
  simp only [fail_of_failed h]

/-- A GUC write in a transaction that has not failed, or outside one. -/
theorem run_setGucs (values : ContextGucs) (isLocal : Bool) (h : s.isFailed = false) :
    runMessage [.setGucs values isLocal] s =
      (if isLocal then s.writeLocal (Visible.setGucs fun _ => values)
        else s.write (Visible.setGucs fun _ => values), true, []) :=
  run_write (by simp [Command.step, h])

theorem run_setGuc (name : Guc) (value : String) (isLocal : Bool) (h : s.isFailed = false) :
    runMessage [.setGuc name value isLocal] s =
      (if isLocal then s.writeLocal (Visible.setGucs (·.put name value))
        else s.write (Visible.setGucs (·.put name value)), true, []) :=
  run_write (by simp [Command.step, h])

end One

/-- A command that reads no rows sees nothing. -/
theorem step_seen {c : Command} (hc : ∀ id, c ≠ .rows id) {w w' : Work} (h : c.step w = some w') :
    w'.seen = w.seen := by
  cases c with
  | rows id => exact absurd rfl (hc id)
  | fault => simp [Command.step] at h
  | commit chain =>
    simp only [Command.step] at h
    split at h
    · simp at h
    · exact Option.some.inj h ▸ rfl
  | rollback chain =>
    simp only [Command.step] at h
    split at h
    · simp at h
    · exact Option.some.inj h ▸ rfl
  | rollbackTo n =>
    simp only [Command.step] at h
    split at h
    · simp at h
    · obtain ⟨o, -, rfl⟩ := Option.map_eq_some_iff.1 h
      rfl
  | release n =>
    simp only [Command.step] at h
    split at h
    · simp at h
    · split at h
      · simp at h
      · obtain ⟨o, -, rfl⟩ := Option.map_eq_some_iff.1 h
        rfl
  | savepoint n =>
    simp only [Command.step] at h
    split at h
    · simp at h
    · split at h
      · simp at h
      · exact Option.some.inj h ▸ rfl
  | _ =>
    simp only [Command.step] at h
    split at h
    · simp at h
    · exact Option.some.inj h ▸ rfl

theorem runMessage_one_seen {c : Command} (hc : ∀ id, c ≠ .rows id) (s : Backend) :
    (runMessage [c] s).2.2 = [] := by
  rw [runMessage_one]
  cases h : c.step (Work.enter s) with
  | none => rfl
  | some w =>
    dsimp only
    rw [step_seen hc h]
    cases s <;> rfl

/-- What a refused command leaves. -/
theorem refuseMessage_one (c : Command) (s : Backend) :
    (refuseMessage [c] s).1 = s.rollback ∨ (refuseMessage [c] s).1 = s.fail := by
  unfold refuseMessage
  split
  · exact .inl rfl
  · exact .inr rfl
  · exact .inr rfl

/-! ## Sessions that differ in their rows -/

/-- `s'` is `s` with other rows, or failed. -/
inductive Alike : Backend → Backend → Prop
  | idle {v v' : Visible} (h : v'.gucs = v.gucs) : Alike (.idle v) (.idle v')
  | inTx {o : Open Name Visible} {l : Level Visible} {f : Bool}
      (hs : l.session.gucs = o.level.session.gucs) (hc : l.current.gucs = o.level.current.gucs)
      (hf : o.failed = true → f = true) :
      Alike (.inTx o) (.inTx { o with level := l, failed := f })

/-- A command that leaves the transaction and the GUCs alone. -/
def Command.Neutral : Command → Prop
  | .rows _ => True
  | .other => True
  | .fault => True
  | _ => False

/-- What neutral commands keep of a message under way. -/
structure Work.Kept (w w' : Work) : Prop where
  implicit : w'.implicit = w.implicit
  start : w'.tx.start = w.tx.start
  savepoints : w'.tx.savepoints = w.tx.savepoints
  failed : w'.tx.failed = w.tx.failed
  session : w'.tx.level.session.gucs = w.tx.level.session.gucs
  current : w'.tx.level.current.gucs = w.tx.level.current.gucs

theorem Work.Kept.refl (w : Work) : w.Kept w := ⟨rfl, rfl, rfl, rfl, rfl, rfl⟩

theorem Work.Kept.trans {w w' w'' : Work} (h : w.Kept w') (h' : w'.Kept w'') : w.Kept w'' :=
  ⟨h'.implicit.trans h.implicit, h'.start.trans h.start, h'.savepoints.trans h.savepoints,
    h'.failed.trans h.failed, h'.session.trans h.session, h'.current.trans h.current⟩

section Neutral

variable {s : Backend} {cs : List Command}

theorem Alike.fail (s : Backend) : Alike s s.fail := by
  cases s with
  | idle v => exact .idle rfl
  | inTx o => exact .inTx (l := o.level) rfl rfl fun _ => rfl

theorem Alike.refl (s : Backend) : Alike s s := by
  cases s with
  | idle v => exact .idle rfl
  | inTx o => exact .inTx (l := o.level) (f := o.failed) rfl rfl id

theorem Alike.isFailed {s s' : Backend} (h : Alike s s') (hs : s'.isFailed = false) : s.isFailed = false := by
  cases h with
  | idle _ => rfl
  | inTx _ _ hf =>
    refine Bool.eq_false_iff.2 fun h => ?_
    have := hf h
    simp_all [State.isFailed]

theorem neutral_step {c : Command} {w w' : Work} (hc : c.Neutral) (h : c.step w = some w') :
    w.Kept w' ∧ w.tx.failed = false ∧
      ∀ g ∈ w'.seen, g ∈ w.seen ∨ g = w.tx.level.current.gucs ∧ ∃ id, c = .rows id := by
  cases c <;> simp only [Command.Neutral] at hc
  · simp only [Command.step] at h
    split at h
    · simp at h
    · obtain rfl := Option.some.inj h
      refine ⟨⟨rfl, rfl, rfl, rfl, rfl, rfl⟩, Bool.eq_false_iff.2 ‹_›, fun g hg => ?_⟩
      exact (List.mem_cons.1 hg).symm.imp_right fun h => ⟨h, _, rfl⟩
  · simp only [Command.step] at h
    split at h
    · simp at h
    · obtain rfl := Option.some.inj h
      exact ⟨.refl _, Bool.eq_false_iff.2 ‹_›, fun g hg => .inl hg⟩
  · simp [Command.step] at h

/-- The rest of a neutral message. -/
theorem neutral_runCommands (hcs : ∀ c ∈ cs, c.Neutral) (w : Work) :
    ∃ w', w.Kept w' ∧
      (((runCommands cs w).1 = w'.abort ∧ (runCommands cs w).2.1 = false) ∨ (runCommands cs w).1 = w'.leave) ∧
      ∀ g ∈ (runCommands cs w).2.2, g ∈ w.seen ∨
        (w.tx.failed = false ∧ g = w.tx.level.current.gucs ∧ ∃ id, .rows id ∈ cs) := by
  induction cs generalizing w with
  | nil => exact ⟨w, .refl w, .inr rfl, fun g hg => .inl hg⟩
  | cons c cs ih =>
    rw [runCommands]
    cases hst : c.step w with
    | none => exact ⟨w, .refl w, .inl ⟨rfl, rfl⟩, fun g hg => .inl hg⟩
    | some w1 =>
      obtain ⟨hk, hf, hseen⟩ := neutral_step (hcs c List.mem_cons_self) hst
      obtain ⟨w', hk', hend, hseen'⟩ := ih (fun c' h => hcs c' (List.mem_cons_of_mem _ h)) w1
      refine ⟨w', hk.trans hk', hend, fun g hg => ?_⟩
      rcases hseen' g hg with h | ⟨-, h, id, hid⟩
      · refine (hseen g h).imp_right fun ⟨h, id, hid⟩ => ⟨hf, h, id, ?_⟩
        rw [hid]
        exact List.mem_cons_self
      · exact .inr ⟨hf, h.trans hk.current, id, List.mem_cons_of_mem _ hid⟩

theorem alike_leave {w : Work} (h : (Work.enter s).Kept w) : Alike s w.leave := by
  obtain ⟨hi, hst, hsv, hf, hss, hc⟩ := h
  cases s with
  | idle v =>
    rw [show w.leave = .idle w.tx.committed from if_pos hi, Open.committed, if_neg (by rw [hf]; simp [Work.enter])]
    exact .idle hss
  | inTx o =>
    rw [show w.leave = .inTx w.tx from if_neg (by rw [hi]; simp [Work.enter])]
    obtain ⟨⟨st, l, sv, f⟩, i, seen⟩ := w
    obtain rfl : st = o.start := hst
    obtain rfl : sv = o.savepoints := hsv
    exact .inTx hss hc fun ho => hf.trans ho

theorem alike_abort {w : Work} (h : (Work.enter s).Kept w) : Alike s w.abort := by
  obtain ⟨hi, hst, hsv, hf, hss, hc⟩ := h
  cases s with
  | idle v =>
    rw [show w.abort = .idle w.tx.start from if_pos hi, hst]
    exact .idle rfl
  | inTx o =>
    rw [show w.abort = .inTx { w.tx with failed := true } from if_neg (by rw [hi]; simp [Work.enter])]
    obtain ⟨⟨st, l, sv, f⟩, i, seen⟩ := w
    obtain rfl : st = o.start := hst
    obtain rfl : sv = o.savepoints := hsv
    exact .inTx hss hc fun _ => rfl

theorem leave_failed {w : Work} (h : (Work.enter s).Kept w) : w.leave.isFailed = s.isFailed := by
  unfold Work.leave
  rw [h.implicit]
  cases s with
  | idle v => rfl
  | inTx o => exact h.failed

/-- **A neutral message** changes rows at most, and runs under the session's values. -/
theorem neutral_runMessage (hcs : ∀ c ∈ cs, c.Neutral) (s : Backend) :
    Alike s (runMessage cs s).1 ∧
      ((runMessage cs s).2.1 = true → (runMessage cs s).1.isFailed = s.isFailed) ∧
      ∀ g ∈ (runMessage cs s).2.2, s.isFailed = false ∧ g = s.current.gucs ∧ ∃ id, .rows id ∈ cs := by
  obtain ⟨w, hk, hend, hseen⟩ := neutral_runCommands hcs (Work.enter s)
  refine ⟨?_, fun hok => ?_, ?_⟩
  · rcases hend with ⟨h, -⟩ | h
    · exact h ▸ alike_abort hk
    · exact h ▸ alike_leave hk
  · rcases hend with ⟨-, h⟩ | h
    · rw [runMessage, h] at hok
      simp at hok
    · rw [runMessage, h, leave_failed hk]
  · intro g hg
    rcases hseen g hg with h | ⟨h, rfl, hrows⟩
    · cases s <;> simp [Work.enter] at h
    · refine ⟨by simpa using h, ?_, hrows⟩
      cases s <;> rfl

theorem neutral_refuseMessage (hcs : ∀ c ∈ cs, c.Neutral) (s : Backend) :
    (refuseMessage cs s).1 = s.fail ∧
      ∀ g ∈ (refuseMessage cs s).2, s.isFailed = false ∧ g = s.current.gucs ∧ ∃ id, .rows id ∈ cs := by
  unfold refuseMessage
  split
  · exact absurd (hcs _ List.mem_cons_self) (by simp [Command.Neutral])
  · refine ⟨rfl, fun g hg => ?_⟩
    split at hg
    · simp at hg
    · exact ⟨Bool.eq_false_iff.2 ‹_›, by simpa using hg, _, List.mem_cons_self⟩
  · exact ⟨rfl, by simp⟩

end Neutral

/-! ## Sessions in the same transaction -/

/-- `s'` is `s` with other values in the same transaction, or failed. -/
inductive SameTx : Backend → Backend → Prop
  | idle (v v' : Visible) : SameTx (.idle v) (.idle v')
  | inTx (o : Open Name Visible) (l : Level Visible) (f : Bool) :
      SameTx (.inTx o) (.inTx { o with level := l, failed := f })

section SameTx

variable {s s' : Backend}

theorem SameTx.refl (s : Backend) : SameTx s s := by
  cases s with
  | idle v => exact .idle v v
  | inTx o => exact .inTx o o.level o.failed

theorem SameTx.fail (s : Backend) : SameTx s s.fail := by
  cases s with
  | idle v => exact .idle v v
  | inTx o => exact .inTx o o.level true

theorem Alike.sameTx (h : Alike s s') : SameTx s s' := by
  cases h with
  | idle _ => exact .idle _ _
  | inTx _ _ _ => exact .inTx _ _ _

theorem SameTx.wrote (s : Backend) (f : Visible → Visible) (isLocal : Bool) :
    SameTx s (if isLocal then s.writeLocal f else s.write f) := by
  cases s with
  | idle v => cases isLocal <;> exact .idle _ _
  | inTx o => cases isLocal <;> exact .inTx o _ o.failed

/-- A message that stays in the transaction it finds, or outside one. -/
def Stays (cs : List Command) : Prop :=
  ∀ s, SameTx s (runMessage cs s).1 ∧ SameTx s (refuseMessage cs s).1

theorem neutral_stays {cs : List Command} (hcs : ∀ c ∈ cs, c.Neutral) : Stays cs := fun s =>
  ⟨(neutral_runMessage hcs s).1.sameTx, by rw [(neutral_refuseMessage hcs s).1]; exact .fail s⟩

/-- A command that writes the GUCs. -/
def Command.Writes : Command → Prop
  | .setGucs _ _ => True
  | .setGuc _ _ _ => True
  | .resetGucs _ => True
  | _ => False

theorem writes_step {c : Command} (hc : c.Writes) (w : Work) :
    c.step w = none ∧ w.tx.failed = true ∨
      w.tx.failed = false ∧ ∃ f isLocal, c.step w = some (w.write (Visible.setGucs f) isLocal) := by
  cases hf : w.tx.failed with
  | true => cases c <;> simp [Command.Writes] at hc <;> simp [Command.step, hf]
  | false =>
    cases c with
    | setGucs values isLocal => exact .inr ⟨rfl, fun _ => values, isLocal, by simp [Command.step, hf]⟩
    | setGuc name value isLocal => exact .inr ⟨rfl, (·.put name value), isLocal, by simp [Command.step, hf]⟩
    | resetGucs names =>
      exact .inr ⟨rfl, fun g => names.foldl (fun g name => g.put name "") g, false,
        by simp [Command.step, hf]⟩
    | _ => simp [Command.Writes] at hc

/-- A message of one GUC write stays in the transaction. -/
theorem writes_runMessage {c : Command} (hc : c.Writes) (s : Backend) : SameTx s (runMessage [c] s).1 := by
  rcases writes_step hc (Work.enter s) with ⟨h, -⟩ | ⟨hf, f, isLocal, h⟩
  · rw [runMessage_one, h]
    exact .fail s
  · rw [run_write h]
    exact .wrote s _ isLocal

theorem writes_refuseMessage {c : Command} (hc : c.Writes) (s : Backend) :
    refuseMessage [c] s = (s.fail, []) := by
  cases c <;> simp [Command.Writes] at hc <;> rfl

theorem writes_stays {c : Command} (hc : c.Writes) : Stays [c] := fun s =>
  ⟨writes_runMessage hc s, by rw [writes_refuseMessage hc]; exact .fail s⟩

end SameTx

/-! ## Sending a message -/

section Send

variable {c : Connection} {cs : List Command} {context : Option ContextGucs}

theorem sightings_one {cmd : Command} (hc : ∀ id, cmd ≠ .rows id) (reach : Reach) :
    c.sightings [cmd] reach = [] := by
  cases reach with
  | notRun => rfl
  | failed =>
    simp only [Connection.sightings, refuseMessage]
    split
    · rfl
    · rename_i h
      exact absurd (List.cons.inj h).1 (hc _)
    · rfl
  | run => exact runMessage_one_seen hc c.ready

/-- The connection after a message has failed on an open link. -/
def Connection.failedAt (context : Option ContextGucs) (cs : List Command) (reach : Reach) (e : Exc)
    (c : Connection) : Connection :=
  { c.sent context cs reach with raised := e :: c.raised }

/-- An outcome that says how far the message got: the exception of a message that ran to
its end on an open link is the message's own. -/
def Fate.Plain : Fate → Prop
  | .interrupted .run _ _ => False
  | _ => True

theorem send_down (h : c.link ≠ .up) :
    send context cs c = (.error (.databaseError 0), { c with raised := .databaseError 0 :: c.raised }) := by
  simp [send, h, throw]

/-- **Every end of a message.** It succeeds; it fails on a link that stays open; or the
link is no longer open. -/
theorem send_ends {Q : Connection → Prop} {E : Exc → Connection → Prop}
    (hok : c.link = .up → (runMessage cs c.ready).2.1 = true → Q (c.sent context cs .run))
    (herr : c.link = .up → ∀ e reach,
      ((c.fates.headD .runs).Plain ∨ e.isDatabaseError = true → reach = .run →
        (runMessage cs c.ready).2.1 = false) → E e (c.failedAt context cs reach e))
    (hdown : ∀ e c', c'.link ≠ .up → (c'.link = .closed ↔ c.link = .closed) → c'.tracker = c.tracker →
      c'.raw = c.raw → c'.guarded = c.guarded → c'.faults = c.faults →
      (c'.ran = c.ran ∨ c.link = .up ∧ ∃ reach, c'.ran = (c.sent context cs reach).ran) → E e c') :
    Ends (fun _ => Q) E (send context cs c) := by
  by_cases hl : c.link = .up
  · unfold send
    rw [if_pos hl]
    generalize c.fates.headD .runs = fate at *
    cases fate with
    | runs =>
      dsimp only
      split
      · exact hok hl ‹_›
      · exact herr hl _ _ fun _ _ => Bool.eq_false_iff.2 ‹_›
    | refused n => exact herr hl _ _ fun _ => by simp
    | lost reach n =>
      exact hdown _ _ (by simp) (by simp [hl]) rfl rfl rfl rfl (.inr ⟨hl, reach, rfl⟩)
    | interrupted reach busy n =>
      cases busy with
      | true => exact hdown _ _ (by simp) (by simp [hl]) rfl rfl rfl rfl (.inr ⟨hl, reach, rfl⟩)
      | false =>
        have : ({ c.sent context cs reach with link := .up } : Connection) = c.sent context cs reach := by
          rw [← hl]; rfl
        show E _ { ({ c.sent context cs reach with link := .up } : Connection) with
          raised := _ :: (c.sent context cs reach).raised }
        rw [this]
        refine herr hl _ _ fun hp hr => ?_
        subst hr
        simp [Fate.Plain, Exc.isDatabaseError] at hp
  · rw [send_down hl]
    exact hdown _ _ hl Iff.rfl rfl rfl rfl rfl (.inl rfl)

end Send

end RlsTenants
