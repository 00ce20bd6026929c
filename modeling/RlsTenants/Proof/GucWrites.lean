import RlsTenants.Proof.SessionMode
import RlsTenants.Proof.Outside

/-!
# GUCs written one by one

`set_guc()` and the loops over it, inside `writing`. While they run the record is not that of
the session, but its ways back are: `WaysBack` says what it keeps of the transaction's start
and savepoints.

* `setGuc_ends`: a GUC is set for the session, and the others are as they were.
* `setGucEach_ends`, `restoreEach_ends`, `restoreGucs_ends`: so are those of a list. A database
  error may be swallowed on the way; the result says so.
* `Loose.written`: once both GUCs are known, the record may be made.
-/

namespace RlsTenants

open Txn Effect Comp

variable {T : Option ContextGucs → Prop} {H : Name → Prop} {L : Ran → Prop} {strict : Bool}
  {c c' : Connection} {env : Env} {g : ContextGucs} {S : Guc → Prop}

/-- What the record keeps to go back to is right. Outside autocommit a session that is still
outside a transaction is as the record says. -/
def WaysBack (T : Option ContextGucs → Prop) (H : Name → Prop) (autocommit : Bool) (t : SessionGUCs) :
    Backend → Prop
  | .idle v => autocommit = true ∨ Describes T (t.syncTransaction .idle).values v.gucs
  | .inTx o => Describes T (t.syncTransaction .inTransaction).base o.start.gucs ∧
      Follows H (Good T (t.syncTransaction .inTransaction).wroteLocal)
        (t.syncTransaction .inTransaction).savepoints o.savepoints

namespace WaysBack

variable {a : Bool} {t : SessionGUCs} {s : Backend}

theorem of_matches {ok : Bool} (h : Matches T H ok t s) : WaysBack T H a t s := by
  cases s with
  | idle v => exact .inr h
  | inTx o => exact ⟨Tracks.base h, Tracks.savepoints h⟩

theorem sync (h : WaysBack T H a t s) : WaysBack T H a (t.syncTransaction (statusOf s)) s := by
  cases s with
  | idle v =>
    refine h.imp_right fun hd => ?_
    rw [show statusOf (.idle v) = .idle from rfl, sync_outside _ (sync_inTransaction_idle t)]
    exact hd
  | inTx o =>
    have hs : t.syncTransaction (statusOf (.inTx o)) = t.syncTransaction .inTransaction :=
      sync_of_ne t (statusOf_ne_idle o)
    rw [hs]
    unfold WaysBack
    rw [sync_inside _ (sync_inTransaction t)]
    exact h

/-- The record that holds nothing is right. -/
theorem forget (h : WaysBack T H a t s) : Matches T H true t.forget s := by
  cases s with
  | idle v => exact matches_forget_idle _ _
  | inTx o =>
    obtain ⟨hbase, hsave⟩ := h
    show Tracks T H true (t.forget.syncTransaction .inTransaction) o
    cases hin : t.inTransaction with
    | true =>
      rw [sync_inside _ hin] at hbase hsave
      rw [sync_inside _ (by simpa using hin), SessionGUCs.forget, setValues_inside t hin]
      exact ⟨hin, hbase, by simp, fun _ _ => good_unknown _ _, by simpa using hsave⟩
    | false =>
      rw [sync_fresh _ hin] at hsave
      have hf : t.forget.inTransaction = false := by simpa using hin
      rw [sync_fresh _ hf]
      refine ⟨rfl, by simp, fun _ => ⟨by simp, fun e _ => by simp⟩, fun _ _ => by simp, ?_⟩
      exact hsave.mono fun _ _ _ h => h

/-- What describes the GUCs can be recorded. -/
theorem record (h : WaysBack T H a t s) {v : Tracked} (hcur : Describes T v s.current.gucs)
    (hkept : Describes T v (kept s)) :
    InStep T H true ((t.syncTransaction (statusOf s)).setValues v false) s := by
  cases s with
  | idle w =>
    refine ⟨by simp [statusOf], ?_⟩
    rw [setValues_values]
    exact hcur
  | inTx o =>
    obtain ⟨hbase, hsave⟩ := h
    rw [sync_of_ne t (statusOf_ne_idle o)]
    have hin := sync_inTransaction t
    rw [setValues_inside _ hin]
    exact ⟨hin, hbase, by simp, fun _ _ => ⟨hcur, fun _ => hkept⟩, by simpa using hsave⟩

/-- What is recorded is no way back. -/
theorem setValues (h : WaysBack T H a t s) (v : Tracked) :
    WaysBack T H true ((t.syncTransaction (statusOf s)).setValues v false) s := by
  cases s with
  | idle w => exact .inl rfl
  | inTx o =>
    obtain ⟨hbase, hsave⟩ := h
    rw [sync_of_ne t (statusOf_ne_idle o)]
    have hin := sync_inTransaction t
    generalize t.syncTransaction .inTransaction = t' at hbase hsave hin ⊢
    unfold WaysBack
    rw [sync_inside _ (by simpa using hin), setValues_inside t' hin]
    exact ⟨hbase, by simpa using hsave⟩

/-- Writes change no way back. -/
theorem sameTx {s' : Backend} (h : WaysBack T H a t s) (hs : SameTx s s') (ha : ∀ v, s = .idle v → a = true) :
    WaysBack T H a t s' := by
  cases hs with
  | idle v v' => exact .inl (ha v rfl)
  | inTx o l f => exact h

end WaysBack

/-! ## A write under way -/

/-- The record's ways back are right, whatever values it holds. -/
structure Loose (T : Option ContextGucs → Prop) (H : Name → Prop) (L : Ran → Prop) (c : Connection) : Prop
    extends Sane L c where
  ways : c.link = .up → WaysBack T H c.autocommit c.tracker c.pg

theorem Inv.loose (h : Inv T H strict L c) : Loose T H L c :=
  ⟨h.toSane, fun hl => .of_matches (h.session hl)⟩

namespace Loose

theorem of_down (h : Sane L c) (hl : c.link ≠ .up) : Loose T H L c := ⟨h, fun hl' => absurd hl' hl⟩

theorem observed (h : Loose T H L c) : Loose T H L c.observed := by
  refine ⟨h.toSane.observed, fun hl => ?_⟩
  have hl : c.link = .up := hl
  show WaysBack T H c.autocommit (if c.link = .closed then _ else _) c.pg
  rw [if_neg (by simp [hl]), status_up hl]
  exact (h.ways hl).sync

/-- With autocommit off a message starts a transaction, whose start the record knows. -/
theorem ready (h : Loose T H L c) (hl : c.link = .up) :
    WaysBack T H c.autocommit c.observed.tracker c.ready ∧ ∀ v, c.ready = .idle v → c.autocommit = true := by
  have hways := h.observed.ways hl
  have htr : c.observed.tracker = c.tracker.syncTransaction (statusOf c.pg) := by
    simp [Connection.observed, hl, status_up hl]
  unfold Connection.ready
  change WaysBack T H c.autocommit c.observed.tracker c.pg at hways
  cases hp : c.pg with
  | inTx o =>
    rw [hp] at hways
    exact ⟨hways, fun v hv => by cases hv⟩
  | idle v =>
    rw [hp] at hways htr
    cases hau : c.autocommit with
    | true => exact ⟨.inl rfl, fun _ _ => rfl⟩
    | false =>
      have hd : Describes T (c.observed.tracker.syncTransaction .idle).values v.gucs :=
        hways.resolve_left (by simp [hau])
      have hout : c.observed.tracker.inTransaction = false := by rw [htr]; exact sync_inTransaction_idle _
      rw [sync_outside _ hout] at hd
      refine ⟨?_, fun w hw => by simp at hw⟩
      show Describes T _ _ ∧ Follows H _ _ _
      rw [sync_fresh _ hout]
      exact ⟨hd, .nil⟩

/-- However far a write gets, the ways back are right. -/
theorem reached (h : Loose T H L c) (hl : c.link = .up) {cmd : Command} (hc : cmd.Writes) (reach : Reach) :
    WaysBack T H c.autocommit c.observed.tracker (c.observed.reached [cmd] reach) := by
  obtain ⟨hready, hau⟩ := h.ready hl
  cases reach with
  | notRun => exact h.observed.ways hl
  | failed =>
    simp only [Connection.reached, writes_refuseMessage hc]
    exact hready.sameTx (.fail _) hau
  | run => exact hready.sameTx (writes_runMessage hc _) hau

/-- A record of values that the GUCs may not hold is put right by forgetting them; of those
that they do hold, it is right. -/
theorem recorded (strict : Bool) (h : Loose T H L c) (v : Tracked) : ∃ c', record v false c = (.ok (), c') ∧ Unsure T H L c' ∧
    ((c.link = .up → Describes T v c.pg.current.gucs ∧ Describes T v (kept c.pg)) → Inv T H strict L c') := by
  by_cases hl : c.link = .closed
  · have hdown : c.link ≠ .up := by simp [hl]
    exact ⟨c, by simp [record, hl], .of_down h.toSane hdown, fun _ => .of_down h.toSane hdown⟩
  have hsane : Sane L { c with tracker := (c.tracker.syncTransaction c.status).setValues v false } :=
    h.toSane.track (by simp)
  refine ⟨_, record_run h.toSane hl v false, ⟨hsane, fun hup => ?_⟩, fun hv => ⟨hsane, fun hup => ?_⟩⟩
  · have hup : c.link = .up := hup
    rw [status_up hup]
    exact ((h.ways hup).setValues v).forget
  · have hup : c.link = .up := hup
    obtain ⟨hcur, hkept⟩ := hv hup
    rw [status_up hup]
    exact ((h.ways hup).record hcur hkept).of_true.matches

theorem unsure (h : Loose T H L c) : Unsure T H L c := ⟨h.toSane, fun hl => (h.ways hl).forget⟩

end Loose

/-! ## Setting GUCs -/

/-- A GUC of the session has its value of `g`, for statements and for a commit. -/
def HasValue (g : ContextGucs) (s : Backend) (name : Guc) : Prop :=
  s.current.gucs.get name = g.get name ∧ (kept s).get name = g.get name

/-- These GUCs have their values of `g`; the session is there. -/
def HoldsOn (g : ContextGucs) (S : Guc → Prop) (c : Connection) : Prop :=
  ∀ name, S name → c.link ≠ .closed ∧ (c.link = .up → HasValue g c.pg name)

theorem get_put (g : ContextGucs) (name name' : Guc) (value : String) :
    (g.put name value).get name' = if name' = name then value else g.get name' := by
  cases name <;> cases name' <;> rfl

theorem kept_ready (c : Connection) : c.ready.current = c.pg.current ∧ kept c.ready = kept c.pg := by
  unfold Connection.ready
  cases c.pg with
  | idle v => cases c.autocommit <;> exact ⟨rfl, rfl⟩
  | inTx o => exact ⟨rfl, rfl⟩

theorem write_gucs (s : Backend) (f : ContextGucs → ContextGucs) :
    (s.write (Visible.setGucs f)).current.gucs = f s.current.gucs ∧
      kept (s.write (Visible.setGucs f)) = f (kept s) := by
  cases s <;> exact ⟨rfl, rfl⟩

theorem setGucSql_unfollowed (env : Env) (name : Guc) (value : String) :
    Unfollowed ⟨.str (setGucSql env.conf name false), [.setGuc name value false]⟩ := by
  have h : ∃ s, parse (.str "SELECT set_config(%s, %s, false)".toList) = some s ∧ s.compound = false ∧
      s.isFollowed = false := ⟨_, rfl, by decide, by decide⟩
  exact h

theorem HasValue.ready {n : Guc} (h : HasValue g c.pg n) : HasValue g c.ready n := by
  obtain ⟨hcurrent, hkept⟩ := kept_ready c
  unfold HasValue
  rw [hcurrent, hkept]
  exact h

theorem HasValue.fail {s : Backend} {n : Guc} (h : HasValue g s n) : HasValue g s.fail n := by
  cases s with
  | idle v => exact h
  | inTx o => exact h

theorem hasValue_written (s : Backend) (name n : Guc) (h : n = name ∨ HasValue g s n) :
    HasValue g (s.write (Visible.setGucs (·.put name (g.get name)))) n := by
  obtain ⟨hcurrent, hkept⟩ := write_gucs s (·.put name (g.get name))
  unfold HasValue
  rw [hcurrent, hkept, get_put, get_put]
  by_cases he : n = name
  · rw [if_pos he, if_pos he, he]
    exact ⟨rfl, rfl⟩
  · rw [if_neg he, if_neg he]
    exact h.resolve_left he

/-- However far the write of one GUC gets, another one keeps its value, and so does this one if it had it. -/
theorem HasValue.reached {n : Guc} (h : HasValue g c.pg n) (name : Guc) (reach : Reach) :
    HasValue g (c.reached [.setGuc name (g.get name) false] reach) n := by
  cases reach with
  | notRun => exact h
  | failed => exact h.ready.fail
  | run =>
    show HasValue g (runMessage _ c.ready).1 n
    by_cases hf : c.ready.isFailed = true
    · rw [run_failed hf (by simp [Command.step, hf])]
      exact h.ready
    · rw [run_setGuc _ _ _ (by simpa using hf)]
      exact hasValue_written _ _ _ (.inr h.ready)

/-- **A GUC is set for the session**, and the others are as they were. -/
theorem setGuc_ends (env : Env) (h : Loose T H L c) (hs : HoldsOn g S c) (name : Guc) :
    Ends (fun _ c' => Loose T H L c' ∧ HoldsOn g (fun n => S n ∨ n = name) c')
      (fun _ c' => Loose T H L c' ∧ HoldsOn g S c') (setGuc env name (g.get name) false c) := by
  have hguard : ∀ c, Loose T H L c → c.link ≠ .closed → HoldsOn g S c →
      Ends (fun _ c' => Loose T H L c' ∧ HoldsOn g (fun n => S n ∨ n = name) c')
        (fun _ c' => Loose T H L c' ∧ HoldsOn g S c')
        (guardWriting env ⟨.str (setGucSql env.conf name false), [.setGuc name (g.get name) false]⟩ c) := by
    intro c h hopen hs
    have hw : (Command.setGuc name (g.get name) false).Writes := trivial
    have hguarded : Keeps Unclosed
        (guardWriting env ⟨.str (setGucSql env.conf name false), [.setGuc name (g.get name) false]⟩) :=
      unclosed_passive.guardWriting (send_unclosed _ _)
    have hunclosed := hguarded c hopen
    suffices hmain : Ends (fun _ c' => Loose T H L c' ∧ (c'.link = .up → ∀ n, S n ∨ n = name → HasValue g c'.pg n))
        (fun _ c' => Loose T H L c' ∧ (c'.link = .up → ∀ n, S n → HasValue g c'.pg n))
        (guardWriting env ⟨.str (setGucSql env.conf name false), [.setGuc name (g.get name) false]⟩ c) from
      (hmain.with_inv hunclosed).mono (fun _ _ h => ⟨h.1.1, fun n hn => ⟨h.2, fun hl => h.1.2 hl n hn⟩⟩)
        fun _ _ h => ⟨h.1.1, fun n hn => ⟨h.2, fun hl => h.1.2 hl n hn⟩⟩
    rw [guardWriting_run (setGucSql_unfollowed env name _) h.toSane]
    refine execute_sane h.observed.toSane
      (fun _ _ reach g hg => by rw [sightings_one hw.not_rows] at hg; simp at hg)
      (fun hl _ hr hsent => ?_) (fun hl _ e reach _ hsent => ?_)
      (fun e c' hsane hl => ⟨.of_down hsane hl, fun hl' => absurd hl' hl⟩)
      (fun e es _ => ⟨⟨h.observed.toSane.raised es, h.observed.ways⟩, fun hl n hn => (hs n hn).2 hl⟩)
    · have hnf : c.observed.ready.isFailed = false := by
        refine Bool.eq_false_iff.2 fun hf => ?_
        rw [run_failed hf (by simp [Command.step, hf])] at hr
        simp at hr
      have hpg : (c.observed.sent env.context [.setGuc name (g.get name) false] .run).pg =
          c.ready.write (Visible.setGucs (·.put name (g.get name))) := by
        show (runMessage _ _).1 = _
        rw [run_setGuc _ _ _ hnf]
        rfl
      refine ⟨⟨hsent, fun _ => h.reached hl hw .run⟩, fun _ n hn => ?_⟩
      rw [hpg]
      refine hasValue_written _ _ _ (hn.symm.imp_right fun hn => ?_)
      exact ((hs n hn).2 hl).ready
    · exact ⟨⟨hsent, fun _ => h.reached hl hw reach⟩, fun _ n hn => ((hs n hn).2 hl).reached name reach⟩
  simp only [setGuc, Bool.false_eq_true, false_and, bind_run, reads_run, if_false]
  by_cases hl : c.link = .closed
  · have hnone : ∀ n, ¬S n := fun n hn => (hs n hn).1 hl
    have hempty : ∀ c', HoldsOn g S c' := fun c' n hn => absurd hn (hnone n)
    refine ((ensureConnection_ends env (.of_down h.toSane (by simp [hl]) : Inv T H true L c)).mono
      (fun _ _ h => h) fun _ c' h => ⟨h.loose, hempty c'⟩).bind_rule ?_
    intro _ c' hc'
    exact hguard c' hc'.1.loose hc'.2 (hempty c')
  · rw [ensureConnection_open hl]
    exact hguard c h hl hs

/-- Several are set; if that fails, those that were there are still there. -/
theorem setGucEach_ends (env : Env) (writes : List (Guc × String)) (hw : ∀ p ∈ writes, p.2 = g.get p.1)
    (h : Loose T H L c) (hs : HoldsOn g S c) :
    Ends (fun _ c' => Loose T H L c' ∧ HoldsOn g (fun n => S n ∨ n ∈ writes.map Prod.fst) c')
      (fun _ c' => Loose T H L c' ∧ HoldsOn g S c') (setGucEach env false writes c) := by
  induction writes generalizing c S with
  | nil => exact ⟨h, fun n hn => hs n (hn.resolve_right (by simp))⟩
  | cons p rest ih =>
    obtain ⟨name, value⟩ := p
    obtain rfl : value = g.get name := hw _ List.mem_cons_self
    refine (setGuc_ends env h hs name).bind_rule ?_
    intro _ c' hc'
    obtain ⟨h', hs'⟩ := hc'
    refine (ih (fun p hp => hw p (List.mem_cons_of_mem _ hp)) h' hs').mono (fun _ c'' hc'' => ?_)
      fun _ _ h => ⟨h.1, fun n hn => h.2 n (.inl hn)⟩
    refine ⟨hc''.1, fun n hn => hc''.2 n ?_⟩
    simpa [or_assoc] using hn

/-- GUCs are put back one by one; if all of them were, they hold their values. -/
theorem restoreEach_ends (env : Env) (pending : Bool) (previous : List (Guc × Option String))
    (hp : ∀ p ∈ previous, p.2.getD "" = g.get p.1) (h : Loose T H L c) (hs : HoldsOn g S c) :
    Ends (fun restored c' => Loose T H L c' ∧
        (restored = true → HoldsOn g (fun n => S n ∨ n ∈ previous.map Prod.fst) c'))
      (fun _ => Loose T H L) (restoreEach env false pending previous c) := by
  induction previous generalizing c S with
  | nil => exact ⟨h, fun _ n hn => hs n (hn.resolve_right (by simp))⟩
  | cons p rest ih =>
    obtain ⟨name, value⟩ := p
    have hv : value.getD "" = g.get name := hp (name, value) List.mem_cons_self
    have ih := fun {c S} => ih (c := c) (S := S) fun p h => hp p (List.mem_cons_of_mem _ h)
    simp only [restoreEach, hv]
    refine Ends.bind_rule (Q := fun restored c' => Loose T H L c' ∧
      (restored = true → HoldsOn g (fun n => S n ∨ n = name) c')) ?_ ?_
    · refine Ends.attempt_rule (F := fun _ => Loose T H L) ?_ fun e c' h' => ?_
      · refine ((setGuc_ends env h hs name).mono (fun _ _ h => h) fun _ _ h => h.1).bind_rule ?_
        intro _ c' hc'
        exact ⟨hc'.1, fun _ => hc'.2⟩
      · split
        · exact ⟨h', by simp⟩
        · exact h'
    · intro restored c' hc'
      obtain ⟨h', hs'⟩ := hc'
      cases restored with
      | false =>
        -- what comes after a failure is put back, but the result says that not all was
        refine (ih h' (S := fun _ => False) fun _ hn => hn.elim).bind_rule ?_
        intro others c'' hc''
        exact ⟨hc''.1, by simp⟩
      | true =>
        refine (ih h' (hs' rfl)).bind_rule ?_
        intro others c'' hc''
        refine ⟨hc''.1, fun hr n hn => ?_⟩
        refine hc''.2 (by simpa using hr) n ?_
        simpa [or_assoc] using hn

/-- Django's mark for rollback plays no part. -/
theorem Loose.marked (h : Loose T H L c) (b : Bool) : Loose T H L { c with needsRollback := b } :=
  ⟨⟨h.quiet, h.raw, h.guarded, h.log⟩, h.ways⟩

theorem restoreGucs_ends (env : Env) (pending : Bool) (previous : List (Guc × Option String))
    (hp : ∀ p ∈ previous, p.2.getD "" = g.get p.1) (h : Loose T H L c) (hs : HoldsOn g S c) :
    Ends (fun restored c' => Loose T H L c' ∧
        (restored = true → HoldsOn g (fun n => S n ∨ n ∈ previous.map Prod.fst) c'))
      (fun _ => Loose T H L) (restoreGucs env previous false pending c) := by
  unfold restoreGucs
  by_cases hnil : previous = []
  · rw [if_pos hnil, hnil]
    exact ⟨h, fun _ n hn => hs n (hn.resolve_right (by simp))⟩
  rw [if_neg hnil]
  simp only [bind_run, reads_run, modify_run]
  exact Ends.ensuring_rule (restoreEach_ends env pending previous hp (h.marked false) hs)
    (fun restored c' hc' => ⟨hc'.1.marked _, hc'.2⟩) fun e c' h' => h'.marked _

/-! ## Blocks that write -/

theorem ContextGucs.ext_names {g g' : ContextGucs} (h : ∀ name, g.get name = g'.get name) : g = g' := by
  have hadmin := h .isAdmin
  have htenant := h .currentTenant
  cases g
  cases g'
  simp_all [ContextGucs.get]

/-- A write of the library's own, whose block may know that the GUCs are at the values to be
recorded. If it fails, what is there is still there. -/
theorem writing_loose_ends {α : Type} (strict : Bool) (values : Option ContextGucs) {block : Db α} {Q : α → Prop}
    (hb : Ends (fun a c' => Loose T H L c' ∧ (Q a → HoldsOn (valuesOf values) (fun _ => True) c'))
      (fun _ c' => Loose T H L c' ∧ HoldsOn g S c') (block c)) :
    Ends (fun a c' => Unsure T H L c' ∧ (Q a → Inv T H strict L c')) (fun _ c' => Inv T H strict L c' ∧ HoldsOn g S c')
      (writing (.known values) false block c) := by
  rw [writing_run]
  rcases hm : block c with ⟨e | a, c'⟩ <;> rw [hm] at hb
  · exact ⟨Unsure.forget (Loose.unsure hb.1), hb.2⟩
  obtain ⟨h, hs⟩ := hb
  obtain ⟨c'', hr, hu, hi⟩ := Loose.recorded strict h (.known values)
  simp only [hr]
  refine ⟨hu, fun hq => hi fun hl => ?_⟩
  have hall := fun name => (hs hq name trivial).2 hl
  rw [ContextGucs.ext_names fun name => (hall name).1, ContextGucs.ext_names fun name => (hall name).2]
  exact ⟨describes_known _, describes_known _⟩

/-- A write after which nothing is known. -/
theorem writing_unknown_ends {α : Type} {block : Db α}
    (hb : Ends (fun _ => Loose T H L) (fun _ => Loose T H L) (block c)) :
    Ends (fun _ => Inv T H strict L) (fun _ => Inv T H strict L) (writing .unknown false block c) := by
  rw [writing_run]
  rcases hm : block c with ⟨e | a, c'⟩ <;> rw [hm] at hb
  · exact Unsure.forget (Loose.unsure hb)
  obtain ⟨c'', hr, -, hi⟩ := Loose.recorded strict hb .unknown
  simp only [hr]
  exact hi fun _ => ⟨describes_unknown _, describes_unknown _⟩

end RlsTenants
