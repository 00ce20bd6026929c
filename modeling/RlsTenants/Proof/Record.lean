import RlsTenants.Spec.Guard
import RlsTenants.Proof.Messages

/-!
# What a record says about its session

`Matches` relates a record to the session in the server: what the record holds, where
it is trusted (`T`), is what the session holds. In a transaction (`Tracks`) this covers
what the transaction may still be undone to: its start, its savepoints, and the
session's own values under the local ones. `H` are names of savepoints that may have
been set unseen, and `ok` is false while Django has marked the transaction for
rollback, when nothing runs before it is undone.

Every way the session can change has a lemma that says what keeps `Matches`:
`Matches.fresh` (a transaction starts), `Tracks.write` and `Matches.written` (the GUCs
are written), `Tracks.savepoint`, `Tracks.release`, `Tracks.rollbackTo`, and
`Tracks.committed`, `Tracks.rolledBack`, `Tracks.ended_unseen` (it ends).
-/

namespace RlsTenants

open Txn

variable {T : Option ContextGucs → Prop} {H : Name → Prop} {ok : Bool}

/-- A tracked value, if known and trusted, is what the GUCs hold. -/
def Describes (T : Option ContextGucs → Prop) (v : Tracked) (g : ContextGucs) : Prop :=
  ∀ o, v = .known o → T o → g = valuesOf o

/-- A tracked value describes a level of the transaction: what statements see, and what
a commit keeps unless there may be local values on top. -/
structure Good (T : Option ContextGucs → Prop) (wroteLocal : Bool) (v : Tracked) (l : Level Visible) :
    Prop where
  current : Describes T v l.current.gucs
  session : wroteLocal = false → Describes T v l.session.gucs

/-- The record of an open transaction. -/
structure Tracks (T : Option ContextGucs → Prop) (H : Name → Prop) (ok : Bool) (t : SessionGUCs)
    (o : Open Name Visible) : Prop where
  inside : t.inTransaction = true
  base : Describes T t.base o.start.gucs
  session : t.wroteSession = false → Describes T t.base o.level.session.gucs ∧
    ∀ e ∈ o.savepoints, Describes T t.base e.2.session.gucs
  current : ok = true → o.failed = false → Good T t.wroteLocal t.values o.level
  savepoints : Follows H (Good T t.wroteLocal) t.savepoints o.savepoints

/-- A record, once brought up to date with the transaction status, describes the session. -/
def Matches (T : Option ContextGucs → Prop) (H : Name → Prop) (ok : Bool) (t : SessionGUCs) :
    Backend → Prop
  | .idle v => Describes T (t.syncTransaction .idle).values v.gucs
  | .inTx o => Tracks T H ok (t.syncTransaction .inTransaction) o

/-! ## Trusted values -/

@[simp] theorem describes_unknown (g : ContextGucs) : Describes T .unknown g := by
  intro o h; simp at h

theorem describes_known (o : Option ContextGucs) : Describes T (.known o) (valuesOf o) := by
  intro o' h _
  rw [Tracked.known.inj h]

@[simp] theorem good_unknown (wl : Bool) (l : Level Visible) : Good T wl .unknown l :=
  ⟨describes_unknown _, fun _ => describes_unknown _⟩

theorem Good.mono {wl wl' : Bool} {v : Tracked} {l : Level Visible} (h : Good T wl v l)
    (hw : wl' = false → wl = false) : Good T wl' v l := ⟨h.current, fun h' => h.session (hw h')⟩

/-! ## The record's own operations -/

section Operations

variable (t : SessionGUCs)

@[simp] theorem sync_inTransaction_idle : (t.syncTransaction .idle).inTransaction = false := by
  simp only [SessionGUCs.syncTransaction, if_true]
  split
  · simp [SessionGUCs.endTransaction, *]
  · simp_all

theorem sync_of_ne {st : Status} (h : st ≠ .idle) :
    t.syncTransaction st = t.syncTransaction .inTransaction := by
  simp [SessionGUCs.syncTransaction, h]

@[simp] theorem sync_inTransaction : (t.syncTransaction .inTransaction).inTransaction = true := by
  simp only [SessionGUCs.syncTransaction, reduceCtorEq, if_false]
  split
  · assumption
  · rfl

/-- A record that knows of the transaction is up to date in it. -/
theorem sync_inside (h : t.inTransaction = true) : t.syncTransaction .inTransaction = t := by
  simp [SessionGUCs.syncTransaction, h]

theorem sync_outside (h : t.inTransaction = false) : t.syncTransaction .idle = t := by
  simp [SessionGUCs.syncTransaction, h]

/-- The record of a transaction that has just been seen to start. -/
theorem sync_fresh (h : t.inTransaction = false) : t.syncTransaction .inTransaction =
    ⟨t.raw, t.values, true, t.values, false, false, false, []⟩ := by
  simp [SessionGUCs.syncTransaction, h]

@[simp] theorem sync_raw (st : Status) : (t.syncTransaction st).raw = t.raw := by
  simp only [SessionGUCs.syncTransaction]
  split
  · split
    · simp [SessionGUCs.endTransaction, *]
    · rfl
  · split <;> rfl

theorem setValues_outside (h : t.inTransaction = false) (v : Tracked) (l : Bool) :
    t.setValues v l = { t with values := v } := by
  obtain ⟨raw, values, i, base, changed, wl, ws, savepoints⟩ := t
  obtain rfl : i = false := h
  by_cases hv : v = values <;> simp [SessionGUCs.setValues, hv]

theorem setValues_inside (h : t.inTransaction = true) (v : Tracked) (l : Bool) : t.setValues v l =
    { t with
      values := v
      wroteLocal := t.wroteLocal || l
      wroteSession := t.wroteSession || !l
      changed := t.changed || decide (v ≠ t.values) } := by
  by_cases hv : v = t.values
  · subst hv; cases l <;> simp [SessionGUCs.setValues, h]
  · cases l <;> simp [SessionGUCs.setValues, h, hv]

@[simp] theorem setValues_values (v : Tracked) (l : Bool) : (t.setValues v l).values = v := by
  rcases h : t.inTransaction
  · rw [setValues_outside t h]
  · rw [setValues_inside t h]

@[simp] theorem setValues_raw (v : Tracked) (l : Bool) : (t.setValues v l).raw = t.raw := by
  rcases h : t.inTransaction
  · rw [setValues_outside t h]
  · rw [setValues_inside t h]

@[simp] theorem setValues_inTransaction (v : Tracked) (l : Bool) :
    (t.setValues v l).inTransaction = t.inTransaction := by
  rcases h : t.inTransaction
  · rw [setValues_outside t h]; exact h
  · rw [setValues_inside t h]; exact h

@[simp] theorem endTransaction_inTransaction (c : Option Bool) :
    (t.endTransaction c).inTransaction = false := by
  rcases h : t.inTransaction <;> simp [SessionGUCs.endTransaction, h]

@[simp] theorem endTransaction_raw (c : Option Bool) : (t.endTransaction c).raw = t.raw := by
  simp only [SessionGUCs.endTransaction]
  split <;> rfl

theorem endTransaction_values (h : t.inTransaction = true) (c : Option Bool) :
    (t.endTransaction c).values = t.valuesAfter c := by
  simp [SessionGUCs.endTransaction, h]

@[simp] theorem forget_raw : t.forget.raw = t.raw := setValues_raw t _ _
@[simp] theorem forget_values : t.forget.values = .unknown := setValues_values t _ _

theorem sync_idle_values : (t.syncTransaction .idle).values =
    if t.inTransaction then t.valuesAfter none else t.values := by
  simp only [SessionGUCs.syncTransaction, if_true]
  split
  · rw [endTransaction_values t ‹_›]
  · rfl

end Operations

/-! ## Ends of transactions -/

section Ends

variable {t : SessionGUCs} {o : Open Name Visible}

/-- What the record holds after a rollback describes where the session went back to. -/
theorem Tracks.rolledBack (h : Tracks T H ok t o) :
    Describes T (t.endTransaction (some false)).values o.start.gucs := by
  rw [endTransaction_values t h.inside]
  simp only [SessionGUCs.valuesAfter, true_or, if_true]
  exact h.base

/-- What the record holds after a commit describes what the transaction left. -/
theorem Tracks.committed (h : Tracks T H true t o) (hf : o.failed = false) :
    Describes T (t.endTransaction (some true)).values o.level.session.gucs := by
  rw [endTransaction_values t h.inside]
  simp only [SessionGUCs.valuesAfter, Option.some.injEq, Bool.true_eq_false, false_or, reduceCtorEq,
    false_and, or_false]
  split
  · exact (h.session ‹_›).1
  · split
    · exact describes_unknown _
    · exact (h.current rfl hf).session (Bool.eq_false_iff.2 ‹_›)

/-- An end that nobody saw: both outcomes are described. -/
theorem Tracks.ended_unseen (h : Tracks T H ok t o) :
    Describes T (t.valuesAfter none) o.start.gucs ∧
      (ok = true → o.failed = false → Describes T (t.valuesAfter none) o.level.session.gucs) := by
  simp only [SessionGUCs.valuesAfter, reduceCtorEq, false_or, true_and]
  split
  · exact ⟨h.base, fun _ _ => (h.session ‹_›).1⟩
  · split
    · exact ⟨describes_unknown _, fun _ _ => describes_unknown _⟩
    · rename_i hw
      simp only [ne_eq, not_or, Bool.not_eq_true, Decidable.not_not] at hw
      exact ⟨hw.2 ▸ h.base, fun hok hf => (h.current hok hf).session hw.1⟩

theorem Tracks.matches (h : Tracks T H ok t o) : Matches T H ok t (.inTx o) := by
  show Tracks T H ok (t.syncTransaction .inTransaction) o
  rw [sync_inside t h.inside]; exact h

theorem matches_idle_of_values {v : Visible} (ht : t.inTransaction = false)
    (h : Describes T t.values v.gucs) : Matches T H ok t (.idle v) := by
  show Describes T (t.syncTransaction .idle).values _
  rw [sync_outside t ht]; exact h

end Ends

/-! ## What happens in a transaction -/

section Inside

variable {t : SessionGUCs} {o o' : Open Name Visible} {v : Visible} {n : Name}

/-- A transaction starts. -/
theorem Matches.fresh (h : Matches T H ok t (.idle v)) (ht : t.inTransaction = false) :
    Matches T H ok t (.inTx (.fresh v)) := by
  have hv : Describes T t.values v.gucs := by
    have : Describes T (t.syncTransaction .idle).values v.gucs := h
    rwa [sync_outside t ht] at this
  show Tracks T H ok (t.syncTransaction .inTransaction) _
  rw [sync_fresh t ht]
  exact ⟨rfl, hv, fun _ => ⟨hv, by simp⟩, fun _ _ => ⟨hv, fun _ => hv⟩, .nil⟩

/-- The transaction fails. -/
theorem Tracks.fail (h : Tracks T H ok t o) : Tracks T H ok t { o with failed := true } :=
  ⟨h.inside, h.base, h.session, by simp, h.savepoints⟩

/-- Rows are written, or nothing: the GUCs stay as they are. -/
theorem Tracks.rows (h : Tracks T H ok t o) {l : Level Visible}
    (hs : l.session.gucs = o.level.session.gucs) (hc : l.current.gucs = o.level.current.gucs) :
    Tracks T H ok t { o with level := l } :=
  ⟨h.inside, h.base, fun hw => ⟨by rw [hs]; exact (h.session hw).1, (h.session hw).2⟩,
    fun hok hf => ⟨by rw [hc]; exact (h.current hok hf).current,
      fun hw => by rw [hs]; exact (h.current hok hf).session hw⟩,
    h.savepoints⟩

/-- The GUCs are left at `values`, written at one of the two scopes: the record of it. -/
theorem Tracks.write (h : Tracks T H ok t o) {values : Tracked} {isLocal : Bool} {l : Level Visible}
    (hc : Describes T values l.current.gucs)
    (hs : isLocal = false → Describes T values l.session.gucs)
    (hl : isLocal = true → l.session.gucs = o.level.session.gucs) {ok' : Bool} :
    Tracks T H ok' (t.setValues values isLocal) { o with level := l } := by
  rw [setValues_inside t h.inside]
  have hwl : ∀ {v : Tracked} {l : Level Visible}, Good T t.wroteLocal v l →
      Good T (t.wroteLocal || isLocal) v l := fun hg => hg.mono fun hw => by
    rw [Bool.or_eq_false_iff] at hw; exact hw.1
  refine ⟨h.inside, h.base, fun hw => ?_, fun _ _ => ⟨hc, fun hw => ?_⟩,
    h.savepoints.mono fun b e he hg => hwl hg⟩
  · simp only [Bool.or_eq_false_iff, Bool.not_eq_false'] at hw
    refine ⟨?_, (h.session hw.1).2⟩
    rw [hl hw.2]; exact (h.session hw.1).1
  · simp only [Bool.or_eq_false_iff] at hw
    exact hs hw.2

/-- Nothing is known of the values any more, whatever happened to the level. -/
theorem Tracks.forget (h : Tracks T H ok t o) (l : Level Visible) {ok' failed' : Bool} :
    Tracks T H ok' t.forget { o with level := l, failed := failed' } := by
  have : Tracks T H ok' (t.setValues .unknown false) { o with level := l } :=
    h.write (describes_unknown l.current.gucs) (fun _ => describes_unknown l.session.gucs) (by simp)
  exact ⟨this.inside, this.base, this.session, fun _ _ => by rw [forget_values]; exact good_unknown _ _,
    this.savepoints⟩

theorem Tracks.savepoint (h : Tracks T H true t o) (hf : o.failed = false) (n : Name) :
    Tracks T H ok { t with savepoints := (n, t.values) :: t.savepoints } (o.savepoint n) := by
  have hcur := h.current rfl hf
  refine ⟨h.inside, h.base, fun hw => ⟨(h.session hw).1, fun e he => ?_⟩, fun _ _ => hcur,
    h.savepoints.kept n hcur⟩
  rcases List.mem_cons.1 he with rfl | he
  · exact (h.session hw).1
  · exact (h.session hw).2 e he

theorem Tracks.release (h : Tracks T H ok t o) (hn : ¬H n) (hr : o.release n = some o') :
    Tracks T H ok (t.followSavepointEnd (some n) false) o' := by
  obtain ⟨l, below, hs, rfl⟩ := Open.release_eq_some hr
  obtain ⟨v, below', hs', -, hf⟩ := h.savepoints.seek hn hs
  have hmem := (seek_mem hs).2
  simp only [SessionGUCs.followSavepointEnd, hs', Bool.false_eq_true, if_false]
  exact ⟨h.inside, h.base, fun hw => ⟨(h.session hw).1, fun e he => (h.session hw).2 e (hmem e he)⟩,
    h.current, hf⟩

theorem Tracks.rollbackTo (h : Tracks T H ok t o) (hn : ¬H n) (hr : o.rollbackTo n = some o') {ok' : Bool} :
    Tracks T H ok' (t.followSavepointEnd (some n) true) o' := by
  obtain ⟨l, below, hs, rfl⟩ := Open.rollbackTo_eq_some hr
  obtain ⟨v, below', hs', hg, hf⟩ := h.savepoints.seek hn hs
  obtain ⟨hl, hmem⟩ := seek_mem hs
  simp only [SessionGUCs.followSavepointEnd, hs', if_true]
  refine ⟨h.inside, h.base, fun hw => ⟨(h.session hw).2 _ hl, fun e he => ?_⟩, fun _ _ => hg,
    hf.kept n hg⟩
  rcases List.mem_cons.1 he with rfl | he
  · exact (h.session hw).2 _ hl
  · exact (h.session hw).2 e (hmem e he)

end Inside

/-! ## What keeps a record right -/

section Keeping

variable {t : SessionGUCs} {s s' : Backend} {o : Open Name Visible} {ok' : Bool}

@[simp] theorem forget_inTransaction (t : SessionGUCs) : t.forget.inTransaction = t.inTransaction :=
  setValues_inTransaction t _ _

theorem Tracks.alike (h : Tracks T H ok t o) {l : Level Visible} {f : Bool}
    (hs : l.session.gucs = o.level.session.gucs) (hc : l.current.gucs = o.level.current.gucs)
    (hf : o.failed = true → f = true) : Tracks T H ok t { o with level := l, failed := f } := by
  have h' := h.rows hs hc
  cases f with
  | true => exact h'.fail
  | false =>
    have : o.failed = false := Bool.eq_false_iff.2 fun h => by simpa using hf h
    exact ⟨h'.inside, h'.base, h'.session, fun hok _ => h'.current hok this, h'.savepoints⟩

theorem Matches.alike (h : Matches T H ok t s) (ha : Alike s s') : Matches T H ok t s' := by
  cases ha with
  | idle hg =>
    intro o' ho hT
    rw [hg]; exact h o' ho hT
  | inTx hs hc hf => exact Tracks.alike (o := _) h hs hc hf

/-- Outside a transaction a record that holds nothing is always right. -/
theorem matches_forget_idle (t : SessionGUCs) (v : Visible) : Matches T H ok t.forget (.idle v) := by
  show Describes T (t.forget.syncTransaction .idle).values _
  rw [sync_idle_values, forget_inTransaction]
  cases ht : t.inTransaction with
  | false => simp [forget_values]
  | true => simp [SessionGUCs.forget, setValues_inside t ht, SessionGUCs.valuesAfter]

/-- In a transaction, whatever happened to its level. -/
theorem Matches.forget_inTx (h : Matches T H ok t (.inTx o)) (l : Level Visible) (f : Bool) :
    Matches T H ok' t.forget (.inTx { o with level := l, failed := f }) := by
  have h : Tracks T H ok (t.syncTransaction .inTransaction) o := h
  cases ht : t.inTransaction with
  | true =>
    rw [sync_inside t ht] at h
    exact (h.forget l).matches
  | false =>
    rw [sync_fresh t ht] at h
    show Tracks T H ok' (t.forget.syncTransaction .inTransaction) _
    rw [sync_fresh t.forget (by simpa using ht), forget_values]
    exact ⟨rfl, describes_unknown _, fun _ => ⟨describes_unknown _, fun _ _ => describes_unknown _⟩,
      fun _ _ => good_unknown _ _, h.savepoints.mono fun b e he hg => hg⟩

theorem Matches.forget (h : Matches T H ok t s) : Matches T H ok' t.forget s := by
  cases s with
  | idle v => exact matches_forget_idle t v
  | inTx o => exact h.forget_inTx o.level o.failed

theorem Matches.forget_sameTx (h : Matches T H ok t s) (hs : SameTx s s') : Matches T H ok' t.forget s' := by
  cases hs with
  | idle v v' => exact matches_forget_idle t v'
  | inTx o l f => exact h.forget_inTx l f

/-- A transaction nobody has seen, without savepoints. -/
theorem matches_forget_fresh (ht : t.inTransaction = false) (ho : o.savepoints = []) :
    Matches T H ok t.forget (.inTx o) := by
  show Tracks T H ok (t.forget.syncTransaction .inTransaction) _
  rw [sync_fresh t.forget (by simpa using ht), forget_values]
  exact ⟨rfl, describes_unknown _, fun _ => ⟨describes_unknown _, fun _ _ => describes_unknown _⟩,
    fun _ _ => good_unknown _ _, by rw [ho]; exact .nil⟩

/-- What the transaction holds for the session is left open. -/
theorem Tracks.suspect (hin : t.inTransaction = true) (hb : Describes T t.base o.start.gucs)
    (hc : ok = true → o.failed = false → Describes T t.values o.level.current.gucs)
    (hs : Follows H (Good T true) t.savepoints o.savepoints) :
    Tracks T H ok (t.suspectSession true) o := by
  simp only [SessionGUCs.suspectSession, hin, Bool.and_self, if_true]
  exact ⟨rfl, hb, by simp, fun hok hf => ⟨hc hok hf, by simp⟩, hs⟩

theorem Matches.suspect (h : Matches T H ok t s) (under : Bool) :
    Matches T H ok (t.suspectSession under) s := by
  cases hu : t.inTransaction && under with
  | false =>
    rw [show t.suspectSession under = t.forget by simp [SessionGUCs.suspectSession, hu]]
    exact h.forget
  | true =>
    rw [Bool.and_eq_true] at hu
    obtain ⟨ht, rfl⟩ := hu
    cases s with
    | idle v =>
      show Describes T ((t.suspectSession true).syncTransaction .idle).values _
      simp [sync_idle_values, SessionGUCs.suspectSession, ht, SessionGUCs.valuesAfter]
    | inTx o =>
      have h : Tracks T H ok (t.syncTransaction .inTransaction) o := h
      rw [sync_inside t ht] at h
      exact (Tracks.suspect ht h.base (fun hok hf => (h.current hok hf).current)
        (h.savepoints.mono fun b e he hg => hg.mono (by simp))).matches

end Keeping

end RlsTenants
