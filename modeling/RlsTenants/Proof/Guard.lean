import RlsTenants.Proof.Sound

/-!
# The guard keeps its record right

The invariant `Inv` through the functions of `Spec.Guard`, from the small ones to the
wrapper: `writing_ends`, `ensureConnection_ends` (new sessions), `writeGucs_ends`,
`applyIfStale_ends` (the active context is applied).
-/

namespace RlsTenants

open Txn Effect Comp

variable {T : Option ContextGucs → Prop} {H : Name → Prop} {strict : Bool} {L : Ran → Prop}
variable {c : Connection} {env : Env}

/-! ## Recording -/

theorem record_run (h : Sane L c) (hl : c.link ≠ .closed) (v : Tracked) (isLocal : Bool) :
    record v isLocal c =
      (.ok (), { c with tracker := (c.tracker.syncTransaction c.status).setValues v isLocal }) := by
  simp [record, hl, observe_run h.quiet (h.raw hl) hl, h.guarded]

theorem Inv.forget (h : Inv T H strict L c) : Inv T H strict L { c with tracker := c.tracker.forget } :=
  ⟨h.toSane.track (forget_raw _), fun hl => (h.session hl).forget⟩

theorem Unsure.forget (h : Unsure T H L c) : Inv T H strict L { c with tracker := c.tracker.forget } := by
  refine ⟨h.toSane.track (forget_raw _), fun hl => ?_⟩
  have : Matches T H (strict || !c.needsRollback) c.tracker.forget.forget c.pg := (h.session hl).forget
  simp only [SessionGUCs.forget] at this ⊢
  convert this using 1
  rcases ht : c.tracker.inTransaction
  · rw [setValues_outside _ ht, setValues_outside _ (by simpa using ht)]
  · rw [setValues_inside _ ht, setValues_inside _ (by simpa using ht)]
    simp

theorem writing_run {α : Type} (v : Tracked) (isLocal : Bool) (block : Db α) (c : Connection) :
    writing v isLocal block c = match block c with
      | (.ok a, c') => (match record v isLocal c' with
        | (.ok _, c'') => (.ok a, c'')
        | (.error e, c'') => (.error e, c''))
      | (.error e, c') => (.error e, { c' with tracker := c'.tracker.forget }) := by
  rw [writing, bind_run, attempt_run]
  rcases block c with ⟨e | a, c'⟩
  · rfl
  · simp only [bind_run]
    rcases record v isLocal c' with ⟨e | u, c''⟩ <;> rfl

theorem Inv.unsure (h : Inv T H strict L c) : Unsure T H L c :=
  ⟨h.toSane, fun hl => (h.session hl).forget⟩

/-- A write of the library's own, recorded or forgotten. -/
theorem writing_ends (strict : Bool) {block : Db Unit} {v : Tracked} {isLocal : Bool} {P : Connection → Prop}
    (hb : Ends (fun _ c' => Written T H L v isLocal c' ∧ P c') (fun _ => Unsure T H L) (block c)) :
    Ends (fun _ c' => Stepped T H strict L c' ∧ c'.link = .up ∧ c'.tracker.values = v ∧
        ∃ c'', P c'' ∧ c' = { c'' with
          tracker := (c''.tracker.syncTransaction (statusOf c''.pg)).setValues v isLocal })
      (fun _ => Inv T H strict L) (writing v isLocal block c) := by
  rw [writing_run]
  rcases hm : block c with ⟨e | a, c'⟩ <;> rw [hm] at hb
  · exact Unsure.forget hb
  · obtain ⟨hw, hp⟩ := hb
    have hl : c'.link ≠ .closed := by rw [hw.link]; simp
    simp only [record_run hw.toSane hl, status_up hw.link]
    refine ⟨⟨hw.toSane.track (by simp), fun _ => hw.session.of_true⟩, hw.link, setValues_values _ _ _,
      c', hp, rfl⟩

/-! ## New sessions -/

theorem driverEnd_run {o : Open Name Visible} (hl : c.link = .up) (hp : c.pg = .inTx o) (committed : Bool) :
    driverEnd committed c = send none [if committed then .commit false else .rollback false] c := by
  simp [driverEnd, hl, hp]

/-- Clearing a session that has just been opened: outside autocommit the clear is
committed before it is recorded. -/
theorem clear_ends (env : Env) (h : Inv T H strict L c) {v : Visible} (hl : c.link = .up) (hp : c.pg = .idle v) :
    Ends (fun _ c' => Written T H L (.known none) false c' ∧ True) (fun _ => Unsure T H L)
      ((do
        setGucs env none false
        if !(← reads (·.autocommit)) then driverEnd true) c) := by
  have hset := setGucs_ends env none false h (by simp)
  rw [bind_run]
  rcases hm : setGucs env none false c with ⟨e | u, c'⟩ <;> rw [hm] at hset
  · exact hset
  obtain ⟨hw, htr, -, hau, hpg⟩ := hset
  simp only [bind_run, reads_run]
  cases hauto : c'.autocommit with
  | true => exact ⟨hw, trivial⟩
  | false =>
    simp only [Bool.not_false, if_true]
    have hready : c.ready = .inTx (.fresh v) := by simp [Connection.ready, hp, ← hau, hauto]
    rw [hready] at hpg
    have hin : c'.tracker.inTransaction = false := by
      rw [htr]
      show (if c.link = .closed then c.tracker else c.tracker.syncTransaction c.status).inTransaction = _
      rw [if_neg (by simp [hl]), status_up hl, hp]
      exact sync_inTransaction_idle _
    have hrun := driverEnd_run hw.link hpg true
    simp only [Bool.false_eq_true, if_false, if_true, State.write] at hpg hrun
    rw [hrun]
    have hready' : c'.ready = c'.pg := by simp [Connection.ready, hpg]
    refine send_sane hw.toSane (fun _ reach g hg => by rw [sightings_one (by simp)] at hg; simp at hg)
      (fun hl _ hs => ⟨⟨hs, hl, ?_⟩, trivial⟩) (fun hl e reach _ hs => ⟨hs, fun _ => ?_⟩)
      (fun e c'' hs hl => .of_down hs hl)
    · show InStep T H true ((c'.tracker.syncTransaction (statusOf (runMessage _ _).1)).setValues _ _)
        (runMessage _ _).1
      rw [run_commit, hready', hpg]
      refine ⟨by simp [State.commit, statusOf], ?_⟩
      rw [setValues_values]
      exact describes_known none
    · cases reach with
      | notRun =>
        show Matches T H true c'.tracker.forget c'.pg
        rw [hpg]
        exact matches_forget_fresh hin rfl
      | failed => exact matches_forget_idle _ _
      | run =>
        show Matches T H true c'.tracker.forget (runMessage _ _).1
        rw [run_commit, hready', hpg]
        exact matches_forget_idle _ _

/-- The connection after `close`. -/
def Connection.shut (c : Connection) : Connection :=
  if c.link = .closed then c
  else if c.inAtomicBlock then { c with link := .broken, needsRollback := true, pg := c.pg.rollback }
  else { c with link := .closed, pg := c.pg.rollback }

theorem shut_link (c : Connection) : c.shut.link ≠ .up := by
  unfold Connection.shut
  split
  · simp [*]
  · split <;> simp

theorem Sane.shut (h : Sane L c) : Sane L c.shut := by
  unfold Connection.shut
  split
  · exact h
  rename_i hl
  split
  · exact ⟨h.quiet, fun _ => h.raw hl, h.guarded, h.log⟩
  · exact ⟨h.quiet, fun _ => h.raw hl, h.guarded, h.log⟩

theorem close_run (h : c.faults = []) : close c = (.ok (), c.shut) := by
  unfold close Connection.shut
  by_cases hl : c.link = .closed
  · simp [hl]
  · simp only [bind_run, reads_run, ne_eq, hl, not_false_eq_true, if_true, modify_run, if_false]
    exact mayRaise_run (by split <;> exact h)

theorem clearNewConnectionGucs_ends (h : Inv T H strict L c) {v : Visible} (hl : c.link = .up)
    (hp : c.pg = .idle v) (pooled : Bool) :
    Ends (fun _ => Inv T H strict L) (fun _ => Inv T H strict L) (clearNewConnectionGucs env pooled c) := by
  have hw := (writing_ends strict (clear_ends env h hl hp)).with_inv
    (clear_unclosed env c (by simp [Unclosed, hl]))
  refine Ends.attempt_rule (hw.mono (fun _ _ h => h.1.1.inv) fun _ _ h => h) fun e c' h' => ?_
  obtain ⟨hi, ho⟩ := h'
  cases e.isException with
  | false => exact hi
  | true =>
    cases pooled with
    | false => exact hi
    | true =>
      have hs : Sane L { c' with link := .broken, pg := c'.pg.rollback } :=
        ⟨hi.quiet, fun _ => hi.raw ho, hi.guarded, hi.log⟩
      simp only [Bool.not_true, Bool.false_eq_true, if_false, if_true, bind_run, modify_run, attempt_run,
        close_run hs.quiet, raise_run]
      exact .of_down hs.shut (shut_link _)

theorem applyRequestGucs_ends (h : Inv T H strict L c) :
    Ends (fun _ => Inv T H strict L) (fun _ => Inv T H strict L) (applyRequestGucs env c) := by
  unfold applyRequestGucs
  cases env.context with
  | none => exact h
  | some g =>
    have hw := writing_ends strict (P := fun _ => True)
      ((setGucs_ends env (some g) false h (by simp)).mono
        (fun _ _ h => ⟨h.1, trivial⟩) fun _ _ h => h)
    refine Ends.attempt_rule (hw.mono (fun _ _ h => h.1.inv) fun _ _ h => h) fun e c' hi => ?_
    cases e.isException <;> exact hi

theorem prepareNewConnection_ends {new : NewSession} {rows : List ℕ} (hq : c.faults = [])
    (hg : c.guarded = true) (hlog : ∀ r ∈ c.ran, L r) (hl : c.link = .up)
    (hp : c.pg = .idle ⟨valuesOf new.found, rows⟩) :
    Ends (fun _ => Inv T H strict L) (fun _ => Inv T H strict L) (prepareNewConnection env new c) := by
  have hi : ∀ t : SessionGUCs, Inv T H strict L
      { c with tracker := t.attach c.raw (if new.found.isSome then .unknown else .known none) } := by
    refine fun t => ⟨⟨hq, fun _ => rfl, hg, hlog⟩, fun _ => ?_⟩
    show Matches T H _ _ c.pg
    rw [hp]
    refine matches_idle_of_values rfl ?_
    cases new.found with
    | none => exact describes_known none
    | some g => exact describes_unknown _
  have hclear : ∀ pooled, Ends (fun _ => Inv T H strict L) (fun _ => Inv T H strict L)
      (clearNewConnectionGucs env pooled _) :=
    fun pooled => clearNewConnectionGucs_ends (hi c.tracker) hl hp pooled
  have hthread : ∀ c', Inv T H strict L c' → Ends (fun _ => Inv T H strict L) (fun _ => Inv T H strict L)
      ((if new.requestThread = some true ∧ (!env.conf.useLocalSet) = true then applyRequestGucs env
        else pure ()) c') := by
    intro c' h
    split
    · exact applyRequestGucs_ends h
    · exact h
  simp only [prepareNewConnection, bind_run, modify_run, reads_run]
  rw [if_pos hg]
  by_cases hthr : new.requestThread = some false
  · rw [if_pos hthr]
    exact hclear _
  · rw [if_neg hthr]
    by_cases hf : new.found.isSome = true
    · rw [if_pos hf]
      exact Ends.bind_rule (hclear true) fun _ c' h => hthread c' h
    · rw [if_neg hf]
      exact hthread _ (hi c.tracker)

/-- **A new session is recorded as it is.** -/
theorem ensureConnection_ends (env : Env) (h : Inv T H strict L c) :
    Ends (fun _ c' => Inv T H strict L c' ∧ Unclosed c') (fun _ => Inv T H strict L) (ensureConnection env c) := by
  refine (Ends.and ?_ (ensureConnection_unclosed c)).mono (fun _ _ h => h) fun _ _ h => h.1
  by_cases hl : c.link = .closed
  · simp only [ensureConnection, bind_run, reads_run, hl, if_true, mayRaise_run h.quiet, modify_run]
    exact prepareNewConnection_ends h.quiet h.guarded h.log rfl rfl
  · rw [ensureConnection_open hl]
    exact h

/-! ## Applying the active context -/

theorem willRun_ready (hl : c.link = .up) (h : willRunInTransaction c c.status = true) :
    ∃ o, c.ready = .inTx o := by
  unfold Connection.ready
  rw [status_up hl] at h
  cases hp : c.pg with
  | idle v =>
    rw [hp] at h
    have : c.autocommit = false := by simpa [willRunInTransaction, statusOf] using h
    exact ⟨.fresh v, by simp [this]⟩
  | inTx o => exact ⟨o, rfl⟩

/-- The connection is brought to the values, and the record says so. -/
structure AtValues (T : Option ContextGucs → Prop) (H : Name → Prop) (strict : Bool) (L : Ran → Prop)
    (values : Option ContextGucs) (c : Connection) : Prop extends Stepped T H strict L c where
  link : c.link = .up
  values : c.tracker.values = .known values
  healthy : c.pg.isFailed = false

theorem wrote_isFailed (s : Backend) (f : Visible → Visible) (isLocal : Bool) :
    (if isLocal then s.writeLocal f else s.write f).isFailed = s.isFailed := by
  cases s <;> cases isLocal <;> rfl

/-- **Both GUCs are written, or the record holds nothing.** -/
theorem writeGucs_ends (env : Env) (h : Inv T H strict L c) (values : Option ContextGucs) (isLocal : Bool) :
    Ends (fun _ => AtValues T H strict L values) (fun _ => Inv T H strict L)
      (writeGucs env values isLocal c) := by
  have hw : ∀ c, Inv T H strict L c →
      (isLocal = true → Unclosed c ∧ (c.link = .up → ∃ o, c.ready = .inTx o)) →
      Ends (fun _ => AtValues T H strict L values) (fun _ => Inv T H strict L)
        (writing (.known values) isLocal (do
          ensureConnection env
          setGucs env values isLocal) c) := by
    intro c h hin
    refine (writing_ends strict (P := fun c' => c'.pg.isFailed = false) ?_).mono (fun _ c' h => ?_) fun _ _ h => h
    · have hset : ∀ c, Inv T H strict L c → (isLocal = true → c.link = .up → ∃ o, c.ready = .inTx o) →
          Ends (fun _ c' => Written T H L (.known values) isLocal c' ∧ c'.pg.isFailed = false)
            (fun _ => Unsure T H L) (setGucs env values isLocal c) := by
        intro c h hin
        refine (setGucs_ends env values isLocal h hin).mono (fun _ _ h => ⟨h.1, ?_⟩) fun _ _ h => h
        rw [h.2.2.2.2, wrote_isFailed]
        exact h.2.2.1
      cases isLocal with
      | false =>
        refine Ends.bind_rule ((ensureConnection_ends env h).mono (fun _ _ h => h.1) fun _ _ h => h.unsure)
          fun _ c' h => ?_
        exact hset c' h (by simp)
      | true =>
        obtain ⟨ho, hin⟩ := hin rfl
        rw [bind_run, ensureConnection_open ho]
        exact hset c h fun _ => hin
    · obtain ⟨hst, hl, hv, c'', hf, rfl⟩ := h
      exact ⟨hst, hl, hv, hf⟩
  unfold writeGucs
  cases isLocal with
  | false => exact hw c h (by simp)
  | true =>
    simp only [if_true]
    refine Ends.bind_rule (ensureConnection_ends env h) fun _ c' h' => ?_
    obtain ⟨h, ho⟩ := h'
    simp only [bind_run, readStatus_run h.quiet, reads_run]
    cases hr : willRunInTransaction c' c'.status with
    | false => exact h.raised _
    | true => exact hw c' h fun _ => ⟨ho, fun hl => willRun_ready hl hr⟩

/-- A local write in a transaction: the record, too, is as it was but for it. -/
theorem writeGucs_local_ends (env : Env) {o : Open Name Visible} (h : Stepped T H strict L c) (hl : c.link = .up)
    (hp : c.pg = .inTx o) (values : Option ContextGucs) :
    Ends (fun _ c' => AtValues T H strict L values c' ∧ (∃ o', c'.pg = .inTx o') ∧
        c'.tracker = c.tracker.setValues (.known values) true)
      (fun _ c' => Inv T H strict L c' ∧ InsideTx c') (writeGucs env values true c) := by
  have hopen : c.link ≠ .closed := by simp [hl]
  have hstatus : c.status ≠ .idle := by rw [status_up hl, hp]; exact statusOf_ne_idle o
  have hready : c.ready = .inTx o := by simp [Connection.ready, hp]
  have hsync : ∀ o', c.tracker.syncTransaction (statusOf (.inTx o')) = c.tracker := by
    intro o'
    have hin := h.session hl
    rw [hp] at hin
    rw [sync_of_ne _ (statusOf_ne_idle o'), sync_inside _ hin.inside]
  have hobs : c.observed.tracker = c.tracker := by
    show (if c.link = .closed then c.tracker else c.tracker.syncTransaction c.status) = _
    rw [if_neg hopen, status_up hl, hp, hsync]
  have hrun : writeGucs env values true c = writing (.known values) true (setGucs env values true) c := by
    have hwill : willRunInTransaction c c.status = true := by simp [willRunInTransaction, hstatus]
    simp only [writeGucs, if_true, bind_run, ensureConnection_open hopen, readStatus_run h.quiet, reads_run,
      hwill, Bool.not_true, Bool.false_eq_true, if_false, writing_run]
  have hw := writing_ends strict (P := fun c' => c'.tracker = c.tracker ∧
      c.ready.isFailed = false ∧ c'.pg = c.ready.writeLocal (Visible.setGucs fun _ => valuesOf values))
    ((setGucs_ends env values true h.inv fun _ _ => ⟨o, hready⟩).mono
      (fun _ _ h => ⟨h.1, h.2.1.trans hobs, h.2.2.1, h.2.2.2.2⟩) fun _ _ h => h)
  have hset : Keeps InsideTx (setGucs env values true) :=
    insideTx_passive.setGucs (send_insideTx (writes_stays (c := .setGucs _ _) trivial) _)
  have hin := insideTx_passive.writing hset (.known values) true c
    ⟨hopen, fun _ => ⟨o, hp⟩⟩
  rw [hrun]
  refine (hw.with_inv hin).mono (fun _ c' h => ?_) fun _ _ h => h
  obtain ⟨⟨hst, hl', hv, c'', ⟨ht, hf, hpg⟩, rfl⟩, hin'⟩ := h
  obtain ⟨o', ho'⟩ := hin'.2 hl'
  have ho' : c''.pg = .inTx o' := ho'
  refine ⟨⟨hst, hl', hv, ?_⟩, ⟨o', ho'⟩, ?_⟩
  · show c''.pg.isFailed = false
    rw [hpg, hready]
    rw [hready] at hf
    exact hf
  · show (c''.tracker.syncTransaction (statusOf c''.pg)).setValues _ _ = _
    rw [ht, ho', hsync]

/-- The statement has to bring its own transaction. -/
def LocalOutside (env : Env) (c : Connection) : Prop :=
  env.context.isSome = true ∧ env.conf.useLocalSet = true ∧ willRunInTransaction c c.status = false

/-- **The active context is applied** wherever a statement can run: the record says so,
unless the values would have to be local outside a transaction. -/
theorem applyIfStale_ends (h : Inv T H strict L c) :
    Ends (fun st c' => st = c.status ∧ Stepped T H strict L c' ∧
        (c' = c.observed ∧ (c.link = .up → c.needsRollback = false → c.pg.isFailed = false →
            c'.tracker.values = .known env.context ∨ LocalOutside env c) ∨
          AtValues T H strict L env.context c' ∧ c'.autocommit = c.autocommit ∧ ¬LocalOutside env c))
      (fun _ => Inv T H strict L) (applyIfStale env c) := by
  simp only [applyIfStale, bind_run, observe_sane h.toSane, reads_run, id]
  by_cases hv : c.observed.tracker.values = .known env.context
  · rw [if_pos hv]
    exact ⟨rfl, h.observed, .inl ⟨rfl, fun _ _ _ => .inl hv⟩⟩
  rw [if_neg hv]
  by_cases hst : c.status = .inError ∨ c.status = .bad ∨ c.observed.needsRollback
  · rw [if_pos hst]
    refine ⟨rfl, h.observed, .inl ⟨rfl, fun hl hn hf => absurd hst ?_⟩⟩
    have hn : c.observed.needsRollback = false := hn
    rw [status_up hl, hn]
    cases hp : c.pg with
    | idle v => simp [statusOf]
    | inTx o =>
      rw [hp] at hf
      have hf : o.failed = false := hf
      simp [statusOf, hf]
  rw [if_neg hst, if_neg (show ¬(!c.observed.guarded) = true by simp [Connection.observed, h.guarded])]
  have hopen : c.link ≠ .closed := by
    intro hc
    exact hst (.inr (.inl (by simp [Connection.status, hc])))
  by_cases hout : (env.context.isSome && env.conf.useLocalSet && !willRunInTransaction c.observed c.status) = true
  · rw [if_pos hout]
    simp only [Bool.and_eq_true, Bool.not_eq_true'] at hout
    exact ⟨rfl, h.observed, .inl ⟨rfl, fun _ _ _ => .inr ⟨hout.1.1, hout.1.2, hout.2⟩⟩⟩
  · rw [if_neg hout]
    have hw := (writeGucs_ends env h.observed.inv env.context
      (env.context.isSome && env.conf.useLocalSet)).with_inv
      ((autocommit_passive c.autocommit).writeGucs (ensureConnection_keeps fun _ h => h.1) (send_autocommit _ _ _) c.observed
        ⟨hopen, rfl⟩)
    refine Ends.bind_rule (hw.mono (fun _ _ h => h) fun _ _ h => h.1) fun _ c' h' => ?_
    obtain ⟨hi, ha⟩ := h'
    refine ⟨rfl, hi.toStepped, .inr ⟨hi, ha.2, fun hlo => hout ?_⟩⟩
    obtain ⟨h1, h2, h3⟩ := hlo
    simp only [Bool.and_eq_true, Bool.not_eq_true']
    exact ⟨⟨h1, h2⟩, h3⟩

/-! ## Statements on rows -/

section Statements

variable {sql : Sql} {cs : List Command}

/-- Commands on rows run under the session's values, in a transaction that is healthy. -/
theorem sightings_neutral (hcs : ∀ cmd ∈ cs, cmd.Neutral) (reach : Reach) :
    ∀ g ∈ c.sightings cs reach,
      c.ready.isFailed = false ∧ g = c.ready.current.gucs ∧ ∃ id, .rows id ∈ cs := by
  cases reach with
  | notRun => simp [Connection.sightings]
  | failed => exact (neutral_refuseMessage hcs c.ready).2
  | run => exact (neutral_runMessage hcs c.ready).2.2

theorem Stepped.reached_neutral (h : Stepped T H strict L c) (hl : c.link = .up)
    (hcs : ∀ cmd ∈ cs, cmd.Neutral) (reach : Reach) :
    Matches T H (strict || !c.needsRollback) c.tracker (c.reached cs reach) := by
  cases reach with
  | notRun => exact (h.session hl).matches
  | failed =>
    simp only [Connection.reached, (neutral_refuseMessage hcs c.ready).1]
    exact (h.session hl).ready.alike (.fail _)
  | run => exact (h.session hl).ready.alike (neutral_runMessage hcs c.ready).1

/-- A statement on rows keeps the record right. -/
theorem execute_neutral_ends (env : Env) (h : Stepped T H strict L c) (hcs : ∀ cmd ∈ cs, cmd.Neutral)
    (hlog : c.link = .up → c.needsRollback = false → c.ready.isFailed = false → (∃ id, .rows id ∈ cs) →
      L ⟨env.context, c.ready.current.gucs⟩) :
    Ends (fun _ c' => Inv T H strict L c' ∧ c'.tracker = c.tracker ∧ c'.link = .up ∧
        c'.needsRollback = false ∧ Alike c.ready c'.pg ∧ c'.pg.isFailed = c.ready.isFailed)
      (fun _ => Inv T H strict L) (execute env.context cs c) := by
  refine execute_sane h.toSane (fun hl hn reach g hg => ?_) (fun hl hn hr hs => ?_)
    (fun hl _ e reach _ hs => ⟨hs, fun _ => h.reached_neutral hl hcs reach⟩) (fun _ _ hs hl => .of_down hs hl)
    (fun _ es _ => h.inv.raised es)
  · obtain ⟨hf, rfl, hrows⟩ := sightings_neutral hcs reach g hg
    exact hlog hl hn hf hrows
  · have hrun := neutral_runMessage hcs c.ready
    exact ⟨⟨hs, fun _ => h.reached_neutral hl hcs .run⟩, rfl, hl, hn, hrun.1, hrun.2.1 hr⟩

/-- What a statement sees is what the record says, where a statement can run. -/
theorem Stepped.current (h : Stepped T H strict L c) (hl : c.link = .up) (hn : c.needsRollback = false)
    (hf : c.ready.isFailed = false) : Describes T c.tracker.values c.ready.current.gucs := by
  have hin := h.session hl
  unfold Connection.ready at hf ⊢
  cases hp : c.pg with
  | idle v =>
    rw [hp] at hin
    dsimp only
    split <;> exact hin.2
  | inTx o =>
    rw [hp] at hin hf
    exact (hin.current (by simp [hn]) hf).current

end Statements

/-! ## A transaction of its own -/

/-- Once the transaction is undone, what the record keeps of its start is right. -/
def Undoable (T : Option ContextGucs → Prop) (c : Connection) : Prop :=
  c.link = .up → Describes T (c.tracker.endTransaction (some false)).values c.pg.durable.gucs

theorem endTransaction_outside {t : SessionGUCs} (h : t.inTransaction = false) (b : Option Bool) :
    (t.endTransaction b).values = t.values := by
  simp [SessionGUCs.endTransaction, h]

theorem status_idle (h : c.status = .idle) : c.link = .up ∧ ∃ v, c.pg = .idle v := by
  unfold Connection.status at h
  split at h
  · split at h
    · exact ⟨‹_›, _, ‹_›⟩
    · split at h <;> simp at h
  · simp at h
  · simp at h

theorem Inv.undoable (h : Inv T H strict L c) (hin : InsideTx c) : Undoable T c := by
  intro hl
  obtain ⟨o, ho⟩ := hin.2 hl
  have hm := h.session hl
  rw [ho] at hm ⊢
  have hm : Tracks T H _ (c.tracker.syncTransaction .inTransaction) o := hm
  cases ht : c.tracker.inTransaction with
  | true =>
    rw [sync_inside _ ht] at hm
    exact hm.rolledBack
  | false =>
    have hb := hm.base
    rw [sync_fresh _ ht] at hb
    rw [endTransaction_outside ht]
    exact hb

theorem leaveOwnTransaction_false (h : Sane L c) :
    Ends (fun _ => Inv T H strict L) (fun _ => Inv T H strict L) (leaveOwnTransaction false c) := by
  have hs : Sane L { c with tracker := c.tracker.forget } := h.track (forget_raw _)
  simp only [leaveOwnTransaction, Bool.false_eq_true, if_false, RlsTenants.forget, bind_run, modify_run,
    attempt_run, close_run hs.quiet]
  exact .of_down hs.shut (shut_link _)

theorem rollBackOwnTransaction_ends (h : Sane L c) (hu : Undoable T c) :
    Ends (fun ended c' => Sane L c' ∧ (ended = true →
        ∃ v, c'.pg = .idle v ∧ Describes T (c'.tracker.endTransaction (some false)).values v.gucs))
      (fun _ => Sane L) (rollBackOwnTransaction c) := by
  simp only [rollBackOwnTransaction, bind_run, readStatus_run h.quiet]
  by_cases hi : c.status = .idle
  · simp only [hi, ne_eq, not_true_eq_false, if_false, bind_run, readStatus_run h.quiet]
    obtain ⟨hl, v, hv⟩ := status_idle hi
    refine ⟨h, fun _ => ⟨v, hv, ?_⟩⟩
    have := hu hl
    rwa [hv] at this
  · simp only [ne_eq, hi, not_false_eq_true, if_true]
    refine Ends.bind_rule (Q := fun _ c' => Sane L c' ∧
      ∃ v, c'.pg = .idle v ∧ Describes T (c'.tracker.endTransaction (some false)).values v.gucs) ?_
      fun _ c' h' => ?_
    · refine send_sane h (fun hl reach g hg => ?_) (fun hl _ hs => ⟨hs, ?_⟩) (fun _ _ _ _ hs => hs)
        (fun _ _ hs _ => hs)
      · rw [sightings_one (by simp)] at hg
        simp at hg
      · have hd := hu hl
        have hready : c.ready.durable = c.pg.durable := by
          unfold Connection.ready
          cases c.pg with
          | idle v => dsimp only; split <;> rfl
          | inTx o => rfl
        refine ⟨c.pg.durable, ?_, hd⟩
        show (runMessage _ _).1 = _
        rw [run_rollback, ← hready]
        rfl
    · obtain ⟨hs, v, hv, hd⟩ := h'
      simp only [bind_run, readStatus_run hs.quiet]
      exact ⟨hs, fun _ => ⟨v, hv, hd⟩⟩

/-- **A failure in the guard's own transaction leaves it undone or the connection closed.** -/
theorem abandonOwnTransaction_ends (h : Sane L c) (hu : Undoable T c) :
    Ends (fun _ => Inv T H strict L) (fun _ => Inv T H strict L) (abandonOwnTransaction c) := by
  unfold abandonOwnTransaction
  refine Ends.bind_rule (Q := fun ended c' => Sane L c' ∧ (ended = true →
    ∃ v, c'.pg = .idle v ∧ Describes T (c'.tracker.endTransaction (some false)).values v.gucs)) ?_
    fun ended c' h' => ?_
  · refine Ends.attempt_rule (F := fun _ => Sane L)
      ((rollBackOwnTransaction_ends h hu).attempt_rule fun e c' hs => ?_) fun e c' hs => ?_
    · split
      · exact ⟨hs, by simp⟩
      · exact hs
    · exact (leaveOwnTransaction_false hs).bind_rule fun _ _ h => h
  · obtain ⟨hs, he⟩ := h'
    cases ended with
    | false => exact leaveOwnTransaction_false hs
    | true =>
      obtain ⟨v, hv, hd⟩ := he rfl
      refine ⟨hs.track (endTransaction_raw _ _), fun _ => ?_⟩
      rw [show ({ c' with tracker := c'.tracker.endTransaction (some false) } : Connection).pg = c'.pg from rfl, hv]
      exact matches_idle_of_values (endTransaction_inTransaction _ _) hd

/-- Inside the guard's own transaction: nothing of it is written for the session. -/
structure OwnTx (T : Option ContextGucs → Prop) (H : Name → Prop) (L : Ran → Prop) (c : Connection) :
    Prop extends Sane L c where
  link : c.link = .up
  tracks : ∃ o, c.pg = .inTx o ∧ o.failed = false ∧ Tracks T H true c.tracker o
  wroteSession : c.tracker.wroteSession = false

theorem begin_ends {v : Visible} (h : Stepped T H strict L c) (hl : c.link = .up) (hp : c.pg = .idle v)
    (ha : c.autocommit = true) :
    Ends (fun _ c' => Inv T H strict L c' ∧ c'.link = .up ∧ c'.pg = .inTx (.fresh v) ∧ c'.tracker = c.tracker)
      (fun _ c' => Sane L c' ∧ Undoable T c') (send none [.begin] c) := by
  have hin := h.session hl
  rw [hp] at hin
  obtain ⟨ht, hd⟩ := hin
  have hready : c.ready = .idle v := by simp [Connection.ready, hp, ha]
  have hrun : runMessage [.begin] c.ready = (.inTx (.fresh v), true, []) := by
    rw [hready, run_begin rfl]
    rfl
  refine send_sane h.toSane (fun _ reach g hg => by rw [sightings_one (by simp)] at hg; simp at hg)
    (fun hl _ hs => ?_) (fun hl e reach _ hs => ⟨hs, fun _ => ?_⟩)
    (fun _ _ hs hl => ⟨hs, fun hl' => absurd hl' hl⟩)
  · have hpg : (c.sent none [.begin] .run).pg = .inTx (.fresh v) := by
      show (runMessage _ _).1 = _
      rw [hrun]
    refine ⟨⟨hs, fun _ => ?_⟩, hl, hpg, rfl⟩
    rw [hpg]
    exact (matches_idle_of_values ht hd).fresh ht
  · show Describes T (c.tracker.endTransaction _).values (c.reached [.begin] reach).durable.gucs
    have hdur : (c.reached [.begin] reach).durable = v := by
      cases reach with
      | notRun => simp [Connection.reached, hp, State.durable]
      | failed => simp [Connection.reached, refuseMessage, hready, State.fail, State.durable]
      | run => simp [Connection.reached, hrun, State.durable]
    rw [hdur, endTransaction_outside ht]
    exact hd

theorem commit_ends (h : OwnTx T H L c) :
    Ends (fun _ c' => Sane L c' ∧ ∃ v, c'.pg = .idle v ∧
        Describes T (c'.tracker.endTransaction (some true)).values v.gucs)
      (fun _ c' => Sane L c' ∧ Undoable T c') (send none [.commit false] c) := by
  obtain ⟨o, ho, hf, ht⟩ := h.tracks
  have hready : c.ready = .inTx o := by simp [Connection.ready, ho]
  have hrun : runMessage [.commit false] c.ready = (.idle o.level.session, true, []) := by
    rw [run_commit, hready]
    simp [State.commit, Open.committed, hf]
  refine send_sane h.toSane (fun _ reach g hg => by rw [sightings_one (by simp)] at hg; simp at hg)
    (fun hl _ hs => ⟨hs, _, by show (runMessage _ _).1 = _; rw [hrun], ht.committed hf⟩)
    (fun hl e reach _ hs => ⟨hs, fun _ => ?_⟩) (fun _ _ hs hl => ⟨hs, fun hl' => absurd hl' hl⟩)
  show Describes T (c.tracker.endTransaction _).values (c.reached [.commit false] reach).durable.gucs
  -- cut off, the commit may have gone through: its transaction wrote nothing for the session
  have hbase : (c.tracker.endTransaction (some false)).values = c.tracker.base := by
    rw [endTransaction_values _ ht.inside]
    simp [SessionGUCs.valuesAfter]
  cases reach with
  | notRun =>
    simp only [Connection.reached, ho]
    exact ht.rolledBack
  | failed =>
    simp only [Connection.reached, refuseMessage, hready]
    exact ht.rolledBack
  | run =>
    simp only [Connection.reached, hrun, hbase]
    exact (ht.session h.wroteSession).1

/-- The guard's own transaction, once the context's values are written in it. -/
structure OwnValues (T : Option ContextGucs → Prop) (H : Name → Prop) (strict : Bool) (L : Ran → Prop)
    (env : Env) (c : Connection) : Prop extends AtValues T H strict L env.context c where
  inside : ∃ o, c.pg = .inTx o
  wroteSession : c.tracker.wroteSession = false

/-- **A transaction of its own**, from what its statement and the commit do. `F` is what all
messages keep. -/
theorem runInOwnTransaction_rule {sql : Sql} {v : Visible} {F Q R : Connection → Prop}
    (h : Stepped T H strict L c) (hl : c.link = .up) (hp : c.pg = .idle v) (ha : c.autocommit = true)
    (hF : Passive F) (hR : Remote F) (hsend : ∀ context cs, Keeps F (send context cs)) (hc : F c)
    (hbody : ∀ c', OwnValues T H strict L env c' → F c' → Ends (fun _ => Q)
      (fun _ c' => Sane L c' ∧ Undoable T c')
      ((do
        execute env.context sql.commands
        send none [.commit false] : Db Unit) c'))
    (hend : ∀ c', Q c' → R { c' with tracker := c'.tracker.endTransaction (some true) }) :
    Ends (fun _ => R) (fun _ => Inv T H strict L) (runInOwnTransaction env sql c) := by
  unfold runInOwnTransaction
  refine Ends.bind_rule (Q := fun _ => Q) ?_ fun _ c' h' => hend c' h'
  refine Ends.attempt_rule (F := fun _ c' => Sane L c' ∧ Undoable T c') ?_ fun e c' h' =>
    (abandonOwnTransaction_ends h'.1 h'.2).bind_rule fun _ _ h => h
  refine ((begin_ends h hl hp ha).with_inv (hsend none [.begin] c hc)).mono (fun _ _ h => h) (fun _ _ h => h.1)
    |>.bind_rule fun _ c1 h' => ?_
  obtain ⟨⟨h1, hl1, hp1, ht1⟩, hF1⟩ := h'
  rw [bind_run, observe_sane h1.toSane]
  have hin := h.session hl
  rw [hp] at hin
  have hws : c1.observed.tracker.wroteSession = false := by
    show (if c1.link = .closed then c1.tracker else c1.tracker.syncTransaction c1.status).wroteSession = _
    rw [if_neg (by simp [hl1]), status_up hl1, hp1, ht1, sync_of_ne _ (statusOf_ne_idle _), sync_fresh _ hin.1]
  have hinside : c1.observed.tracker.inTransaction = true := by
    have := h1.observed.session hl1
    rw [show c1.observed.pg = c1.pg from rfl, hp1] at this
    exact this.inside
  have hwrite : Keeps F (writeGucs env env.context true) := hF.writeGucs (hR.ensureConnection hF hsend) (hsend _ _)
  have hF1 : F c1.observed := hF c1 _ c1.faults c1.raised hF1
  refine ((writeGucs_local_ends env h1.observed hl1 hp1 env.context).with_inv (hwrite _ hF1)).mono
    (fun _ _ h => h) (fun _ _ h => ⟨h.1.1.toSane, h.1.1.undoable h.1.2⟩) |>.bind_rule fun _ c2 h' => ?_
  obtain ⟨⟨h2, ho, ht2⟩, hF2⟩ := h'
  refine hbody c2 ⟨h2, ho, ?_⟩ hF2
  rw [ht2, setValues_inside _ hinside]
  simp [hws]

/-- A statement on rows in it, and the commit. -/
theorem own_neutral_ends {cs : List Command} (h : OwnValues T H strict L env c) (hcs : ∀ cmd ∈ cs, cmd.Neutral)
    (hlog : ∀ g, (T env.context → g = valuesOf env.context) → L ⟨env.context, g⟩) :
    Ends (fun _ c' => Sane L c' ∧ ∃ v, c'.pg = .idle v ∧
        Describes T (c'.tracker.endTransaction (some true)).values v.gucs)
      (fun _ c' => Sane L c' ∧ Undoable T c')
      ((do
        execute env.context cs
        send none [.commit false] : Db Unit) c) := by
  obtain ⟨o, ho⟩ := h.inside
  have hready : c.ready = .inTx o := by simp [Connection.ready, ho]
  have hin := h.session h.link
  rw [ho] at hin
  have hx := (execute_neutral_ends env h.toStepped hcs fun _ hn hf _ => hlog _ fun hT => by
    rw [hready] at hf ⊢
    exact (hin.current (by simp [hn]) hf).current _ h.values hT).with_inv
    (insideTx_passive.execute (send_insideTx (neutral_stays hcs) env.context) c
      ⟨by simp [h.link], fun _ => ⟨o, ho⟩⟩)
  refine (hx.mono (fun _ _ h => h) fun _ _ h => ⟨h.1.toSane, h.1.undoable h.2⟩).bind_rule
    fun _ c' h' => ?_
  obtain ⟨⟨h', ht, hl, hn, -, hf⟩, hi⟩ := h'
  obtain ⟨o', ho'⟩ := hi.2 hl
  have hm := h'.session hl
  rw [ho', hn, Bool.not_false, Bool.or_true] at hm
  have hm : Tracks T H true (c'.tracker.syncTransaction .inTransaction) o' := hm
  rw [sync_inside _ (by rw [ht]; exact hin.inside)] at hm
  refine commit_ends ⟨h'.toSane, hl, ⟨o', ho', ?_, hm⟩, by rw [ht]; exact h.wroteSession⟩
  rw [ho', hready] at hf
  have hh := h.healthy
  rw [ho] at hh
  exact hf.trans hh

/-- **A transaction of its own keeps the record right**, however it ends. -/
theorem runInOwnTransaction_ends {sql : Sql} {v : Visible} (h : Stepped T H strict L c) (hl : c.link = .up)
    (hp : c.pg = .idle v) (ha : c.autocommit = true) (hcs : ∀ cmd ∈ sql.commands, cmd.Neutral)
    (hlog : ∀ g, (T env.context → g = valuesOf env.context) → L ⟨env.context, g⟩) :
    Ends (fun _ => Inv T H strict L) (fun _ => Inv T H strict L) (runInOwnTransaction env sql c) := by
  refine runInOwnTransaction_rule (F := fun _ => True) h hl hp ha (fun _ _ _ _ h => h)
    (fun _ _ _ _ _ _ _ _ h => h) (fun _ _ _ h => h) trivial (fun c' h' _ => own_neutral_ends h' hcs hlog) ?_
  rintro c' ⟨hs, v, hv, hd⟩
  refine ⟨hs.track (endTransaction_raw _ _), fun _ => ?_⟩
  rw [show ({ c' with tracker := c'.tracker.endTransaction (some true) } : Connection).pg = c'.pg from rfl, hv]
  exact matches_idle_of_values (endTransaction_inTransaction _ _) hd

/-! ## The wrapper -/

theorem Inv.suspect (h : Inv T H strict L c) (under : Bool) :
    Inv T H strict L { c with tracker := c.tracker.suspectSession under } := by
  refine ⟨h.toSane.track ?_, fun hl => (h.session hl).suspect under⟩
  unfold SessionGUCs.suspectSession
  split <;> simp

theorem forgetIfFollowed_ends (h : Inv T H strict L c) (st : Option Statement) :
    Ends (fun _ => Inv T H strict L) (fun _ => Inv T H strict L) (forgetIfFollowed st c) := by
  rw [forgetIfFollowed_run]
  show Inv T H strict L { c with tracker := failTracker st c.tracker }
  unfold failTracker
  split
  · exact h.forget
  · exact h

/-- A statement that does not control the transaction is at most forgotten. -/
theorem afterStatement_data_ends (h : Inv T H strict L c) {st : Option Statement}
    (hctl : controlsTheTransaction st = false) (conf : Conf) (before : Status) :
    Ends (fun _ => Inv T H strict L) (fun _ => Inv T H strict L) (afterStatement conf st before c) := by
  obtain ⟨t, ht, hrun⟩ := afterStatement_data_run conf hctl before c
  rw [hrun]
  rcases ht with rfl | rfl
  · exact h
  · exact h.forget

/-- A statement on rows that the reader does not take for transaction control. Where it may
need a transaction of its own, and is taken for one that PostgreSQL refuses in a transaction,
it reads none, or nothing is asked of what it reads. -/
structure Data (L : Ran → Prop) (env : Env) (sql : Sql) : Prop where
  control : controlsTheTransaction (parse sql.object) = false
  neutral : ∀ cmd ∈ sql.commands, cmd.Neutral
  refused : env.conf.useLocalSet = true → env.context.isSome = true →
    refusedInATransaction (parse sql.object) = true → ∀ id, .rows id ∈ sql.commands → ∀ g, L ⟨env.context, g⟩

theorem LocalOutside.needsOwn (h : LocalOutside env c) (hg : c.guarded = true) {st : Option Statement}
    (hr : refusedInATransaction st = false) : needsOwnTransaction env c c.status st = true := by
  obtain ⟨h1, h2, h3⟩ := h
  simp only [willRunInTransaction, Bool.or_eq_false_iff, decide_eq_false_iff_not, not_not,
    Bool.not_eq_false'] at h3
  simp [needsOwnTransaction, h1, h2, h3.1, h3.2, hg, hr]

theorem isFailed_of_ready (h : c.ready.isFailed = false) : c.pg.isFailed = false := by
  unfold Connection.ready at h
  cases hp : c.pg with
  | idle v => rfl
  | inTx o => rwa [hp] at h

/-- What the wrapper does once the statement has run. -/
theorem guard_rest_ends (h : Inv T H strict L c) (own : Bool) :
    Ends (fun _ => Inv T H strict L) (fun _ => Inv T H strict L)
      ((do
        let t ← reads (·.tracker)
        if own || (t.wroteLocal && t.inTransaction) then
          modify fun c => { c with tracker := c.tracker.suspectSession true } : Db Unit) c) := by
  simp only [bind_run, reads_run]
  split
  · exact h.suspect true
  · exact h

/-- **The wrapper on a statement on rows** keeps the record right, and the statement
runs under the values of its context where the record is trusted. -/
theorem guard_data_ends {sql : Sql} (h : Inv T H strict L c) (hsql : Data L env sql)
    (hlog : ∀ g, (T env.context → g = valuesOf env.context) → L ⟨env.context, g⟩) :
    Ends (fun _ => Inv T H strict L) (fun _ => Inv T H strict L) (guard env sql c) := by
  simp only [guard, hsql.control, Bool.false_eq_true, if_false, Bool.not_false, Bool.true_and]
  refine (applyIfStale_ends h).bind_rule fun st c' h' => ?_
  obtain ⟨hst, hc', happ⟩ := h'
  subst hst
  refine Ends.bind_rule (Q := fun a s => a = c' ∧ s = c') ⟨rfl, rfl⟩ ?_
  rintro a s ⟨ha, hs⟩
  rw [ha, hs]
  have hbody : Ends (fun _ => Inv T H strict L) (fun _ => Inv T H strict L)
      ((if needsOwnTransaction env c' c.status (parse sql.object) = true then runInOwnTransaction env sql
        else execute env.context sql.commands) c') := by
    split
    · rename_i hown
      simp only [needsOwnTransaction, Bool.and_eq_true, decide_eq_true_eq, Bool.not_eq_true'] at hown
      obtain ⟨⟨⟨⟨⟨hidle, hloc⟩, hauto⟩, hctx⟩, -⟩, -⟩ := hown
      obtain ⟨hl, v, hv⟩ := status_idle hidle
      rcases happ with ⟨rfl, -⟩ | ⟨-, hauto', hnot⟩
      · exact runInOwnTransaction_ends hc' hl hv hauto hsql.neutral hlog
      · refine absurd ⟨hctx, hloc, ?_⟩ hnot
        simp only [willRunInTransaction, hidle, ← hauto', hauto]
        rfl
    · rename_i hown
      refine (execute_neutral_ends env hc' hsql.neutral fun hl hn hf ⟨id, hid⟩ => ?_).mono
        (fun _ _ h => h.1) fun _ _ h => h
      have hread : c'.tracker.values = .known env.context → L ⟨env.context, c'.ready.current.gucs⟩ :=
        fun hv => hlog _ fun hT => hc'.current hl hn hf _ hv hT
      rcases happ with ⟨rfl, happ⟩ | ⟨hat, -⟩
      · rcases happ hl hn (isFailed_of_ready hf) with hv | hlo
        · exact hread hv
        · refine hsql.refused hlo.2.1 hlo.1 (Bool.of_not_eq_false fun hr => hown ?_) id hid _
          exact LocalOutside.needsOwn (c := c) hlo h.guarded hr
      · exact hread hat.values
  refine Ends.bind_rule (Q := fun _ => Inv T H strict L) (hbody.attempt_rule fun e c'' h => ?_) fun _ c'' h => ?_
  · exact (forgetIfFollowed_ends h _).bind_rule fun _ _ h => h
  · exact (afterStatement_data_ends h hsql.control _ _).bind_rule fun _ c3 h => guard_rest_ends h _

end RlsTenants
