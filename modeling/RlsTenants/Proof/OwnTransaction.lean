import RlsTenants.Spec.OwnTransaction
import RlsTenants.Proof.Sound

/-!
# A transaction of its own ends

Whatever becomes of its messages and of the reads of the transaction status.

* `At` is the connection after some messages of the transaction, when nothing has gone wrong,
  and `Failed` when something has: both look at the session and the exceptions only, not at
  the record.
* `send_at` says how a message ends, and the lemmas after it how the guard's own steps do.
* `abandon_ends`: after a failure the connection ends idle or closed, and only an interruption
  of the clean-up replaces the exception.
-/

namespace RlsTenants

open Txn Effect Comp

variable {env : Env} {c0 c : Connection} {p : Backend} {sent : ℕ} {D : Visible → Prop}

/-- The session is at `p`, the first `sent` messages have run, and nothing has gone wrong. -/
structure At (c0 : Connection) (p : Backend) (sent : ℕ) (c : Connection) : Prop where
  link : c.link = .up
  pg : c.pg = p
  autocommit : c.autocommit = true
  outside : c.inAtomicBlock = false
  guarded : c.guarded = c0.guarded
  fates : c.fates = c0.fates.drop sent
  ran : ∀ f ∈ c0.fates.take sent, f = .runs
  raised : c.raised = c0.raised

/-- The first failure is `e`; what the session keeps has `D`. -/
structure Failed (c0 : Connection) (D : Visible → Prop) (e : Exc) (c : Connection) : Prop where
  raised : c.raised = e :: c0.raised
  outside : c.inAtomicBlock = false
  durable : D c.pg.durable

theorem At.track (h : At c0 p sent c) (t : SessionGUCs) : At c0 p sent { c with tracker := t } :=
  ⟨h.link, h.pg, h.autocommit, h.outside, h.guarded, h.fates, h.ran, h.raised⟩

theorem Failed.track {e : Exc} (h : Failed c0 D e c) (t : SessionGUCs) : Failed c0 D e { c with tracker := t } :=
  ⟨h.raised, h.outside, h.durable⟩

theorem Failed.mono {e : Exc} {D' : Visible → Prop} (h : Failed c0 D e c) (hD : ∀ v, D v → D' v) :
    Failed c0 D' e c := ⟨h.raised, h.outside, hD _ h.durable⟩

theorem At.ready (h : At c0 p sent c) : c.ready = p := by
  unfold Connection.ready
  rw [h.pg, h.autocommit]
  cases p <;> rfl

theorem At.status (h : At c0 p sent c) : c.status = statusOf p := by
  rw [status_up h.link, h.pg]

theorem At.fail (h : At c0 p sent c) (hD : D p.durable) (e : Exc) : Failed c0 D e { c with raised := e :: c.raised } :=
  ⟨by simp [h.raised], h.outside, by show D c.pg.durable; rw [h.pg]; exact hD⟩

/-! ## Messages -/

/-- **A message runs, or fails.** What it leaves has `D`, also where it is cut off. -/
theorem send_at {context : Option ContextGucs} {cs : List Command} (h : At c0 p sent c) (hnot : D p.durable)
    (hfail : D (refuseMessage cs p).1.durable)
    (hrun : ((c0.fates.drop sent).headD .runs).cutsOff = true ∨ (runMessage cs p).2.1 = false →
      D (runMessage cs p).1.durable) :
    Ends (fun _ c' => At c0 (runMessage cs p).1 (sent + 1) c' ∧ (runMessage cs p).2.1 = true) (Failed c0 D)
      (send context cs c) := by
  have hreach : ∀ reach, (reach = .run → D (runMessage cs p).1.durable) → D (c.reached cs reach).durable := by
    intro reach hr
    cases reach with
    | notRun => show D c.pg.durable; rw [h.pg]; exact hnot
    | failed => show D (refuseMessage cs c.ready).1.durable; rw [h.ready]; exact hfail
    | run => show D (runMessage cs c.ready).1.durable; rw [h.ready]; exact hr rfl
  have hfailed : ∀ e reach link, (reach = .run → D (runMessage cs p).1.durable) →
      Failed c0 D e { c.sent context cs reach with link := link, raised := e :: c.raised } :=
    fun e reach link hr => ⟨by rw [h.raised], h.outside, hreach reach hr⟩
  unfold send
  rw [if_pos h.link]
  have htail : c.fates.tail = c0.fates.drop (sent + 1) := by rw [h.fates, List.tail_drop]
  rw [← h.fates] at hrun
  generalize hfate : c.fates.headD .runs = fate at hrun
  cases fate with
  | runs =>
    dsimp only
    split
    · rename_i hok
      rw [h.ready] at hok
      refine ⟨⟨h.link, ?_, h.autocommit, h.outside, h.guarded, htail, fun f hf => ?_, h.raised⟩, hok⟩
      · show (runMessage cs c.ready).1 = _
        rw [h.ready]
      · rw [List.take_add, List.mem_append] at hf
        rcases hf with hf | hf
        · exact h.ran f hf
        · rw [← h.fates] at hf
          cases hfs : c.fates with
          | nil => simp [hfs] at hf
          | cons g gs =>
            rw [hfs] at hf hfate
            obtain rfl : f = g := by simpa using hf
            exact hfate
    · rename_i hok
      rw [h.ready] at hok
      have := hfailed (.databaseError 0) .run .up fun _ => hrun (.inr (Bool.eq_false_iff.2 hok))
      rw [← h.link] at this
      exact this
  | refused n =>
    have := hfailed (.databaseError n) .failed .up (by simp)
    rw [← h.link] at this
    exact this
  | lost reach n =>
    refine ⟨by rw [← h.raised]; rfl, h.outside, ?_⟩
    show D (c.reached cs reach).rollback.durable
    exact hreach reach fun _ => hrun (.inl rfl)
  | interrupted reach busy n =>
    exact hfailed (.interruption n) reach _ fun _ => hrun (.inl rfl)

/-! ## The guard's steps -/

theorem mayRaise_at (h : At c0 p sent c) (hD : D p.durable) :
    Ends (fun _ => At c0 p sent) (Failed c0 D) (mayRaise c) := by
  unfold mayRaise
  split
  · exact ⟨by rw [← h.raised], h.outside, by show D c.pg.durable; rw [h.pg]; exact hD⟩
  · exact ⟨h.link, h.pg, h.autocommit, h.outside, h.guarded, h.fates, h.ran, h.raised⟩
  · exact h

theorem readStatus_at (h : At c0 p sent c) (hD : D p.durable) :
    Ends (fun st c' => st = statusOf p ∧ At c0 p sent c') (Failed c0 D) (readStatus c) :=
  (mayRaise_at h hD).bind_rule fun _ _ h => ⟨h.status, h⟩

theorem observe_at (h : At c0 p sent c) (hD : D p.durable) :
    Ends (fun st c' => st = statusOf p ∧ At c0 p sent c') (Failed c0 D) (observe c) := by
  have hopen : c.link ≠ .closed := by rw [h.link]; simp
  unfold observe
  simp only [bind_run, reads_run, if_neg hopen, modify_run]
  have hattach : At c0 p sent
      (if c.tracker.raw = some c.raw then c else { c with tracker := c.tracker.attach c.raw .unknown }) := by
    split
    · exact h
    · exact h.track _
  have hread := readStatus_at hattach hD
  refine Ends.bind_rule (m := readStatus) (f := fun st => do
    modify fun c => { c with tracker := c.tracker.syncTransaction st }
    pure st) hread fun st c' hst => ?_
  exact ⟨hst.1, hst.2.track _⟩

theorem execute_at {context : Option ContextGucs} {cs : List Command} (h : At c0 p sent c) (hnot : D p.durable)
    (hfail : D (refuseMessage cs p).1.durable) (hrun : D (runMessage cs p).1.durable) :
    Ends (fun _ c' => At c0 (runMessage cs p).1 (sent + 1) c' ∧ (runMessage cs p).2.1 = true) (Failed c0 D)
      (execute context cs c) := by
  rw [execute_run]
  split
  · exact h.fail hnot _
  · exact send_at h hnot hfail fun _ => hrun

theorem forgetIfFollowed_failed (st : Option Statement) {e : Exc} (h : Failed c0 D e c) :
    Ends (fun _ => Failed c0 D e) (fun _ _ => False) (forgetIfFollowed st c) := by
  rw [forgetIfFollowed_run]
  exact h.track _

theorem afterStatement_at (conf : Conf) (st : Option Statement) (before : Status) (h : At c0 p sent c)
    (hD : D p.durable) : Ends (fun _ => At c0 p sent) (Failed c0 D) (afterStatement conf st before c) := by
  cases st with
  | none => exact h.track _
  | some s =>
    unfold afterStatement
    refine Ends.ite_rule (fun _ => h.track _) fun _ => Ends.ite_rule (fun _ => ?_) fun _ => h
    unfold follow
    refine Ends.ite_rule (fun _ => Ends.ite_rule (fun _ => h.track _) fun _ => h) fun _ =>
      Ends.ite_rule (fun _ => ?_) fun _ => h
    refine Ends.bind_rule (Q := fun _ => At c0 p sent) (h.track _) fun _ c1 h1 => ?_
    exact (observe_at h1 hD).bind_rule fun _ c2 h2 => h2.2.track _

/-- A message of the library's own. -/
theorem guardWriting_at (sql : Sql) (h : At c0 p sent c) (hnot : D p.durable)
    (hfail : D (refuseMessage sql.commands p).1.durable) (hrun : D (runMessage sql.commands p).1.durable) :
    Ends (fun _ => At c0 (runMessage sql.commands p).1 (sent + 1)) (Failed c0 D) (guardWriting env sql c) := by
  unfold guardWriting
  refine (observe_at h hnot).bind_rule fun st c1 h1 => ?_
  refine Ends.bind_rule (Q := fun _ => At c0 (runMessage sql.commands p).1 (sent + 1)) ?_ fun _ c2 h2 =>
    afterStatement_at _ _ _ h2 hrun
  refine Ends.attempt_rule ((execute_at h1.2 hnot hfail hrun).mono (fun _ _ h => h.1) fun _ _ h => h) fun e c2 h2 => ?_
  exact ((forgetIfFollowed_failed _ h2).mono (fun _ _ h => h) fun _ _ h => h.elim).bind_rule fun _ _ h => h

theorem writing_at {p' : Backend} {sent' : ℕ} {block : Db Unit} (v : Tracked) (isLocal : Bool)
    (hblock : Ends (fun _ => At c0 p' sent') (Failed c0 D) (block c)) (hD : D p'.durable) :
    Ends (fun _ => At c0 p' sent') (Failed c0 D) (writing v isLocal block c) := by
  unfold writing
  refine Ends.bind_rule (Q := fun _ => At c0 p' sent') (hblock.attempt_rule fun e c1 h1 => h1.track _) fun _ c1 h1 => ?_
  refine Ends.bind_rule (Q := fun _ => At c0 p' sent') ?_ fun _ c2 h2 => h2
  have hopen : c1.link ≠ .closed := by rw [h1.link]; simp
  unfold record
  simp only [bind_run, reads_run, if_pos hopen]
  exact (observe_at h1 hD).bind_rule fun _ c2 h2 => h2.2.track _

/-! ## The transaction -/

/-- The transaction once the values are written. -/
def withValues (v : Visible) (g : ContextGucs) : Open Name Visible := ⟨v, ⟨v, v.setGucs fun _ => g⟩, [], false⟩

/-- **The statement in its transaction** does for the session what it does in autocommit. -/
theorem run_statement {cmd : Command} (hcmd : cmd.staysInside = true) (v : Visible) (g : ContextGucs) :
    (runMessage [cmd] (.inTx (withValues v g))).1.durable = v ∧
      ((runMessage [cmd] (.inTx (withValues v g))).2.1 = true → (runMessage [cmd] (.idle v)).2.1 = true ∧
        ∃ o, (runMessage [cmd] (.inTx (withValues v g))).1 = .inTx o ∧ o.start = v ∧ o.failed = false ∧
          o.level.session = cmd.effect v) := by
  cases cmd with
  | rows id => exact ⟨rfl, fun _ => ⟨rfl, _, rfl, rfl, rfl, rfl⟩⟩
  | setGucs values isLocal => cases isLocal <;> exact ⟨rfl, fun _ => ⟨rfl, _, rfl, rfl, rfl, rfl⟩⟩
  | setGuc name value isLocal => cases isLocal <;> exact ⟨rfl, fun _ => ⟨rfl, _, rfl, rfl, rfl, rfl⟩⟩
  | resetGucs names => exact ⟨rfl, fun _ => ⟨rfl, _, rfl, rfl, rfl, rfl⟩⟩
  | other => exact ⟨rfl, fun _ => ⟨rfl, _, rfl, rfl, rfl, rfl⟩⟩
  | fault => exact ⟨rfl, fun h => by cases h⟩
  | _ => cases hcmd

theorem refuse_statement (cmd : Command) (v : Visible) (g : ContextGucs) :
    (refuseMessage [cmd] (.inTx (withValues v g))).1.durable = v := by
  cases cmd <;> rfl

theorem writeGucs_at {v : Visible} (values : Option ContextGucs) (h : At c0 (.inTx (.fresh v)) sent c) (hD : D v) :
    Ends (fun _ => At c0 (.inTx (withValues v (valuesOf values))) (sent + 1)) (Failed c0 D)
      (writeGucs env values true c) := by
  have hensure : ∀ c', At c0 (.inTx (.fresh v)) sent c' → ensureConnection env c' = (.ok (), c') :=
    fun c' h' => ensureConnection_open (by rw [h'.link]; simp)
  have hwrite : ∀ c', At c0 (.inTx (.fresh v)) sent c' →
      Ends (fun _ => At c0 (.inTx (withValues v (valuesOf values))) (sent + 1)) (Failed c0 D)
        (writing (.known values) true (do
          ensureConnection env
          setGucs env values true) c') := by
    intro c' h'
    refine writing_at _ _ ?_ hD
    rw [bind_run, hensure c' h']
    exact guardWriting_at ⟨.str setGucsSql, [.setGucs (valuesOf values) true]⟩ h' hD hD hD
  unfold writeGucs
  refine Ends.ite_rule (fun _ => ?_) fun hne => absurd rfl hne
  refine Ends.bind_rule (Q := fun _ => At c0 (.inTx (.fresh v)) sent) (by rw [hensure c h]; exact h) fun _ c1 h1 => ?_
  refine (readStatus_at h1 hD).bind_rule fun st c2 h2 => ?_
  refine Ends.bind_rule (Q := fun _ => At c0 (.inTx (.fresh v)) sent) h2.2 fun _ c3 h3 => ?_
  refine Ends.ite_rule (fun _ => ?_) fun _ => hwrite c3 h3
  exact Ends.bind_rule (Q := fun _ _ => False) (h3.fail hD _) fun _ _ h => h.elim

/-! ## The clean-up -/

/-- In the clean-up: what the session keeps has `D`, and `r` had been raised before. -/
structure Cleaning (r : List Exc) (D : Visible → Prop) (c : Connection) : Prop where
  outside : c.inAtomicBlock = false
  durable : D c.pg.durable
  raised : ∃ later, c.raised = later ++ r

/-- The clean-up raised `e`. -/
structure CleanUpRaised (r : List Exc) (D : Visible → Prop) (e : Exc) (c : Connection) : Prop where
  outside : c.inAtomicBlock = false
  durable : D c.pg.durable
  raised : ∃ later, c.raised = later ++ r ∧ e ∈ later

variable {r : List Exc}

theorem Cleaning.track (h : Cleaning r D c) (t : SessionGUCs) : Cleaning r D { c with tracker := t } :=
  ⟨h.outside, h.durable, h.raised⟩

theorem CleanUpRaised.cleaning {e : Exc} (h : CleanUpRaised r D e c) : Cleaning r D c := by
  obtain ⟨later, hl, -⟩ := h.raised
  exact ⟨h.outside, h.durable, later, hl⟩

theorem Cleaning.raise (h : Cleaning r D c) (e : Exc) {c' : Connection} (hout : c'.inAtomicBlock = c.inAtomicBlock)
    (hD : D c'.pg.durable) (hr : c'.raised = e :: c.raised) : CleanUpRaised r D e c' := by
  obtain ⟨later, hl⟩ := h.raised
  exact ⟨hout.trans h.outside, hD, e :: later, by rw [hr, hl, List.cons_append], List.mem_cons_self⟩

theorem mayRaise_cleaning (h : Cleaning r D c) :
    Ends (fun _ c' => Cleaning r D c' ∧ c'.status = c.status ∧ c'.link = c.link) (fun e c' => CleanUpRaised r D e c' ∧
      c'.link = c.link) (mayRaise c) := by
  unfold mayRaise
  split
  · exact ⟨h.raise _ rfl h.durable rfl, rfl⟩
  · exact ⟨⟨h.outside, h.durable, h.raised⟩, rfl, rfl⟩
  · exact ⟨h, rfl, rfl⟩

theorem readStatus_cleaning (h : Cleaning r D c) :
    Ends (fun st c' => Cleaning r D c' ∧ st = c'.status) (CleanUpRaised r D) (readStatus c) :=
  ((mayRaise_cleaning h).mono (fun _ _ h => h.1) fun _ _ h => h.1).bind_rule fun _ _ h => ⟨h, rfl⟩

/-- The `ROLLBACK` changes nothing that the session keeps, however it ends. -/
theorem sendRollback_cleaning (h : Cleaning r D c) :
    Ends (fun _ => Cleaning r D) (CleanUpRaised r D) (send none [.rollback false] c) := by
  have hreach : ∀ reach, (c.reached [.rollback false] reach).durable = c.pg.durable := by
    intro reach
    have hready : c.ready.durable = c.pg.durable := by
      unfold Connection.ready
      split
      · rename_i v hv
        rw [hv]
        split <;> rfl
      · rename_i o ho
        rw [ho]
    cases reach with
    | notRun => rfl
    | failed =>
      show (c.ready.fail).durable = _
      rw [State.durable_fail, hready]
    | run =>
      show (runMessage [.rollback false] c.ready).1.durable = _
      rw [run_rollback]
      exact hready
  have hD : ∀ reach, D (c.reached [.rollback false] reach).durable := fun reach => by rw [hreach]; exact h.durable
  unfold send
  split
  · split
    · split
      · obtain ⟨later, hl⟩ := h.raised
        exact ⟨h.outside, hD .run, later, hl⟩
      · exact h.raise _ rfl (hD .run) rfl
    · exact h.raise _ rfl (hD .failed) rfl
    · rename_i reach n _
      exact h.raise _ rfl (show D (c.reached [.rollback false] reach).rollback.durable from hD reach) rfl
    · rename_i reach busy n _
      exact h.raise _ rfl (hD reach) rfl
  · exact h.raise _ rfl h.durable rfl

theorem rollBackOwnTransaction_cleaning (h : Cleaning r D c) :
    Ends (fun ended c' => Cleaning r D c' ∧ (ended = true → c'.status = .idle)) (CleanUpRaised r D)
      (rollBackOwnTransaction c) := by
  unfold rollBackOwnTransaction
  have hread : ∀ c1, Cleaning r D c1 → Ends (fun ended c' => Cleaning r D c' ∧ (ended = true → c'.status = .idle))
      (CleanUpRaised r D) ((do return (← readStatus) = .idle : Db Bool) c1) := by
    intro c1 h1
    refine (readStatus_cleaning h1).bind_rule fun st c2 h2 => ⟨h2.1, fun hended => ?_⟩
    rw [← h2.2]
    simpa using hended
  refine (readStatus_cleaning h).bind_rule fun st c1 h1 => Ends.ite_rule (fun _ => ?_) fun _ => hread c1 h1.1
  exact (sendRollback_cleaning h1.1).bind_rule fun _ c2 h2 => hread c2 h2

/-- A connection that is closed is closed, also when the call raises. -/
theorem close_cleaning (h : Cleaning r D c) :
    Ends (fun _ c' => Cleaning r D c' ∧ c'.link = .closed) (fun e c' => CleanUpRaised r D e c' ∧ c'.link = .closed)
      (close c) := by
  unfold close
  simp only [bind_run, reads_run]
  refine Ends.ite_rule (fun _ => ?_) fun hclosed => ⟨h, not_not.1 hclosed⟩
  refine Ends.bind_rule (Q := fun _ c' => Cleaning r D c' ∧ c'.link = .closed) ?_ fun _ c1 h1 => ?_
  · simp only [modify_run, h.outside, Bool.false_eq_true, if_false]
    exact ⟨⟨rfl, h.durable, h.raised⟩, rfl⟩
  · refine (mayRaise_cleaning h1.1).mono (fun _ c2 h2 => ⟨h2.1, h2.2.2.trans h1.2⟩) fun _ c2 h2 => ⟨h2.1, h2.2.trans h1.2⟩

/-- The connection is idle or closed. -/
def Over (c : Connection) : Prop := c.status = .idle ∨ c.link = .closed

theorem leaveOwnTransaction_cleaning (ended : Bool) (h : Cleaning r D c) (hidle : ended = true → c.status = .idle) :
    Ends (fun _ c' => Cleaning r D c' ∧ Over c') (fun e c' => CleanUpRaised r D e c' ∧ Over c' ∧ e.isException = false)
      (leaveOwnTransaction ended c) := by
  unfold leaveOwnTransaction
  refine Ends.ite_rule (fun he => ⟨h.track _, .inl (hidle he)⟩) fun _ => ?_
  refine Ends.bind_rule (Q := fun _ => Cleaning r D) (h.track _) fun _ c1 h1 => ?_
  refine Ends.attempt_rule ((close_cleaning h1).mono (fun _ _ h => ⟨h.1, .inr h.2⟩) fun _ _ h => h) fun e c2 h2 => ?_
  cases he : e.isException with
  | true => exact ⟨h2.1.cleaning, .inr h2.2⟩
  | false => exact ⟨h2.1, .inr h2.2, he⟩

/-- **The clean-up ends the transaction**, or the connection, and only an interruption
leaves it. -/
theorem abandon_ends (h : Cleaning r D c) :
    Ends (fun _ c' => Cleaning r D c' ∧ Over c') (fun e c' => CleanUpRaised r D e c' ∧ Over c' ∧ e.isException = false)
      (abandonOwnTransaction c) := by
  unfold abandonOwnTransaction
  refine Ends.bind_rule (Q := fun ended c' => Cleaning r D c' ∧ (ended = true → c'.status = .idle)) ?_
    fun ended c1 h1 => leaveOwnTransaction_cleaning ended h1.1 h1.2
  refine Ends.attempt_rule (F := fun e c' => CleanUpRaised r D e c' ∧ e.isException = false) ?_ fun e c1 h1 => ?_
  · refine Ends.attempt_rule (rollBackOwnTransaction_cleaning h) fun e c1 h1 => ?_
    cases he : e.isException with
    | true => exact ⟨h1.cleaning, by simp⟩
    | false => exact ⟨h1, he⟩
  · refine Ends.bind_rule (Q := fun _ c' => CleanUpRaised r D e c' ∧ Over c') ?_ fun _ c2 h2 => ⟨h2.1, h2.2, h1.2⟩
    obtain ⟨later, hl, he⟩ := h1.1.raised
    have hhere : Cleaning c1.raised D c1 := ⟨h1.1.outside, h1.1.durable, [], rfl⟩
    refine (leaveOwnTransaction_cleaning false hhere (by simp)).mono (fun _ c2 h2 => ?_) fun e' c2 h2 => ?_
    · obtain ⟨later', hl'⟩ := h2.1.raised
      refine ⟨⟨h2.1.outside, h2.1.durable, later' ++ later, ?_, List.mem_append_right _ he⟩, h2.2⟩
      rw [hl', hl, List.append_assoc]
    · obtain ⟨later', hl', he'⟩ := h2.1.raised
      refine ⟨⟨h2.1.outside, h2.1.durable, later' ++ later, ?_, List.mem_append_left _ he'⟩, h2.2⟩
      rw [hl', hl, List.append_assoc]

/-! ## The whole of it -/

section Whole

variable {v : Visible} {cmd : Command} {object : SqlObject}

/-- The session may keep this when the statement raises: `v`, or what the statement left if
the `COMMIT` was cut off. -/
def Undone (c0 : Connection) (v : Visible) (cmd : Command) (x : Visible) : Prop :=
  x = v ∨ (commitCutOff c0.fates ∧ x = cmd.effect v)

/-- The four messages. -/
theorem messages_at (h : At c0 (.idle v) 0 c) (hcmd : cmd.staysInside = true) :
    Ends (fun _ c' => At c0 (.idle (cmd.effect v)) 4 c' ∧ (runMessage [cmd] (.idle v)).2.1 = true)
      (Failed c0 (Undone c0 v cmd))
      ((do
        send none [.begin]
        let _ ← observe
        writeGucs env env.context true
        execute env.context [cmd]
        send none [.commit false] : Db Unit) c) := by
  have hv : Undone c0 v cmd v := .inl rfl
  refine Ends.bind_rule (m := send none [.begin]) (send_at h hv hv fun _ => hv) fun _ c1 h1 => ?_
  have hbegin : (runMessage [.begin] (.idle v : Backend)).1 = .inTx (.fresh v) := rfl
  rw [hbegin] at h1
  refine (observe_at h1.1 hv).bind_rule fun _ c2 h2 => ?_
  refine (writeGucs_at env.context h2.2 hv).bind_rule fun _ c3 h3 => ?_
  obtain ⟨hstart, hrun⟩ := run_statement hcmd v (valuesOf env.context)
  have hrefuse := refuse_statement cmd v (valuesOf env.context)
  refine (execute_at h3 hv (by rw [hrefuse]; exact hv) (by rw [hstart]; exact hv)).bind_rule fun _ c4 h4 => ?_
  obtain ⟨hran, o, ho, hos, hof, hol⟩ := hrun h4.2
  have h4 := h4.1
  rw [ho] at h4
  have hcommit : runMessage [.commit false] (.inTx o) = (.idle (cmd.effect v), true, []) := by
    rw [run_commit]
    simp [State.commit, Open.committed, hof, hol]
  have hback : Undone c0 v cmd o.start := .inl hos
  refine Ends.mono (send_at h4 hback hback fun hcut => ?_) (fun _ c5 h5 => ?_) fun _ _ h => h
  · rw [hcommit] at hcut ⊢
    rcases hcut with hcut | hcut
    · exact .inr ⟨⟨h4.ran, hcut⟩, rfl⟩
    · cases hcut
  · rw [hcommit] at h5
    exact ⟨h5.1, hran⟩

/-- What the wrapper leaves of a failure in the transaction. -/
theorem abandon_raised {e : Exc} (h : Failed c0 (Undone c0 v cmd) e c) :
    Ends (fun _ _ => False) (fun e' c' => Raised v cmd c0 e' c') ((do abandonOwnTransaction; raise e : Db Unit) c) := by
  have hhere : Cleaning (e :: c0.raised) (Undone c0 v cmd) c := ⟨h.outside, h.durable, [], h.raised⟩
  refine Ends.bind_rule (Q := fun _ c' => Cleaning (e :: c0.raised) (Undone c0 v cmd) c' ∧ Over c')
    ((abandon_ends hhere).mono (fun _ _ h => h) fun e' c' h' => ?_) fun _ c' h' => ?_
  · obtain ⟨h1, hover, he⟩ := h'
    obtain ⟨later, hl, hmem⟩ := h1.raised
    exact ⟨hover, h1.durable, later, e, hl, .inr ⟨hmem, he⟩⟩
  · obtain ⟨h1, hover⟩ := h'
    obtain ⟨later, hl⟩ := h1.raised
    exact ⟨hover, h1.durable, later, e, hl, .inl rfl⟩

theorem runInOwnTransaction_at (h : At c0 (.idle v) 0 c) (hcmd : cmd.staysInside = true) :
    Ends (fun _ c' => Returned v cmd c') (fun e c' => Raised v cmd c0 e c')
      (runInOwnTransaction env ⟨object, [cmd]⟩ c) := by
  unfold runInOwnTransaction
  refine Ends.bind_rule (Q := fun _ c' => Returned v cmd c') ?_ fun _ c1 h1 => ?_
  · refine Ends.attempt_rule ((messages_at h hcmd).mono (fun _ c1 h1 => ?_) fun _ _ h => h) fun e c1 h1 => ?_
    · exact ⟨⟨h1.1.link, h1.1.pg, h1.1.autocommit, h1.1.outside⟩, h1.2⟩
    · exact (abandon_raised h1).mono (fun _ _ h => h.elim) fun _ _ h => h
  · exact ⟨⟨h1.idle.link, h1.idle.pg, h1.idle.autocommit, h1.idle.outside⟩, h1.ran⟩

/-- The context's values are not written before the transaction starts. -/
theorem applyIfStale_at (hlocal : env.conf.useLocalSet = true) (hcontext : env.context.isSome = true)
    (h : At c0 (.idle v) 0 c) :
    Ends (fun st c' => st = .idle ∧ At c0 (.idle v) 0 c') (fun e c' => Failed c0 (· = v) e c' ∧ c'.status = .idle)
      (applyIfStale env c) := by
  have hidle : Passive fun c => c.status = .idle := fun _ _ _ _ h => h
  have hobserve := Ends.with_inv (I := fun c => c.status = .idle) (observe_at (D := (· = v)) h rfl)
    (hidle.observe c h.status)
  unfold applyIfStale
  refine (hobserve.mono (fun _ _ h => h.1) fun _ _ h => h).bind_rule fun st c1 h1 => ?_
  obtain ⟨rfl, h1⟩ := h1
  refine Ends.bind_rule (Q := fun a c' => a = c1 ∧ c' = c1) ⟨rfl, rfl⟩ ?_
  rintro a c2 ⟨ha, hc⟩
  rw [ha, hc]
  have hwill : willRunInTransaction c1 (statusOf (.idle v)) = false := by
    simp [willRunInTransaction, statusOf, h1.autocommit]
  refine Ends.ite_rule (fun _ => ⟨rfl, h1⟩) fun _ => Ends.ite_rule (fun _ => ⟨rfl, h1⟩) fun _ =>
    Ends.ite_rule (fun _ => ⟨rfl, h1⟩) fun _ => Ends.ite_rule (fun _ => ⟨rfl, h1⟩) fun hno => ?_
  exact absurd (by simp [hlocal, hcontext, hwill]) hno

/-- **The wrapper on a statement that gets a transaction of its own.** -/
theorem guard_own_ends (hlocal : env.conf.useLocalSet = true) (hcontext : env.context.isSome = true)
    (hguarded : c.guarded = true) (hidle : Idle v c) (hctl : controlsTheTransaction (parse object) = false)
    (href : refusedInATransaction (parse object) = false) (hcmd : cmd.staysInside = true) :
    Ends (fun _ c' => Returned v cmd c') (fun e c' => Raised v cmd c e c') (guard env ⟨object, [cmd]⟩ c) := by
  have hat : At c (.idle v) 0 c :=
    ⟨hidle.link, hidle.pg, hidle.autocommit, hidle.outside, rfl, rfl, by simp, rfl⟩
  simp only [guard, hctl, Bool.false_eq_true, if_false, Bool.not_false, Bool.true_and]
  refine Ends.bind_rule (Q := fun st c' => st = .idle ∧ At c (.idle v) 0 c')
    ((applyIfStale_at hlocal hcontext hat).mono (fun _ _ h => h) fun e c1 h1 => ?_) fun st c1 h1 => ?_
  · exact ⟨.inl h1.2, .inl h1.1.durable, [], e, h1.1.raised, .inl rfl⟩
  obtain ⟨rfl, h1⟩ := h1
  refine Ends.bind_rule (Q := fun a c' => a = c1 ∧ c' = c1) ⟨rfl, rfl⟩ ?_
  rintro a c2 ⟨ha, hc⟩
  rw [ha, hc]
  have hown : needsOwnTransaction env c1 .idle (parse object) = true := by
    simp [needsOwnTransaction, hlocal, hcontext, h1.autocommit, h1.guarded, hguarded, href]
  simp only [hown, if_true]
  refine Ends.bind_rule (Q := fun _ c' => Returned v cmd c')
    (Ends.attempt_rule (runInOwnTransaction_at h1 hcmd) fun e c3 h3 => ?_) fun _ c3 h3 => ?_
  · rw [bind_run, forgetIfFollowed_run]
    exact ⟨h3.ended, h3.durable, h3.first⟩
  · obtain ⟨t, -, ht⟩ := afterStatement_data_run env.conf hctl .idle c3
    rw [bind_run, ht]
    exact ⟨⟨h3.idle.link, h3.idle.pg, h3.idle.autocommit, h3.idle.outside⟩, h3.ran⟩

end Whole

end RlsTenants
