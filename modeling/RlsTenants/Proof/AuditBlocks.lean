import RlsTenants.Spec.AuditBlocks

/-!
# The audit records of context blocks balance

* `Steady`: what a step of a block leaves as it was, and the tokens that it uses. Every
  entry is steady, and so is every program, whatever the logger raises.
* `exec_ordinary`: if the logger raises nothing but `Exception`s, a program does and logs
  what `Prog.result` and `Prog.records` say.
* **`blocks_balance`**: so the records balance, and each block is entered for itself; the
  attribution is put back in any case.
* `interrupt_unbalances`: a handler that raises a `KeyboardInterrupt` ends an entry whose
  record was handed over.
-/

namespace RlsTenants

namespace Audit

open PyText ContextVar Effect Effect.Comp

variable {L : Logging} {s s' s'' : State}

/-! ## Tokens -/

/-- Tokens that were used were handed out before. -/
def State.Sound (s : State) : Prop := ∀ i ∈ s.ledger.used, i < s.ledger.next

/-- `_origin` is what it was, and only tokens that are new were used. -/
structure Steady (s s' : State) : Prop where
  context : s'.context = s.context
  origin : s'.origin = s.origin
  next : s.ledger.next ≤ s'.ledger.next
  used : ∀ i ∈ s'.ledger.used, i ∈ s.ledger.used ∨ (s.ledger.next ≤ i ∧ i < s'.ledger.next)

theorem State.sound_start (context : ℕ) : (State.start context).Sound := by
  intro i hi
  cases hi

theorem Steady.refl (s : State) : Steady s s := ⟨rfl, rfl, Nat.le_refl _, fun _ hi => .inl hi⟩

theorem Steady.trans (h : Steady s s') (h' : Steady s' s'') : Steady s s'' where
  context := h'.context.trans h.context
  origin := h'.origin.trans h.origin
  next := Nat.le_trans h.next h'.next
  used := by
    intro i hi
    have hle := h.next
    have hle' := h'.next
    rcases h'.used i hi with hi | hi
    · rcases h.used i hi with hi | hi
      · exact .inl hi
      · right
        omega
    · right
      omega

theorem Steady.sound (h : Steady s s') (hs : s.Sound) : s'.Sound := by
  intro i hi
  have hle := h.next
  rcases h.used i hi with hi | hi
  · have hlt := hs i hi
    omega
  · exact hi.2

/-- A longer log changes nothing else. -/
theorem steady_log (s : State) (log : List Record) : Steady s { s with log := log } :=
  ⟨rfl, rfl, Nat.le_refl _, fun _ hi => .inl hi⟩

/-- A computation is steady if it is so from each state that it can be in. -/
theorem keeps_of_steady {α : Type} {s₀ : State} {m : Run α} (h : ∀ s, Steady s (m s).2) : Keeps (Steady s₀) m :=
  fun s hs => hs.trans (h s)

/-! ## The logger and the steps of a block -/

section Steps

variable {s₀ : State}

theorem raises_steady (e : Option Exn) : Keeps (Steady s₀) (raises e) := by
  cases e with
  | none => exact Keeps.pure_rule ()
  | some e => exact Keeps.raise_rule e

theorem onError_steady {α : Type} {m : Run α} {last : Run Unit} (hm : Keeps (Steady s₀) m)
    (hlast : Keeps (Steady s₀) last) : Keeps (Steady s₀) (onError m last) := by
  apply hm.attempt_rule
  intro e
  exact hlast.bind_rule fun _ => Keeps.raise_rule e

theorem hand_steady (L : Logging) (r : Record) : Keeps (Steady s₀) (hand L r) := by
  apply Keeps.bind_rule
  · exact keeps_of_steady fun s => steady_log s _
  intro _
  exact (Keeps.reads_rule _).bind_rule fun log => raises_steady _

theorem emit_steady (L : Logging) (r : Record) : Keeps (Steady s₀) (emit L r) := by
  apply Keeps.ite_rule
  · exact fun _ => Keeps.pure_rule ()
  intro _
  apply (hand_steady L r).attempt_rule
  intro e
  apply Keeps.ite_rule
  · intro _
    apply Keeps.attempt_rule
    · exact (Keeps.reads_rule _).bind_rule fun log => raises_steady _
    · exact fun e => Keeps.ite_rule (fun _ => Keeps.pure_rule ()) fun _ => Keeps.raise_rule e
  · exact fun _ => Keeps.raise_rule e

theorem contextEvent_steady (L : Logging) (event : Event) (origin : Origin) (tenantId : Value) (usingAlias : Str) :
    Keeps (Steady s₀) (contextEvent L event origin tenantId usingAlias) := by
  unfold contextEvent
  split
  · exact Keeps.pure_rule ()
  · exact emit_steady L _

theorem finish_steady (L : Logging) (f : Frame) (entered : Bool) : Keeps (Steady s₀) (finish L f entered) := by
  apply Keeps.bind_rule
  · apply (raises_steady _).ensuring_rule
    apply Keeps.ite_rule
    · exact fun _ => contextEvent_steady L _ _ _ _
    · exact fun _ => Keeps.pure_rule ()
  · exact fun _ => raises_steady _

theorem leave_steady (L : Logging) (f : Frame) : Keeps (Steady s₀) (leave L f) :=
  (raises_steady _).ensuring_rule (finish_steady L f true)

theorem enterBlock_steady (L : Logging) (f : Frame) : Keeps (Steady s₀) (enterBlock L f) := by
  apply (raises_steady _).bind_rule
  intro _
  apply Keeps.bind_rule
  · apply onError_steady _ (finish_steady L f false)
    apply onError_steady _ (raises_steady _)
    exact (raises_steady _).bind_rule fun _ => contextEvent_steady L _ _ _ _
  · exact fun _ => Keeps.pure_rule f

theorem tenantContext_steady (L : Logging) (tenantId : Value) (usingAlias : Str) (stages : Stages) :
    Keeps (Steady s₀) (tenantContext L tenantId usingAlias stages) := by
  refine (Keeps.reads_rule _).bind_rule fun origin => ?_
  apply Keeps.ite_rule
  · intro _
    unfold refuseTenantIdNone
    split
    · exact (emit_steady L _).bind_rule fun _ => Keeps.raise_rule _
    · exact (Keeps.pure_rule ()).bind_rule fun _ => Keeps.raise_rule _
  · exact fun _ => enterBlock_steady L _

theorem adminContext_steady (L : Logging) (usingAlias : Str) (stages : Stages) :
    Keeps (Steady s₀) (adminContext L usingAlias stages) :=
  (Keeps.reads_rule _).bind_rule fun _ => enterBlock_steady L _

end Steps

/-! ## Attribution -/

theorem resetOrigin_ok {token : Token Origin} (hid : token.id ∉ s.ledger.used) (hcontext : token.context = s.context) :
    resetOrigin token s =
      (.ok (), { s with origin := token.old, ledger := { s.ledger with used := token.id :: s.ledger.used } }) := by
  unfold resetOrigin Var.reset
  rw [if_neg hid, if_neg (not_not.mpr hcontext)]
  rfl

/-- The state in which `attributed` enters a block. -/
def State.attributing (s : State) (o : Origin) : State :=
  { s with origin := o, ledger := { s.ledger with next := s.ledger.next + 1 } }

/-- The state after `attributed`, which began in `s`. -/
def State.attributedFrom (s' s : State) : State :=
  { s' with origin := s.origin, ledger := { s'.ledger with used := s.ledger.next :: s'.ledger.used } }

/-- **The token of `attributed` is good**: it enters the block for another origin, and puts
the old one back however the entry ends. -/
theorem attributed_run {context : Run Frame} {source : Option Source} {userId : Value} (hs : s.Sound)
    (hsteady : Steady (s.attributing ⟨source, userId⟩) (context (s.attributing ⟨source, userId⟩)).2) :
    attributed L context source (.ok userId) s =
      ((context (s.attributing ⟨source, userId⟩)).1,
        (context (s.attributing ⟨source, userId⟩)).2.attributedFrom s) := by
  have hset : setOrigin ⟨source, userId⟩ s =
      (.ok ⟨s.ledger.next, s.context, s.origin⟩, s.attributing ⟨source, userId⟩) := rfl
  cases hrun : context (s.attributing ⟨source, userId⟩) with
  | mk r s' =>
    rw [hrun] at hsteady
    have hfresh : s.ledger.next ∉ s'.ledger.used := by
      intro hused
      rcases hsteady.used _ hused with hold | hnew
      · exact Nat.lt_irrefl _ (hs _ hold)
      · exact absurd hnew.1 (Nat.not_succ_le_self _)
    have hreset : resetOrigin ⟨s.ledger.next, s.context, s.origin⟩ s' = (.ok (), s'.attributedFrom s) :=
      resetOrigin_ok hfresh hsteady.context.symm
    unfold attributed
    simp only [ofUserId, bind_run, pure_run, hset, onError, attempt_run, hrun]
    cases r with
    | error e => simp only [hreset, raise_run]
    | ok f => simp only [hreset]

theorem steady_attributed {source : Option Source} {userId : Value}
    (h : Steady (s.attributing ⟨source, userId⟩) s') : Steady s (s'.attributedFrom s) where
  context := h.context
  origin := rfl
  next := Nat.le_of_succ_le h.next
  used := by
    intro i hi
    have hnext : s.ledger.next + 1 ≤ s'.ledger.next := h.next
    change i ∈ s.ledger.used ∨ (s.ledger.next ≤ i ∧ i < s'.ledger.next)
    rcases List.mem_cons.mp hi with rfl | hi
    · right
      omega
    · rcases h.used i hi with hold | hnew
      · exact .inl hold
      · have hge : s.ledger.next + 1 ≤ i := hnew.1
        right
        exact ⟨by omega, hnew.2⟩

/-- **Every entry puts the attribution back**, whatever the logger raises. -/
theorem enter_steady (L : Logging) (c : Context) : ∀ s : State, s.Sound → Steady s (c.enter L s).2 := by
  induction c with
  | tenantContext tenantId usingAlias stages =>
    exact fun s _ => tenantContext_steady L tenantId usingAlias stages s (Steady.refl s)
  | adminContext usingAlias stages => exact fun s _ => adminContext_steady L usingAlias stages s (Steady.refl s)
  | attributed context source user ih =>
    intro s hs
    cases user with
    | error e => exact Steady.refl s
    | ok userId =>
      have hinner := ih (s.attributing ⟨source, userId⟩) fun i hi => Nat.lt_succ_of_lt (hs i hi)
      have hrun : (Context.attributed context source (.ok userId)).enter L s = _ := attributed_run hs hinner
      rw [hrun]
      exact steady_attributed hinner

theorem enter_keeps {s₀ : State} (hs : s₀.Sound) (c : Context) : Keeps (Steady s₀) (c.enter L) :=
  fun s h => h.trans (enter_steady L c s (h.sound hs))

theorem exec_keeps {s₀ : State} (hs : s₀.Sound) (p : Prog) : Keeps (Steady s₀) (p.exec L) := by
  induction p with
  | pass => exact Keeps.pure_rule ()
  | raise e => exact Keeps.raise_rule e
  | seq p q ihp ihq => exact ihp.bind_rule fun _ => ihq
  | tryExcept p catches q ihp ihq =>
    apply ihp.attempt_rule
    intro e
    apply Keeps.ite_rule
    · exact fun _ => ihq
    · exact fun _ => Keeps.raise_rule e
  | tryFinally p q ihp ihq => exact ihp.ensuring_rule ihq
  | block context body ih =>
    apply (enter_keeps hs context).bind_rule
    intro f
    exact ih.ensuring_rule (leave_steady L f)

/-! ## Handlers that raise `Exception`s -/

/-- The records of blocks that the logger does not drop. -/
def kept (L : Logging) (l : List Record) : List Record := if L.isEnabledFor .info then l else []

theorem kept_append (l l' : List Record) : kept L (l ++ l') = kept L l ++ kept L l' := by
  unfold kept
  split
  · rfl
  · rfl

@[simp] theorem kept_nil : kept L [] = [] := ite_self _

/-- The state after the logger was handed some records. -/
def State.handed (s : State) (l : List Record) : State := { s with log := s.log ++ l }

@[simp] theorem handed_nil : s.handed [] = s := by
  unfold State.handed
  rw [List.append_nil]

theorem hand_run (r : Record) : hand L r s = raises (L.sink (s.handed [r]).log) (s.handed [r]) := rfl

/-- **An ordinary logger never stops the code that logs.** -/
theorem emit_ordinary (hL : L.Ordinary) (r : Record) (s : State) :
    emit L r s = (.ok (), s.handed (if L.isEnabledFor r.level then [r] else [])) := by
  unfold emit
  cases hlevel : L.isEnabledFor r.level with
  | false => simp
  | true =>
    simp only [Bool.not_true, Bool.false_eq_true, if_false, if_true, attempt_run, hand_run]
    cases hsink : L.sink (s.handed [r]).log with
    | none => rfl
    | some e =>
      have hexception := hL.sink _ e hsink
      simp only [raises, raise_run, hexception, if_true, suppress, attempt_run, bind_run, reads_run]
      cases hfallback : L.fallback (s.handed [r]).log with
      | none => rfl
      | some e' => simp only [raise_run, hL.fallback _ e' hfallback, if_true, pure_run]

theorem contextEvent_ordinary (hL : L.Ordinary) (event : Event) (f : Frame) (s : State) :
    contextEvent L event f.origin f.tenantId f.usingAlias s = (.ok (), s.handed (kept L (f.record event))) := by
  unfold contextEvent Frame.record
  cases f.origin.source with
  | none => simp
  | some source => exact emit_ordinary hL _ s

/-- The log has these records of blocks more. -/
structure Logs (L : Logging) (s s' : State) (l : List Record) : Prop where
  steady : Steady s s'
  log : contextRecords s'.log = contextRecords s.log ++ kept L l

theorem Logs.refl (s : State) : Logs L s s [] := ⟨Steady.refl s, by simp⟩

theorem Logs.trans {l l' : List Record} (h : Logs L s s' l) (h' : Logs L s' s'' l') : Logs L s s'' (l ++ l') where
  steady := h.steady.trans h'.steady
  log := by rw [h'.log, h.log, kept_append, List.append_assoc]

theorem contextRecords_record (f : Frame) {event : Event} (hevent : event = .contextEntered ∨ event = .contextExited) :
    contextRecords (kept L (f.record event)) = kept L (f.record event) := by
  unfold kept Frame.record
  split
  · split
    · rcases hevent with rfl | rfl
      · rfl
      · rfl
    · rfl
  · rfl

theorem logs_record (f : Frame) {event : Event} (hevent : event = .contextEntered ∨ event = .contextExited) (s : State) :
    Logs L s (s.handed (kept L (f.record event))) (f.record event) where
  steady := steady_log s _
  log := by
    have happend : contextRecords (s.handed (kept L (f.record event))).log =
        contextRecords s.log ++ contextRecords (kept L (f.record event)) := List.filter_append _ _
    rw [happend, contextRecords_record f hevent]

/-! ## Blocks -/

theorem raises_run (e : Option Exn) (s : State) :
    raises e s = (match e with | some e => .error e | none => .ok (), s) := by
  cases e with
  | none => rfl
  | some e => rfl

/-- The records of an entry: none, if it fails. -/
def opening : Except Exn Frame → List Record
  | .ok f => f.record .contextEntered
  | .error _ => []

theorem finish_failed (f : Frame) (s : State) :
    finish L f false s = (match f.stages.restore.or f.stages.debug with | some e => .error e | none => .ok (), s) := by
  unfold finish
  simp only [Bool.false_eq_true, if_false, bind_run, ensuring, raises_run, pure_run]
  cases f.stages.restore with
  | some e => rfl
  | none => rfl

theorem finish_entered (hL : L.Ordinary) (f : Frame) (s : State) :
    finish L f true s = (match f.stages.restore.or f.stages.debug with | some e => .error e | none => .ok (),
      s.handed (kept L (f.record .contextExited))) := by
  unfold finish
  simp only [if_true, bind_run, ensuring, raises_run, contextEvent_ordinary hL]
  cases f.stages.restore with
  | some e => rfl
  | none => rfl

theorem leave_ordinary (hL : L.Ordinary) (f : Frame) (s : State) :
    leave L f s = (match f.stages.ending with | some e => .error e | none => .ok (),
      s.handed (kept L (f.record .contextExited))) := by
  unfold leave Stages.ending
  simp only [ensuring, raises_run, finish_entered hL]
  cases f.stages.restore.or f.stages.debug with
  | some e => rfl
  | none => rfl

/-- **A block logs its entry exactly if it is entered.** -/
theorem enterBlock_ordinary (hL : L.Ordinary) (f : Frame) (s : State) :
    enterBlock L f s = (f.entry, s.handed (kept L (opening f.entry))) := by
  unfold enterBlock Frame.entry
  simp only [bind_run, raises_run, onError, attempt_run]
  cases f.stages.snapshot with
  | some e => simp [opening]
  | none =>
    cases f.stages.entry with
    | none =>
      simp only [contextEvent_ordinary hL, pure_run]
      rfl
    | some e =>
      simp only [Stages.ending]
      -- the reset, the restore and the debug line run, and the last to raise counts
      cases hreset : f.stages.reset with
      | none =>
        simp only [raise_run, finish_failed]
        cases f.stages.restore.or f.stages.debug with
        | none => simp [opening]
        | some e' => simp [opening]
      | some e' =>
        simp only [finish_failed]
        cases f.stages.restore.or f.stages.debug with
        | none => simp [opening]
        | some e'' => simp [opening]

theorem enterBlock_logs (hL : L.Ordinary) (f : Frame) (s : State) :
    ∃ s', enterBlock L f s = (f.entry, s') ∧ Logs L s s' (opening f.entry) := by
  refine ⟨_, enterBlock_ordinary hL f s, ?_⟩
  cases hentry : f.entry with
  | error e => simpa [opening] using Logs.refl s
  | ok f' => exact logs_record f' (.inl rfl) s

/-- The refusal of a tenant that is `None` is no record of a block. -/
theorem refuse_logs (hL : L.Ordinary) (origin : Origin) (s : State) :
    ∃ s', refuseTenantIdNone L origin s = (.error noTenantContext, s') ∧ Logs L s s' [] := by
  unfold refuseTenantIdNone
  cases origin.source with
  | none => exact ⟨s, rfl, Logs.refl s⟩
  | some source =>
    simp only [bind_run, emit_ordinary hL, raise_run]
    refine ⟨_, rfl, steady_log s _, ?_⟩
    have happend : ∀ l, contextRecords (s.handed l).log = contextRecords s.log ++ contextRecords l :=
      fun l => List.filter_append _ _
    rw [happend, kept_nil]
    congr 1
    split
    · rfl
    · rfl

/-- **A block is entered for its own origin**, and logs so. -/
theorem enter_logs (hL : L.Ordinary) (c : Context) : ∀ s : State, s.Sound →
    ∃ s', c.enter L s = (c.entry s.origin, s') ∧ Logs L s s' (opening (c.entry s.origin)) := by
  induction c with
  | tenantContext tenantId usingAlias stages =>
    intro s _
    unfold Context.entry
    by_cases hnone : tenantId = .none
    · have hrun : (Context.tenantContext tenantId usingAlias stages).enter L s = refuseTenantIdNone L s.origin s := by
        simp only [Context.enter, Audit.tenantContext, bind_run, currentOrigin, reads_run, if_pos hnone]
      rw [hrun, if_pos hnone]
      exact refuse_logs hL s.origin s
    · have hrun : (Context.tenantContext tenantId usingAlias stages).enter L s =
          enterBlock L ⟨s.origin, tenantId, usingAlias, stages⟩ s := by
        simp only [Context.enter, Audit.tenantContext, bind_run, currentOrigin, reads_run, if_neg hnone]
      rw [hrun, if_neg hnone]
      exact enterBlock_logs hL _ s
  | adminContext usingAlias stages => exact fun s _ => enterBlock_logs hL ⟨s.origin, .none, usingAlias, stages⟩ s
  | attributed context source user ih =>
    intro s hs
    cases user with
    | error e => exact ⟨s, rfl, Logs.refl s⟩
    | ok userId =>
      obtain ⟨s', hrun, hlogs⟩ := ih (s.attributing ⟨source, userId⟩) fun i hi => Nat.lt_succ_of_lt (hs i hi)
      have hsteady : Steady (s.attributing ⟨source, userId⟩) (context.enter L (s.attributing ⟨source, userId⟩)).2 := by
        rw [hrun]
        exact hlogs.steady
      refine ⟨s'.attributedFrom s, ?_, steady_attributed hlogs.steady, hlogs.log⟩
      have hattributed : (Context.attributed context source (.ok userId)).enter L s = _ := attributed_run hs hsteady
      rw [hattributed, hrun]
      rfl

/-! ## Programs -/

/-- **A program does and logs what it is meant to.** -/
theorem exec_ordinary (hL : L.Ordinary) (p : Prog) : ∀ s : State, s.Sound → s.origin = direct →
    ∃ s', p.exec L s = (p.result, s') ∧ Logs L s s' p.records := by
  induction p with
  | pass => exact fun s _ _ => ⟨s, rfl, Logs.refl s⟩
  | raise e => exact fun s _ _ => ⟨s, rfl, Logs.refl s⟩
  | seq p q ihp ihq =>
    intro s hs hdirect
    obtain ⟨s₁, hp, hlogs⟩ := ihp s hs hdirect
    simp only [Prog.exec, Prog.result, Prog.records, bind_run, hp]
    cases p.result with
    | error e => exact ⟨s₁, rfl, hlogs⟩
    | ok =>
      obtain ⟨s₂, hq, hlogs'⟩ := ihq s₁ (hlogs.steady.sound hs) (hlogs.steady.origin.trans hdirect)
      exact ⟨s₂, hq, hlogs.trans hlogs'⟩
  | tryExcept p catches q ihp ihq =>
    intro s hs hdirect
    obtain ⟨s₁, hp, hlogs⟩ := ihp s hs hdirect
    simp only [Prog.exec, Prog.result, Prog.records, attempt_run, hp]
    cases p.result with
    | ok => exact ⟨s₁, rfl, hlogs⟩
    | error e =>
      simp only
      cases hcatches : catches e with
      | false => exact ⟨s₁, rfl, hlogs⟩
      | true =>
        simp only [if_true]
        obtain ⟨s₂, hq, hlogs'⟩ := ihq s₁ (hlogs.steady.sound hs) (hlogs.steady.origin.trans hdirect)
        exact ⟨s₂, hq, hlogs.trans hlogs'⟩
  | tryFinally p q ihp ihq =>
    intro s hs hdirect
    obtain ⟨s₁, hp, hlogs⟩ := ihp s hs hdirect
    obtain ⟨s₂, hq, hlogs'⟩ := ihq s₁ (hlogs.steady.sound hs) (hlogs.steady.origin.trans hdirect)
    refine ⟨s₂, ?_, hlogs.trans hlogs'⟩
    simp only [Prog.exec, Prog.result, ensuring, hp, hq]
    cases q.result with
    | ok => rfl
    | error e => rfl
  | block context body ih =>
    intro s hs hdirect
    obtain ⟨s₁, henter, hopen⟩ := enter_logs hL context s hs
    rw [hdirect] at henter hopen
    simp only [Prog.exec, Prog.result, Prog.records, bind_run, henter]
    cases hentry : context.entry direct with
    | error e =>
      rw [hentry] at hopen
      exact ⟨s₁, rfl, hopen⟩
    | ok f =>
      rw [hentry] at hopen
      -- the body starts with the origin that the block found
      obtain ⟨s₂, hbody, hlogs⟩ := ih s₁ (hopen.steady.sound hs) (hopen.steady.origin.trans hdirect)
      refine ⟨s₂.handed (kept L (f.record .contextExited)), ?_, (hopen.trans hlogs).trans (logs_record f (.inr rfl) s₂)⟩
      simp only [ensuring, hbody, leave_ordinary hL, Frame.after]
      cases f.stages.ending with
      | some e => rfl
      | none => rfl

/-! ## Balance -/

theorem balanced_block (f : Frame) {l : List Record} (hl : Balanced l) :
    Balanced (f.record .contextEntered ++ l ++ f.record .contextExited) := by
  unfold Frame.record
  split
  · exact Balanced.pair (contextRecord .contextEntered _ _ _ _) rfl hl
  · simpa using hl

theorem balanced_records (p : Prog) : Balanced p.records := by
  induction p with
  | pass => exact .nil
  | raise e => exact .nil
  | seq p q ihp ihq =>
    unfold Prog.records
    split
    · exact ihp.append ihq
    · exact ihp
  | tryExcept p catches q ihp ihq =>
    unfold Prog.records
    split
    · exact ihp
    · split
      · exact ihp.append ihq
      · exact ihp
  | tryFinally p q ihp ihq => exact ihp.append ihq
  | block context body ih =>
    unfold Prog.records
    split
    · exact balanced_block _ ih
    · exact .nil

theorem balanced_kept {l : List Record} (hl : Balanced l) : Balanced (kept L l) := by
  unfold kept
  split
  · exact hl
  · exact .nil

/-- Every entry puts the attribution back, failed or not, and so does every program. -/
structure Restores (L : Logging) : Prop where
  entry : ∀ (c : Context) (s : State), s.Sound → (c.enter L s).2.origin = s.origin
  program : ∀ (p : Prog) (s : State), s.Sound → (p.exec L s).2.origin = s.origin

theorem restores (L : Logging) : Restores L where
  entry := fun c s hs => (enter_steady L c s hs).origin
  program := fun p s hs => (exec_keeps hs p s (Steady.refl s)).origin

/-- What the logs of all programs of blocks are. -/
structure BlocksBalance (L : Logging) : Prop where
  records : ∀ (p : Prog) (context : ℕ),
    contextRecords (p.exec L (.start context)).2.log = if L.isEnabledFor .info then p.records else []
  balanced : ∀ (p : Prog) (context : ℕ), Balanced (contextRecords (p.exec L (.start context)).2.log)
  result : ∀ (p : Prog) (context : ℕ), (p.exec L (.start context)).1 = p.result

/-- **The records of blocks balance**: every entry puts the attribution back, whatever the
handlers raise; and if they raise nothing but `Exception`s, a program logs the two records of
each block that is entered and not silenced around those of its body, each block for itself. -/
theorem blocks_balance (L : Logging) : Restores L ∧ (L.Ordinary → BlocksBalance L) := by
  refine ⟨restores L, ?_⟩
  intro hL
  have hexec : ∀ (p : Prog) (context : ℕ), ∃ s', p.exec L (.start context) = (p.result, s') ∧
      contextRecords s'.log = kept L p.records := by
    intro p context
    obtain ⟨s', hrun, hlogs⟩ := exec_ordinary hL p (.start context) (State.sound_start context) rfl
    exact ⟨s', hrun, hlogs.log⟩
  refine ⟨?_, ?_, ?_⟩
  · intro p context
    obtain ⟨s', hrun, hlog⟩ := hexec p context
    rw [hrun]
    exact hlog
  · intro p context
    obtain ⟨s', hrun, hlog⟩ := hexec p context
    rw [hrun, hlog]
    exact balanced_kept (balanced_records p)
  · intro p context
    obtain ⟨s', hrun, -⟩ := hexec p context
    rw [hrun]

theorem Balanced.even {l : List Record} (h : Balanced l) : l.length % 2 = 0 := by
  induction h with
  | nil => rfl
  | pair r hr hl ih =>
    simp only [List.length_append, List.length_cons, List.length_nil]
    omega
  | append hl hl' ih ih' =>
    rw [List.length_append]
    omega

/-! ## A handler that fails, and one that is interrupted -/

/-- A logger whose handler raises an `Exception` at each record. -/
def brokenLogging : Logging := ⟨fun _ => true, fun _ => some ⟨"OSError", true⟩, fun _ => some ⟨"OSError", true⟩⟩

/-- A logger whose handler is interrupted at the first record. -/
def interruptedLogging : Logging :=
  ⟨fun _ => true, fun log => if log.length = 1 then some ⟨"KeyboardInterrupt", false⟩ else none, fun _ => none⟩

/-- A block of tenant 1 whose steps all succeed. -/
def tenantOne : Context := .tenantContext (.int 1) [] ⟨none, none, none, none, none⟩

/-- A broken handler loses no balance, and an interrupted one no attribution: the entry of an
attributed block fails, and code is `direct` again. -/
theorem blocks_balance_broken : BlocksBalance brokenLogging ∧
    ((Context.attributed tenantOne (some .celery) (.ok (.int 7))).enter interruptedLogging (.start 0)).2.origin =
      direct :=
  ⟨(blocks_balance brokenLogging).2 ⟨fun _ _ he => by cases he; rfl, fun _ _ he => by cases he; rfl⟩,
    (blocks_balance interruptedLogging).1.entry _ _ (State.sound_start 0)⟩

def tenantBlock : Prog := .block tenantOne .pass

theorem interrupt_unbalances :
    ¬ Balanced (contextRecords (tenantBlock.exec interruptedLogging (.start 0)).2.log) := by
  intro hbalanced
  have heven := hbalanced.even
  have hlength : (contextRecords (tenantBlock.exec interruptedLogging (.start 0)).2.log).length = 1 := by decide +kernel
  omega

end Audit

end RlsTenants
