import RlsTenants.Spec.Nesting
import RlsTenants.Proof.ExitRecords

/-!
# Well-nested programs come back

A block that is left before anything entered earlier leaves the thread in the context that
encloses it.

* `Scope.Back s s'`: the variables are what they were, and so are the holders that there were.
  A block keeps it (`exitContext_back`), with whatever its body has left, and so does a program
  (`Program.acts_back`).
* `Running.BackIn`: so is what the next statement sees, whatever the transactions do first.
* **`programs_come_back`**: every block of every program, if the connections stay right.
* `failed_restore_left`: an administrator's block whose restore fails, in a user's scope.
-/

namespace RlsTenants

open Txn Effect Comp ContextVar

/-! ## The context variables -/

/-- Back where it was: there may be more holders, and more tokens handed out and used. -/
structure Scope.Back (s s' : Scope) : Prop where
  context : s'.context = s.context
  vars : s'.vars = s.vars
  length : s.store.lives.length ≤ s'.store.lives.length
  lives : ∀ i < s.store.lives.length, s'.store.lives[i]? = s.store.lives[i]?
  next : s.store.ledger.next ≤ s'.store.ledger.next
  used : ∀ id ∈ s'.store.ledger.used,
    id ∈ s.store.ledger.used ∨ s.store.ledger.next ≤ id ∧ id < s'.store.ledger.next

namespace Scope

variable {s s' s'' : Scope}

theorem Back.refl (s : Scope) : s.Back s := ⟨rfl, rfl, Nat.le_refl _, fun _ _ => rfl, Nat.le_refl _, fun _ h => .inl h⟩

theorem Back.trans (h : s.Back s') (h' : s'.Back s'') : s.Back s'' where
  context := h'.context.trans h.context
  vars := h'.vars.trans h.vars
  length := Nat.le_trans h.length h'.length
  lives i hi := (h'.lives i (Nat.lt_of_lt_of_le hi h.length)).trans (h.lives i hi)
  next := Nat.le_trans h.next h'.next
  used id hid := by
    have hnext := h.next
    have hnext' := h'.next
    rcases h'.used id hid with hid | hid
    · rcases h.used id hid with hid | hid
      · exact .inl hid
      · exact .inr (by omega)
    · exact .inr (by omega)

theorem Back.ok (h : s.Back s') (hs : s.Ok) : s'.Ok where
  live i hi := by
    rw [h.vars] at hi
    exact Nat.lt_of_lt_of_le (hs.live i hi) h.length
  used id hid := by
    have hnext := h.next
    rcases h.used id hid with hid | hid
    · have := hs.used id hid
      omega
    · exact hid.2

/-- The active context is the same. -/
theorem Back.contextGucs (h : s.Back s') (hs : s.Ok) : s'.contextGucs = s.contextGucs := by
  unfold Scope.contextGucs Store.valuesOf
  rw [h.vars]
  cases hl : s.vars.live with
  | none => rfl
  | some i => simp only [Option.bind_some, h.lives i (hs.live i hl)]

/-- The tokens of a block that is entered here. -/
def handsOut (s : Scope) : StateTokens :=
  ⟨⟨s.store.ledger.next, s.context, s.vars.active⟩, ⟨s.store.ledger.next + 1, s.context, s.vars.tenantId⟩,
    ⟨⟨s.store.ledger.next + 2, s.context, s.vars.live⟩, s.store.lives.length⟩⟩

/-- In it. -/
def inside (active : Bool) (tenantId : Option TenantId) (gucs : Option ContextGucs) (s : Scope) : Scope :=
  ⟨s.context, ⟨tenantId, active, some s.store.lives.length⟩,
    ⟨s.store.lives ++ [⟨gucs, true, true⟩], ⟨s.store.ledger.next + 3, s.store.ledger.used⟩⟩⟩

theorem Ok.inside (hs : s.Ok) (active : Bool) (tenantId : Option TenantId) (gucs : Option ContextGucs) :
    (s.inside active tenantId gucs).Ok where
  live i hi := by
    obtain rfl : s.store.lives.length = i := Option.some.inj hi
    show _ < (s.store.lives ++ [_]).length
    simp
  used id hid := by
    have hlt := hs.used id hid
    show id < s.store.ledger.next + 3
    omega

/-- It has been left. -/
def left (s now : Scope) : Scope :=
  ⟨s.context, s.vars, useToken s.handsOut.active.id (useToken s.handsOut.tenant.id
    (useToken s.handsOut.entered.token.id (now.store.endLive s.store.lives.length)))⟩

end Scope

section States

variable {s : Scope} {t : Thread} {active : Bool} {tenantId : Option TenantId} {gucs : Option ContextGucs}

theorem inScope_ok {α : Type} {m : Comp Scope TokenError α} {a : α} (h : m t.scope = (.ok a, s)) :
    inScope m t = (.ok a, { t with scope := s }) := by
  simp only [inScope, h]

theorem ensuring_ok {σ ε α : Type} {m : Comp σ ε α} {last : Comp σ ε Unit} {x y z : σ} {a : α} (h : m x = (.ok a, y))
    (hl : last y = (.ok (), z)) : ensuring m last x = (.ok a, z) := by
  simp only [ensuring, h, hl]

/-- **The tokens of a block are still good** when what was entered in it has been left. -/
theorem exitState_run (hs : s.Ok) (h : (s.inside active tenantId gucs).Back t.scope) :
    exitState s.handsOut t = (.ok (), { t with scope := s.left t.scope }) := by
  have hfresh : ∀ k < 3, s.store.ledger.next + k ∉ t.scope.store.ledger.used := by
    intro k hk hused
    rcases h.used _ hused with hid | ⟨hid, -⟩
    · have := hs.used _ hid
      omega
    · have : s.store.ledger.next + 3 ≤ s.store.ledger.next + k := hid
      omega
  have hlive : t.scope.vars.live = some s.store.lives.length := congrArg Vars.live h.vars
  refine ensuring_ok (inScope_ok (Scope.resetContextGucs_ok (hfresh 2 (by omega)) h.context.symm)) ?_
  refine ensuring_ok (inScope_ok (Scope.resetVar_ok ?_ h.context.symm)) ?_
  · simp [hlive, Store.endIfNewer, Scope.useToken, Scope.handsOut, hfresh 1 (by omega)]
  refine (inScope_ok (Scope.resetVar_ok ?_ h.context.symm)).trans ?_
  · simp [hlive, Store.endIfNewer, Scope.useToken, Scope.handsOut, show s.store.ledger.next ∉ t.scope.store.ledger.used from hfresh 0 (by omega)]
  · simp [hlive, Store.endIfNewer, Scope.left, Scope.handsOut, Vars.tenantIdVar, Vars.activeVar, h.context, Scope.inside]

theorem left_back (h : (s.inside active tenantId gucs).Back t.scope) : s.Back (s.left t.scope) where
  context := rfl
  vars := rfl
  length := by
    have hlength := h.length
    simp [Scope.inside, Scope.left] at hlength ⊢
    omega
  lives i hi := by
    have hkept := h.lives i (by simp [Scope.inside]; omega)
    simp only [Scope.left, Scope.useToken_lives, Store.endLive_getElem?, if_neg (show ¬s.store.lives.length = i by omega)]
    rw [hkept]
    exact List.getElem?_append_left hi
  next := by
    have hnext : s.store.ledger.next + 3 ≤ t.scope.store.ledger.next := h.next
    show s.store.ledger.next ≤ t.scope.store.ledger.next
    omega
  used id hid := by
    have hnext : s.store.ledger.next + 3 ≤ t.scope.store.ledger.next := h.next
    have hid : id ∈ s.store.ledger.next :: (s.store.ledger.next + 1) :: (s.store.ledger.next + 2) ::
        t.scope.store.ledger.used := hid
    show id ∈ s.store.ledger.used ∨ s.store.ledger.next ≤ id ∧ id < t.scope.store.ledger.next
    simp only [List.mem_cons] at hid
    rcases hid with rfl | rfl | rfl | hid
    · exact .inr (by omega)
    · exact .inr (by omega)
    · exact .inr (by omega)
    · rcases h.used id hid with hid | ⟨hle, hlt⟩
      · exact .inl hid
      · have : s.store.ledger.next + 3 ≤ id := hle
        exact .inr (by omega)

end States

/-! ## Blocks -/

section Threads

variable {s : Scope} {t : Thread} {dbAlias : ℕ}

/-- The context variables and the holders are these. -/
def InScope (s : Scope) (t : Thread) : Prop := t.scope = s

theorem on_inScope {α : Type} (m : Env → Db α) : Keeps (InScope s) (on dbAlias m) := by
  intro t ht
  unfold on
  split
  · exact ht
  · exact ht

theorem onConfigured_inScope {f : ℕ → Prog Unit} (h : ∀ dbAlias, Keeps (InScope s) (f dbAlias)) :
    Keeps (InScope s) (onConfigured f) := .bind_rule (.reads_rule _) fun _ => .each_rule fun dbAlias _ => h dbAlias

theorem settleOtherAliases_inScope (dbAlias? : Option ℕ) (cleared : Bool) :
    Keeps (InScope s) (settleOtherAliases dbAlias? cleared) :=
  onConfigured_inScope fun _ => .ite_rule (fun _ => .pure_rule _) fun _ => on_inScope _

theorem suspectSessions_inScope (underLocalValues : Bool) : Keeps (InScope s) (suspectSessions underLocalValues) :=
  onConfigured_inScope fun _ => on_inScope _

theorem restoreSnapshot_inScope (f : Frame) (previous : List (Guc × Option String)) (pending : Bool) :
    Keeps (InScope s) (restoreSnapshot f previous pending) := by
  have hsettle : Keeps (InScope s) (settleOtherAliases (some f.dbAlias) false) := settleOtherAliases_inScope _ _
  have hforget : Keeps (InScope s) (do
      on f.dbAlias fun _ => forget
      settleOtherAliases (some f.dbAlias) false) := (on_inScope _).bind_rule fun _ => hsettle
  refine .bind_rule (.reads_rule _) fun t => .ite_rule (fun _ => .ite_rule (fun _ => ?_) fun _ => hforget) fun _ => ?_
  · exact (on_inScope _).bind_rule fun _ => hsettle
  · exact (on_inScope _).bind_rule fun _ => .ite_rule (fun _ => hforget) fun _ => hsettle

theorem restoreTenantGucs_inScope (f : Frame) (pending : Bool) : Keeps (InScope s) (restoreTenantGucs f pending) := by
  refine .bind_rule (.reads_rule _) fun isLocal => .ensuring_rule ?_ ?_
  · cases f.previous with
    | none => exact settleOtherAliases_inScope _ _
    | some previous => exact restoreSnapshot_inScope f previous pending
  · exact .ite_rule (fun _ => suspectSessions_inScope _) fun _ => .pure_rule _

theorem settleAfterNoContext_inScope : Keeps (InScope s) settleAfterNoContext :=
  .bind_rule (.reads_rule _) fun _ => (suspectSessions_inScope _).ensuring_rule (settleOtherAliases_inScope _ _)

variable {active : Bool} {tenantId : Option TenantId} {gucs : Option ContextGucs}

/-- **A block is left** where it was entered. -/
theorem exitContext_back {f : Frame} (hs : s.Ok) (hf : f.tokens = s.handsOut)
    (h : (s.inside active tenantId gucs).Back t.scope) (pending : Bool) : s.Back (exitContext f pending t).2.scope := by
  have hleft : (exitContext f pending t).2.scope = s.left t.scope := by
    rw [exitContext, bind_run, attempt_run, hf, exitState_run hs h]
    exact restoreTenantGucs_inScope f pending _ rfl
  rw [hleft]
  exact left_back h

attribute [local irreducible] exitState settleAfterNoContext in
/-- So is one without context. -/
theorem exitNoContext_back {tokens : StateTokens} (hs : s.Ok) (htokens : tokens = s.handsOut)
    (h : (s.inside active tenantId gucs).Back t.scope) : s.Back (exitNoContext tokens t).2.scope := by
  have hstate : Ends (fun _ => InScope (s.left t.scope)) (fun _ => InScope (s.left t.scope)) (exitState tokens t) := by
    rw [htokens, exitState_run hs h]
    exact rfl
  have hends : Ends (fun _ => InScope (s.left t.scope)) (fun _ => InScope (s.left t.scope)) (exitNoContext tokens t) :=
    Ends.ensuring_rule hstate (fun _ => settleAfterNoContext_inScope.triple) fun _ => settleAfterNoContext_inScope.triple
  have hleft : (exitNoContext tokens t).2.scope = s.left t.scope := hends.inv
  rw [hleft]
  exact left_back h

/-- A block is entered, or nothing has changed. -/
def Entered (s : Scope) : Except Exc Frame × Thread → Prop :=
  Ends (fun f t => f.tokens = s.handsOut ∧ ∃ tenantId gucs, t.scope = s.inside true tenantId gucs) fun _ t => s.Back t.scope

attribute [local irreducible] exitContext in
theorem enterBlock_entered (hs : t.scope.Ok) (tenantId : Option TenantId) (gucs : ContextGucs)
    (previous : Option (List (Guc × Option String))) (writes : List (Guc × String)) :
    Entered t.scope (enterBlock dbAlias tenantId gucs previous writes t) := by
  have henter : Ends (fun tokens => fun t' => tokens = t.scope.handsOut ∧ InScope (t.scope.inside true tenantId (some gucs)) t')
      (fun _ t' => t.scope.Back t'.scope) (enterState true tenantId (some gucs) t) := ⟨rfl, rfl⟩
  unfold enterBlock
  refine Ends.bind_rule (Q := fun a t' => a = t ∧ t' = t) ⟨rfl, rfl⟩ ?_
  rintro a t' ⟨ha, hat⟩
  rw [ha, hat]
  refine henter.bind_rule ?_
  rintro tokens t' ⟨htokens, ht'⟩
  cases previous with
  | none => exact ⟨htokens, tenantId, some gucs, ht'⟩
  | some values =>
    refine Ends.bind_rule (Q := fun _ => InScope (t.scope.inside true tenantId (some gucs)))
      (Ends.attempt_rule (.of_inv (on_inScope _ _ ht')) fun e t'' ht'' => ?_)
      fun _ t'' ht'' => ⟨htokens, tenantId, some gucs, ht''⟩
    have hhere : (t.scope.inside true tenantId (some gucs)).Back t''.scope := by
      rw [show t''.scope = _ from ht'']
      exact .refl _
    have hback : Ends (fun _ (t' : Thread) => t.scope.Back t'.scope) (fun _ t' => t.scope.Back t'.scope)
        (exitContext ⟨dbAlias, tokens, some values, t.sessionOf dbAlias, t.scope.vars.live⟩ true t'') :=
      .of_inv (exitContext_back hs htokens hhere true)
    exact hback.bind_rule fun _ _ h => h

/-- What a block reads before it is entered changes no variables. -/
theorem entry_entered {m : List (Guc × Option String) → Prog Frame} {silent : Prog Frame}
    (hm : ∀ previous t', t'.scope = t.scope → Entered t.scope (m previous t')) (hsilent : Entered t.scope (silent t)) :
    Entered t.scope ((do
      if ← reads (·.writesGucs dbAlias) then
        let previous ← on dbAlias snapshotGucs
        m previous
      else silent : Prog Frame) t) := by
  simp only [Entered, bind_run, reads_run]
  refine Ends.ite_rule (fun _ => ?_) fun _ => hsilent
  have hread : Ends (fun _ => InScope t.scope) (fun _ => InScope t.scope) (on dbAlias snapshotGucs t) :=
    .of_inv (on_inScope _ t rfl)
  refine (hread.mono (fun _ _ h => h) fun _ t' ht' => ?_).bind_rule fun previous t' ht' => hm previous t' ht'
  rw [show t'.scope = t.scope from ht']
  exact .refl _

theorem enter_entered (block : ContextBlock) (hs : t.scope.Ok) : Entered t.scope (block.enter dbAlias t) := by
  have hblock : ∀ tenantId gucs previous writes t', t'.scope = t.scope →
      Entered t.scope (enterBlock dbAlias tenantId gucs previous writes t') := by
    intro tenantId gucs previous writes t' ht'
    rw [← ht'] at hs ⊢
    exact enterBlock_entered hs tenantId gucs previous writes
  cases block with
  | tenant tenantId => exact entry_entered (fun _ t' ht' => hblock _ _ _ _ t' ht') (hblock _ _ _ _ t rfl)
  | admin => exact entry_entered (fun _ t' ht' => hblock _ _ _ _ t' ht') (hblock _ _ _ _ t rfl)
  | user tenantId gucs => exact entry_entered (fun _ t' ht' => hblock _ _ _ _ t' ht') (hblock _ _ _ _ t rfl)

end Threads

/-! ## Programs -/

section Programs

variable {conf : Conf} {s : Running}

/-- Blocks that have been left stay in the lists, and new ones come first. -/
def Running.Adds (s s' : Running) : Prop := s.blocks <:+ s'.blocks ∧ s.noContexts <:+ s'.noContexts

theorem does_adds (s : Running) (m : Prog Unit) : s.Adds (s.does m) := ⟨List.suffix_refl _, List.suffix_refl _⟩

theorem enters_adds (s : Running) (m : Prog Frame) : s.Adds (s.enters m) := by
  unfold Running.enters
  split
  · exact ⟨List.suffix_cons _ _, List.suffix_refl _⟩
  · exact ⟨List.suffix_refl _, List.suffix_refl _⟩

attribute [local irreducible] Running.does Running.enters in
theorem act_adds (s : Running) (a : Act) : s.Adds (s.act a) := by
  obtain ⟨d, fates⟩ := a
  suffices h : (s.withFates fates).Adds ((s.withFates fates).step d) from h
  generalize s.withFates fates = s'
  cases d with
  | enter dbAlias block => exact enters_adds s' _
  | exit i pending =>
    simp only [Running.step]
    cases s'.blocks[i]? with
    | none => exact ⟨List.suffix_refl _, List.suffix_refl _⟩
    | some f => exact does_adds s' _
  | enterNoContext => exact ⟨List.suffix_refl _, List.suffix_cons _ _⟩
  | exitNoContext i =>
    simp only [Running.step]
    cases s'.noContexts[i]? with
    | none => exact ⟨List.suffix_refl _, List.suffix_refl _⟩
    | some tokens => exact does_adds s' _
  | switch scope => exact ⟨List.suffix_refl _, List.suffix_refl _⟩
  | _ => exact does_adds s' _

theorem acts_adds (s : Running) (as : List Act) : s.Adds (s.acts as) := by
  refine Run.run_keeps (I := s.Adds) (fun s' a h => ?_) ⟨List.suffix_refl _, List.suffix_refl _⟩ as
  have hstep := act_adds s' a
  exact ⟨h.1.trans hstep.1, h.2.trans hstep.2⟩

/-- The newest entry of a list, found again when others have come before it. -/
theorem found_again {α : Type} {a : α} {l entered now : List α} (h : entered = a :: l) (hadds : entered <:+ now) :
    now[now.length - entered.length]? = some a := by
  obtain ⟨new, rfl⟩ := hadds
  rw [List.length_append, Nat.add_sub_cancel, List.getElem?_append_right (Nat.le_refl _), Nat.sub_self, h]
  rfl

theorem does_inScope {m : Prog Unit} (h : Keeps (InScope s.thread.scope) m) : (s.does m).thread.scope = s.thread.scope :=
  h _ rfl

attribute [local irreducible] Running.does in
/-- The other deeds leave the variables alone. -/
theorem act_plain {d : Deed} (hd : d.isPlain = true) (fates : ℕ → List Fate) (s : Running) :
    (s.act ⟨d, fates⟩).thread.scope = s.thread.scope := by
  suffices h : ((s.withFates fates).step d).thread.scope = (s.withFates fates).thread.scope from h
  generalize s.withFates fates = s'
  cases d with
  | enter dbAlias block => cases hd
  | exit i pending => cases hd
  | enterNoContext => cases hd
  | exitNoContext i => cases hd
  | switch scope => cases hd
  | suspectSessions => exact does_inScope (suspectSessions_inScope _)
  | _ => exact does_inScope (on_inScope _)

/-- A block that has been entered, with the frame to leave it. -/
def EntersBlock (s entered : Running) : Prop :=
  ∃ f tenantId gucs, entered.blocks = f :: s.blocks ∧ f.tokens = s.thread.scope.handsOut ∧
    entered.thread.scope = s.thread.scope.inside true tenantId gucs

theorem EntersBlock.ok {entered : Running} (h : EntersBlock s entered) (hs : s.thread.scope.Ok) : entered.thread.scope.Ok := by
  obtain ⟨f, tenantId, gucs, -, -, hscope⟩ := h
  exact hscope ▸ hs.inside true tenantId gucs

attribute [local irreducible] ContextBlock.enter in
theorem act_enter (hs : s.thread.scope.Ok) (dbAlias : ℕ) (b : ContextBlock) (fates : ℕ → List Fate) :
    (s.Refused (s.act ⟨.enter dbAlias b, fates⟩) ∧
        s.thread.scope.Back (s.act ⟨.enter dbAlias b, fates⟩).thread.scope) ∨
      (¬s.Refused (s.act ⟨.enter dbAlias b, fates⟩) ∧ EntersBlock s (s.act ⟨.enter dbAlias b, fates⟩)) := by
  have hentered : Entered s.thread.scope (b.enter dbAlias (s.withFates fates).thread) :=
    enter_entered (t := (s.withFates fates).thread) b hs
  have hact : s.act ⟨.enter dbAlias b, fates⟩ = (s.withFates fates).enters (b.enter dbAlias) := rfl
  rw [hact]
  unfold Running.enters Running.Refused EntersBlock
  rcases hm : b.enter dbAlias (s.withFates fates).thread with ⟨e | f, t⟩ <;> rw [hm] at hentered
  · exact .inl ⟨rfl, hentered⟩
  · obtain ⟨htokens, tenantId, gucs, hscope⟩ := hentered
    exact .inr ⟨fun h => Nat.succ_ne_self _ h, f, tenantId, gucs, rfl, htokens, hscope⟩

/-- A block without context that has been entered. -/
def EntersNoContext (s entered : Running) : Prop :=
  entered.noContexts = s.thread.scope.handsOut :: s.noContexts ∧
    entered.thread.scope = s.thread.scope.inside false none none

theorem EntersNoContext.ok {entered : Running} (h : EntersNoContext s entered) (hs : s.thread.scope.Ok) :
    entered.thread.scope.Ok := h.2 ▸ hs.inside false none none

theorem act_enterNoContext (s : Running) : EntersNoContext s (s.act ⟨.enterNoContext, fun _ => []⟩) := ⟨rfl, rfl⟩

attribute [local irreducible] exitContext in
/-- **One block**, with what its body has left. -/
theorem block_back {entered now : Running} (hs : s.thread.scope.Ok) (henters : EntersBlock s entered)
    (hadds : entered.Adds now) (hbody : entered.thread.scope.Back now.thread.scope) (pending : Bool)
    (fates : ℕ → List Fate) : s.thread.scope.Back (now.act (entered.exitOf now pending fates)).thread.scope := by
  obtain ⟨f, tenantId, gucs, hblocks, htokens, hscope⟩ := henters
  rw [hscope] at hbody
  have hthread := act_exit (found_again hblocks hadds.1) pending fates
  rw [Running.exitOf, hthread]
  exact exitContext_back (t := (now.withFates fates).thread) hs htokens hbody pending

attribute [local irreducible] exitNoContext in
theorem noContext_back {entered now : Running} (hs : s.thread.scope.Ok) (henters : EntersNoContext s entered)
    (hadds : entered.Adds now) (hbody : entered.thread.scope.Back now.thread.scope) (fates : ℕ → List Fate) :
    s.thread.scope.Back (now.act (entered.exitNoContextOf now fates)).thread.scope := by
  obtain ⟨htokens, hscope⟩ := henters
  rw [hscope] at hbody
  have hthread := act_exitNoContext (found_again htokens hadds.2) fates
  rw [Running.exitNoContextOf, hthread]
  exact exitNoContext_back (t := (now.withFates fates).thread) hs rfl hbody

/-- **A program comes back** to the context that it started in. -/
theorem Program.acts_back (p : Program) {s : Running} (hs : s.thread.scope.Ok) :
    s.thread.scope.Back (s.acts (p.acts s)).thread.scope := by
  induction p generalizing s with
  | done => exact .refl _
  | deed d fates rest ih =>
    have hscope := act_plain d.2 fates s
    have hrest := ih (s := s.act ⟨d, fates⟩) (hscope.symm ▸ hs)
    rwa [hscope] at hrest
  | block dbAlias b entry body pending exit rest ihbody ihrest =>
    simp only [Program.acts]
    rcases act_enter hs dbAlias b entry with ⟨hrefused, hback⟩ | ⟨hrefused, henters⟩
    · rw [if_pos hrefused]
      exact hback.trans (ihrest (hback.ok hs))
    · rw [if_neg hrefused]
      have hback := block_back hs henters (acts_adds _ _) (ihbody (henters.ok hs)) pending exit
      simp only [Running.acts, Run.run_cons, Run.run_append] at hback ⊢
      exact hback.trans (ihrest (hback.ok hs))
  | noContext body exit rest ihbody ihrest =>
    have henters := act_enterNoContext s
    have hback := noContext_back hs henters (acts_adds _ _) (ihbody (henters.ok hs)) exit
    simp only [Program.acts, Running.acts, Run.run_cons, Run.run_append] at hback ⊢
    exact hback.trans (ihrest (hback.ok hs))

/-! ## What the next statement sees -/

/-- Back in the context it was in. Whatever the transactions do first, a statement that is read
as what it is sees the values of that context. -/
structure Running.BackIn (s s' : Running) : Prop where
  vars : s'.thread.scope.vars = s.thread.scope.vars
  seen : ∀ after : List Act, (∀ a ∈ after, a.deed.isPlain = true) →
    Run.Along Running.act (fun s a => a.Clear s) s' after → ∀ (dbAlias : ℕ) (d : DataStatement) (fates : ℕ → List Fate),
      d.Clear ⟨s.thread.conf, s.thread.scope.contextGucs⟩ →
        ∀ g ∈ (s'.acts after).seen dbAlias d.sql fates, g = valuesOf s.thread.scope.contextGucs

theorem acts_plain {after : List Act} (h : ∀ a ∈ after, a.deed.isPlain = true) (s : Running) :
    (s.acts after).thread.scope = s.thread.scope := by
  induction after generalizing s with
  | nil => rfl
  | cons a after ih =>
    rw [Running.acts, Run.run_cons]
    exact (ih (fun a' ha' => h a' (List.mem_cons_of_mem _ ha')) _).trans (act_plain (h a List.mem_cons_self) a.fates s)

/-- **What a statement sees**, told by its log. -/
theorem throughCursor_seen {c : Connection} (env : Env) (hc : Recorded c) (fates : List Fate) {d : DataStatement}
    (hd : d.Clear env) :
    Ends (fun _ c' => ∀ r ∈ c'.ran, r.seen = valuesOf env.context) (fun _ c' => ∀ r ∈ c'.ran, r.seen = valuesOf env.context)
      (throughCursor env d.sql { c with ran := [], fates := fates }) := by
  have hfresh : Inv (fun _ => True) (fun _ => False) true (fun r => r.seen = valuesOf env.context)
      { c with ran := [], fates := fates } := ⟨⟨hc.quiet, hc.raw, hc.guarded, by simp⟩, hc.session⟩
  have hends := (ensureConnection_ends env hfresh).bind_rule
    fun _ c' hi => guard_data_ends hi.1 hd.data fun g hg => hg trivial
  exact Ends.mono hends (fun _ _ h => h.log) fun _ _ h => h.log

theorem seen_right {conf : Conf} (hs : s.Sound conf) (dbAlias : ℕ) {d : DataStatement} (fates : ℕ → List Fate)
    (hd : d.Clear ⟨s.thread.conf, s.thread.scope.contextGucs⟩) :
    ∀ g ∈ s.seen dbAlias d.sql fates, g = valuesOf s.thread.scope.contextGucs := by
  have hends : Ends (fun _ => OnAlias dbAlias fun c => ∀ r ∈ c.ran, r.seen = valuesOf s.thread.scope.contextGucs)
      (fun _ => OnAlias dbAlias fun c => ∀ r ∈ c.ran, r.seen = valuesOf s.thread.scope.contextGucs)
      (on dbAlias (fun env => throughCursor env d.sql) (s.unlogged.withFates fates).thread) := by
    refine on_alias fun c hc => ?_
    obtain ⟨-, c', hc', rfl⟩ := withFates_conns hc
    have hc' : (s.thread.conns.map fun c => { c with ran := [] })[dbAlias]? = some c' := hc'
    rw [List.getElem?_map, Option.map_eq_some_iff] at hc'
    obtain ⟨c'', hc'', rfl⟩ := hc'
    exact throughCursor_seen ⟨s.thread.conf, s.thread.scope.contextGucs⟩ (hs.right.conns dbAlias c'' hc'').recorded _ hd
  have hthread : (s.unlogged.act ⟨.statement dbAlias d.sql, fates⟩).thread =
      (on dbAlias (fun env => throughCursor env d.sql) (s.unlogged.withFates fates).thread).2 := rfl
  have hran := hends.inv
  intro g hg
  rw [Running.seen, hthread] at hg
  generalize (on dbAlias (fun env => throughCursor env d.sql) (s.unlogged.withFates fates).thread).2 = t at hran hg
  cases hc : t.conns[dbAlias]? with
  | none => simp [hc] at hg
  | some c =>
    simp only [hc, Option.elim_some, List.mem_map] at hg
    obtain ⟨r, hr, rfl⟩ := hg
    exact hran c hc r hr

theorem Running.BackIn.of_back {conf : Conf} {s' : Running} (hs : s.Sound conf) (hok : s.thread.scope.Ok)
    (hs' : s'.Sound conf) (hback : s.thread.scope.Back s'.thread.scope) : s.BackIn s' where
  vars := hback.vars
  seen after hplain hclear dbAlias d fates hd := by
    have hsound : (s'.acts after).Sound conf := Run.run_keeps_along (fun _ _ hi ha => act_sound hi ha) hs' hclear
    have hscope : (s'.acts after).thread.scope.contextGucs = s.thread.scope.contextGucs := by
      rw [acts_plain hplain]
      exact hback.contextGucs hok
    have hconf : (s'.acts after).thread.conf = s.thread.conf := hsound.right.conf.trans hs.right.conf.symm
    rw [← hscope]
    rw [← hscope, ← hconf] at hd
    exact seen_right hsound dbAlias fates hd

/-- **Every block.** -/
theorem Program.blocks_back (p : Program) {conf : Conf} {s : Running} (hs : s.Sound conf) (hok : s.thread.scope.Ok)
    (hclear : Run.Along Running.act (fun s a => a.Clear s) s (p.acts s)) : ∀ b ∈ p.blocks s, b.1.BackIn b.2 := by
  induction p generalizing s with
  | done => exact fun _ hb => absurd hb List.not_mem_nil
  | deed d fates rest ih =>
    have hscope := act_plain d.2 fates s
    exact ih (act_sound hs hclear.1) (hscope.symm ▸ hok) hclear.2
  | block dbAlias b entry body pending exit rest ihbody ihrest =>
    simp only [Program.acts, Program.blocks] at hclear ⊢
    rcases act_enter hok dbAlias b entry with ⟨hrefused, hback⟩ | ⟨hrefused, henters⟩
    · rw [if_pos hrefused] at hclear ⊢
      have hentered := act_sound hs hclear.1
      refine List.forall_mem_cons.2 ⟨.of_back hs hok hentered hback, ihrest hentered (hback.ok hok) hclear.2⟩
    · rw [if_neg hrefused] at hclear ⊢
      obtain ⟨henter, hrun⟩ := hclear
      obtain ⟨hbody, hleave, hrest⟩ := Run.along_append.1 hrun
      have hentered := act_sound hs henter
      have hnow := Run.run_keeps_along (fun _ _ hi ha => act_sound hi ha) hentered hbody
      have hleft := act_sound hnow hleave
      have hback := block_back hok henters (acts_adds _ _) (body.acts_back (henters.ok hok)) pending exit
      refine List.forall_mem_append.2 ⟨ihbody hentered (henters.ok hok) hbody, List.forall_mem_cons.2 ⟨?_, ?_⟩⟩
      · exact .of_back hs hok hleft hback
      · exact ihrest hleft (hback.ok hok) hrest
  | noContext body exit rest ihbody ihrest =>
    simp only [Program.acts, Program.blocks] at hclear ⊢
    have henters := act_enterNoContext s
    obtain ⟨henter, hrun⟩ := hclear
    obtain ⟨hbody, hleave, hrest⟩ := Run.along_append.1 hrun
    have hentered := act_sound hs henter
    have hnow := Run.run_keeps_along (fun _ _ hi ha => act_sound hi ha) hentered hbody
    have hleft := act_sound hnow hleave
    have hback := noContext_back hok henters (acts_adds _ _) (body.acts_back (henters.ok hok)) exit
    refine List.forall_mem_append.2 ⟨ihbody hentered (henters.ok hok) hbody, List.forall_mem_cons.2 ⟨?_, ?_⟩⟩
    · exact .of_back hs hok hleft hback
    · exact ihrest hleft (hback.ok hok) hrest

/-- **Well-nested programs come back.** After each block of each program, in either GUC mode and
however it ends, the variables are what they were before it, and the next statement sees the
values of the context that encloses it. -/
theorem programs_come_back (hs : s.Starts) (hok : s.thread.scope.Ok) (p : Program)
    (hclear : Run.Along Running.act (fun s a => a.Clear s) s (p.acts s)) : ∀ b ∈ p.blocks s, b.1.BackIn b.2 :=
  p.blocks_back (starts_sound hs) hok hclear

/-! ### Blocks in blocks -/

/-- Nothing happens to the messages. -/
def quiet : ℕ → List Fate := fun _ => []

/-- The read of `SELECT 1`. -/
def Program.read (rest : Program) : Program := .deed ⟨.read, rfl⟩ quiet rest

/-- A user's scope in a tenant's block, with reads. -/
def userInTenant : Program :=
  .block 0 (.tenant (.int 1)) quiet
    (.block 0 (.user (some (.int 2)) (.forTenant "2")) quiet (.read .done) true quiet (.read .done)) false quiet .done

theorem programs_come_back_nested :
    (userInTenant.blocks (.outside ⟨false, "rls".toList⟩)).all (fun b =>
      decide (b.2.thread.scope.vars = b.1.thread.scope.vars) && (b.2.seen 0 DataStatement.select.sql quiet).all fun g =>
        decide (g = valuesOf b.1.thread.scope.contextGucs)) = true := by
  refine List.all_eq_true.2 fun b hb => ?_
  have hback : b.1.BackIn b.2 := by
    refine programs_come_back (outside_starts _) ⟨by simp [Running.outside, Vars.init], by simp [Running.outside]⟩ _ ?_ b hb
    simp only [userInTenant, Program.read, Program.acts]
    rw [if_neg (by decide +kernel)]
    rw [if_neg (by decide +kernel)]
    exact ⟨trivial, trivial, read_clear, exit_clear (by decide +kernel), read_clear, exit_clear (by decide +kernel), trivial⟩
  refine Bool.and_eq_true_iff.2 ⟨decide_eq_true hback.vars, List.all_eq_true.2 fun g hg => decide_eq_true ?_⟩
  exact hback.seen [] (by simp) trivial 0 .select quiet (select_clear _) g hg

/-- An administrator's block in the scope of a tenant's user, in the tenant's block. The restore of
the administrator's block is refused. -/
def failedRestore : Program :=
  .block 0 (.tenant (.int 1)) quiet
    (.block 0 (.user (some (.int 1)) (.forTenant "1")) quiet
      (.block 0 .admin quiet .done false (fun _ => [.refused 0]) .done) false quiet .done) false quiet .done

/-- **The scope leaves an administrator's values behind**, and the next read in the tenant's block
sees them. -/
theorem failed_restore_left : ¬∀ b ∈ failedRestore.blocks (.outside ⟨false, "rls".toList⟩), b.1.BackIn b.2 := by
  intro h
  have hsees : (failedRestore.blocks (.outside ⟨false, "rls".toList⟩)).any (fun b =>
      (b.2.seen 0 DataStatement.select.sql quiet).any fun g => decide (g ≠ valuesOf b.1.thread.scope.contextGucs)) =
        true := by decide +kernel
  obtain ⟨b, hb, hsees⟩ := List.any_eq_true.1 hsees
  obtain ⟨g, hg, hne⟩ := List.any_eq_true.1 hsees
  exact of_decide_eq_true hne ((h b hb).seen [] (by simp) trivial 0 .select quiet (select_clear _) g hg)

end Programs

end RlsTenants
