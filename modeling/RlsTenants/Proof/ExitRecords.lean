import RlsTenants.Proof.BlockRuns

/-!
# The record that a block's exit makes

With session GUCs a block's exit puts back what it changed and records the values of the
enclosing context for both GUCs.

* `exitContext_leaves`: if anything is recorded, the session holds what the exit put back and,
  of the GUC that it leaves alone, what was there.
* **`exits_leave_true_records`**: so the record is true where the GUC that is left alone is as
  the enclosing context has it; `exit_true_iff`: and only there.
* `open_block_lies`: an administrator's block that is still open when a user's scope is left.
-/

namespace RlsTenants

open Txn Effect Comp

/-- If the record holds values, the session has them. -/
def Connection.Truthful (c : Connection) : Prop :=
  ∀ g, c.tracker.values = .known g → c.link = .up → c.pg.current.gucs = valuesOf g

/-- If the record holds values, they are these, and the session has those. -/
def Leaves (g : Option ContextGucs) (held : ContextGucs) (c : Connection) : Prop :=
  c.tracker.values ≠ .unknown → c.link = .up → c.tracker.values = .known g ∧ c.pg.current.gucs = held

theorem leaves_unknown {g : Option ContextGucs} {held : ContextGucs} {c : Connection} (h : c.tracker.values = .unknown) :
    Leaves g held c := fun hne => absurd h hne

section Connections

variable {conf : Conf} {c : Connection} {env : Env} {g : Option ContextGucs} {held : ContextGucs}

/-- **A restore that is recorded** as the enclosing context's values. -/
theorem restore_leaves (h : Right conf c) (pending : Bool) {previous : List (Guc × Option String)}
    (hp : ∀ p ∈ previous, p.2.getD "" = held.get p.1) (hrest : HoldsOn held (fun name => name ∉ previous.map Prod.fst) c) :
    Ends (fun restored c' => restored = true → Leaves g held c') (fun _ => Leaves g held)
      (writing (.known g) false (restoreGucs env previous false pending) c) := by
  have hrestore := restoreGucs_ends env pending previous hp h.recorded.loose hrest
  rw [writing_run]
  rcases hm : restoreGucs env previous false pending c with ⟨e | restored, c'⟩ <;> rw [hm] at hrestore
  · exact leaves_unknown (forget_values _)
  obtain ⟨hloose, hholds⟩ := hrestore
  by_cases hl : c'.link = .closed
  · have hrun : record (.known g) false c' = (.ok (), c') := by simp [record, hl]
    simp only [hrun]
    exact fun _ _ hup => absurd hl (by rw [hup]; decide)
  · simp only [record_run hloose.toSane hl]
    intro hr _ hup
    refine ⟨setValues_values _ _ _, ContextGucs.ext_names fun name => ?_⟩
    exact ((hholds hr name (Decidable.not_or_of_imp id)).2 hup).1

/-- One that is recorded as unknown. -/
theorem restore_unknown_leaves (h : Right conf c) (pending : Bool) {previous : List (Guc × Option String)}
    (hp : ∀ p ∈ previous, p.2.getD "" = held.get p.1) :
    Ends (fun _ => Leaves g held) (fun _ => Leaves g held)
      (writing .unknown false (do
        let _ ← restoreGucs env previous false pending) c) := by
  have hrestore : Ends (fun _ => Loose (fun _ => True) (fun _ => False) fun r => r.seen = valuesOf r.context)
      (fun _ => Loose (fun _ => True) (fun _ => False) fun r => r.seen = valuesOf r.context)
      ((do let _ ← restoreGucs env previous false pending : Db Unit) c) := by
    refine Ends.bind_rule ((restoreGucs_ends env pending previous hp h.recorded.loose (S := fun _ => False)
      fun _ hn => hn.elim).mono (fun _ _ h => h.1) fun _ _ h => h) ?_
    exact fun _ _ h => h
  rw [writing_run]
  rcases hm : (do let _ ← restoreGucs env previous false pending : Db Unit) c with ⟨e | u, c'⟩ <;> rw [hm] at hrestore
  · exact leaves_unknown (forget_values _)
  by_cases hl : c'.link = .closed
  · have hrun : record .unknown false c' = (.ok (), c') := by simp [record, hl]
    simp only [hrun]
    exact fun _ hup => absurd hl (by rw [hup]; decide)
  · simp only [record_run (Loose.toSane hrestore) hl]
    exact leaves_unknown (setValues_values _ _ _)

end Connections

/-! ## On a thread -/

/-- What is there of the connection of an alias. -/
def OnAlias (dbAlias : ℕ) (R : Connection → Prop) (t : Thread) : Prop := ∀ c, t.conns[dbAlias]? = some c → R c

section Threads

variable {conf : Conf} {s₀ : Store} {t : Thread} {dbAlias : ℕ} {R : Connection → Prop}

theorem on_alias {α : Type} {m : Env → Db α} {Q : α → Connection → Prop}
    (h : ∀ c, t.conns[dbAlias]? = some c → Ends (fun a => Q a) (fun _ => R) (m ⟨t.conf, t.scope.contextGucs⟩ c)) :
    Ends (fun a => OnAlias dbAlias (Q a)) (fun _ => OnAlias dbAlias R) (on dbAlias m t) := by
  unfold on
  cases hc : t.conns[dbAlias]? with
  | none =>
    intro c hc'
    rw [hc] at hc'
    cases hc'
  | some c =>
    have hlt : dbAlias < t.conns.length := (List.getElem?_eq_some_iff.1 hc).1
    have hend := h c hc
    rcases hm : m ⟨t.conf, t.scope.contextGucs⟩ c with ⟨_ | a, c'⟩ <;> rw [hm] at hend <;> simp only [hm]
    · intro c'' hc''
      obtain rfl : c' = c'' := by simpa [List.getElem?_set_self hlt] using hc''
      exact hend
    · intro c'' hc''
      obtain rfl : c' = c'' := by simpa [List.getElem?_set_self hlt] using hc''
      exact hend

/-- What is done on another alias changes nothing. -/
theorem on_other {α : Type} {m : Env → Db α} {other : ℕ} (ho : other ≠ dbAlias) :
    Keeps (OnAlias dbAlias R) (on other m) := by
  intro t ht
  unfold on
  split
  · exact ht
  · intro c hc
    exact ht c (by simpa [List.getElem?_set_ne ho] using hc)

theorem settleOtherAliases_alias (cleared : Bool) :
    Keeps (OnAlias dbAlias R) (settleOtherAliases (some dbAlias) cleared) := by
  refine .bind_rule (.reads_rule _) fun _ => .each_rule fun other _ => .ite_rule (fun _ => .pure_rule _) fun ho => ?_
  exact on_other fun h => ho (congrArg some h)

theorem forget_leaves {g : Option ContextGucs} {held : ContextGucs} :
    Ends (fun _ => OnAlias dbAlias (Leaves g held)) (fun _ => OnAlias dbAlias (Leaves g held))
      (on dbAlias (fun _ => forget) t) :=
  on_alias fun _ _ => leaves_unknown (forget_values _)

/-- What an exit puts back: its snapshot, or nothing at all if the enclosing context has ended. -/
def Frame.restored (f : Frame) (s : Store) (previous : List (Guc × Option String)) : List (Guc × Option String) :=
  if f.orphaned s then [(.isAdmin, none), (.currentTenant, none)] else previous

/-- **The exit of a block that wrote**: the values of the enclosing context are recorded, and the
session holds what was put back and what was left alone. -/
theorem restoreSnapshot_leaves {f : Frame} {previous : List (Guc × Option String)} {held : ContextGucs}
    (hmode : conf.useLocalSet = false) (ht : AllRight conf s₀ t) (pending : Bool)
    (hp : ∀ p ∈ f.restored t.scope.store previous, p.2.getD "" = held.get p.1)
    (hrest : OnAlias f.dbAlias
      (HoldsOn held fun name => name ∉ (f.restored t.scope.store previous).map Prod.fst) t) :
    Ends (fun _ => OnAlias f.dbAlias (Leaves (t.scope.store.valuesOf f.enclosing) held))
      (fun _ => OnAlias f.dbAlias (Leaves (t.scope.store.valuesOf f.enclosing) held))
      (restoreSnapshot f previous pending t) := by
  have hsettle : Keeps (OnAlias f.dbAlias (Leaves (t.scope.store.valuesOf f.enclosing) held))
      (settleOtherAliases (some f.dbAlias) false) := settleOtherAliases_alias false
  have hlocal : t.conf.useLocalSet = false := by rw [ht.conf, hmode]
  unfold Frame.restored Frame.orphaned at hp hrest
  simp only [restoreSnapshot, bind_run, reads_run, id, hlocal]
  by_cases hlive : t.scope.vars.live = f.enclosing
  · rw [if_neg (by simpa using hlive)]
    have hcontext : t.scope.contextGucs = t.scope.store.valuesOf f.enclosing := by
      rw [Scope.contextGucs, hlive]
    refine Ends.bind_rule (Q := fun restored => OnAlias f.dbAlias fun c =>
      restored = true → Leaves (t.scope.store.valuesOf f.enclosing) held c) (on_alias fun c hc => ?_)
      fun restored t' ht' => ?_
    · rw [hcontext]
      exact restore_leaves (ht.conns _ c hc) pending hp (hrest c hc)
    · cases restored with
      | false => exact forget_leaves.bind_rule fun _ t'' ht'' => hsettle.triple t'' ht''
      | true => exact hsettle.triple t' fun c hc => ht' c hc rfl
  · rw [if_pos hlive]
    refine Ends.ite_rule (fun _ => ?_) fun _ => ?_
    · refine Ends.bind_rule (Q := fun _ => OnAlias f.dbAlias (Leaves (t.scope.store.valuesOf f.enclosing) held))
        (on_alias fun c hc => ?_) fun _ t' ht' => hsettle.triple t' ht'
      exact restore_unknown_leaves (ht.conns _ c hc) pending hp
    · exact forget_leaves.bind_rule fun _ t' ht' => hsettle.triple t' ht'

/-- A block's exit puts its GUCs back once its variables are reset, however that ends. -/
theorem exitContext_ends {f : Frame} {P : Thread → Prop} (pending : Bool)
    (h : ∀ raised, Ends (fun _ => P) (fun _ => P) (restoreTenantGucs f raised (exitState f.tokens t).2)) :
    Ends (fun _ => P) (fun _ => P) (exitContext f pending t) := by
  unfold exitContext
  rw [bind_run, attempt_run]
  rcases hm : exitState f.tokens t with ⟨e | u, t'⟩
  · rw [hm] at h
    dsimp only
    rw [bind_run]
    have hrestore := h true
    rcases hr : restoreTenantGucs f true t' with ⟨e' | u, t''⟩ <;> rw [hr] at hrestore <;> exact hrestore
  · rw [hm] at h
    exact h pending

attribute [local irreducible] exitContext restoreSnapshot exitState in
theorem exitContext_leaves {f : Frame} {previous : List (Guc × Option String)} {held : ContextGucs}
    (hmode : conf.useLocalSet = false) (ht : AllRight conf s₀ t) (hf : f.Sound conf s₀) (pending : Bool)
    (hprevious : f.previous = some previous)
    (hp : ∀ p ∈ f.restored (exitState f.tokens t).2.scope.store previous, p.2.getD "" = held.get p.1)
    (hrest : OnAlias f.dbAlias (HoldsOn held fun name =>
      name ∉ (f.restored (exitState f.tokens t).2.scope.store previous).map Prod.fst) (exitState f.tokens t).2) :
    OnAlias f.dbAlias (Leaves ((exitState f.tokens t).2.scope.store.valuesOf f.enclosing) held) (exitContext f pending t).2 := by
  have ht' : AllRight conf s₀ (exitState f.tokens t).2 := exitState_right hf.token t ht
  have hlocal : (exitState f.tokens t).2.conf.useLocalSet = false := by rw [ht'.conf, hmode]
  refine Ends.inv (exitContext_ends (P := OnAlias f.dbAlias (Leaves _ held)) pending fun raised => ?_)
  unfold restoreTenantGucs
  simp only [bind_run, reads_run, hlocal, hprevious, Bool.false_eq_true, if_false]
  exact Ends.ensuring_rule (restoreSnapshot_leaves hmode ht' raised hp hrest) (fun _ _ h => h) fun _ _ h => h

theorem Leaves.truthful {g : Option ContextGucs} {c : Connection} (h : Leaves g (valuesOf g) c) : c.Truthful := by
  intro g' hknown hup
  obtain ⟨hg, hheld⟩ := h (by simp [hknown]) hup
  obtain rfl : g = g' := Tracked.known.inj (hg.symm.trans hknown)
  exact hheld

/-- **The exit of a block leaves a true record**, if what it leaves alone is as the enclosing
context has it. -/
theorem exitContext_true {f : Frame} (hmode : conf.useLocalSet = false) (ht : AllRight conf s₀ t)
    (hf : f.Sound conf s₀) (hwrites : f.previous.isSome = true) (hcovered : f.Covered t) (pending : Bool) :
    OnAlias f.dbAlias Connection.Truthful (exitContext f pending t).2 := by
  obtain ⟨previous, hprevious⟩ := Option.isSome_iff_exists.1 hwrites
  obtain ⟨ht', hcovered'⟩ := exitState_covered hf t ⟨ht, hcovered⟩
  have hsnapshots := ((hf.mono ht'.scope.grows).restores hprevious).2
  have hleaves := exitContext_leaves hmode ht hf pending hprevious hsnapshots fun c hc =>
    hcovered'.holds hprevious hc ((ht'.conns _ c hc).flat hmode)
  exact fun c hc => (hleaves c hc).truthful

/-- The values of a context where they are put back, and what is there elsewhere. -/
def mixed (g : Option ContextGucs) (restored : List Guc) (there : ContextGucs) : ContextGucs :=
  ⟨if .isAdmin ∈ restored then (valuesOf g).isAdmin else there.isAdmin,
    if .currentTenant ∈ restored then (valuesOf g).currentTenant else there.currentTenant⟩

theorem mixed_get (g : Option ContextGucs) (restored : List Guc) (there : ContextGucs) (name : Guc) :
    (mixed g restored there).get name = if name ∈ restored then (valuesOf g).get name else there.get name := by
  cases name with
  | isAdmin => rfl
  | currentTenant => rfl

/-- **And only then**: where an exit records values of a session that was there, they are its
values exactly if what it leaves alone is as the enclosing context has it. -/
theorem exit_true_iff {f : Frame} {c c' : Connection} (hmode : conf.useLocalSet = false) (ht : AllRight conf s₀ t)
    (hf : f.Sound conf s₀) (hwrites : f.previous.isSome = true) (pending : Bool)
    (hc : (exitState f.tokens t).2.conns[f.dbAlias]? = some c) (hup : c.link = .up)
    (hc' : (exitContext f pending t).2.conns[f.dbAlias]? = some c') (hup' : c'.link = .up)
    (hknown : c'.tracker.values ≠ .unknown) : c'.Truthful ↔ f.Covered (exitState f.tokens t).2 := by
  obtain ⟨previous, hprevious⟩ := Option.isSome_iff_exists.1 hwrites
  have ht' : AllRight conf s₀ (exitState f.tokens t).2 := exitState_right hf.token t ht
  have hsnapshots := ((hf.mono ht'.scope.grows).restores hprevious).2
  obtain ⟨g, hg⟩ : ∃ g, g = (exitState f.tokens t).2.scope.store.valuesOf f.enclosing := ⟨_, rfl⟩
  obtain ⟨restored, hrestored⟩ : ∃ l, l = f.restored (exitState f.tokens t).2.scope.store previous := ⟨_, rfl⟩
  have hleaves : Leaves g (mixed g (restored.map Prod.fst) c.pg.current.gucs) c' := by
    rw [hg]
    refine exitContext_leaves hmode ht hf pending hprevious (fun p hp => ?_) (fun c'' hc'' => ?_) c' hc'
    · rw [← hg, mixed_get, if_pos (hrestored ▸ List.mem_map_of_mem hp), hg]
      exact hsnapshots p hp
    · obtain rfl : c = c'' := Option.some.inj (hc.symm.trans hc'')
      intro name hname
      have hflat : Flat c.pg := (ht'.conns _ c hc).flat hmode
      refine ⟨by rw [hup]; decide, fun _ => ?_⟩
      unfold HasValue
      rw [hflat.kept, ← hg, mixed_get, if_neg (hrestored ▸ hname)]
      exact ⟨rfl, rfl⟩
  obtain ⟨hvalues, hheld⟩ := hleaves hknown hup'
  constructor
  · intro htrue previous' c'' hp' hc'' halive name hname
    obtain rfl : previous = previous' := Option.some.inj (hprevious.symm.trans hp')
    obtain rfl : c = c'' := Option.some.inj (hc.symm.trans hc'')
    have hnot : name ∉ restored.map Prod.fst := by
      rw [hrestored, Frame.restored, halive]
      exact hname
    have hat : (mixed g (restored.map Prod.fst) c.pg.current.gucs).get name = (valuesOf g).get name :=
      congrArg (fun gucs => gucs.get name) (hheld.symm.trans (htrue g hvalues hup'))
    rw [mixed_get, if_neg hnot] at hat
    exact ⟨by rw [hup]; decide, fun _ => hg ▸ hat⟩
  · intro hcovered g' hknown' _
    obtain rfl : g = g' := Tracked.known.inj (hvalues.symm.trans hknown')
    rw [hheld]
    refine ContextGucs.ext_names fun name => ?_
    rw [mixed_get]
    split
    · rfl
    · rename_i hnot
      rw [hrestored] at hnot
      have hholds := hcovered.holds hprevious hc ((ht'.conns _ c hc).flat hmode) name hnot
      exact hg ▸ (hholds.2 hup).1

/-! ### Entries -/

theorem ends_any {α : Type} (m : Prog α) (t : Thread) : Ends (fun _ _ => True) (fun _ _ => True) (m t) :=
  .of_inv trivial

theorem enterBlock_previous (tenantId : Option TenantId) (gucs : ContextGucs)
    (previous : Option (List (Guc × Option String))) (writes : List (Guc × String)) :
    Ends (fun f _ => f.previous = previous) (fun _ _ => True) (enterBlock dbAlias tenantId gucs previous writes t) := by
  unfold enterBlock
  refine (ends_any _ t).bind_rule fun t₁ t₂ _ => (ends_any _ t₂).bind_rule fun tokens t₃ _ => ?_
  cases previous with
  | none => exact rfl
  | some values => exact (ends_any _ t₃).bind_rule fun _ _ _ => rfl

/-- With session GUCs an entry writes what it has found to be written. -/
theorem entry_writes {m : List (Guc × Option String) → Prog Frame} {silent : Prog Frame}
    (hlocal : t.conf.useLocalSet = false)
    (hm : ∀ previous t', Ends (fun f _ => f.previous.isSome = true) (fun _ _ => True) (m previous t')) :
    Ends (fun f _ => f.previous.isSome = true) (fun _ _ => True)
      ((do
        if ← reads (·.writesGucs dbAlias) then
          let previous ← on dbAlias snapshotGucs
          m previous
        else silent : Prog Frame) t) := by
  have hwrites : t.writesGucs dbAlias = true := by simp [Thread.writesGucs, hlocal]
  simp only [bind_run, reads_run, hwrites, if_true]
  exact (ends_any _ t).bind_rule fun previous t' _ => hm previous t'

theorem enter_writes_some (block : ContextBlock) (hlocal : t.conf.useLocalSet = false) :
    Ends (fun f _ => f.previous.isSome = true) (fun _ _ => True) (block.enter dbAlias t) := by
  have hsome : ∀ (tenantId : Option TenantId) (gucs : ContextGucs) (values : List (Guc × Option String))
      (writes : List (Guc × String)) (t' : Thread), Ends (fun f _ => f.previous.isSome = true) (fun _ _ => True)
        (enterBlock dbAlias tenantId gucs (some values) writes t') := fun tenantId gucs values writes t' =>
    (enterBlock_previous tenantId gucs (some values) writes).mono (fun _ _ h => by rw [h]; rfl) fun _ _ h => h
  cases block with
  | tenant tenantId => exact entry_writes hlocal fun _ t' => hsome _ _ _ _ t'
  | admin => exact entry_writes hlocal fun _ t' => hsome _ _ _ _ t'
  | user tenantId gucs => exact entry_writes hlocal fun _ t' => hsome _ _ _ _ t'

end Threads

/-! ## Runs -/

/-- A connection whose record says nothing false of its session, which may hold any values. -/
structure Connection.Fresh (c : Connection) : Prop where
  faults : c.faults = []
  guarded : c.guarded = true
  ran : c.ran = []
  idle : ∃ v, c.pg = .idle v
  record : c.link ≠ .closed → c.tracker.raw = some c.raw ∧ c.tracker.inTransaction = false ∧ c.Truthful

/-- A thread outside all blocks, with session GUCs. -/
structure Running.Fresh (s : Running) : Prop where
  session : s.thread.conf.useLocalSet = false
  conns : ∀ c ∈ s.thread.conns, c.Fresh
  blocks : s.blocks = []
  noContexts : s.noContexts = []
  known : s.thread.scope.Known

/-- The exit leaves a true record of the session that its block was entered on. -/
def Act.LeavesTruth (s : Running) (a : Act) : Prop :=
  ∀ i pending f, a.deed = .exit i pending → s.blocks[i]? = some f → OnAlias f.dbAlias Connection.Truthful (s.act a).thread

/-- Every block that was entered wrote. -/
def Running.Writes (s : Running) : Prop := ∀ f ∈ s.blocks, f.previous.isSome = true

theorem Connection.Fresh.right {conf : Conf} {c : Connection} (h : c.Fresh) : Right conf c := by
  obtain ⟨v, hv⟩ := h.idle
  refine ⟨⟨⟨h.faults, fun hl => (h.record hl).1, h.guarded, by rw [h.ran]; simp⟩, fun hup => ?_⟩, fun _ => ?_⟩
  · obtain ⟨-, hout, htrue⟩ := h.record (by rw [hup]; decide)
    rw [hv]
    refine matches_idle_of_values hout fun g hg _ => ?_
    have hat := htrue g hg hup
    rw [hv] at hat
    exact hat
  · unfold FlatConn
    rw [hv]
    trivial

section Runs

variable {s : Running}

theorem fresh_sound (hs : s.Fresh) : s.Sound s.thread.conf := by
  refine ⟨⟨rfl, ⟨.refl _, hs.known⟩, fun dbAlias c hc => ?_⟩, by simp [hs.blocks], by simp [hs.noContexts]⟩
  exact (hs.conns c (List.mem_of_getElem? hc)).right

theorem enters_writes {m : Prog Frame} (hs : s.Writes)
    (h : Ends (fun f _ => f.previous.isSome = true) (fun _ _ => True) (m s.thread)) : (s.enters m).Writes := by
  unfold Running.enters
  rcases hm : m s.thread with ⟨e | f, t⟩ <;> rw [hm] at h
  · exact hs
  · exact List.forall_mem_cons.2 ⟨h, hs⟩

theorem does_writes (hs : s.Writes) (m : Prog Unit) : (s.does m).Writes := hs

attribute [local irreducible] Running.does in
/-- Entries alone add blocks. -/
theorem act_writes (hlocal : s.thread.conf.useLocalSet = false) (hs : s.Writes) (a : Act) : (s.act a).Writes := by
  obtain ⟨d, fates⟩ := a
  have hw : (s.withFates fates).Writes := hs
  have hlocal : (s.withFates fates).thread.conf.useLocalSet = false := hlocal
  unfold Running.act
  generalize s.withFates fates = s' at hw hlocal
  cases d with
  | enter dbAlias block => exact enters_writes hw (enter_writes_some block hlocal)
  | exit i pending =>
    simp only [Running.step]
    cases s'.blocks[i]? with
    | none => exact hw
    | some f => exact does_writes hw _
  | enterNoContext =>
    simp only [Running.step, Running.entersNoContext]
    split
    · exact hw
    · exact hw
  | exitNoContext i =>
    simp only [Running.step]
    cases s'.noContexts[i]? with
    | none => exact hw
    | some tokens => exact does_writes hw _
  | switch scope => exact hw
  | _ => exact does_writes hw _

/-- **One exit.** -/
theorem exit_leaves_truth {conf : Conf} (hmode : conf.useLocalSet = false) (hs : s.Sound conf) (hwrites : s.Writes) {a : Act}
    (ha : a.Clear s) : a.LeavesTruth s := by
  rintro i pending f hdeed hf
  obtain ⟨d, fates⟩ := a
  obtain rfl : d = .exit i pending := hdeed
  have hw := withFates_sound hs fates
  have hcovered : f.Covered (s.withFates fates).thread := Frame.Covered.withFates (ha f hf) fates
  have hmem : f ∈ s.blocks := List.mem_of_getElem? hf
  rw [act_exit hf]
  exact exitContext_true hmode hw.right (hw.blocks f hmem) (hwrites f hmem) hcovered pending

/-- **Exits leave true records.** In every run with session GUCs, whatever blocks it enters and
leaves and in whatever order, each exit leaves a record that is true, if each leaves alone only
what is as its enclosing context has it. -/
theorem exits_leave_true_records (hs : s.Fresh) {acts : List Act}
    (hacts : Run.Along Running.act (fun s a => a.Clear s) s acts) :
    Run.Along Running.act (fun s a => a.LeavesTruth s) s acts := by
  have hinv : s.Sound s.thread.conf ∧ s.Writes := ⟨fresh_sound hs, by simp [Running.Writes, hs.blocks]⟩
  refine Run.along_of_along (I := fun s' => s'.Sound s.thread.conf ∧ s'.Writes) ?_ ?_ hinv hacts
  · rintro s' a ⟨hsound, hwrites⟩ ha
    exact ⟨act_sound hsound ha, act_writes (by rw [hsound.right.conf, hs.session]) hwrites a⟩
  · rintro s' a ⟨hsound, hwrites⟩ ha
    exact exit_leaves_truth hs.session hsound hwrites ha

/-! ### Blocks that are left before those in them -/

theorem outside_fresh (gucPrefix : Text) : (Running.outside ⟨false, gucPrefix⟩).Fresh where
  session := rfl
  conns c hc := by
    obtain rfl := List.mem_singleton.1 hc
    exact ⟨rfl, rfl, rfl, ⟨_, rfl⟩, fun hl => absurd rfl hl⟩
  blocks := rfl
  noContexts := rfl
  known i hi := by cases hi

/-- A tenant's block is left before the administrator's block in it. -/
def crossedBlocks : List Act :=
  [Deed.enter 0 (.tenant (.int 1)), .enter 0 .admin, .exit 1 false, .exit 0 false].map Deed.act

theorem exits_leave_true_records_crossed :
    Run.Along Running.act (fun s a => a.LeavesTruth s) (.outside ⟨false, "rls".toList⟩) crossedBlocks := by
  refine exits_leave_true_records (outside_fresh _) ⟨trivial, trivial, exit_clear ?_, exit_clear ?_, trivial⟩
  · decide +kernel
  · decide +kernel

/-- A user's scope in the block of the user's tenant, and an administrator's block in that. -/
def openBlocks : List Act :=
  [.enter 0 (.tenant (.int 1)), .enter 0 (.user (some (.int 1)) (.forTenant "1")), .enter 0 .admin].map Deed.act

def leaveScope : Act := (Deed.exit 1 false).act

/-- The thread before the user's scope is left. -/
def openThread : Running := Run.run Running.act (.outside ⟨false, "rls".toList⟩) openBlocks

/-- The scope is left before the administrator's block: the record says the tenant's values, and
the session is an administrator's. -/
theorem open_block_lies :
    ¬Run.Along Running.act (fun s a => a.LeavesTruth s) (.outside ⟨false, "rls".toList⟩) (openBlocks ++ [leaveScope]) := by
  intro h
  have hexit : leaveScope.LeavesTruth openThread := h.last
  have hscope : openThread.blocks[1]?.map Frame.dbAlias = some 0 := by decide +kernel
  obtain ⟨f, hf, halias⟩ := Option.map_eq_some_iff.1 hscope
  have htrue := hexit 1 false f rfl hf
  rw [halias] at htrue
  have hlies : ((openThread.act leaveScope).thread.conns[0]?).any (fun c =>
      decide (c.tracker.values = .known (some (.forTenant "1")) ∧ c.link = .up ∧ c.pg.current.gucs.isAdmin = "true")) =
        true := by decide +kernel
  obtain ⟨c, hc, hlies⟩ := (Option.any_eq_true ..).1 hlies
  obtain ⟨hvalues, hup, hadmin⟩ := of_decide_eq_true hlies
  have hsession := htrue c hc _ hvalues hup
  rw [hsession] at hadmin
  exact absurd hadmin (by decide)

end Runs

end RlsTenants
