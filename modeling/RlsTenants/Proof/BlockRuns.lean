import RlsTenants.Proof.ThreadBlocks
import RlsTenants.Proof.Reads

/-!
# Every read of a thread runs under its context's values

`act_sound`: whatever a thread does, on whatever alias, its connections stay right and its blocks
can be left. `blocks_keep_reads_right`: so in every run a command on rows ran while its session held
the values of the context that was active, however blocks nest, fail and are left.

What is asked of the deeds is in `Act.Clear`: transaction control is read as what it is; where a
scope of `for_user()` is left, what it does not put back is as it was; and what other `Context`s
have done to the holders is creating and ending some.
-/

namespace RlsTenants

open Txn Effect Comp

/-- A statement that the guard takes for what it is, on a connection with these fates. -/
def Sql.Clear (env : Env) (sql : Sql) (fates : List Fate) : Prop :=
  (∃ d : DataStatement, sql = d.sql ∧ d.Clear env) ∨
    ∃ p : Plain, sql = ⟨.str p.text, [p.form.command]⟩ ∧ p.form.Clear p.text ∧ ∀ f ∈ fates, f.Plain

/-- What a deed may be. -/
def Act.Clear (s : Running) (a : Act) : Prop :=
  match a.deed with
  | .statement dbAlias sql => sql.Clear ⟨s.thread.conf, s.thread.scope.contextGucs⟩ (a.fates dbAlias)
  | .exit i _ => ∀ f, s.blocks[i]? = some f → f.Covered s.thread
  | .switch scope => scope.After s.thread.scope.store
  | _ => True

/-- A thread whose connections are right, in blocks that it can leave. -/
structure Running.Sound (conf : Conf) (s : Running) : Prop where
  right : AllRight conf s.thread.scope.store s.thread
  blocks : ∀ f ∈ s.blocks, f.Sound conf s.thread.scope.store
  noContexts : ∀ tokens ∈ s.noContexts, ∀ i, tokens.entered.token.old = some i → i < s.thread.scope.store.lives.length

section Runs

variable {conf : Conf} {s : Running}

/-- What comes after: the blocks can still be left. -/
theorem Running.Sound.after (hs : s.Sound conf) {t : Thread} (ht : AllRight conf s.thread.scope.store t) :
    ({ s with thread := t } : Running).Sound conf := by
  refine ⟨ht.fromHere, fun f hf => (hs.blocks f hf).mono ht.scope.grows, fun tokens htokens i hi => ?_⟩
  exact Nat.lt_of_lt_of_le (hs.noContexts tokens htokens i hi) ht.scope.grows.length

theorem does_sound {m : Prog Unit} (hs : s.Sound conf) (h : Keeps (AllRight conf s.thread.scope.store) m) :
    (s.does m).Sound conf := hs.after (h s.thread hs.right)

/-- A deed on one alias. -/
theorem on_sound {m : Env → Db Unit} {dbAlias : ℕ} (hs : s.Sound conf)
    (h : ∀ env : Env, env.conf = conf → Keeps Recorded (m env))
    (hflat : ∀ env : Env, env.conf = conf → conf.useLocalSet = false → Keeps FlatConn (m env)) :
    (s.does (on dbAlias m)).Sound conf :=
  does_sound hs (on_right fun env henv => keeps_right (h env henv) (hflat env henv))

theorem enters_sound {m : Prog Frame} (hs : s.Sound conf)
    (h : Ends (fun f t' => AllRight conf s.thread.scope.store t' ∧ f.Sound conf t'.scope.store)
      (fun _ => AllRight conf s.thread.scope.store) (m s.thread)) : (s.enters m).Sound conf := by
  unfold Running.enters
  rcases hm : m s.thread with ⟨e | f, t⟩ <;> rw [hm] at h
  · exact hs.after h
  · have hafter := hs.after h.1
    exact ⟨hafter.right, List.forall_mem_cons.2 ⟨h.2, hafter.blocks⟩, hafter.noContexts⟩

theorem entersNoContext_sound (hs : s.Sound conf) : s.entersNoContext.Sound conf := by
  have h := enterState_ends false none none hs.right
  unfold Running.entersNoContext
  rcases hm : enterState false none none s.thread with ⟨e | tokens, t⟩ <;> rw [hm] at h
  · exact h.elim
  · obtain ⟨ht, -, hold⟩ := h
    have hafter := hs.after ht
    refine ⟨hafter.right, hafter.blocks, List.forall_mem_cons.2 ⟨fun i hi => ?_, hafter.noContexts⟩⟩
    exact Nat.lt_of_lt_of_le (hs.right.scope.known i (hold.symm.trans hi)) ht.scope.grows.length

/-! ### Statements -/

theorem DataKind.global (k : DataKind) : k.command.Global := by
  cases k <;> trivial

theorem Form.global (f : Form) : f.command.Global := by
  cases f <;> trivial

theorem Sql.Clear.global {env : Env} {sql : Sql} {fates : List Fate} (h : sql.Clear env fates) : ∀ cmd ∈ sql.commands, cmd.Global := by
  intro cmd hcmd
  rcases h with ⟨d, rfl, -⟩ | ⟨p, rfl, -⟩
  · exact (List.mem_singleton.1 hcmd).symm ▸ d.kind.global
  · exact (List.mem_singleton.1 hcmd).symm ▸ p.form.global

theorem recorded_step (conf : Conf) {e : Event} {c : Connection} (h : Recorded c) (he : e.Clear conf) : Recorded (e.step conf c) :=
  step_keeps h he.read (fun _ _ _ _ _ _ h => h) fun _ _ h => h trivial

/-- **A statement** keeps its connection right. -/
theorem statement_right {sql : Sql} {c : Connection} (env : Env) (henv : env.conf = conf) (hc : Right conf c)
    (hsql : sql.Clear env c.fates) : Right conf (throughCursor env sql c).2 := by
  refine ⟨?_, fun hmode => ?_⟩
  · rcases hsql with ⟨d, rfl, hclear⟩ | ⟨p, rfl, hclear, hfates⟩
    · exact recorded_step env.conf (e := .data env.context d c.fates) hc.recorded hclear
    · exact recorded_step env.conf (e := .control env.context p c.fates) hc.recorded ⟨hclear, hfates⟩
  · exact (ensureConnection_flat.bind_rule fun _ => guard_flat (by rw [henv, hmode]) hsql.global) c (hc.flat hmode)

/-! ### Acts -/

theorem Right.with_fates {c : Connection} (h : Right conf c) (fates : List Fate) :
    Right conf { c with fates := fates } := ⟨h.recorded.with_fates fates, h.flat⟩

theorem withFates_conns {fates : ℕ → List Fate} {dbAlias : ℕ} {c : Connection}
    (h : (s.withFates fates).thread.conns[dbAlias]? = some c) :
    c.fates = fates dbAlias ∧
      ∃ c', s.thread.conns[dbAlias]? = some c' ∧ c = { c' with fates := fates dbAlias } := by
  have h : (s.thread.conns.mapIdx fun i c => { c with fates := fates i })[dbAlias]? = some c := h
  rw [List.getElem?_mapIdx, Option.map_eq_some_iff] at h
  obtain ⟨c', hc', rfl⟩ := h
  exact ⟨rfl, c', hc', rfl⟩

theorem withFates_sound (hs : s.Sound conf) (fates : ℕ → List Fate) : (s.withFates fates).Sound conf := by
  refine hs.after ⟨hs.right.conf, hs.right.scope, fun dbAlias c hc => ?_⟩
  obtain ⟨-, c', hc', rfl⟩ := withFates_conns hc
  exact (hs.right.conns dbAlias c' hc').with_fates _

theorem Frame.Covered.withFates {f : Frame} (h : f.Covered s.thread) (fates : ℕ → List Fate) :
    f.Covered (s.withFates fates).thread := by
  intro previous c hp hc halive name hname
  obtain ⟨-, c', hc', rfl⟩ := withFates_conns hc
  exact h previous c' hp hc' halive name hname

attribute [local irreducible] exitContext in
theorem act_exit {i : ℕ} {f : Frame} (h : s.blocks[i]? = some f) (pending : Bool) (fates : ℕ → List Fate) :
    (s.act ⟨.exit i pending, fates⟩).thread = (exitContext f pending (s.withFates fates).thread).2 := by
  have hf : (s.withFates fates).blocks[i]? = some f := h
  simp only [Running.act, Running.step, hf, Option.elim_some, Running.does]

attribute [local irreducible] exitNoContext in
theorem act_exitNoContext {i : ℕ} {tokens : StateTokens} (h : s.noContexts[i]? = some tokens) (fates : ℕ → List Fate) :
    (s.act ⟨.exitNoContext i, fates⟩).thread = (exitNoContext tokens (s.withFates fates).thread).2 := by
  have htokens : (s.withFates fates).noContexts[i]? = some tokens := h
  simp only [Running.act, Running.step, htokens, Option.elim_some, Running.does]

attribute [local irreducible] exitContext in
/-- **One deed** keeps every connection right. -/
theorem act_sound {a : Act} (hs : s.Sound conf) (ha : a.Clear s) : (s.act a).Sound conf := by
  have hw := withFates_sound hs a.fates
  obtain ⟨d, fates⟩ := a
  unfold Running.act
  cases d with
  | connect dbAlias =>
    refine on_sound hw (fun env _ c hc => ?_) fun _ _ _ => ensureConnection_flat
    exact ((ensureConnection_ends env hc).mono (fun _ _ h => h.1) fun _ _ h => h :
      Ends (fun _ => Recorded) (fun _ => Recorded) _).inv
  | statement dbAlias sql =>
    refine hw.after (Ends.inv (I := AllRight conf _) ((on_ends (S := fun _ _ => Right conf)
      (F := fun _ => Right conf) (Q := fun _ => True) dbAlias hw.right (fun _ _ _ => rfl) (fun _ _ => rfl)
      fun c hmem hc => ?_).mono (fun _ _ h => h.1) fun _ _ h => h.1))
    obtain ⟨hfates, -⟩ := withFates_conns hmem
    have hright := statement_right ⟨conf, (s.withFates fates).thread.scope.contextGucs⟩ rfl hc
      (show sql.Clear _ c.fates by rw [hfates, ← hs.right.conf]; exact ha)
    exact (Ends.of_inv hright).mono (fun _ _ h => ⟨h, trivial⟩) fun _ _ h => h
  | enter dbAlias block =>
    refine enters_sound hw ?_
    cases block with
    | tenant tenantId => exact enterContext_right hw.right _ _
    | admin => exact enterContext_right hw.right _ _
    | user tenantId gucs => exact forUser_right hw.right tenantId gucs
  | exit i pending =>
    simp only [Running.step]
    cases hf : (s.withFates fates).blocks[i]? with
    | none => exact hw
    | some f =>
      have hcovered : f.Covered (s.withFates fates).thread := Frame.Covered.withFates (ha f hf) fates
      have hexit := exitContext_right (hw.blocks f (List.mem_of_getElem? hf)) pending
      exact hw.after (Triple.inv hexit ⟨hw.right, hcovered⟩)
  | enterNoContext => exact entersNoContext_sound hw
  | exitNoContext i =>
    simp only [Running.step]
    cases ht : (s.withFates fates).noContexts[i]? with
    | none => exact hw
    | some tokens => exact does_sound hw (exitNoContext_right (hw.noContexts tokens (List.mem_of_getElem? ht)))
  | clearAliasGucs dbAlias =>
    refine on_sound hw (fun env _ c hc => ?_) fun _ _ _ => writeGucs_flat none
    exact ((writeGucs_ends env hc none false).mono (fun _ _ h => h.inv) fun _ _ h => h :
      Ends (fun _ => Recorded) (fun _ => Recorded) _).inv
  | suspectSessions => exact does_sound hw (suspectSessions_right true)
  | transactionEnd dbAlias committed =>
    refine on_sound hw (fun env _ c hc => ?_) fun _ _ _ => transactionEnd_flat committed
    exact recorded_step env.conf (e := .driverEnd committed c.fates) hc trivial
  | atomic dbAlias inAtomicBlock needsRollback =>
    refine on_sound hw (fun env _ c hc => ?_) fun _ _ _ c hc => hc
    exact ⟨⟨hc.quiet, hc.raw, hc.guarded, hc.log⟩, hc.session⟩
  | setAutocommit dbAlias autocommit =>
    refine on_sound hw (fun env _ => .modify_rule fun c hc => ?_) fun _ _ _ => .modify_rule fun c hc => ?_
    · split
      · exact ⟨⟨hc.quiet, hc.raw, hc.guarded, hc.log⟩, hc.session⟩
      · exact hc
    · split
      · exact hc
      · exact hc
  | close dbAlias => exact on_sound hw (fun env _ c hc => (close_ends hc).inv) fun _ _ _ => close_flat
  | switch scope => exact hw.after ⟨hw.right.conf, ha, hw.right.conns⟩

theorem starts_sound (hs : s.Starts) : s.Sound s.thread.conf := by
  refine ⟨⟨rfl, ⟨.refl _, hs.known⟩, fun dbAlias c hc => ?_⟩, by simp [hs.blocks], by simp [hs.noContexts]⟩
  have hmem := List.mem_of_getElem? hc
  obtain ⟨v, hv⟩ := hs.idle c hmem
  have hflat : Flat c.pg := by rw [hv]; trivial
  exact ⟨(hs.conns c hmem).inv, fun _ => hflat⟩

theorem run_sound (hs : s.Starts) {acts : List Act} (hacts : Run.Along Running.act (fun s a => a.Clear s) s acts) :
    (Run.run Running.act s acts).Sound s.thread.conf :=
  Run.run_keeps_along (fun _ _ hi ha => act_sound hi ha) (starts_sound hs) hacts

/-- **Blocks and statements.** In every run of a thread, whatever blocks it enters and leaves, in
whatever order and on whatever alias, a command on rows ran while its session held the values of
the context that was active. -/
theorem blocks_keep_reads_right (hs : s.Starts) {acts : List Act}
    (hacts : Run.Along Running.act (fun s a => a.Clear s) s acts) :
    ∀ (dbAlias : ℕ) (c : Connection), (Run.run Running.act s acts).thread.conns[dbAlias]? = some c →
      ∀ r ∈ c.ran, r.seen = valuesOf r.context := fun dbAlias c hc =>
  ((run_sound hs hacts).right.conns dbAlias c hc).recorded.log

/-! ### A thread with one connection -/

/-- It has not connected, and no context is active. -/
def Running.outside (conf : Conf) : Running := ⟨⟨conf, ⟨0, Vars.init, ⟨[], ⟨0, []⟩⟩⟩, [.unopened]⟩, [], []⟩

theorem outside_starts (conf : Conf) : (Running.outside conf).Starts where
  conns c hc := (List.mem_singleton.1 hc).symm ▸ unopened_unopened
  idle c hc := (List.mem_singleton.1 hc).symm ▸ ⟨_, rfl⟩
  blocks := rfl
  noContexts := rfl
  known i hi := by cases hi

/-- Nothing happens to the messages of a deed. -/
def Deed.act (d : Deed) : Act := ⟨d, fun _ => []⟩

theorem exit_clear {i : ℕ} {pending : Bool} (h : (s.blocks[i]?).all (·.covered s.thread) = true) :
    (Deed.exit i pending).act.Clear s := fun f hf => f.covered_iff s.thread |>.1 (by rw [hf] at h; exact h)

/-- The read of `SELECT 1`. -/
def Deed.read : Deed := .statement 0 DataStatement.select.sql

theorem read_clear : Deed.read.act.Clear s := .inl ⟨.select, rfl, select_clear _⟩

/-- A user's scope in a tenant's block, and an administrator's block in which that is left. -/
def nestedBlocks : List Deed :=
  [.enter 0 (.tenant (.int 1)), .read, .enter 0 (.user (some (.int 2)) (.forTenant "2")), .read, .exit 0 false,
    .read, .enter 0 .admin, .read, .exit 2 false, .read, .exit 0 false, .read]

theorem blocks_keep_reads_right_nested :
    (Run.run Running.act (.outside ⟨false, "rls".toList⟩) (nestedBlocks.map Deed.act)).thread.conns.all
      (fun c => c.ran.all fun r => decide (r.seen = valuesOf r.context)) = true := by
  refine List.all_eq_true.2 fun c hc => List.all_eq_true.2 fun r hr => decide_eq_true ?_
  obtain ⟨i, hi⟩ := List.mem_iff_getElem?.1 hc
  refine blocks_keep_reads_right (outside_starts _) ?_ i c hi r hr
  refine ⟨trivial, read_clear, trivial, read_clear, exit_clear ?_, read_clear, trivial, read_clear, exit_clear ?_,
    read_clear, exit_clear ?_, read_clear, trivial⟩ <;> decide +kernel

end Runs

end RlsTenants
