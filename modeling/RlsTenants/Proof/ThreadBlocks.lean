import RlsTenants.Spec.BlockRuns
import RlsTenants.Proof.GucWrites
import RlsTenants.Proof.Holders
import RlsTenants.Proof.Outside

/-!
# Blocks on the connections of a thread

The entries and exits of `Spec.Blocks` keep every connection of the thread `Right`: its record
says what the session holds.

* `snapshotGucs_ends`: with session GUCs a snapshot holds the values of the active context, for
  the guard has applied them.
* `enter_writes` and `restore_known`: what a block writes is recorded as what it is, and so is
  what its exit puts back, if it covers what it leaves alone.
* `Frame.Sound` is what a frame keeps of its snapshot: while the enclosing context lives, the
  values are that context's.
* `exitContext_right`, `enterContext_right`, `forUser_right`, `exitNoContext_right`: each of them
  on a whole thread.
-/

namespace RlsTenants

open Txn Effect Comp ContextVar

/-- The connection's record is right, and every command on rows ran under its context's values. -/
abbrev Recorded : Connection → Prop :=
  Inv (fun _ => True) (fun _ => False) true fun r => r.seen = valuesOf r.context

/-- So it is, and with session GUCs the session hides nothing. -/
structure Right (conf : Conf) (c : Connection) : Prop where
  recorded : Recorded c
  flat : conf.useLocalSet = false → FlatConn c

/-- The same, but for what the record holds. -/
structure AlmostRight (conf : Conf) (c : Connection) : Prop where
  unsure : Unsure (fun _ => True) (fun _ => False) (fun r => r.seen = valuesOf r.context) c
  flat : conf.useLocalSet = false → FlatConn c

theorem keeps_right {conf : Conf} {α : Type} {m : Db α} (h : Keeps Recorded m)
    (hflat : conf.useLocalSet = false → Keeps FlatConn m) : Keeps (Right conf) m := fun c hc =>
  ⟨h c hc.recorded, fun hmode => hflat hmode c (hc.flat hmode)⟩

/-- An outcome, and what the program keeps besides. -/
theorem Right.with_flat {conf : Conf} {α : Type} {m : Db α} {c : Connection} {Q : α → Connection → Prop}
    {E : Exc → Connection → Prop} (hc : Right conf c) (hmode : conf.useLocalSet = false) (hflat : Keeps FlatConn m)
    (h : Ends Q E (m c)) : Ends (fun a c' => Q a c' ∧ FlatConn c') (fun e c' => E e c' ∧ FlatConn c') (m c) :=
  h.with_inv (hflat c (hc.flat hmode))

/-! ## Reading GUCs -/

section Reading

variable {T : Option ContextGucs → Prop} {H : Name → Prop} {L : Ran → Prop} {c : Connection} {env : Env}

theorem Alike.current {s s' : Backend} (h : Alike s s') : s'.current.gucs = s.current.gucs := by
  cases h with
  | idle hv => exact hv
  | inTx _ hc _ => exact hc

theorem getGucSql_parsed : ∃ s, parse (.str getGucSql) = some s ∧ s.compound = false ∧ s.isFollowed = false ∧
    controlsTheTransaction (some s) = false := ⟨_, rfl, by decide, by decide, by decide⟩

/-- **With session GUCs a read sees the active context's values**: the guard has applied them. -/
theorem guard_read_ends (hmode : env.conf.useLocalSet = false) (hT : T env.context) (h : Inv T H true L c) :
    Ends (fun _ c' => Inv T H true L c' ∧ c'.link = .up ∧ c'.pg.current.gucs = valuesOf env.context)
      (fun _ => Inv T H true L) (guard env ⟨.str getGucSql, [.other]⟩ c) := by
  obtain ⟨s, hs, hcompound, hfollowed, hcontrol⟩ := getGucSql_parsed
  have hnot : ∀ c, ¬LocalOutside env c := by
    intro c h
    have := h.2.1
    rw [hmode] at this
    exact absurd this (by simp)
  have hown : ∀ c st, needsOwnTransaction env c st (some s) = false := by
    intro c st
    simp [needsOwnTransaction, hmode]
  simp only [guard, hs, hcontrol, Bool.false_eq_true, if_false, Bool.not_false, Bool.true_and]
  refine (applyIfStale_ends h).bind_rule ?_
  intro st c' hc'
  obtain ⟨-, hstepped, happ⟩ := hc'
  have happ : c'.link = .up → c'.needsRollback = false → c'.ready.isFailed = false →
      c'.tracker.values = .known env.context := by
    intro hl hn hf
    rcases happ with ⟨rfl, happ⟩ | ⟨hat, -⟩
    · refine (happ hl hn ?_).resolve_right (hnot c)
      change c.ready.isFailed = false at hf
      unfold Connection.ready at hf
      cases hp : c.pg with
      | idle v => rfl
      | inTx o => rwa [hp] at hf
    · exact hat.values
  have hneutral : ∀ cmd ∈ [Command.other], cmd.Neutral := by simp [Command.Neutral]
  simp only [bind_run, reads_run, id, hown, Bool.false_eq_true, if_false]
  refine Ends.bind_rule
    (Q := fun _ c'' => Inv T H true L c'' ∧ c''.link = .up ∧ c''.pg.current.gucs = valuesOf env.context)
    (Ends.attempt_rule (F := fun _ => Inv T H true L) ?_ ?_) ?_
  · refine execute_sane hstepped.toSane (fun _ _ reach g hg => ?_) (fun hl hn hr hsent => ?_)
      (fun hl _ e reach _ hsent => ⟨hsent, fun _ => hstepped.reached_neutral hl hneutral reach⟩)
      (fun _ _ hsane hl => .of_down hsane hl) fun _ es _ => hstepped.inv.raised es
    · obtain ⟨-, -, id, hid⟩ := sightings_neutral hneutral reach g hg
      simp at hid
    · have hf : c'.ready.isFailed = false := by
        refine Bool.eq_false_iff.2 fun hf => ?_
        rw [run_failed hf (by simp [Command.step, hf])] at hr
        simp at hr
      refine ⟨⟨hsent, fun _ => hstepped.reached_neutral hl hneutral .run⟩, hl, ?_⟩
      have halike : Alike c'.ready (c'.sent env.context [.other] .run).pg := (neutral_runMessage hneutral c'.ready).1
      rw [halike.current]
      exact hstepped.current hl hn hf _ (happ hl hn hf) hT
  · intro e c'' hi
    exact (forgetIfFollowed_ends hi _).bind_rule fun _ _ h => h
  · intro _ c'' hc''
    simp only [afterStatement, hcompound, hfollowed, Bool.false_eq_true, if_false, pure_run, Bool.false_or]
    split
    · exact ⟨hc''.1.suspect true, hc''.2⟩
    · exact hc''

/-- What `get_guc()` reads, with session GUCs. -/
theorem getGuc_ends (hmode : env.conf.useLocalSet = false) (hT : T env.context) (h : Inv T H true L c) (name : Guc) :
    Ends (fun value c' => Inv T H true L c' ∧ value.getD "" = (valuesOf env.context).get name ∧
        c'.link = .up ∧ c'.pg.current.gucs = valuesOf env.context)
      (fun _ => Inv T H true L) (getGuc env name c) := by
  refine (ensureConnection_ends env h).bind_rule ?_
  intro _ c' hc'
  refine (guard_read_ends hmode hT hc'.1).bind_rule ?_
  intro _ c'' hc''
  obtain ⟨hi, hl, hcurrent⟩ := hc''
  simp only [bind_run, reads_run, pure_run]
  refine ⟨hi, ?_, hl, hcurrent⟩
  rw [hcurrent]
  split
  · rename_i hempty
    exact hempty.symm
  · rfl

/-- These are values of GUCs of `g`. -/
def Snapshots (g : Option ContextGucs) (previous : List (Guc × Option String)) : Prop :=
  ∀ p ∈ previous, p.2.getD "" = (valuesOf g).get p.1

/-- **A snapshot holds the active context's values**, and so does the session. -/
theorem snapshotGucs_ends (hmode : env.conf.useLocalSet = false) (hT : T env.context) (h : Inv T H true L c) :
    Ends (fun previous c' => Inv T H true L c' ∧ (previous.map Prod.fst = [.isAdmin, .currentTenant] ∧
        Snapshots env.context previous) ∧ c'.link = .up ∧ c'.pg.current.gucs = valuesOf env.context)
      (fun _ => Inv T H true L) (snapshotGucs env c) := by
  refine (getGuc_ends hmode hT h .isAdmin).bind_rule ?_
  intro isAdmin c' hc'
  refine (getGuc_ends hmode hT hc'.1 .currentTenant).bind_rule ?_
  intro currentTenant c'' hc''
  refine ⟨hc''.1, ⟨rfl, ?_⟩, hc''.2.2⟩
  simp only [Snapshots, List.forall_mem_cons]
  exact ⟨hc'.2.1, hc''.2.1, by simp⟩

end Reading

/-! ## The GUCs of a block -/

section Gucs

variable {conf : Conf} {c : Connection} {env : Env} {g : Option ContextGucs}

theorem both_names (name : Guc) : name ∈ [Guc.isAdmin, .currentTenant] := by
  cases name <;> simp

/-- **A block's entry** writes GUCs; with those that it leaves alone they are its values. -/
theorem enter_writes (hmode : conf.useLocalSet = false) (h : Right conf c) {gucs : ContextGucs}
    {writes : List (Guc × String)} (hw : ∀ p ∈ writes, p.2 = gucs.get p.1)
    (hrest : HoldsOn gucs (fun name => name ∉ writes.map Prod.fst) c) :
    Ends (fun _ => Right conf)
      (fun _ c' => Right conf c' ∧ HoldsOn gucs (fun name => name ∉ writes.map Prod.fst) c')
      (writing (.known (some gucs)) false (setGucEach env false writes) c) := by
  have hset := setGucEach_ends env writes hw h.recorded.loose hrest
  have hwrite := writing_loose_ends true (some gucs) (Q := fun _ => True)
    (hset.mono (fun _ c' hc' => ⟨hc'.1, fun _ name _ => hc'.2 name (Decidable.not_or_of_imp id)⟩) fun _ _ h => h)
  refine (h.with_flat hmode (flat_passive.writing (setGucEach_flat writes) _ _) hwrite).mono ?_ ?_
  · intro _ c' hc'
    exact ⟨hc'.1.2 trivial, fun _ => hc'.2⟩
  · intro _ c' hc'
    exact ⟨⟨hc'.1.1, fun _ => hc'.2⟩, hc'.1.2⟩

/-- **A snapshot is put back**, and recorded as what it is. -/
theorem restore_known (hmode : conf.useLocalSet = false) (h : Right conf c) (pending : Bool)
    {previous : List (Guc × Option String)} (hp : Snapshots g previous)
    (hrest : HoldsOn (valuesOf g) (fun name => name ∉ previous.map Prod.fst) c) :
    Ends (fun restored c' => AlmostRight conf c' ∧ (restored = true → Right conf c')) (fun _ => Right conf)
      (writing (.known g) false (restoreGucs env previous false pending) c) := by
  have hrestore := restoreGucs_ends env pending previous hp h.recorded.loose hrest
  have hwrite := writing_loose_ends true g (g := .cleared) (S := fun _ => False) (Q := (· = true))
    (hrestore.mono (fun restored c' hc' => ⟨hc'.1, fun hr name _ => hc'.2 hr name (Decidable.not_or_of_imp id)⟩)
      fun _ _ h => ⟨h, fun _ hn => hn.elim⟩)
  refine (h.with_flat hmode (flat_passive.writing (restoreGucs_flat previous pending) _ _) hwrite).mono ?_ ?_
  · intro restored c' hc'
    exact ⟨⟨hc'.1.1, fun _ => hc'.2⟩, fun hr => ⟨hc'.1.2 hr, fun _ => hc'.2⟩⟩
  · intro _ c' hc'
    exact ⟨hc'.1.1, fun _ => hc'.2⟩

/-- It is put back where nothing is known of the context. -/
theorem restore_unknown (pending : Bool) {previous : List (Guc × Option String)} (hp : Snapshots g previous) :
    Keeps (Right conf) (writing .unknown false (do
      let _ ← restoreGucs env previous false pending)) := by
  refine keeps_right (fun c h => Ends.inv ?_) fun _ => flat_passive.writing
    ((restoreGucs_flat previous pending).bind_rule fun _ => .pure_rule _) _ _
  refine writing_unknown_ends ?_
  refine (restoreGucs_ends env pending previous hp h.loose (S := fun _ => False) fun _ hn => hn.elim).bind_rule ?_
  intro _ c' hc'
  exact hc'.1

end Gucs

/-! ## The context variables -/

/-- A scope that came from one with the store `s₀`. -/
structure Scope.After (s₀ : Store) (s : Scope) : Prop where
  grows : s₀.Grows s.store
  known : s.Known

section Scopes

variable {conf : Conf} {s₀ : Store} {s : Scope}

theorem Scope.After.reset {α : Type} (h : s.After s₀) (x : Var Vars α) (hx : ∀ a v, (x.put a v).live = v.live)
    (t : Token α) : (Scope.resetVar x t s).2.After s₀ := by
  have hgrows := h.grows.lives_eq (Scope.resetVar_lives x t s)
  unfold Scope.resetVar at hgrows ⊢
  unfold Var.reset at hgrows ⊢
  split
  · exact h
  · rename_i vars ledger hr
    split at hr
    · cases hr
    · split at hr
      · cases hr
      · obtain ⟨rfl, rfl⟩ := Prod.mk.inj (Except.ok.inj hr)
        refine ⟨h.grows.lives_eq rfl, fun i hi => h.known i ?_⟩
        rw [← hi]
        exact (hx t.old s.vars).symm

theorem Scope.After.resetGucs (h : s.After s₀) {e : GucsToken}
    (he : ∀ i, e.token.old = some i → i < s₀.lives.length) : (Scope.resetContextGucs e s).2.After s₀ := by
  have hgrows := h.grows.trans (Scope.resetContextGucs_grows e s)
  refine ⟨hgrows, fun i hi => ?_⟩
  have hlength := (Scope.resetContextGucs_grows e s).length
  by_cases hu : e.token.id ∈ s.store.ledger.used
  · rw [Scope.resetContextGucs_used hu] at hi hlength ⊢
    exact Nat.lt_of_lt_of_le (h.known i hi) hlength
  by_cases hc : e.token.context = s.context
  · rw [Scope.resetContextGucs_ok hu hc] at hi hgrows ⊢
    exact Nat.lt_of_lt_of_le (he i hi) hgrows.length
  · rw [Scope.resetContextGucs_elsewhere hu hc] at hi hlength ⊢
    exact Nat.lt_of_lt_of_le (h.known i hi) hlength

/-- What a frame keeps: what it puts back is there, and its snapshot holds values of the
enclosing context, while that lives. -/
structure Frame.Sound (conf : Conf) (s : Store) (f : Frame) : Prop where
  enclosing : ∀ i, f.enclosing = some i → i < s.lives.length
  token : ∀ i, f.tokens.entered.token.old = some i → i < s.lives.length
  snapshot : ∀ previous, f.previous = some previous → conf.useLocalSet = false ∧
    ∃ g, Snapshots g previous ∧ (f.orphaned s = false → s.valuesOf f.enclosing = g)

theorem Frame.orphaned_mono {f : Frame} {s s' : Store} (hs : s.Grows s') (hlt : ∀ i, f.enclosing = some i → i < s.lives.length)
    (h : f.orphaned s' = false) : f.orphaned s = false ∧ s'.valuesOf f.enclosing = s.valuesOf f.enclosing := by
  unfold Frame.orphaned at h ⊢
  cases hf : f.enclosing with
  | none => exact ⟨rfl, rfl⟩
  | some i =>
    rw [hf] at h
    have halive : s'.isAlive i = true := by simpa using h
    exact ⟨by simp [hs.isAlive (hlt i hf) halive], hs.valuesOf (hlt i hf) halive⟩

theorem Frame.Sound.mono {f : Frame} {s' : Store} (h : f.Sound conf s₀) (hs : s₀.Grows s') : f.Sound conf s' := by
  refine ⟨fun i hi => ?_, fun i hi => ?_, fun previous hp => ?_⟩
  · exact Nat.lt_of_lt_of_le (h.enclosing i hi) hs.length
  · exact Nat.lt_of_lt_of_le (h.token i hi) hs.length
  · obtain ⟨hmode, g, hg, hvalues⟩ := h.snapshot previous hp
    refine ⟨hmode, g, hg, fun halive => ?_⟩
    obtain ⟨halive', hsame⟩ := Frame.orphaned_mono hs h.enclosing halive
    rw [hsame]
    exact hvalues halive'

/-- What an exit puts back are values of the enclosing context, or of none if that has ended. -/
theorem Frame.Sound.restores {f : Frame} {previous : List (Guc × Option String)} (h : f.Sound conf s₀)
    (hp : f.previous = some previous) : conf.useLocalSet = false ∧ Snapshots (s₀.valuesOf f.enclosing)
      (if f.orphaned s₀ then [(.isAdmin, none), (.currentTenant, none)] else previous) := by
  obtain ⟨hmode, g, hg, hvalues⟩ := h.snapshot previous hp
  refine ⟨hmode, ?_⟩
  by_cases hended : f.orphaned s₀ = true
  · rw [if_pos hended]
    obtain ⟨i, hi, hdead⟩ := (Option.any_eq_true ..).1 hended
    rw [hi, Store.valuesOf_ended (by simpa using hdead)]
    simp only [Snapshots, List.forall_mem_cons]
    exact ⟨rfl, rfl, by simp⟩
  · rw [if_neg hended, hvalues (by simpa using hended)]
    exact hg

end Scopes

/-! ## Threads -/

/-- Every connection of a thread is as `R` says, and its context variables came from `s₀`. -/
structure Upright (conf : Conf) (s₀ : Store) (R : ℕ → Connection → Prop) (t : Thread) : Prop where
  conf : t.conf = conf
  scope : t.scope.After s₀
  conns : ∀ dbAlias c, t.conns[dbAlias]? = some c → R dbAlias c

/-- They are right. -/
abbrev AllRight (conf : Conf) (s₀ : Store) : Thread → Prop := Upright conf s₀ fun _ => Right conf

section Threads

variable {conf : Conf} {s₀ : Store} {R R' : ℕ → Connection → Prop} {t : Thread} {dbAlias : ℕ}

theorem Upright.mono (ht : Upright conf s₀ R t) (h : ∀ i c, R i c → R' i c) : Upright conf s₀ R' t :=
  ⟨ht.conf, ht.scope, fun i c hc => h i c (ht.conns i c hc)⟩

theorem Upright.fromHere (h : Upright conf s₀ R t) : Upright conf t.scope.store R t :=
  ⟨h.conf, ⟨.refl _, h.scope.known⟩, h.conns⟩

theorem Upright.back {t' : Thread} (ht : t.scope.After s₀) (h : Upright conf t.scope.store R t') : Upright conf s₀ R t' :=
  ⟨h.conf, ⟨ht.grows.trans h.scope.grows, h.scope.known⟩, h.conns⟩

/-- A connection is put back into its thread. -/
theorem Upright.set {c : Connection} (ht : Upright conf s₀ R t) (hother : ∀ other, other ≠ dbAlias → R' other = R other)
    (hc : t.conns[dbAlias]?.isSome) (hr : R' dbAlias c) :
    Upright conf s₀ R' { t with conns := t.conns.set dbAlias c } := by
  refine ⟨ht.conf, ht.scope, fun other c' hc' => ?_⟩
  by_cases ho : other = dbAlias
  · subst ho
    have hlt : other < t.conns.length := by simpa using hc
    obtain rfl : c = c' := by simpa [List.getElem?_set_self hlt] using hc'
    exact hr
  · rw [hother other ho]
    exact ht.conns other c' (by simpa [List.getElem?_set_ne (Ne.symm ho)] using hc')

/-- On one alias. What becomes of its connection may depend on the result. -/
theorem on_ends {α : Type} {m : Env → Db α} {Q : α → Prop} {R F : ℕ → Connection → Prop}
    {S : α → ℕ → Connection → Prop} (dbAlias : ℕ) (ht : Upright conf s₀ R t)
    (hother : ∀ a other, other ≠ dbAlias → S a other = R other) (hfailed : ∀ other, other ≠ dbAlias → F other = R other)
    (h : ∀ c, t.conns[dbAlias]? = some c → R dbAlias c →
      Ends (fun a c' => S a dbAlias c' ∧ Q a) (fun _ => F dbAlias) (m ⟨conf, t.scope.contextGucs⟩ c)) :
    Ends (fun a t' => Upright conf s₀ (S a) t' ∧ t'.scope = t.scope ∧ Q a)
      (fun _ t' => Upright conf s₀ F t' ∧ t'.scope = t.scope) (on dbAlias m t) := by
  unfold on
  cases hc : t.conns[dbAlias]? with
  | none =>
    refine ⟨⟨ht.conf, ht.scope, fun other c hc' => ?_⟩, rfl⟩
    have ho : other ≠ dbAlias := by
      rintro rfl
      rw [hc] at hc'
      cases hc'
    rw [hfailed other ho]
    exact ht.conns other c hc'
  | some c =>
    have hend := h c hc (ht.conns dbAlias c hc)
    rw [← ht.conf] at hend
    have hsome : t.conns[dbAlias]?.isSome := by simp [hc]
    rcases hm : m ⟨t.conf, t.scope.contextGucs⟩ c with ⟨_ | a, c'⟩ <;> rw [hm] at hend <;> simp only [hm]
    · exact ⟨ht.set hfailed hsome hend, rfl⟩
    · exact ⟨ht.set (hother a) hsome hend.1, rfl, hend.2⟩

theorem on_right {α : Type} {m : Env → Db α} (h : ∀ env : Env, env.conf = conf → Keeps (Right conf) (m env)) :
    Keeps (AllRight conf s₀) (on dbAlias m) := by
  intro t ht
  have hend := on_ends (m := m) (Q := fun _ => True) (S := fun _ _ => Right conf) (F := fun _ => Right conf)
    dbAlias ht (fun _ _ _ => rfl) (fun _ _ => rfl) fun c _ hc =>
      ((h _ rfl).triple c hc).mono (fun _ _ h => ⟨h, trivial⟩) fun _ _ h => h
  exact (hend.mono (fun _ _ h => h.1) fun _ _ h => h.1).inv

theorem inScope_right {m : Comp Scope TokenError Unit} (h : ∀ s : Scope, s.After s₀ → (m s).2.After s₀) :
    Keeps (Upright conf s₀ R) (inScope m) := by
  intro t ht
  have hm := h t.scope ht.scope
  unfold inScope
  split
  · rename_i s hs
    rw [hs] at hm
    exact ⟨ht.conf, hm, ht.conns⟩
  · rename_i s hs
    rw [hs] at hm
    exact ⟨ht.conf, hm, ht.conns⟩

theorem exitState_right {tokens : StateTokens}
    (h : ∀ i, tokens.entered.token.old = some i → i < s₀.lives.length) :
    Keeps (Upright conf s₀ R) (exitState tokens) :=
  (inScope_right fun _ hs => hs.resetGucs h).ensuring_rule
    ((inScope_right fun _ hs => hs.reset _ (fun _ _ => rfl) _).ensuring_rule
      (inScope_right fun _ hs => hs.reset _ (fun _ _ => rfl) _))

/-- What entering leaves to put back. -/
theorem enterState_ends (active : Bool) (tenantId : Option TenantId) (gucs : Option ContextGucs)
    (ht : Upright conf s₀ R t) :
    Ends (fun tokens t' => Upright conf s₀ R t' ∧ t'.conns = t.conns ∧ tokens.entered.token.old = t.scope.vars.live)
      (fun _ _ => False) (enterState active tenantId gucs t) := by
  have hgrows : t.scope.store.Grows (t.scope.store.create gucs true) := .create gucs true _
  refine ⟨⟨ht.conf, ⟨ht.scope.grows.trans (hgrows.lives_eq rfl), fun i hi => ?_⟩, ht.conns⟩, rfl, rfl⟩
  obtain rfl : t.scope.store.lives.length = i := Option.some.inj hi
  show _ < (t.scope.store.lives ++ [_]).length
  simp

theorem onConfigured_right {f : ℕ → Prog Unit} (h : ∀ dbAlias, Keeps (AllRight conf s₀) (f dbAlias)) :
    Keeps (AllRight conf s₀) (onConfigured f) :=
  .bind_rule (.reads_rule _) fun _ => .each_rule fun dbAlias _ => h dbAlias

theorem settleOtherAliases_right (dbAlias? : Option ℕ) (cleared : Bool) :
    Keeps (AllRight conf s₀) (settleOtherAliases dbAlias? cleared) := by
  refine onConfigured_right fun _ => .ite_rule (fun _ => .pure_rule _) fun _ => on_right fun env henv => ?_
  exact keeps_right (settle_keeps _ cleared) fun hmode => settle_flat (by rw [henv, hmode]) _ cleared

theorem suspectSessions_right (underLocalValues : Bool) :
    Keeps (AllRight conf s₀) (suspectSessions underLocalValues) :=
  onConfigured_right fun _ => on_right fun _ _ =>
    keeps_right (suspect_keeps underLocalValues) fun _ => suspect_flat underLocalValues

theorem forget_right : Keeps (AllRight conf s₀) (on dbAlias fun _ => forget) :=
  on_right fun _ _ => keeps_right forget_keeps fun _ => flat_passive.forget

/-! ### Exits -/

/-- After a restore, the record of the block's alias may hold what its session does not. -/
def Restored (conf : Conf) (dbAlias : ℕ) (restored : Bool) (other : ℕ) (c : Connection) : Prop :=
  if other = dbAlias ∧ restored = false then AlmostRight conf c else Right conf c

theorem restored_other {other : ℕ} (ho : other ≠ dbAlias) (restored : Bool) :
    Restored conf dbAlias restored other = Right conf := by
  funext c
  simp [Restored, ho]

theorem restored_true : Restored conf dbAlias true = fun _ => Right conf := by
  funext other c
  simp [Restored]

theorem forget_restored (ht : Upright conf s₀ (Restored conf dbAlias false) t) :
    Ends (fun _ => AllRight conf s₀) (fun _ => AllRight conf s₀) (on dbAlias (fun _ => forget) t) := by
  refine (on_ends (Q := fun _ => True) (S := fun _ _ => Right conf) (F := fun _ => Right conf) dbAlias ht
    (fun _ other ho => (restored_other ho false).symm) (fun other ho => (restored_other ho false).symm)
    fun c _ hc => ?_).mono (fun _ _ h => h.1) fun _ _ h => h.1
  have hr : AlmostRight conf c := by simpa [Restored] using hc
  exact ⟨⟨hr.unsure.forget, hr.flat⟩, trivial⟩

/-- What the exit leaves alone has its value. -/
theorem Frame.Covered.holds {f : Frame} {previous : List (Guc × Option String)} {c : Connection} (h : f.Covered t)
    (hp : f.previous = some previous) (hc : t.conns[f.dbAlias]? = some c) (hflat : FlatConn c) :
    HoldsOn (valuesOf (t.scope.store.valuesOf f.enclosing)) (fun name => name ∉
      (if f.orphaned t.scope.store then [(.isAdmin, none), (.currentTenant, none)] else previous).map Prod.fst) c := by
  intro name hname
  by_cases hended : f.orphaned t.scope.store = true
  · rw [if_pos hended] at hname
    exact absurd (both_names name) hname
  · rw [if_neg hended] at hname
    obtain ⟨hopen, hcurrent⟩ := h previous c hp hc (by simpa using hended) name hname
    refine ⟨hopen, fun hl => ⟨hcurrent hl, ?_⟩⟩
    rw [Flat.kept hflat]
    exact hcurrent hl

/-- **The exit of a block that wrote**, wherever it is left. -/
theorem restoreSnapshot_right {f : Frame} {previous : List (Guc × Option String)} (hf : f.Sound conf s₀)
    (hp : f.previous = some previous) (pending : Bool) :
    Triple (fun t => AllRight conf s₀ t ∧ f.Covered t) (restoreSnapshot f previous pending)
      (fun _ => AllRight conf s₀) (fun _ => AllRight conf s₀) := by
  rintro t ⟨ht, hcovered⟩
  obtain ⟨hmode, hg⟩ := (hf.mono ht.scope.grows).restores hp
  have hsettle : Keeps (AllRight conf s₀) (settleOtherAliases (some f.dbAlias) false) :=
    settleOtherAliases_right _ _
  have hlocal : t.conf.useLocalSet = false := by rw [ht.conf, hmode]
  unfold Frame.orphaned at hg
  simp only [restoreSnapshot, bind_run, reads_run, id, hlocal]
  by_cases hlive : t.scope.vars.live = f.enclosing
  · rw [if_neg (by simpa using hlive)]
    have hcontext : t.scope.contextGucs = t.scope.store.valuesOf f.enclosing := by
      rw [Scope.contextGucs, hlive]
    refine ((on_ends (Q := fun _ => True) (S := Restored conf f.dbAlias) (F := fun _ => Right conf) f.dbAlias ht
      (fun a other ho => restored_other ho a) (fun _ _ => rfl) fun c hmem hc => ?_).mono (fun _ _ h => h)
      fun _ _ h => h.1).bind_rule ?_
    · rw [hcontext]
      have hrest := hcovered.holds hp hmem (hc.flat hmode)
      refine (restore_known hmode hc pending hg hrest).mono (fun restored c' hc' => ⟨?_, trivial⟩) fun _ _ h => h
      cases restored with
      | false => simpa [Restored] using hc'.1
      | true => simpa [Restored] using hc'.2
    · intro restored t' ht'
      cases restored with
      | false => exact (forget_restored ht'.1).bind_rule fun _ t'' ht'' => hsettle.triple t'' ht''
      | true =>
        rw [restored_true] at ht'
        exact hsettle.triple t' ht'.1
  · rw [if_pos hlive]
    refine Ends.ite_rule (fun _ => ?_) fun _ => ?_
    · refine ((on_right fun env henv => ?_).triple t ht).bind_rule fun _ t' ht' => hsettle.triple t' ht'
      exact restore_unknown pending hg
    · exact (forget_right.triple t ht).bind_rule fun _ t' ht' => hsettle.triple t' ht'

theorem restoreTenantGucs_right {f : Frame} (hf : f.Sound conf s₀) (pending : Bool) :
    Triple (fun t => AllRight conf s₀ t ∧ f.Covered t) (restoreTenantGucs f pending)
      (fun _ => AllRight conf s₀) (fun _ => AllRight conf s₀) := by
  refine .bind_rule (Q := fun _ t => AllRight conf s₀ t ∧ f.Covered t) (fun _ h => h) fun isLocal => ?_
  refine .ensuring_inv ?_ (.ite_rule (fun _ => suspectSessions_right _) fun _ => .pure_rule _)
  cases hp : f.previous with
  | none => exact (settleOtherAliases_right _ _).triple.conseq (fun _ h => h.1) (fun _ _ h => h) fun _ _ h => h
  | some previous => exact restoreSnapshot_right hf hp pending

/-- The reset of the variables leaves the connections as they are. -/
theorem exitState_covered {f : Frame} (hf : f.Sound conf s₀) :
    Keeps (fun t => AllRight conf s₀ t ∧ f.Covered t) (exitState f.tokens) := by
  rintro t ⟨ht, hcovered⟩
  have hsound := hf.mono ht.scope.grows
  have hreset : Upright conf t.scope.store (fun i c => Right conf c ∧ t.conns[i]? = some c) (exitState f.tokens t).2 :=
    exitState_right hsound.token t ⟨ht.conf, ht.fromHere.scope, fun i c hc => ⟨ht.conns i c hc, hc⟩⟩
  refine ⟨(hreset.mono fun _ _ h => h.1).back ht.scope, fun previous c hp hc halive => ?_⟩
  obtain ⟨halive', hsame⟩ := Frame.orphaned_mono hreset.scope.grows hsound.enclosing halive
  rw [hsame]
  exact hcovered previous c hp (hreset.conns _ c hc).2 halive'

attribute [local irreducible] exitState restoreTenantGucs in
/-- **The exit of a block.** -/
theorem exitContext_right {f : Frame} (hf : f.Sound conf s₀) (pending : Bool) :
    Triple (fun t => AllRight conf s₀ t ∧ f.Covered t) (exitContext f pending)
      (fun _ => AllRight conf s₀) (fun _ => AllRight conf s₀) := by
  refine .bind_rule (Q := fun _ t => AllRight conf s₀ t ∧ f.Covered t)
    (.attempt_rule (exitState_covered hf).triple fun e => ?_) fun _ => restoreTenantGucs_right hf pending
  exact (restoreTenantGucs_right hf true).bind_rule fun _ => .raise_rule e fun _ h => h

theorem exitNoContext_right {tokens : StateTokens}
    (h : ∀ i, tokens.entered.token.old = some i → i < s₀.lives.length) :
    Keeps (AllRight conf s₀) (exitNoContext tokens) := by
  refine (exitState_right h).ensuring_rule (.bind_rule (.reads_rule _) fun isLocal => ?_)
  exact (suspectSessions_right isLocal).ensuring_rule (settleOtherAliases_right none true)

/-! ### Entries -/

/-- What a block that writes has found: its snapshot, and the GUCs that it need not write. -/
structure Found (conf : Conf) (dbAlias : ℕ) (gucs : ContextGucs) (values : List (Guc × Option String))
    (t : Thread) : Prop where
  mode : conf.useLocalSet = false
  snapshot : Snapshots t.scope.contextGucs values
  rest : ∀ name, name ∉ values.map Prod.fst → gucs.get name = (valuesOf t.scope.contextGucs).get name
  held : ∀ c, t.conns[dbAlias]? = some c → HoldsOn gucs (fun name => name ∉ values.map Prod.fst) c

/-- An entry that fails leaves the block again. -/
theorem enterWrites_right {f : Frame} {gucs : ContextGucs} {values : List (Guc × Option String)} {t' : Thread}
    {handler : Exc → Prog Unit} (hfound : Found conf dbAlias gucs values t)
    (ht' : AllRight conf t.scope.store t') (hconns : t'.conns = t.conns) (hf : f.Sound conf t.scope.store)
    (hdb : f.dbAlias = dbAlias) (hp : f.previous = some values) (henclosing : f.enclosing = t.scope.vars.live)
    (hhandler : ∀ e, Triple (fun t' => AllRight conf t.scope.store t' ∧ f.Covered t') (handler e)
      (fun _ => AllRight conf t.scope.store) (fun _ => AllRight conf t.scope.store)) :
    Triple (· = t')
      (attempt
        (on dbAlias fun env => writing (.known (some gucs)) false
          (setGucEach env false (values.map fun p => (p.1, gucs.get p.1)))) handler)
      (fun _ => AllRight conf t.scope.store) (fun _ => AllRight conf t.scope.store) := by
  subst hdb
  have hnames : (values.map fun p => (p.1, gucs.get p.1)).map Prod.fst = values.map Prod.fst := by simp
  -- what the write leaves behind if it fails
  let Left (other : ℕ) (c : Connection) : Prop :=
    Right conf c ∧ (other = f.dbAlias → HoldsOn gucs (fun name => name ∉ values.map Prod.fst) c)
  have hleft : ∀ other, other ≠ f.dbAlias → Left other = Right conf := by
    intro other ho
    funext c
    simp [Left, ho]
  have hwrite : Triple (· = t')
      (on f.dbAlias fun env => writing (.known (some gucs)) false
        (setGucEach env false (values.map fun p => (p.1, gucs.get p.1))))
      (fun _ => AllRight conf t.scope.store) (fun _ => Upright conf t.scope.store Left) := by
    rintro _ rfl
    refine (on_ends (Q := fun _ => True) (S := fun _ _ => Right conf) (F := Left) f.dbAlias ht' (fun _ _ _ => rfl) hleft
      fun c hmem hc => ?_).mono (fun _ _ h => h.1) fun _ _ h => h.1
    rw [hconns] at hmem
    have hheld := hfound.held c hmem
    rw [← hnames] at hheld
    refine (enter_writes hfound.mode hc (fun p hp => ?_) hheld).mono (fun _ _ h => ⟨h, trivial⟩) ?_
    · obtain ⟨q, -, rfl⟩ := List.mem_map.1 hp
      rfl
    · intro _ c' hc'
      rw [hnames] at hc'
      exact ⟨hc'.1, fun _ => hc'.2⟩
  refine hwrite.attempt_rule fun e => (hhandler e).conseq ?_ (fun _ _ h => h) fun _ _ h => h
  intro t'' ht''
  refine ⟨ht''.mono fun _ _ h => h.1, fun previous c hprevious hc halive name hname => ?_⟩
  obtain rfl : values = previous := Option.some.inj (hp.symm.trans hprevious)
  obtain ⟨hopen, hat⟩ := (ht''.conns _ c hc).2 rfl name hname
  obtain ⟨-, hsame⟩ := Frame.orphaned_mono ht''.scope.grows hf.enclosing halive
  refine ⟨hopen, fun hl => ?_⟩
  rw [hsame, (hat hl).1, hfound.rest name hname, henclosing]
  rfl

attribute [local irreducible] exitContext in
/-- A block is entered with a frame of the context that it is entered in. -/
theorem enterBlock_right (ht : AllRight conf s₀ t) (tenantId : Option TenantId) (gucs : ContextGucs)
    {previous : Option (List (Guc × Option String))} {writes : List (Guc × String)}
    (hprevious : ∀ values, previous = some values → Found conf dbAlias gucs values t ∧
      writes = values.map fun p => (p.1, gucs.get p.1)) :
    Ends (fun f t' => AllRight conf s₀ t' ∧ f.Sound conf t'.scope.store) (fun _ => AllRight conf s₀)
      (enterBlock dbAlias tenantId gucs previous writes t) := by
  suffices h : Ends (fun f t' => AllRight conf t.scope.store t' ∧ f.Sound conf t'.scope.store)
      (fun _ => AllRight conf t.scope.store) (enterBlock dbAlias tenantId gucs previous writes t) from
    h.mono (fun _ _ h => ⟨h.1.back ht.scope, h.2⟩) fun _ _ h => h.back ht.scope
  unfold enterBlock
  refine Ends.bind_rule (Q := fun a t' => a = t ∧ t' = t) ⟨rfl, rfl⟩ ?_
  rintro a t' ⟨ha, hat⟩
  rw [ha, hat]
  refine ((enterState_ends true tenantId (some gucs) ht.fromHere).mono (fun _ _ h => h) fun _ _ h => h.elim).bind_rule ?_
  intro tokens t' ht'
  obtain ⟨ht', hconns, hold⟩ := ht'
  have hf : (⟨dbAlias, tokens, previous, t.sessionOf dbAlias, t.scope.vars.live⟩ : Frame).Sound conf t.scope.store := by
    refine ⟨ht.scope.known, fun i hi => ht.scope.known i (hold.symm.trans hi), fun values hvalues => ?_⟩
    obtain ⟨hfound, -⟩ := hprevious values hvalues
    exact ⟨hfound.mode, t.scope.contextGucs, hfound.snapshot, fun _ => rfl⟩
  cases hp : previous with
  | none =>
    rw [hp] at hf
    exact ⟨ht', hf.mono ht'.scope.grows⟩
  | some values =>
    obtain ⟨hfound, hwrites⟩ := hprevious values hp
    rw [hp] at hf
    have hlocal : t.conf.useLocalSet = false := by rw [ht.conf, hfound.mode]
    simp only [Option.isSome_some, if_true, hlocal, hwrites]
    obtain ⟨f, hfeq⟩ : ∃ f, f = (⟨dbAlias, tokens, some values, t.sessionOf dbAlias, t.scope.vars.live⟩ : Frame) :=
      ⟨_, rfl⟩
    have hdb : f.dbAlias = dbAlias := by rw [hfeq]
    have hprevious : f.previous = some values := by rw [hfeq]
    have henclosing : f.enclosing = t.scope.vars.live := by rw [hfeq]
    rw [← hfeq] at hf ⊢
    clear hfeq
    refine Triple.bind_rule (Q := fun _ => AllRight conf t.scope.store)
      (enterWrites_right hfound ht' hconns hf hdb hprevious henclosing
        fun e => .bind_rule (exitContext_right hf true) fun _ => .raise_rule e fun _ h => h) ?_ t' rfl
    intro _ t'' ht''
    exact ⟨ht'', hf.mono ht''.scope.grows⟩

/-- With local values a block writes only on an alias that is not there. -/
theorem writesGucs_local (ht : AllRight conf s₀ t) (hmode : conf.useLocalSet = true)
    (hwrites : t.writesGucs dbAlias = true) : t.conns[dbAlias]? = none := by
  cases hc : t.conns[dbAlias]? with
  | none => rfl
  | some c =>
    have hguarded : c.guarded = true := (ht.conns dbAlias c hc).recorded.guarded
    have hmode : t.conf.useLocalSet = true := by rw [ht.conf, hmode]
    simp [Thread.writesGucs, hmode, Thread.configured, hc, hguarded] at hwrites

theorem on_missing {α : Type} {m : Env → Db α} (h : t.conns[dbAlias]? = none) :
    on dbAlias m t = (.error (.exception 0), t) := by
  simp [on, h]

/-- What an entry that reads the GUCs first has read. -/
def Snapped (dbAlias : ℕ) (t : Thread) (previous : List (Guc × Option String)) (t' : Thread) : Prop :=
  t'.scope = t.scope ∧ previous.map Prod.fst = [.isAdmin, .currentTenant] ∧
    Snapshots t.scope.contextGucs previous ∧ ∀ c, t'.conns[dbAlias]? = some c →
      c.link = .up ∧ c.pg.current.gucs = valuesOf t.scope.contextGucs

/-- **The entries of blocks** read the GUCs first, if they are to write them. -/
theorem entry_right {m : List (Guc × Option String) → Prog Frame} {silent : Prog Frame} (ht : AllRight conf s₀ t)
    (hm : conf.useLocalSet = false → ∀ previous t', AllRight conf s₀ t' → Snapped dbAlias t previous t' →
      Ends (fun f t' => AllRight conf s₀ t' ∧ f.Sound conf t'.scope.store) (fun _ => AllRight conf s₀) (m previous t'))
    (hsilent : Ends (fun f t' => AllRight conf s₀ t' ∧ f.Sound conf t'.scope.store) (fun _ => AllRight conf s₀)
      (silent t)) :
    Ends (fun f t' => AllRight conf s₀ t' ∧ f.Sound conf t'.scope.store) (fun _ => AllRight conf s₀)
      ((do
        if ← reads (·.writesGucs dbAlias) then
          let previous ← on dbAlias snapshotGucs
          m previous
        else silent : Prog Frame) t) := by
  refine Ends.bind_rule (Q := fun a t' => a = t.writesGucs dbAlias ∧ t' = t) ⟨rfl, rfl⟩ ?_
  rintro writes t' ⟨hw, hat⟩
  rw [hw, hat]
  cases hmode : conf.useLocalSet with
  | false =>
    have hlocal : t.conf.useLocalSet = false := by rw [ht.conf, hmode]
    rw [if_pos (show t.writesGucs dbAlias = true by simp [Thread.writesGucs, hlocal])]
    let Read (other : ℕ) (c : Connection) : Prop :=
      Right conf c ∧ (other = dbAlias → c.link = .up ∧ c.pg.current.gucs = valuesOf t.scope.contextGucs)
    have hread : ∀ other, other ≠ dbAlias → Read other = Right conf := by
      intro other ho
      funext c
      simp [Read, ho]
    refine ((on_ends (S := fun _ => Read) (F := fun _ => Right conf) (Q := fun previous =>
      previous.map Prod.fst = [.isAdmin, .currentTenant] ∧ Snapshots t.scope.contextGucs previous) dbAlias ht
      (fun _ => hread) (fun _ _ => rfl) fun c _ hc => ?_).mono (fun _ _ h => h) fun _ _ h => h.1).bind_rule ?_
    · have hsession : (⟨conf, t.scope.contextGucs⟩ : Env).conf.useLocalSet = false := hmode
      have hsnapshot := snapshotGucs_ends hsession trivial hc.recorded
      refine (hc.with_flat hmode (snapshotGucs_flat hmode) hsnapshot).mono ?_ ?_
      · intro previous c' hc'
        exact ⟨⟨⟨hc'.1.1, fun _ => hc'.2⟩, fun _ => hc'.1.2.2⟩, hc'.1.2.1⟩
      · intro _ c' hc'
        exact ⟨hc'.1, fun _ => hc'.2⟩
    · intro previous t' ht'
      obtain ⟨ht', hscope, hprevious⟩ := ht'
      exact hm hmode previous t' (ht'.mono fun _ _ h => h.1)
        ⟨hscope, hprevious.1, hprevious.2, fun c hc => (ht'.conns _ c hc).2 rfl⟩
  | true =>
    by_cases hwrites : t.writesGucs dbAlias = true
    · rw [if_pos hwrites, bind_run, on_missing (writesGucs_local ht hmode hwrites)]
      exact ht
    · rw [if_neg hwrites]
      exact hsilent

/-- `tenant_context()` and `admin_context()` write both GUCs. -/
theorem enterContext_right (ht : AllRight conf s₀ t) (tenantId : Option TenantId) (gucs : ContextGucs) :
    Ends (fun f t' => AllRight conf s₀ t' ∧ f.Sound conf t'.scope.store) (fun _ => AllRight conf s₀)
      (enterContext dbAlias tenantId gucs t) := by
  refine entry_right ht (fun hmode previous t' ht' hsnapped => ?_) (enterBlock_right ht tenantId gucs (by simp))
  obtain ⟨hscope, hnames, hsnapshot, -⟩ := hsnapped
  refine enterBlock_right ht' tenantId gucs fun values hvalues => ?_
  obtain rfl := Option.some.inj hvalues
  have hall : ∀ name, name ∈ previous.map Prod.fst := fun name => hnames ▸ both_names name
  refine ⟨⟨hmode, hscope ▸ hsnapshot, fun name hname => absurd (hall name) hname,
    fun c _ name hname => absurd (hall name) hname⟩, ?_⟩
  calc [(Guc.isAdmin, gucs.isAdmin), (Guc.currentTenant, gucs.currentTenant)]
      = [Guc.isAdmin, .currentTenant].map fun name => (name, gucs.get name) := rfl
    _ = (previous.map Prod.fst).map fun name => (name, gucs.get name) := by rw [hnames]
    _ = previous.map fun p => (p.1, gucs.get p.1) := List.map_map

/-- What a scope leaves alone has its value already. -/
theorem changedGucs_rest {g : Option ContextGucs} (gucs : ContextGucs) {previous : List (Guc × Option String)}
    (hnames : previous.map Prod.fst = [.isAdmin, .currentTenant]) (hp : Snapshots g previous) (name : Guc)
    (hname : name ∉ (changedGucs previous gucs).map Prod.fst) : gucs.get name = (valuesOf g).get name := by
  have hmem : name ∈ previous.map Prod.fst := hnames ▸ both_names name
  obtain ⟨p, hpmem, rfl⟩ := List.mem_map.1 hmem
  have hnot : p ∉ changedGucs previous gucs := fun h => hname (List.mem_map.2 ⟨p, h, rfl⟩)
  have hsame : p.2.getD "" = gucs.get p.1 := by simpa [changedGucs, hpmem] using hnot
  rw [← hp p hpmem, hsame]

/-- The scope of `for_user()` writes the GUCs that it changes. -/
theorem forUser_right (ht : AllRight conf s₀ t) (tenantId : Option TenantId) (gucs : ContextGucs) :
    Ends (fun f t' => AllRight conf s₀ t' ∧ f.Sound conf t'.scope.store) (fun _ => AllRight conf s₀)
      (forUser dbAlias tenantId gucs t) := by
  refine entry_right ht (fun hmode previous t' ht' hsnapped => ?_) (enterBlock_right ht tenantId gucs (by simp))
  obtain ⟨hscope, hnames, hsnapshot, hheld⟩ := hsnapped
  refine enterBlock_right ht' tenantId gucs fun values hvalues => ?_
  obtain rfl := Option.some.inj hvalues
  have hrest := changedGucs_rest gucs hnames hsnapshot
  refine ⟨⟨hmode, fun p hp => ?_, ?_, fun c hc name hname => ?_⟩, rfl⟩
  · rw [hscope]
    exact hsnapshot p (List.mem_of_mem_filter hp)
  · rw [hscope]
    exact hrest
  · obtain ⟨hup, hcurrent⟩ := hheld c hc
    have hflat : Flat c.pg := (ht'.conns _ c hc).flat hmode
    refine ⟨by rw [hup]; decide, fun _ => ?_⟩
    unfold HasValue
    rw [hflat.kept, hcurrent, hrest name hname]
    exact ⟨rfl, rfl⟩

end Threads

end RlsTenants
