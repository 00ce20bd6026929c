import RlsTenants.Spec.ThreadRuns

/-!
# Deeds and their messages

The runs of `Spec.ThreadRuns`, where it is known of every deed what becomes of the messages
that it sends.

* An `Act` is a deed with the `fates` of its messages on each alias, and `Running.act` does it.
* `Running.Starts` is a thread that has not connected, outside all blocks.
* `Frame.Covered` says that what a block's exit leaves alone needs no putting back: a scope of
  `for_user()` puts back only the GUCs that it changed.
-/

namespace RlsTenants

/-- A deed, and what becomes of the messages that it sends on each alias. -/
structure Act where
  deed : Deed
  fates : ℕ → List Fate

/-- Change what becomes of the messages to come. -/
def Running.withFates (fates : ℕ → List Fate) (s : Running) : Running :=
  { s with thread := { s.thread with conns := s.thread.conns.mapIdx fun i c => { c with fates := fates i } } }

def Running.act (s : Running) (a : Act) : Running := (s.withFates a.fates).step a.deed

/-- The current holder exists. -/
def Scope.Known (s : Scope) : Prop := ∀ i, s.vars.live = some i → i < s.store.lives.length

/-- A thread whose guarded connections have not been opened, outside all blocks. -/
structure Running.Starts (s : Running) : Prop where
  conns : ∀ c ∈ s.thread.conns, Unopened c
  idle : ∀ c ∈ s.thread.conns, ∃ v, c.pg = .idle v
  blocks : s.blocks = []
  noContexts : s.noContexts = []
  known : s.thread.scope.Known

/-- The block's enclosing context has ended. -/
def Frame.orphaned (f : Frame) (s : Store) : Bool := f.enclosing.any fun live => !s.isAlive live

/-- The GUCs that the exit of the block does not put back have the values of the enclosing
context, if that still lives. -/
def Frame.Covered (f : Frame) (t : Thread) : Prop :=
  ∀ previous c, f.previous = some previous → t.conns[f.dbAlias]? = some c →
    f.orphaned t.scope.store = false → ∀ name, name ∉ previous.map Prod.fst →
      c.link ≠ .closed ∧ (c.link = .up →
        c.pg.current.gucs.get name = (valuesOf (t.scope.store.valuesOf f.enclosing)).get name)

/-- The same, computed. -/
def Frame.covered (f : Frame) (t : Thread) : Bool :=
  f.orphaned t.scope.store || (f.previous.elim true fun previous => (t.conns[f.dbAlias]?).elim true fun c =>
    [Guc.isAdmin, .currentTenant].all fun name => (previous.map Prod.fst).contains name ||
      (c.link ≠ .closed && (c.link ≠ .up ||
        c.pg.current.gucs.get name = (valuesOf (t.scope.store.valuesOf f.enclosing)).get name)))

theorem forall_guc {P : Guc → Prop} : (∀ name, P name) ↔ P .isAdmin ∧ P .currentTenant :=
  ⟨fun h => ⟨h _, h _⟩, fun h name => by cases name <;> simp [h]⟩

theorem Frame.covered_iff (f : Frame) (t : Thread) : f.covered t = true ↔ f.Covered t := by
  unfold covered Covered
  cases f.orphaned t.scope.store with
  | true => simp
  | false =>
    cases f.previous with
    | none => simp
    | some previous =>
      cases t.conns[f.dbAlias]? with
      | none => simp
      | some c =>
        simp only [List.contains_eq_mem, List.mem_map, Prod.exists, exists_and_right, exists_eq_right, ne_eq,
          decide_not, List.all_cons, List.all_nil, Bool.and_true, Option.elim_some, Bool.false_or, Bool.and_eq_true,
          Bool.or_eq_true, decide_eq_true_eq, Bool.not_eq_eq_eq_not, Bool.not_true, decide_eq_false_iff_not,
          Option.some.injEq, forall_guc, forall_const, forall_apply_eq_imp_iff, forall_eq', or_iff_not_imp_left,
          not_exists, not_not]

instance (f : Frame) (t : Thread) : Decidable (f.Covered t) := decidable_of_iff _ (f.covered_iff t)

end RlsTenants
