import Mathlib.Data.Finite.Defs
import Mathlib.Order.WellFounded
import Mathlib.Data.Set.Finite.List
import RlsTenants.Spec.Migrations

/-!
# The latest policy is the one that migrate leaves

* `mem_migrationOrder`: the merged plans list every migration, since every migration is
  below a leaf of its app.
* `ordered_migrationOrder`: each comes after all that it depends on.
* `map_placesFrom`, `mem_placesFrom`, `pairwise_placesFrom`: `_database_operations` lists the
  operations at all places, in their order.
* **`migrationOrder_latest`**: so the field of the facts is that of an `AddRLSPolicy` that
  no other one of the model comes after.
-/

namespace RlsTenants

namespace Migrations

open Topology Relation

variable {g : Graph} {forwardsPlan : MigrationKey → List MigrationKey}

/-! ## The order of the migrations -/

theorem node_of_reflTransGen {a b : MigrationKey} (h : ReflTransGen g.dep a b) (hb : b ∈ g.nodes) : a ∈ g.nodes := by
  induction h with
  | refl => exact hb
  | tail _ hcb ih => exact ih (g.parents_mem _ _ hcb).1

theorem mem_leafNodes {key : MigrationKey} : key ∈ g.leafNodes ↔
    key ∈ g.nodes ∧ ∀ child ∈ g.nodes, child.app = key.app → ¬ g.dep key child := by
  unfold Graph.leafNodes Graph.dep
  rw [List.mem_filter]
  simp

/-- **Every migration is below a leaf**: its dependents in its app go on to one, for they
are finitely many and no migration depends on itself. -/
theorem exists_leaf {key : MigrationKey} (hkey : key ∈ g.nodes) : ∃ leaf ∈ g.leafNodes, ReflTransGen g.dep key leaf := by
  have hfinite : Finite {k // k ∈ g.nodes} := (List.finite_toSet g.nodes).to_subtype
  let above : {k // k ∈ g.nodes} → {k // k ∈ g.nodes} → Prop := fun a b => TransGen g.dep b.val a.val
  have htrans : IsTrans _ above := ⟨fun a b c hab hbc => hbc.trans hab⟩
  have hirrefl : Std.Irrefl above := ⟨fun a ha => g.acyclic a.val ha⟩
  have hwf : WellFounded above := Finite.wellFounded_of_trans_of_irrefl above
  suffices h : ∀ k : {k // k ∈ g.nodes}, ∃ leaf ∈ g.leafNodes, ReflTransGen g.dep k.val leaf from h ⟨key, hkey⟩
  intro k
  induction k using hwf.induction with
  | _ k ih =>
    by_cases hleaf : k.val ∈ g.leafNodes
    · exact ⟨k.val, hleaf, .refl⟩
    · -- a dependent in its app is nearer to a leaf
      have hchild : ∃ child ∈ g.nodes, g.dep k.val child := by
        by_contra hno
        apply hleaf
        rw [mem_leafNodes]
        exact ⟨k.property, fun child hchild _ hdep => hno ⟨child, hchild, hdep⟩⟩
      obtain ⟨child, hchild, hdep⟩ := hchild
      obtain ⟨leaf, hmem, hreach⟩ := ih ⟨child, hchild⟩ (TransGen.single hdep)
      exact ⟨leaf, hmem, ReflTransGen.head hdep hreach⟩

section Order

variable (hplans : ∀ leaf ∈ g.leafNodes, IsPlan g leaf (forwardsPlan leaf))

include hplans

theorem mem_migrationOrder_iff {key : MigrationKey} : key ∈ migrationOrder g forwardsPlan ↔
    ∃ leaf ∈ g.leafNodes, ReflTransGen g.dep key leaf := by
  unfold migrationOrder
  rw [mem_merge]
  constructor
  · rintro ⟨plan, hplan, hkey⟩
    obtain ⟨leaf, hleaf, rfl⟩ := List.mem_map.mp hplan
    have hleaf : leaf ∈ g.leafNodes := List.mem_mergeSort.mp hleaf
    exact ⟨leaf, hleaf, ((hplans leaf hleaf).mem_iff key).mp hkey⟩
  · rintro ⟨leaf, hleaf, hreach⟩
    refine ⟨forwardsPlan leaf, List.mem_map_of_mem (List.mem_mergeSort.mpr hleaf), ?_⟩
    exact ((hplans leaf hleaf).mem_iff key).mpr hreach

/-- The order lists every migration. -/
theorem mem_migrationOrder {key : MigrationKey} : key ∈ migrationOrder g forwardsPlan ↔ key ∈ g.nodes := by
  rw [mem_migrationOrder_iff hplans]
  constructor
  · rintro ⟨leaf, hleaf, hreach⟩
    exact node_of_reflTransGen hreach (mem_leafNodes.mp hleaf).1
  · exact exists_leaf

theorem ordered_migrationOrder : Ordered g.dep (migrationOrder g forwardsPlan) := by
  apply Ordered.merge
  intro plan hplan
  obtain ⟨leaf, hleaf, rfl⟩ := List.mem_map.mp hplan
  have hisPlan := hplans leaf (List.mem_mergeSort.mp hleaf)
  exact ⟨hisPlan.ordered, hisPlan.nodup⟩

theorem migrateOrder_migrationOrder : MigrateOrder g (migrationOrder g forwardsPlan) where
  mem_iff _ := mem_migrationOrder hplans
  nodup := nodup_merge _
  ordered := ordered_migrationOrder hplans

end Order

/-! ## The places of the operations -/

/-- The operations that run on the database, in order, with their paths; the first of the
operations stands at `n`. -/
def placesFrom : ℕ → List Operation → List (List ℕ × Operation)
  | _, [] => []
  | n, .separateDatabaseAndState inner :: operations =>
    (placesFrom 0 inner).map (fun place => (n :: place.1, place.2)) ++ placesFrom (n + 1) operations
  | n, operation :: operations => ([n], operation) :: placesFrom (n + 1) operations

theorem placesFrom_operation (n : ℕ) {operation : Operation} (operations : List Operation)
    (h : ∀ inner, operation ≠ .separateDatabaseAndState inner) :
    placesFrom n (operation :: operations) = ([n], operation) :: placesFrom (n + 1) operations ∧
      databaseOperations (operation :: operations) = operation :: databaseOperations operations := by
  cases operation with
  | separateDatabaseAndState inner => exact absurd rfl (h inner)
  | _ => constructor <;> simp [placesFrom, databaseOperations, Operation.database]

/-- **What the source lists are the operations at the places**, in their order. -/
theorem map_placesFrom (n : ℕ) (operations : List Operation) :
    (placesFrom n operations).map Prod.snd = databaseOperations operations := by
  fun_induction placesFrom n operations with
  | case1 n => simp [databaseOperations]
  | case2 n inner operations ih1 ih2 =>
    rw [List.map_append, List.map_map, ih2, databaseOperations, Operation.database]
    exact congrArg (· ++ _) ih1
  | case3 n operation operations h ih =>
    rw [List.map_cons, ih, (placesFrom_operation n operations h).2]

theorem operationAt_succ {operation x : Operation} {operations : List Operation} {i : ℕ} {rest : List ℕ} :
    OperationAt (operation :: operations) ((i + 1) :: rest) x ↔ OperationAt operations (i :: rest) x := by
  constructor
  · intro h
    cases h with
    | here hat hleaf => exact .here hat hleaf
    | inside hat hin => exact .inside hat hin
  · intro h
    cases h with
    | here hat hleaf => exact .here hat hleaf
    | inside hat hin => exact .inside hat hin

theorem operationAt_inside {x : Operation} {inner operations : List Operation} {rest : List ℕ} :
    OperationAt (.separateDatabaseAndState inner :: operations) (0 :: rest) x ↔ OperationAt inner rest x := by
  constructor
  · intro h
    cases h with
    | here hat hleaf => exact absurd (Option.some.inj hat).symm (hleaf inner)
    | inside hat hin =>
      cases hat
      exact hin
  · exact .inside rfl

theorem operationAt_here {operation x : Operation} {operations : List Operation} {rest : List ℕ}
    (hleaf : ∀ inner, operation ≠ .separateDatabaseAndState inner) :
    OperationAt (operation :: operations) (0 :: rest) x ↔ rest = [] ∧ x = operation := by
  constructor
  · intro h
    cases h with
    | here hat _ => exact ⟨rfl, (Option.some.inj hat).symm⟩
    | inside hat _ => exact absurd (Option.some.inj hat) (hleaf _)
  · rintro ⟨rfl, rfl⟩
    exact .here rfl hleaf

/-- A place among the later operations. -/
theorem exists_shift {n : ℕ} {path : List ℕ} {P : ℕ → List ℕ → Prop} :
    (∃ i rest, path = (n + 1 + i) :: rest ∧ P (i + 1) rest) ∨ (∃ rest, path = n :: rest ∧ P 0 rest) ↔
      ∃ i rest, path = (n + i) :: rest ∧ P i rest := by
  constructor
  · rintro (⟨i, rest, rfl, h⟩ | ⟨rest, rfl, h⟩)
    · exact ⟨i + 1, rest, by rw [Nat.add_right_comm, Nat.add_assoc], h⟩
    · exact ⟨0, rest, rfl, h⟩
  · rintro ⟨i, rest, rfl, h⟩
    cases i with
    | zero => exact .inr ⟨rest, rfl, h⟩
    | succ i => exact .inl ⟨i, rest, by rw [Nat.add_right_comm, Nat.add_assoc], h⟩

theorem operationAt_ne_nil {operations : List Operation} {path : List ℕ} {x : Operation}
    (h : OperationAt operations path x) : ∃ i rest, path = i :: rest := by
  cases h with
  | here _ _ => exact ⟨_, _, rfl⟩
  | inside _ _ => exact ⟨_, _, rfl⟩

/-- **The places listed are all places.** -/
theorem mem_placesFrom {n : ℕ} {operations : List Operation} {path : List ℕ} {x : Operation} :
    (path, x) ∈ placesFrom n operations ↔
      ∃ i rest, path = (n + i) :: rest ∧ OperationAt operations (i :: rest) x := by
  fun_induction placesFrom n operations generalizing path with
  | case1 n =>
    constructor
    · simp
    · rintro ⟨i, rest, -, hat⟩
      cases hat with
      | here h => cases h
      | inside h => cases h
  | case2 n inner operations ih1 ih2 =>
    rw [← exists_shift, List.mem_append, ih2, or_comm]
    simp only [operationAt_succ, operationAt_inside]
    refine or_congr_right ?_
    constructor
    · intro hmem
      obtain ⟨⟨rest, y⟩, hplace, heq⟩ := List.mem_map.mp hmem
      obtain ⟨rfl, rfl⟩ := Prod.mk.inj heq
      obtain ⟨i, rest, rfl, hat⟩ := ih1.mp hplace
      exact ⟨i :: rest, by rw [Nat.zero_add], hat⟩
    · rintro ⟨rest, rfl, hat⟩
      obtain ⟨i, rest, rfl⟩ := operationAt_ne_nil hat
      exact List.mem_map.mpr ⟨(i :: rest, x), ih1.mpr ⟨i, rest, by rw [Nat.zero_add], hat⟩, rfl⟩
  | case3 n operation operations hleaf ih =>
    have hleaf : ∀ inner, operation ≠ .separateDatabaseAndState inner := hleaf
    rw [← exists_shift, List.mem_cons, ih, or_comm]
    simp only [operationAt_succ, operationAt_here hleaf]
    refine or_congr_right ?_
    constructor
    · intro heq
      obtain ⟨rfl, rfl⟩ := Prod.mk.inj heq
      exact ⟨[], rfl, rfl, rfl⟩
    · rintro ⟨rest, rfl, rfl, rfl⟩
      rfl

/-- They are listed in the order in which they run. -/
theorem pairwise_placesFrom (n : ℕ) (operations : List Operation) :
    (placesFrom n operations).Pairwise fun p q => p.1 < q.1 := by
  have hlater : ∀ n (operations : List Operation) (rest : List ℕ), ∀ q ∈ placesFrom (n + 1) operations,
      n :: rest < q.1 := by
    intro n operations rest q hq
    obtain ⟨i, rest', hpath, -⟩ := mem_placesFrom.mp (show (q.1, q.2) ∈ _ from hq)
    rw [hpath, List.cons_lt_cons_iff]
    exact .inl (by omega)
  fun_induction placesFrom n operations with
  | case1 n => exact .nil
  | case2 n inner operations ih1 ih2 =>
    rw [List.pairwise_append, List.pairwise_map]
    refine ⟨ih1.imp fun h => List.cons_lt_cons_iff.mpr (.inr ⟨rfl, h⟩), ih2, ?_⟩
    intro p hp q hq
    obtain ⟨place, -, rfl⟩ := List.mem_map.mp hp
    exact hlater n operations place.1 q hq
  | case3 n operation operations hleaf ih => exact .cons (fun q hq => hlater n operations [] q hq) ih

theorem mem_places {operations : List Operation} {path : List ℕ} {x : Operation} :
    (path, x) ∈ placesFrom 0 operations ↔ OperationAt operations path x := by
  rw [mem_placesFrom]
  constructor
  · rintro ⟨i, rest, rfl, hat⟩
    rwa [Nat.zero_add]
  · intro hat
    obtain ⟨i, rest, rfl⟩ := operationAt_ne_nil hat
    exact ⟨i, rest, by rw [Nat.zero_add], hat⟩

/-! ## The last policy that is recorded -/

section

variable {lower : String → String} {model : ModelKey} {field : String}

theorem record_rlsPolicyFields (facts : MigrationFacts) (key : MigrationKey) (operation : Operation) :
    (record lower facts key operation).rlsPolicyFields model =
      (policyField lower model key operation).or (facts.rlsPolicyFields model) := by
  cases operation with
  | addRLSPolicy appLabel modelName field =>
    by_cases hmodel : model = ⟨labelOr appLabel key, lower modelName⟩
    · simp [record, policyField, hmodel]
    · simp [record, policyField, hmodel]
  | createModel name hasConstraint => cases hasConstraint <;> rfl
  | addConstraint modelName isRls => cases isRls <;> rfl
  | separateDatabaseAndState operations => rfl
  | addM2MRLSPolicy m2mTable => rfl
  | other => rfl

/-- The facts after some operations. -/
def recordAll (lower : String → String) (l : List (MigrationKey × Operation)) : MigrationFacts :=
  l.foldl (fun facts r => record lower facts r.1 r.2) .empty

theorem recordAll_concat (l : List (MigrationKey × Operation)) (r : MigrationKey × Operation) :
    (recordAll lower (l ++ [r])).rlsPolicyFields model =
      (policyField lower model r.1 r.2).or ((recordAll lower l).rlsPolicyFields model) := by
  rw [recordAll, List.foldl_append]
  exact record_rlsPolicyFields _ _ _

/-- The field that is known is that of the last policy. -/
theorem last_policy {l : List (MigrationKey × Operation)} (h : (recordAll lower l).rlsPolicyFields model = some field) :
    ∃ x r y, l = x ++ r :: y ∧ policyField lower model r.1 r.2 = some field ∧
      ∀ r' ∈ y, policyField lower model r'.1 r'.2 = none := by
  induction l using List.reverseRecOn with
  | nil => cases h
  | append_singleton l r ih =>
    rw [recordAll_concat] at h
    cases hr : policyField lower model r.1 r.2 with
    | some field' =>
      rw [hr, Option.some_or] at h
      obtain rfl := Option.some.inj h
      exact ⟨l, r, [], rfl, hr, by simp⟩
    | none =>
      rw [hr, Option.none_or] at h
      obtain ⟨x, r', y, rfl, hfield, hy⟩ := ih h
      refine ⟨x, r', y ++ [r], by simp, hfield, ?_⟩
      intro s hs
      rcases List.mem_append.mp hs with hs | hs
      · exact hy s hs
      · obtain rfl := List.mem_singleton.mp hs
        exact hr

theorem no_policy {l : List (MigrationKey × Operation)} (h : (recordAll lower l).rlsPolicyFields model = none) :
    ∀ r ∈ l, policyField lower model r.1 r.2 = none := by
  induction l using List.reverseRecOn with
  | nil => simp
  | append_singleton l r ih =>
    rw [recordAll_concat, Option.or_eq_none_iff] at h
    intro s hs
    rcases List.mem_append.mp hs with hs | hs
    · exact ih h.2 s hs
    · obtain rfl := List.mem_singleton.mp hs
      exact h.1

end

/-! ## Its place -/

/-- What is recorded, with its places. -/
def recordedAt (g : Graph) (order : List MigrationKey) : List (Place × Operation) :=
  order.flatMap fun key => (placesFrom 0 (g.operations key)).map fun p => (⟨key, p.1⟩, p.2)

theorem map_recordedAt (order : List MigrationKey) :
    (recordedAt g order).map (fun r => (r.1.key, r.2)) = recorded g order := by
  unfold recordedAt recorded
  rw [List.map_flatMap]
  congr 1
  funext key
  rw [← map_placesFrom 0, List.map_map, List.map_map]
  rfl

theorem mem_recordedAt {order : List MigrationKey} {p : Place} {operation : Operation} :
    (p, operation) ∈ recordedAt g order ↔ p.key ∈ order ∧ OperationAt (g.operations p.key) p.path operation := by
  rw [recordedAt, List.mem_flatMap]
  constructor
  · rintro ⟨key, hkey, hmem⟩
    obtain ⟨place, hplace, heq⟩ := List.mem_map.mp hmem
    obtain ⟨rfl, rfl⟩ := Prod.mk.inj heq
    exact ⟨hkey, mem_places.mp hplace⟩
  · rintro ⟨hkey, hat⟩
    exact ⟨p.key, hkey, List.mem_map.mpr ⟨(p.path, operation), mem_places.mpr hat, rfl⟩⟩

/-- What is recorded first runs first. -/
theorem pairwise_recordedAt {order : List MigrationKey} (hnodup : order.Nodup) :
    (recordedAt g order).Pairwise fun r s => RunsBefore order r.1 s.1 := by
  rw [recordedAt, List.pairwise_flatMap]
  constructor
  · intro key _
    rw [List.pairwise_map]
    exact (pairwise_placesFrom 0 _).imp fun h => .inr ⟨rfl, h⟩
  · refine (pairwise_before hnodup).imp ?_
    intro a b hbefore r hr s hs
    obtain ⟨p, -, rfl⟩ := List.mem_map.mp hr
    obtain ⟨q, -, rfl⟩ := List.mem_map.mp hs
    exact .inl hbefore

section

variable {lower : String → String} {model : ModelKey} {field : String}

/-- **The known field is that of the last policy** in the order. -/
theorem exists_last_place {order : List MigrationKey} (horder : MigrateOrder g order)
    (h : (recordAll lower (recorded g order)).rlsPolicyFields model = some field) :
    ∃ p, PolicyAt lower g model p field ∧ ∀ q f, PolicyAt lower g model q f → q ≠ p → RunsBefore order q p := by
  obtain ⟨x, r, y, hsplit, hfield, hnone⟩ := last_policy h
  rw [← map_recordedAt] at hsplit
  obtain ⟨x', z', hlist, rfl, hz⟩ := List.map_eq_append_iff.mp hsplit
  obtain ⟨⟨p, operation⟩, y', rfl, rfl, rfl⟩ := List.map_eq_cons_iff.mp hz
  have hmem : (p, operation) ∈ recordedAt g order := by rw [hlist]; simp
  obtain ⟨hkey, hat⟩ := mem_recordedAt.mp hmem
  refine ⟨p, ⟨(horder.mem_iff _).mp hkey, operation, hat, hfield⟩, ?_⟩
  rintro q f ⟨hnode, operation', hat', hpolicy⟩ hne
  have hmem' : (q, operation') ∈ recordedAt g order := mem_recordedAt.mpr ⟨(horder.mem_iff _).mpr hnode, hat'⟩
  rw [hlist] at hmem'
  have hordered := pairwise_recordedAt (g := g) horder.nodup
  rw [hlist] at hordered
  rcases List.mem_append.mp hmem' with hearlier | hrest
  · exact (List.pairwise_append.mp hordered).2.2 _ hearlier _ List.mem_cons_self
  rcases List.mem_cons.mp hrest with heq | hlater
  · exact absurd (Prod.mk.inj heq).1 hne
  · -- no policy of the model is recorded after the last one
    have hnothing := hnone _ (List.mem_map_of_mem hlater)
    rw [hpolicy] at hnothing
    cases hnothing

end

/-- What runs before the last policy does not depend after it. -/
theorem not_dependsAfter {order : List MigrationKey} (horder : MigrateOrder g order) {p q : Place}
    (hq : q.key ∈ g.nodes) (h : RunsBefore order q p) : ¬DependsAfter g q p := by
  have hlisted := (horder.mem_iff _).mpr hq
  rintro (hdep | ⟨hkey, hpath⟩)
  · have hafter := horder.ordered.before_of_transGen horder.nodup hdep hlisted
    rcases h with hbefore | ⟨hkey, -⟩
    · exact Before.irrefl horder.nodup _ (hbefore.trans horder.nodup hafter)
    · rw [hkey] at hafter
      exact Before.irrefl horder.nodup _ hafter
  · rcases h with hbefore | ⟨-, hlt⟩
    · rw [hkey] at hbefore
      exact Before.irrefl horder.nodup _ hbefore
    · exact lt_asymm hlt hpath

/-- What the order of the migrations and the fields of the policies are. -/
structure MeansMigrate (lower : String → String) (g : Graph) (forwardsPlan : MigrationKey → List MigrationKey) :
    Prop where
  once : (migrationOrder g forwardsPlan).Nodup
  reachable : ∀ key, key ∈ migrationOrder g forwardsPlan ↔ ∃ leaf ∈ g.leafNodes, ReflTransGen g.dep key leaf
  after : Ordered (TransGen g.dep) (migrationOrder g forwardsPlan)
  latest : ∀ model field, (migrationFacts lower g forwardsPlan).rlsPolicyField model = some field →
    Latest lower g model field
  none : ∀ model, (migrationFacts lower g forwardsPlan).rlsPolicyField model = none →
    ∀ p f, ¬PolicyAt lower g model p f

/-- **"Latest" means what `migrate` means**: the order lists every migration below a leaf
once, after all that it depends on, and the field of a model is that of an `AddRLSPolicy`
that no other one of the model comes after. -/
theorem migrationOrder_latest (lower : String → String) (g : Graph) (forwardsPlan : MigrationKey → List MigrationKey)
    (hplans : ∀ leaf ∈ g.leafNodes, IsPlan g leaf (forwardsPlan leaf)) : MeansMigrate lower g forwardsPlan := by
  have horder := migrateOrder_migrationOrder hplans
  refine ⟨horder.nodup, fun _ => mem_migrationOrder_iff hplans, ?_, ?_, ?_⟩
  · exact fun b hb a hdep => horder.ordered.before_of_transGen horder.nodup hdep hb
  · intro model field hfield
    obtain ⟨p, hp, hlast⟩ := exists_last_place horder hfield
    refine ⟨p, hp, fun q f hq => ?_, _, horder, hlast⟩
    by_cases hne : q = p
    · rintro (hdep | ⟨-, hlt⟩)
      · rw [hne] at hdep
        exact g.acyclic _ hdep
      · rw [hne] at hlt
        exact lt_irrefl _ hlt
    · exact not_dependsAfter horder hq.1 (hlast q f hq hne)
  · rintro model hnone p f ⟨hnode, operation, hat, hpolicy⟩
    have hmem : (p, operation) ∈ recordedAt g (migrationOrder g forwardsPlan) :=
      mem_recordedAt.mpr ⟨(horder.mem_iff _).mpr hnode, hat⟩
    have hrecorded := List.mem_map_of_mem (f := fun r : Place × Operation => (r.1.key, r.2)) hmem
    rw [map_recordedAt] at hrecorded
    rw [no_policy hnone _ hrecorded] at hpolicy
    cases hpolicy

/-! ## A policy that an earlier app replaces -/

theorem acyclic_of_rank {parents : MigrationKey → List MigrationKey} (rank : MigrationKey → ℕ)
    (h : ∀ b, ∀ a ∈ parents b, rank a < rank b) (key : MigrationKey) :
    ¬ TransGen (fun a b => a ∈ parents b) key key := by
  have hlt : ∀ a b, TransGen (fun a b => a ∈ parents b) a b → rank a < rank b := by
    intro a b hab
    induction hab with
    | single hab => exact h _ _ hab
    | tail _ hcb ih => exact Nat.lt_trans ih (h _ _ hcb)
  exact fun hkey => Nat.lt_irrefl _ (hlt _ _ hkey)

/-- A list that ends in a migration, holds what its members depend on and nothing else. -/
theorem isPlan_of {target : MigrationKey} {plan : List MigrationKey} (hlast : plan.getLast? = some target)
    (hnodup : plan.Nodup) (hordered : Ordered g.dep plan) (hreach : ∀ key ∈ plan, ReflTransGen g.dep key target) :
    IsPlan g target plan where
  mem_iff key := by
    constructor
    · exact hreach key
    · intro h
      induction h using ReflTransGen.head_induction_on with
      | refl => exact List.mem_of_getLast? hlast
      | head hdep _ ih => exact (hordered _ ih _ hdep).mem.1
  nodup := hnodup
  ordered := hordered
  last := hlast

def shopInitial : MigrationKey := ⟨"shop", "0001_initial"⟩
def zetaPolicy : MigrationKey := ⟨"zeta", "0001_policy"⟩
def alphaPolicy : MigrationKey := ⟨"alpha", "0001_policy"⟩

/-- `zeta` adds a policy to a model of `shop`; `alpha`, which depends on it, adds another
one inside two `SeparateDatabaseAndState`. -/
def shopGraph : Graph where
  nodes := [alphaPolicy, shopInitial, zetaPolicy]
  operations key :=
    if key = shopInitial then [.createModel "Order" false]
    else if key = zetaPolicy then [.addRLSPolicy (some "shop") "Order" "tenant"]
    else [.separateDatabaseAndState [.separateDatabaseAndState [.addRLSPolicy (some "shop") "Order" "owner"]]]
  parents key := if key = zetaPolicy then [shopInitial] else if key = alphaPolicy then [zetaPolicy] else []
  parents_mem := by
    intro key parent hparent
    split at hparent
    · rename_i hkey
      obtain rfl := List.mem_singleton.mp hparent
      simp [hkey]
    · split at hparent
      · rename_i hkey
        obtain rfl := List.mem_singleton.mp hparent
        simp [hkey]
      · cases hparent
  acyclic := by
    apply acyclic_of_rank fun key => if key = shopInitial then 0 else if key = zetaPolicy then 1 else 2
    intro b a ha
    split at ha
    · rename_i hb
      obtain rfl := List.mem_singleton.mp ha
      rw [hb]
      decide
    · split at ha
      · rename_i hb
        obtain rfl := List.mem_singleton.mp ha
        rw [hb]
        decide
      · cases ha

/-- The plans of its migrations. -/
def shopPlan (key : MigrationKey) : List MigrationKey :=
  if key = shopInitial then [shopInitial]
  else if key = zetaPolicy then [shopInitial, zetaPolicy]
  else [shopInitial, zetaPolicy, alphaPolicy]

theorem shop_dep {a b : MigrationKey} (h : shopGraph.dep a b) :
    (a = shopInitial ∧ b = zetaPolicy) ∨ (a = zetaPolicy ∧ b = alphaPolicy) := by
  unfold Graph.dep shopGraph at h
  simp only at h
  split at h
  · rename_i hb
    exact .inl ⟨List.mem_singleton.mp h, hb⟩
  · split at h
    · rename_i hb
      exact .inr ⟨List.mem_singleton.mp h, hb⟩
    · cases h

theorem shop_plans : ∀ leaf ∈ shopGraph.leafNodes, IsPlan shopGraph leaf (shopPlan leaf) := by
  have hzeta : shopGraph.dep shopInitial zetaPolicy := List.mem_singleton.mpr rfl
  have halpha : shopGraph.dep zetaPolicy alphaPolicy := by
    have hparents : shopGraph.parents alphaPolicy = [zetaPolicy] := by decide
    change zetaPolicy ∈ shopGraph.parents alphaPolicy
    rw [hparents]
    exact List.mem_singleton.mpr rfl
  have hordered : ∀ plan : List MigrationKey, (∀ b ∈ plan, ∀ a, shopGraph.dep a b → Before plan a b) →
      Ordered shopGraph.dep plan := fun plan h => h
  intro leaf hleaf
  have hnode := (mem_leafNodes.mp hleaf).1
  simp only [shopGraph, List.mem_cons, List.not_mem_nil, or_false] at hnode
  rcases hnode with rfl | rfl | rfl
  · apply isPlan_of (by decide) (by decide)
    · intro b hb a ha
      rcases shop_dep ha with ⟨rfl, rfl⟩ | ⟨rfl, rfl⟩
      · exact ⟨[shopInitial], [alphaPolicy], by decide, by decide⟩
      · exact ⟨[shopInitial, zetaPolicy], [], by decide, by decide⟩
    · intro key hkey
      have hplan : shopPlan alphaPolicy = [shopInitial, zetaPolicy, alphaPolicy] := by decide
      simp only [hplan, List.mem_cons, List.not_mem_nil, or_false] at hkey
      rcases hkey with rfl | rfl | rfl
      · exact .tail (.single hzeta) halpha
      · exact .single halpha
      · exact .refl
  · apply isPlan_of (by decide) (by decide)
    · intro b hb a ha
      obtain rfl : b = shopInitial := List.mem_singleton.mp hb
      rcases shop_dep ha with ⟨-, hb⟩ | ⟨-, hb⟩
      · exact absurd hb (by decide)
      · exact absurd hb (by decide)
    · intro key hkey
      obtain rfl : key = shopInitial := List.mem_singleton.mp hkey
      exact .refl
  · apply isPlan_of (by decide) (by decide)
    · intro b hb a ha
      rcases shop_dep ha with ⟨rfl, rfl⟩ | ⟨rfl, rfl⟩
      · exact ⟨[shopInitial], [], by decide, by decide⟩
      · exact absurd hb (by decide)
    · intro key hkey
      have hplan : shopPlan zetaPolicy = [shopInitial, zetaPolicy] := by decide
      simp only [hplan, List.mem_cons, List.not_mem_nil, or_false] at hkey
      rcases hkey with rfl | rfl
      · exact .single hzeta
      · exact .refl

theorem shop_leafNodes : shopGraph.leafNodes.mergeSort Graph.keyLe = [alphaPolicy, shopInitial, zetaPolicy] := by
  have hleaves : shopGraph.leafNodes = [alphaPolicy, shopInitial, zetaPolicy] := by decide +kernel
  rw [hleaves]
  exact List.mergeSort_of_pairwise (by decide +kernel)

/-- The field is the one that `alpha` gives, though its app comes first by name. -/
theorem migrationOrder_latest_shop : MeansMigrate (·.map Char.toLower) shopGraph shopPlan ∧
    (migrationFacts (·.map Char.toLower) shopGraph shopPlan).rlsPolicyField ⟨"shop", "order"⟩ = some "owner" := by
  refine ⟨migrationOrder_latest _ shopGraph shopPlan shop_plans, ?_⟩
  rw [migrationFacts, migrationOrder, shop_leafNodes]
  decide +kernel

end Migrations

end RlsTenants
