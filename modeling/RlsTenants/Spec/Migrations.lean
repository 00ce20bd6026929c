import RlsTenants.Lib.Topology
import RlsTenants.Spec.Models

/-!
# What the migrations say about policies

`MigrationFacts` reads the operations of all migrations, in an order in which `migrate` can
run them: the plans to the leaves, merged (`migrationOrder`).

* `databaseOperations` looks into `SeparateDatabaseAndState`.
* `record` notes what an operation does; the last `AddRLSPolicy` of a model counts.
* `OperationAt` says where the operations stand that run on the database, to any depth.
* `Latest`: a field of an `AddRLSPolicy` that no other one of the model comes after.
-/

namespace RlsTenants

namespace Migrations

open Topology

/-! ## Migrations -/

/-- The app and the name of a migration. -/
structure MigrationKey where
  app : String
  name : String
deriving DecidableEq

/-- An operation, and what it holds that the facts need. -/
inductive Operation
  | separateDatabaseAndState (databaseOperations : List Operation)
  | addM2MRLSPolicy (m2mTable : String)
  | addRLSPolicy (appLabel : Option String) (modelName field : String)
  | createModel (name : String) (hasConstraint : Bool)
  | addConstraint (modelName : String) (isRls : Bool)
  | other

mutual

/-- What an operation runs on the database. -/
def Operation.database : Operation → List Operation
  | .separateDatabaseAndState operations => databaseOperations operations
  | operation => [operation]

/-- `_database_operations`. -/
def databaseOperations : List Operation → List Operation
  | [] => []
  | operation :: operations => operation.database ++ databaseOperations operations

end

/-- The graph of the migrations: a migration depends on its parents, and never on itself. -/
structure Graph where
  nodes : List MigrationKey
  operations : MigrationKey → List Operation
  parents : MigrationKey → List MigrationKey
  parents_mem : ∀ key, ∀ parent ∈ parents key, parent ∈ nodes ∧ key ∈ nodes
  acyclic : ∀ key, ¬ Relation.TransGen (fun a b => a ∈ parents b) key key

namespace Graph

variable (g : Graph)

/-- `b` depends on `a`. -/
def dep (a b : MigrationKey) : Prop := a ∈ g.parents b

/-- `leaf_nodes()`: the migrations that no migration of their app depends on. -/
def leafNodes : List MigrationKey :=
  g.nodes.filter fun key => !g.nodes.any fun child => child.app == key.app && (g.parents child).contains key

/-- The order of tuples of strings. -/
def keyLe (a b : MigrationKey) : Bool := a.app < b.app || (a.app == b.app && a.name ≤ b.name)

end Graph

/-- What `forwards_plan` gives for a migration: it, and all that it depends on, each once
and after what it depends on itself. -/
structure IsPlan (g : Graph) (target : MigrationKey) (plan : List MigrationKey) : Prop where
  mem_iff : ∀ key, key ∈ plan ↔ Relation.ReflTransGen g.dep key target
  nodup : plan.Nodup
  ordered : Ordered g.dep plan
  last : plan.getLast? = some target

/-- `_migration_order`, for the plans that `forwards_plan` gives. -/
def migrationOrder (g : Graph) (forwardsPlan : MigrationKey → List MigrationKey) : List MigrationKey :=
  merge ((g.leafNodes.mergeSort Graph.keyLe).map forwardsPlan)

/-! ## Facts -/

/-- The dictionaries of `MigrationFacts`. -/
structure MigrationFacts where
  m2mPolicies : String → List MigrationKey
  rlsConstraints : ModelKey → List MigrationKey
  rlsPolicies : ModelKey → List MigrationKey
  rlsPolicyFields : ModelKey → Option String

def MigrationFacts.empty : MigrationFacts := ⟨fun _ => [], fun _ => [], fun _ => [], fun _ => none⟩

/-- `d.setdefault(k, []).append(key)`. -/
def appendAt {κ : Type} [DecidableEq κ] (d : κ → List MigrationKey) (k : κ) (key : MigrationKey) : κ → List MigrationKey :=
  fun k' => if k' = k then d k' ++ [key] else d k'

/-- `operation.app_label or key[0]`. -/
def labelOr (appLabel : Option String) (key : MigrationKey) : String :=
  match appLabel with
  | some label => if label = "" then key.app else label
  | none => key.app

section

variable (lower : String → String)

/-- `_record`; `lower` is how Python writes a name in lower case. -/
def record (facts : MigrationFacts) (key : MigrationKey) : Operation → MigrationFacts
  | .addM2MRLSPolicy m2mTable => { facts with m2mPolicies := appendAt facts.m2mPolicies m2mTable key }
  | .addRLSPolicy appLabel modelName field =>
    let modelKey : ModelKey := ⟨labelOr appLabel key, lower modelName⟩
    { facts with
      rlsPolicies := appendAt facts.rlsPolicies modelKey key
      rlsPolicyFields := fun k => if k = modelKey then some field else facts.rlsPolicyFields k }
  | .createModel name hasConstraint =>
    if hasConstraint then
      { facts with rlsConstraints := appendAt facts.rlsConstraints ⟨key.app, lower name⟩ key }
    else facts
  | .addConstraint modelName isRls =>
    if isRls then
      { facts with rlsConstraints := appendAt facts.rlsConstraints ⟨key.app, lower modelName⟩ key }
    else facts
  | .separateDatabaseAndState _ => facts
  | .other => facts

/-- The operations in the order in which they are recorded, with their migrations. -/
def recorded (g : Graph) (order : List MigrationKey) : List (MigrationKey × Operation) :=
  order.flatMap fun key => (databaseOperations (g.operations key)).map fun operation => (key, operation)

/-- `MigrationFacts.__init__`. -/
def migrationFacts (g : Graph) (forwardsPlan : MigrationKey → List MigrationKey) : MigrationFacts :=
  (recorded g (migrationOrder g forwardsPlan)).foldl (fun facts r => record lower facts r.1 r.2) .empty

end

/-- `m2m_policy_migrations`. -/
def MigrationFacts.m2mPolicyMigrations (facts : MigrationFacts) (table : String) : List MigrationKey :=
  facts.m2mPolicies table

/-- `rls_policy_migrations`. -/
def MigrationFacts.rlsPolicyMigrations (facts : MigrationFacts) (model : ModelKey) : List MigrationKey :=
  facts.rlsPolicies model

/-- `rls_policy_field`. -/
def MigrationFacts.rlsPolicyField (facts : MigrationFacts) (model : ModelKey) : Option String :=
  facts.rlsPolicyFields model

/-! ## Where the operations stand -/

/-- At this path an operation runs on the database: it stands at the index, or at a path among
the database operations of the `SeparateDatabaseAndState` at the index. -/
inductive OperationAt : List Operation → List ℕ → Operation → Prop
  | here {operations i operation} : operations[i]? = some operation →
      (∀ inner, operation ≠ .separateDatabaseAndState inner) → OperationAt operations [i] operation
  | inside {operations i inner path operation} : operations[i]? = some (.separateDatabaseAndState inner) →
      OperationAt inner path operation → OperationAt operations (i :: path) operation

/-- A place in a migration. -/
structure Place where
  key : MigrationKey
  path : List ℕ
deriving DecidableEq

/-- The operation at `q` always runs after that at `p`: its migration depends on the other,
or it stands later in the same one. -/
def DependsAfter (g : Graph) (q p : Place) : Prop :=
  Relation.TransGen g.dep p.key q.key ∨ (q.key = p.key ∧ p.path < q.path)

/-- An order in which `migrate` can run all migrations. -/
structure MigrateOrder (g : Graph) (order : List MigrationKey) : Prop where
  mem_iff : ∀ key, key ∈ order ↔ key ∈ g.nodes
  nodup : order.Nodup
  ordered : Ordered g.dep order

/-- The operation at `q` runs before that at `p`. -/
def RunsBefore (order : List MigrationKey) (q p : Place) : Prop :=
  Before order q.key p.key ∨ (q.key = p.key ∧ q.path < p.path)

/-! ## What the latest policy is -/

section

variable (lower : String → String)

/-- The field that an operation of a migration has in a policy of the model. -/
def policyField (model : ModelKey) (key : MigrationKey) : Operation → Option String
  | .addRLSPolicy appLabel modelName field =>
    if model = ⟨labelOr appLabel key, lower modelName⟩ then some field else none
  | _ => none

/-- At this place an `AddRLSPolicy` gives the model a policy that reads the field. -/
def PolicyAt (g : Graph) (model : ModelKey) (place : Place) (field : String) : Prop :=
  place.key ∈ g.nodes ∧ ∃ operation, OperationAt (g.operations place.key) place.path operation ∧
    policyField lower model place.key operation = some field

/-- The field is that of an `AddRLSPolicy` that no other one of the model depends after, and
that is the last of them in some order in which `migrate` can run. -/
def Latest (g : Graph) (model : ModelKey) (field : String) : Prop :=
  ∃ p, PolicyAt lower g model p field ∧ (∀ q f, PolicyAt lower g model q f → ¬DependsAfter g q p) ∧
    ∃ order, MigrateOrder g order ∧ ∀ q f, PolicyAt lower g model q f → q ≠ p → RunsBefore order q p

end

end Migrations

end RlsTenants
