import RlsTenants.Spec.M2m
import RlsTenants.Spec.Migrations

/-!
# The plan of `check_rls --generate`

`plan_m2m_migrations` of `management/_rls_migrations.py`: one migration an app, with an
operation for each through table that no migration covers; the other tables are skipped,
with a reason.

* `firstPass` goes through the tables and collects the operations by app.
* `secondPass` makes a migration of each app's operations, or skips them if the app has
  conflicting migrations.
-/

namespace RlsTenants

namespace M2mPlan

open Project
open Migrations (MigrationKey)

/-- `MigrationFacts`, with what the plan asks of it beside the policies; `aliasRepr` is how
Python writes the database's alias, and `parseNumber` Django's number of a migration's name. -/
structure MigrationFacts extends Migrations.MigrationFacts where
  aliasRepr : String
  isMigrated : String → Bool
  stateHasField : ModelPath → String → Bool
  leafNodes : String → List MigrationKey
  parseNumber : String → Option ℕ

/-- A migration that `check_rls --generate` writes. -/
structure PlannedMigration where
  appLabel : String
  name : String
  dependencies : List MigrationKey
  operations : List AddM2MRLSPolicy
  tables : List String

/-! ## Names -/

/-- The policy of a through table, as the builders name it. -/
def policyName (table : String) : String := s!"{table}_m2m_rls_policy"

/-- A policy as the database lists it: PostgreSQL has cut its name to 63 bytes. -/
def storedPolicy (name : String) : String := .ofList (clip 63 name.toList)

/-- `_label`. -/
def label (key : MigrationKey) : String := s!"{key.app}.{key.name}"

/-- `f"{number:04d}"`. -/
def fourDigits (number : ℕ) : String :=
  let digits := toString number
  .ofList (List.replicate (4 - digits.length) '0') ++ digits

/-! ## The first pass -/

section

variable (facts : MigrationFacts) (policyNames : String → List String) (options : PolicyOptions)

/-- What becomes of a table: a migration covers it, it is skipped, or it gets an operation. -/
inductive Verdict
  | covered
  | skipped (reason : String)
  | operation (op : AddM2MRLSPolicy)

/-- The body of the first loop. -/
def verdict (table : String) (info : M2mInfo) : Except PolicyError Verdict :=
  let appLabel := info.sides.fromModel.app
  if facts.m2mPolicyMigrations table ≠ [] then .ok .covered
  else if !facts.isMigrated appLabel then
    .ok (.skipped s!"app '{appLabel}' has no migrations to add it to; run setup_m2m_rls instead.")
  else if !facts.stateHasField info.sides.fromModel info.field then
    let name := info.sides.fromModel.name
    .ok (.skipped s!"no migration creates {name}.{info.field}: run makemigrations {appLabel} first.")
  else
    let existing := policyNames table
    if existing ≠ [] ∧ policyName table ∉ existing then
      let names := ", ".intercalate existing
      .ok (.skipped (s!"the table has a policy of another name on database {facts.aliasRepr} " ++
        s!"({names}), and AddM2MRLSPolicy would add a second one."))
    else (AddM2MRLSPolicy.init table info.sides options).map .operation

/-- `operations_by_app.setdefault(app_label, []).append(operation)`. -/
def insertOperation (op : AddM2MRLSPolicy) : List (String × List AddM2MRLSPolicy) → List (String × List AddM2MRLSPolicy)
  | [] => [(op.sides.fromModel.app, [op])]
  | (app, ops) :: rest =>
    if app = op.sides.fromModel.app then (app, ops ++ [op]) :: rest else (app, ops) :: insertOperation op rest

/-- The operations by app, and the reasons of the tables skipped. -/
structure Pass where
  operationsByApp : List (String × List AddM2MRLSPolicy)
  skipped : List (String × String)

def Pass.add (pass : Pass) (table : String) : Verdict → Pass
  | .covered => pass
  | .skipped reason => { pass with skipped := pass.skipped ++ [(table, reason)] }
  | .operation op => { pass with operationsByApp := insertOperation op pass.operationsByApp }

/-- The first loop. -/
def firstPass (tables : List (String × M2mInfo)) : Except PolicyError Pass :=
  tables.foldlM (fun pass entry => do return pass.add entry.1 (← verdict facts policyNames options entry.1 entry.2))
    ⟨[], []⟩

/-! ## The second pass -/

/-- The migrations planned, and the tables skipped. -/
structure Plan where
  planned : List PlannedMigration
  skipped : List (String × String)

/-- The body of the second loop, for `name` after the migration's number. -/
def planApp (name : String) (plan : Plan) (appLabel : String) (operations : List AddM2MRLSPolicy) : Plan :=
  let tables := operations.map (·.m2mTable)
  match facts.leafNodes appLabel with
  | [leaf] =>
    let number := (facts.parseNumber leaf.name).getD 0 + 1
    { plan with planned := plan.planned ++
        [⟨appLabel, s!"{fourDigits number}_{name}", [leaf], operations, tables⟩] }
  | leaves =>
    let names := ", ".intercalate ((leaves.mergeSort Migrations.Graph.keyLe).map label)
    { plan with skipped := plan.skipped ++ tables.map fun table =>
        (table, s!"app '{appLabel}' has conflicting migrations ({names}): run makemigrations --merge first.") }

/-- The second loop. -/
def secondPass (name : String) (pass : Pass) : Plan :=
  pass.operationsByApp.foldl (fun plan group => planApp facts name plan group.1 group.2) ⟨[], pass.skipped⟩

/-- `plan_m2m_migrations`. -/
def planM2mMigrations (name : String) (tables : M2mTables) : Except PolicyError Plan :=
  (firstPass facts policyNames options tables.entries).map (secondPass facts name)

/-! ## What a plan should account for -/

/-- A migration on disk covers the table. -/
def MigrationFacts.Covers (table : String) : Prop := facts.m2mPolicyMigrations table ≠ []

instance (table : String) : Decidable (facts.Covers table) := inferInstanceAs (Decidable (_ ≠ _))

/-- Each table is covered, in one operation of one migration, or skipped for one reason. -/
def Plan.Accounts (plan : Plan) (tables : M2mTables) : Prop :=
  List.Perm
    ((tables.entries.map Prod.fst).filter (fun table => decide (facts.Covers table)) ++
      plan.planned.flatMap (fun migration => migration.operations.map (·.m2mTable)) ++ plan.skipped.map Prod.fst)
    (tables.entries.map Prod.fst)

/-- An uncovered table of a migrated app with one leaf, whose only policy is the one that
the library created for it. -/
structure OwnPolicy (entry : String × M2mInfo) : Prop where
  uncovered : ¬facts.Covers entry.1
  migrated : facts.isMigrated entry.2.sides.fromModel.app = true
  leaf : ∃ leaf, facts.leafNodes entry.2.sides.fromModel.app = [leaf]
  policy : policyNames entry.1 = [storedPolicy (policyName entry.1)]

/-- The table's policy keeps its place: a planned migration adds it. -/
def Plan.Plans (plan : Plan) (table : String) : Prop :=
  ∃ migration ∈ plan.planned, ∃ op ∈ migration.operations, op.m2mTable = table

/-- The first pass gets as far as the table's operation. -/
structure Reaches (entry : String × M2mInfo) : Prop where
  uncovered : ¬facts.Covers entry.1
  migrated : facts.isMigrated entry.2.sides.fromModel.app = true
  field : facts.stateHasField entry.2.sides.fromModel entry.2.field = true
  policies : policyNames entry.1 = [] ∨ policyName entry.1 ∈ policyNames entry.1

end

end M2mPlan

end RlsTenants
