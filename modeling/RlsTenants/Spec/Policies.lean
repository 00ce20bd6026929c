import RlsTenants.Lib.Template
import RlsTenants.Spec.PolicySql
import RlsTenants.Spec.Models

/-!
# The policies of a model's table

`RLSConstraint`, `AddRLSPolicy` and the predicates of `extra_predicates`.

* Both write the tenant policy of the table, and with predicates the sharing policy too.
* `RLSConstraint` compares the column `<field>_id`, `AddRLSPolicy` the column of the
  field (`AddRLSPolicy.column`).
* Each is checked when it is built, so that its names are names: `RLSConstraint.init` checks
  them, and what an `AddRLSPolicy` is built from is its field `names_ok`.
-/

namespace RlsTenants

open RowSql

/-! ## Predicates -/

/-- The predicates of `extra_predicates`. -/
inductive Predicate
  | sharedWith (through : ModelPath) (fk tenantFk : String)
  | tenantField (field : String)
  | raw (sql : String)
deriving DecidableEq

/-- `_UNSAFE_IDENTIFIER_CHARS`. -/
def unsafeIdentifierChars : List Char := "\"'\\$\x00".toList

/-- `_quoted`: the name, quoted. -/
def quoted (name what : String) : Except PolicyError SqlName :=
  if name.toList.any (unsafeIdentifierChars.contains ·) then .error (.unsafeName name what)
  else .ok ⟨true, name⟩

/-- `_foreign_key`. -/
def foreignKeyOf (model : Model) (name : String) : Except PolicyError (Field × ForeignKey) :=
  match model.getField name with
  | none => .error (.noField model.path.app model.path.name name)
  | some f => match f.foreignKey with
    | none => .error (.notForeignKey model.path.app model.path.name name)
    | some fk => .ok (f, fk)

/-- `_THROUGH_ALIAS`. -/
def throughAlias : SqlName := ⟨true, "rls_shared"⟩

/-- The names in the subquery of a `SharedWith`. -/
structure Shared where
  throughTable : SqlName
  table : SqlName
  fkColumn : SqlName
  targetColumn : SqlName
  tenantColumn : SqlName
deriving DecidableEq

/-- What `SharedWith.policy_sql` finds in the registry of the model. -/
def resolveShared (apps : Registry) (model : Model) (through : ModelPath) (fk tenantFk : String) :
    Except PolicyError Shared := do
  let some throughModel := apps.getModel through
    | .error (.noModel through.app through.name)
  let (fkField, target) ← foreignKeyOf throughModel fk
  if (apps.find target.related).map (·.concrete) ≠ some model.path.key then
    .error (.otherTarget model.path.app model.path.name fk)
  let (tenantField, _) ← foreignKeyOf throughModel tenantFk
  let throughTable ← quoted throughModel.dbTable "table name"
  let table ← quoted model.dbTable "table name"
  let fkColumn ← quoted fkField.column "column name"
  let targetColumn ← quoted target.targetColumn "column name"
  let tenantColumn ← quoted tenantField.column "column name"
  return ⟨throughTable, table, fkColumn, targetColumn, tenantColumn⟩

/-- The text of a `SharedWith`. -/
def sharedSql (s : Shared) (tenantValue : String) : String :=
  s!"EXISTS (SELECT 1 FROM {s.throughTable.sql} AS {throughAlias.sql} WHERE {throughAlias.sql}.{
    s.fkColumn.sql} = {s.table.sql}.{s.targetColumn.sql} AND {throughAlias.sql}.{s.tenantColumn.sql} = {tenantValue})"

/-- Table and column of a `TenantField`. -/
def resolveTenantField (model : Model) (name : String) : Except PolicyError (SqlName × SqlName) := do
  let (field, _) ← foreignKeyOf model name
  let table ← quoted model.dbTable "table name"
  let column ← quoted field.column "column name"
  return (table, column)

/-- The condition of a `SharedWith`. -/
def Shared.cond (s : Shared) (tenantValue : Operand SqlName) : Cond SqlName :=
  .exists s.throughTable (some throughAlias)
    (.and (.equal (.column (some throughAlias) s.fkColumn) (.column (some s.table) s.targetColumn))
      (.equal (.column (some throughAlias) s.tenantColumn) tenantValue))

/-- The condition of a `TenantField`. -/
def tenantFieldCond (table column : SqlName) (tenantValue : Operand SqlName) : Cond SqlName :=
  .equal (.column (some table) column) tenantValue

/-- A predicate's text (`Predicate.policy_sql`); a `RawPredicate` is the developer's, its
percent signs doubled for the schema editor. -/
def Predicate.policySql (apps : Registry) (model : Model) (tenantValue : String) :
    Predicate → Except PolicyError String
  | .sharedWith through fk tenantFk => do
    return sharedSql (← resolveShared apps model through fk tenantFk) tenantValue
  | .tenantField name => do
    let (table, column) ← resolveTenantField model name
    return s!"{table.sql}.{column.sql} = {tenantValue}"
  | .raw sql =>
    let doubled := String.ofList (SqlLexer.double sql.toList)
    .ok s!"({doubled})"

/-- `_predicates_sql`. -/
def predicatesSql (apps : Registry) (model : Model) (predicates : List Predicate) (tenantValue : String) :
    Except PolicyError (List String) :=
  predicates.mapM (Predicate.policySql apps model tenantValue)

/-! ## The sharing policy -/

/-- The longest name that the two policies of a table share. -/
def policyNameCommonPrefix : String := "_tenant_"

/-- `_sharing_policy_name_problem`. -/
def sharingPolicyNameProblem (table : String) : Bool :=
  63 ≤ byteLength (table ++ policyNameCommonPrefix).toList

/-- The block that creates the sharing policy on `table`, unless it has one of that name. -/
def createSharingBlock (table policyName usingSql : String) : String := s!"
                DO $$
                BEGIN
                    IF NOT EXISTS (
                        SELECT 1 FROM pg_policies
                        WHERE policyname = '{policyName}'
                        AND tablename = '{table}'
                        AND schemaname = current_schema()
                    ) THEN
                        EXECUTE $BODY$
                            CREATE POLICY \"{policyName}\"
                            ON \"{table}\"
                            AS PERMISSIVE
                            FOR SELECT
                            USING (
                                {usingSql}
                            );
                        $BODY$;
                    END IF;
                END
                $$;
            "

/-- `_build_sharing_policy_create_sql`. -/
def buildSharingPolicyCreateSql (table : String) (predicates : List String) : Except PolicyError String :=
  if sharingPolicyNameProblem table then .error (.nameTooLong table)
  else .ok (createSharingBlock table s!"{table}_tenant_sharing_policy"
    (joinSql "\n                                OR " predicates))

/-! ## RLSConstraint -/

/-- The names that a policy's text holds are names. -/
structure PolicyNames (field : String) (gucs : List String) (tenantPkType : String) : Prop where
  field_ok : isFieldName field
  gucs_ok : ∀ guc ∈ gucs, isGucName guc
  pkType_ok : tenantPkType ∈ allowedPkTypes

/-- `RLSConstraint`. -/
structure RLSConstraint where
  field : String
  gucTenantVar : String
  gucAdminVar : String
  tenantPkType : String
  extraBypassFlags : List String
  extraPredicates : List Predicate
  names_ok : PolicyNames field (gucTenantVar :: gucAdminVar :: extraBypassFlags) tenantPkType

/-- `RLSConstraint.__init__`. -/
def RLSConstraint.init (field gucTenantVar gucAdminVar tenantPkType : String) (extraBypassFlags : List String)
    (extraPredicates : List Predicate) : Except PolicyError RLSConstraint := do
  validateFieldName field "field"
  validatePkType tenantPkType
  (gucTenantVar :: gucAdminVar :: extraBypassFlags).forM validateGucName
  if h : isFieldName field ∧ tenantPkType ∈ allowedPkTypes ∧
      ∀ guc ∈ gucTenantVar :: gucAdminVar :: extraBypassFlags, isGucName guc then
    return ⟨field, gucTenantVar, gucAdminVar, tenantPkType, extraBypassFlags, extraPredicates, h.1, h.2.2, h.2.1⟩
  else .error (.fieldName field "field")

/-- `RLSConstraint.create_sql`, as it is rendered. -/
def RLSConstraint.createSql (c : RLSConstraint) (apps : Registry) (model : Model) : Except PolicyError String := do
  let table := model.dbTable
  let sql := buildPolicyCreateSql table s!"{c.field}_id" c.gucTenantVar c.gucAdminVar c.tenantPkType
    c.extraBypassFlags
  if c.extraPredicates.isEmpty then return sql
  let predicates ← predicatesSql apps model c.extraPredicates (tenantValueSql c.gucTenantVar c.tenantPkType)
  return sql ++ (← buildSharingPolicyCreateSql table predicates)

/-! ## AddRLSPolicy -/

/-- `AddRLSPolicy`, with the options that `_policy_options` gives it. -/
structure AddRLSPolicy where
  model : ModelPath
  field : String
  gucTenantVar : String
  gucAdminVar : String
  tenantPkType : String
  extraBypassFlags : List String
  extraPredicates : List Predicate
  names_ok : PolicyNames field (gucTenantVar :: gucAdminVar :: extraBypassFlags) tenantPkType

namespace AddRLSPolicy

/-- `_model`. -/
def findModel (op : AddRLSPolicy) (apps : Registry) : Except PolicyError Model :=
  match apps.getModel op.model with
  | none => .error (.noModel op.model.app op.model.name)
  | some model => if model.proxy then .error (.proxyModel op.model.app op.model.name) else .ok model

/-- `_table`. -/
def table (model : Model) : Except PolicyError String :=
  if model.dbTable.toList.any (unsafeIdentifierChars.contains ·) then .error (.unsafeName model.dbTable "table name")
  else .ok model.dbTable

/-- `_check_target`. -/
def checkTarget (settings : Settings) (model : Model) (f : Field) (fk : ForeignKey) : Except PolicyError Unit :=
  if s!"{fk.related.app}.{fk.related.name}".map Char.toLower ≠ settings.tenantModel.map Char.toLower then
    .error (.otherTarget model.path.app model.path.name f.name)
  else .ok ()

/-- `_column`: bare if it is `<field>_id` in lower case, else quoted. -/
def column (op : AddRLSPolicy) (settings : Settings) (model : Model) : Except PolicyError SqlName := do
  let (f, fk) ← foreignKeyOf model op.field
  checkTarget settings model f fk
  let column := f.column
  validateFieldName column "column"
  if column = s!"{op.field}_id" ∧ column = column.map Char.toLower then return ⟨false, column⟩
  return ⟨true, column⟩

/-- `_applies_to`. -/
def appliesTo (allowMigrate : Bool) (model : Model) : Bool := allowMigrate && model.constraintFields.isEmpty

/-- `database_forwards`: the statement, if there is one to run. -/
def databaseForwards (op : AddRLSPolicy) (settings : Settings) (allowMigrate : Bool) (apps : Registry) :
    Except PolicyError (Option String) := do
  let model ← op.findModel apps
  if !appliesTo allowMigrate model then return none
  let table ← table model
  let column ← op.column settings model
  let sql := buildPolicyCreateSql table column.sql op.gucTenantVar op.gucAdminVar op.tenantPkType op.extraBypassFlags
  if op.extraPredicates.isEmpty then return some sql
  let predicates ← predicatesSql apps model op.extraPredicates (tenantValueSql op.gucTenantVar op.tenantPkType)
  return some (sql ++ (← buildSharingPolicyCreateSql table predicates))

end AddRLSPolicy

end RlsTenants
