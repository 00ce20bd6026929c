import RlsTenants.Lib.Sql
import RlsTenants.Spec.Grammar

/-!
# The SQL of the policies

The text builders of `rls/policy_sql.py`, `rls/constraints.py` and `tenants/sql.py`, as
the source writes them, and the conditions they write.

* `scalarSetting`, `tenantValueSql`, `tenantMatchSql`, `boolFlagSql` are the fragments;
* `buildPolicyCreateSql` and `buildM2mCreateSql` are the statements that create a policy,
  around a `USING` and a `WITH CHECK` condition;
* `safeTenantSql` is the fragment for raw queries.

`condSql` writes a condition down; `tenantUsing`, `tenantCheck`, `safeTenant` and
`m2mUsing` are the conditions that these texts are.
-/

namespace RlsTenants

open RowSql

/-! ## Names -/

/-- A name in a policy's text. -/
structure SqlName where
  quoted : Bool
  text : String
deriving DecidableEq

/-- The name as it is written. -/
def SqlName.sql (n : SqlName) : String := if n.quoted then s!"\"{n.text}\"" else n.text

/-- PostgreSQL folds a name that is not quoted, and cuts both kinds to 63 bytes. -/
def SqlName.stored (n : SqlName) : Name := clip 63 (if n.quoted then n.text.toList else asciiLower n.text.toList)

/-- A server that reads names as PostgreSQL does. -/
def Postgres (κ : Type) : Type := { D : Server SqlName Name κ // D.name = SqlName.stored }

/-! ## Validation -/

/-- The errors that the builders raise. -/
inductive PolicyError
  | fieldName (field param : String)
  | pkType (type : String)
  | gucName (name : String)
  | modelPath (app name param : String)
  | noProtectedSide
  | noModel (app name : String)
  | proxyModel (app name : String)
  | noField (app name field : String)
  | notForeignKey (app name field : String)
  | otherTarget (app name field : String)
  | unsafeName (name what : String)
  | nameTooLong (table : String)
deriving DecidableEq

/-- `_FIELD_NAME_RE`. -/
def isFieldName (field : String) : Bool :=
  match field.toList with
  | [] => false
  | c :: cs => (c.isAlpha || c == '_') && cs.all fun c => c.isAlpha || c.isDigit || c == '_'

/-- `_GUC_NAME_RE`. -/
def isGucName (name : String) : Bool :=
  match name.toList with
  | [] => false
  | c :: cs => (c.isAlpha || c == '_') && cs.all fun c => c.isAlpha || c.isDigit || c == '_' || c == '.'

/-- `_ALLOWED_PK_TYPES`. -/
def allowedPkTypes : List String := ["int", "bigint", "uuid"]

/-- `_validate_field_name`. -/
def validateFieldName (field param : String) : Except PolicyError Unit :=
  if isFieldName field then .ok () else .error (.fieldName field param)

/-- `_validate_pk_type`. -/
def validatePkType (type : String) : Except PolicyError Unit :=
  if type ∈ allowedPkTypes then .ok () else .error (.pkType type)

/-- `_validate_guc_name`, and `_validate_guc_name_for_ddl`. -/
def validateGucName (name : String) : Except PolicyError Unit :=
  if isGucName name then .ok () else .error (.gucName name)

/-! ## The fragments -/

/-- A GUC read once for each statement (`scalar_setting`). -/
def scalarSetting (gucVar : String) : String := s!"(SELECT current_setting('{gucVar}', true))"

/-- The current tenant, cast to the type of its key (`tenant_value_sql`). -/
def tenantValueSql (gucTenantVar tenantPkType : String) : String :=
  s!"nullif({scalarSetting gucTenantVar}, '')::{tenantPkType}"

/-- A column equals the current tenant (`tenant_match_sql`). -/
def tenantMatchSql (column gucTenantVar tenantPkType : String) : String :=
  s!"{column} = {tenantValueSql gucTenantVar tenantPkType}"

/-- A flag is set (`bool_flag_sql`). -/
def boolFlagSql (gucVar : String) : String := s!"{scalarSetting gucVar} = 'true'"

/-- Python's `sep.join`. -/
def joinSql (sep : String) : List String → String
  | [] => ""
  | [a] => a
  | a :: b :: rest => a ++ sep ++ joinSql sep (b :: rest)

/-! ## Statements that create a policy -/

/-- The block that turns row security on for `table` and creates a policy on it, unless
it has one of that name. -/
def createPolicyBlock (table policyName usingSql checkSql : String) : String := s!"
                DO $$
                BEGIN
                    IF NOT EXISTS (
                        SELECT 1 FROM pg_policies
                        WHERE policyname = '{policyName}'
                        AND tablename = '{table}'
                        AND schemaname = current_schema()
                    ) THEN
                        EXECUTE $BODY$
                            ALTER TABLE \"{table}\" ENABLE ROW LEVEL SECURITY;
                            ALTER TABLE \"{table}\" FORCE ROW LEVEL SECURITY;
                            CREATE POLICY \"{policyName}\"
                            ON \"{table}\"
                            USING (
                                {usingSql}
                            )
                            WITH CHECK (
                                {checkSql}
                            );
                        $BODY$;
                    END IF;
                END
                $$;
            "

/-- `CASE WHEN .. THEN true ELSE .. END`, as the blocks hold it. -/
def caseSql (bypass otherwise : String) : String := s!"CASE WHEN {bypass}
                                     THEN true
                                     ELSE {otherwise}
                                END"

/-- The tenant policy of a table (`_build_policy_create_sql`): `USING` lets the admin flag
and the other bypass flags through, `WITH CHECK` the admin flag only. -/
def buildPolicyCreateSql (table column gucTenantVar gucAdminVar tenantPkType : String)
    (extraBypassFlags : List String) : String :=
  let policyName := s!"{table}_tenant_isolation_policy"
  let tenantMatch := tenantMatchSql column gucTenantVar tenantPkType
  let adminCheck := boolFlagSql gucAdminVar
  let bypassClauseUsing :=
    joinSql "\n                              OR " (adminCheck :: extraBypassFlags.map boolFlagSql)
  createPolicyBlock table policyName (caseSql bypassClauseUsing tenantMatch) (caseSql adminCheck tenantMatch)

/-- The conditions on the two sides of an M2M through table (`_build_m2m_conditions`). -/
def buildM2mConditions (fromFk fromTable : String) (fromTenantFk : Option String) (toFk toTable : String)
    (toTenantFk : Option String) (gucTenantVar tenantPkType : String) : String :=
  let gucExpr := tenantValueSql gucTenantVar tenantPkType
  let side (table fk tenantFk : String) :=
    s!"EXISTS (SELECT 1 FROM \"{table}\" WHERE id = {fk} AND {tenantFk}_id = {gucExpr})"
  joinSql "\n                                AND "
    ((fromTenantFk.map (side fromTable fromFk)).toList ++ (toTenantFk.map (side toTable toFk)).toList)

/-- The policy of an M2M through table (`_build_m2m_create_sql`). -/
def buildM2mCreateSql (table adminCheck subqueryClause : String) : String :=
  createPolicyBlock table s!"{table}_m2m_rls_policy" (caseSql adminCheck subqueryClause)
    (caseSql adminCheck subqueryClause)

/-! ## The fragment for raw queries -/

/-- The settings that the builders read. -/
structure Settings where
  gucPrefix : String
  tenantPkType : String
  tenantFkField : String
  tenantModel : String
deriving DecidableEq

def Settings.gucCurrentTenant (settings : Settings) : String := s!"{settings.gucPrefix}.current_tenant"
def Settings.gucIsAdmin (settings : Settings) : String := s!"{settings.gucPrefix}.is_admin"

/-- `safe_tenant_sql`. -/
def safeTenantSql (settings : Settings) (column : String) (table : Option String) (includeAdmin : Bool)
    (extraBypassFlags : List String) : Except PolicyError String := do
  validateGucName settings.gucCurrentTenant
  validatePkType settings.tenantPkType
  validateFieldName column "column"
  if let some t := table then validateFieldName t "table"
  let col := match table with
    | some t => s!"\"{t}\".{column}"
    | none => column
  let predicate := tenantMatchSql col settings.gucCurrentTenant settings.tenantPkType
  if !includeAdmin then return predicate
  validateGucName settings.gucIsAdmin
  extraBypassFlags.forM validateGucName
  let bypassClause := joinSql " OR " (boolFlagSql settings.gucIsAdmin :: extraBypassFlags.map boolFlagSql)
  return s!"({predicate} OR {bypassClause})"

/-! ## The conditions in the texts -/

/-- A setting's text. -/
def scalarSql : Scalar → String
  | .setting name => scalarSetting name
  | .nullif s text => s!"nullif({scalarSql s}, '{text}')"

/-- An operand's text. -/
def operandSql : Operand SqlName → String
  | .column none name => name.sql
  | .column (some table) name => s!"{table.sql}.{name.sql}"
  | .cast s type => s!"{scalarSql s}::{type}"

/-- A subquery's table. -/
def sourceSql (table : SqlName) : Option SqlName → String
  | none => table.sql
  | some label => s!"{table.sql} AS {label.sql}"

/-- What stands before each AND of a subquery. -/
def oneBlank : String := " "

/-- A condition's text; `gap` stands before each OR and AND. -/
def condSql (gap : String) : Cond SqlName → String
  | .equal a b => s!"{operandSql a} = {operandSql b}"
  | .textEqual s text => s!"{scalarSql s} = '{text}'"
  | .or a b => s!"{condSql gap a}{gap}OR {condSql gap b}"
  | .and a b => s!"{condSql gap a}{gap}AND {condSql gap b}"
  | .group a => s!"({condSql gap a})"
  | .caseTrue c otherwise => caseSql (condSql gap c) (condSql gap otherwise)
  | .exists table label filter =>
    s!"EXISTS (SELECT 1 FROM {sourceSql table label} WHERE {condSql oneBlank filter})"

section Texts

variable (gap : String)

theorem condSql_equal (x y : Operand SqlName) : condSql gap (.equal x y) = s!"{operandSql x} = {operandSql y}" := rfl

theorem condSql_caseTrue (a b : Cond SqlName) : condSql gap (.caseTrue a b) = caseSql (condSql gap a) (condSql gap b) := rfl

end Texts

/-- The current tenant. -/
def tenantValue (gucTenantVar tenantPkType : String) : Operand SqlName :=
  .cast (.nullif (.setting gucTenantVar) "") tenantPkType

/-- A flag is set. -/
def boolFlag (gucVar : String) : Cond SqlName := .textEqual (.setting gucVar) "true"

/-- The `USING` condition of a tenant policy. -/
def tenantUsing (column : Operand SqlName) (gucTenantVar gucAdminVar tenantPkType : String)
    (extraBypassFlags : List String) : Cond SqlName :=
  .caseTrue ((boolFlag gucAdminVar).anyOf (extraBypassFlags.map boolFlag))
    (.equal column (tenantValue gucTenantVar tenantPkType))

/-- The `WITH CHECK` condition of a tenant policy. -/
def tenantCheck (column : Operand SqlName) (gucTenantVar gucAdminVar tenantPkType : String) : Cond SqlName :=
  tenantUsing column gucTenantVar gucAdminVar tenantPkType []

/-- The fragment for raw queries. -/
def safeTenant (settings : Settings) (column : Operand SqlName) (extraBypassFlags : List String) : Cond SqlName :=
  .group (.or (.equal column (tenantValue settings.gucCurrentTenant settings.tenantPkType))
    ((boolFlag settings.gucIsAdmin).anyOf (extraBypassFlags.map boolFlag)))

end RlsTenants
