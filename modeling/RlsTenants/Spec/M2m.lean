import RlsTenants.Lib.Firsts
import RlsTenants.Spec.Policies

/-!
# The policies of many-to-many tables

Django creates the through model of a many-to-many field; the policy of its table looks at
the rows that its two foreign keys reference.

* `registerM2mRls` gives every such model of a protected model an `RLSM2MConstraint`.
* `collectM2mTables` finds the tables for the commands: `planM2mMigrations` (in
  `Spec.M2mPlan`) writes an `AddM2MRLSPolicy` for each, `setupM2mRls` the policy's SQL.
* `AutomaticField` is a field that the two loops look at; `TablesAgree` says that through
  models which share a table have the same sides.
-/

namespace RlsTenants

open RowSql

/-! ## The two sides -/

/-- The sides of a through table; a side that is not protected has no tenant foreign key. -/
structure M2mSides where
  fromModel : ModelPath
  toModel : ModelPath
  fromFk : String
  toFk : String
  fromTenantFk : Option String
  toTenantFk : Option String
deriving DecidableEq

/-- The names that a policy reads. -/
structure PolicyOptions where
  gucTenantVar : String
  gucAdminVar : String
  tenantPkType : String
deriving DecidableEq

/-- The defaults of `RLSM2MConstraint`. -/
def defaultOptions : PolicyOptions := ⟨"rls.current_tenant", "rls.is_admin", "int"⟩

/-- The options that the settings give. -/
def Settings.options (settings : Settings) : PolicyOptions :=
  ⟨settings.gucCurrentTenant, settings.gucIsAdmin, settings.tenantPkType⟩

/-- The name in a path that `_MODEL_PATH_RE` matches: its `$` also matches before a newline
at the end. -/
def isModelName (name : String) : Bool :=
  isFieldName name || (name.toList.getLast? = some '\n' && isFieldName (.ofList name.toList.dropLast))

/-- `_validate_model_path`. -/
def validateModelPath (path : ModelPath) (param : String) : Except PolicyError Unit :=
  if isFieldName path.app ∧ isModelName path.name then .ok () else .error (.modelPath path.app path.name param)

/-- The checks of the sides, which the constraint and the operation share. -/
def M2mSides.check (s : M2mSides) : Except PolicyError Unit := do
  validateModelPath s.fromModel "from_model"
  validateModelPath s.toModel "to_model"
  validateFieldName s.fromFk "from_fk"
  validateFieldName s.toFk "to_fk"
  s.fromTenantFk.toList.forM (validateFieldName · "from_tenant_fk")
  s.toTenantFk.toList.forM (validateFieldName · "to_tenant_fk")

/-- The checks of the options. -/
def PolicyOptions.check (o : PolicyOptions) : Except PolicyError Unit := do
  validatePkType o.tenantPkType
  validateGucName o.gucTenantVar
  validateGucName o.gucAdminVar

/-- The policy of the through table, with the tables of its sides. -/
def m2mPolicySql (table fromTable toTable : String) (s : M2mSides) (o : PolicyOptions) : String :=
  buildM2mCreateSql table (boolFlagSql o.gucAdminVar)
    (buildM2mConditions s.fromFk fromTable s.fromTenantFk s.toFk toTable s.toTenantFk o.gucTenantVar o.tenantPkType)

/-- `_resolve_table`. -/
def resolveTable (apps : Registry) (path : ModelPath) : Except PolicyError String :=
  match apps.getModel path with
  | none => .error (.noModel path.app path.name)
  | some m => .ok m.dbTable

/-! ## RLSM2MConstraint -/

/-- The checks of `RLSM2MConstraint.__init__`. -/
def checkConstraint (s : M2mSides) (o : PolicyOptions) : Except PolicyError Unit := do
  s.check
  if s.fromTenantFk.isNone && s.toTenantFk.isNone then .error .noProtectedSide
  o.check

/-- `RLSM2MConstraint`. -/
structure RLSM2MConstraint where
  sides : M2mSides
  options : PolicyOptions
  checked : checkConstraint sides options = .ok ()

/-- `RLSM2MConstraint.__init__`. -/
def RLSM2MConstraint.init (s : M2mSides) (o : PolicyOptions) : Except PolicyError RLSM2MConstraint :=
  match h : checkConstraint s o with
  | .error e => .error e
  | .ok () => .ok ⟨s, o, h⟩

/-- `RLSM2MConstraint.create_sql`, for the through table `table`. -/
def RLSM2MConstraint.createSql (c : RLSM2MConstraint) (apps : Registry) (table : String) :
    Except PolicyError String := do
  let fromTable ← resolveTable apps c.sides.fromModel
  let toTable ← resolveTable apps c.sides.toModel
  return m2mPolicySql table fromTable toTable c.sides c.options

/-! ## AddM2MRLSPolicy -/

/-- The checks of `AddM2MRLSPolicy.__init__`. -/
def checkOperation (m2mTable : String) (s : M2mSides) (o : PolicyOptions) : Except PolicyError Unit := do
  validateFieldName m2mTable "m2m_table"
  s.check
  o.check

/-- `AddM2MRLSPolicy`. -/
structure AddM2MRLSPolicy where
  m2mTable : String
  sides : M2mSides
  options : PolicyOptions
  checked : checkOperation m2mTable sides options = .ok ()

/-- `AddM2MRLSPolicy.__init__`. -/
def AddM2MRLSPolicy.init (m2mTable : String) (s : M2mSides) (o : PolicyOptions) : Except PolicyError AddM2MRLSPolicy :=
  match h : checkOperation m2mTable s o with
  | .error e => .error e
  | .ok () => .ok ⟨m2mTable, s, o, h⟩

/-- `AddM2MRLSPolicy.database_forwards`. -/
def AddM2MRLSPolicy.databaseForwards (op : AddM2MRLSPolicy) (allowMigrate : Bool) (apps : Registry) :
    Except PolicyError (Option String) := do
  if !allowMigrate then return none
  let fromTable ← resolveTable apps op.sides.fromModel
  let toTable ← resolveTable apps op.sides.toModel
  return some (m2mPolicySql op.m2mTable fromTable toTable op.sides op.options)

/-! ## The models that declare a policy -/

/-- The registry, its through models, and the models of `EXTERNAL_MODELS` with their tenant
fields. -/
structure Project where
  apps : Registry
  throughs : ModelKey → Through
  external : List (ModelKey × String)
  settings : Settings

namespace Project

variable (p : Project)

/-- `_meta.concrete_model or model`. -/
def concrete (m : Model) : Model := (p.apps.find m.concrete).getD m

/-- `_get_tenant_fk_field`. -/
def tenantFkField (m : Model) : Option String :=
  match m.constraintFields with
  | field :: _ => some field
  | [] => if m.proxy then none else (p.external.find? (·.1 = m.path.key)).map (·.2)

/-- `_declares_rls_policy`. -/
def declaresRlsPolicy (m : Model) : Bool :=
  (p.concrete m).rlsProtected || !(p.concrete m).constraintFields.isEmpty

/-! ## Registration -/

/-- A constraint that has been appended to a through model's. -/
structure Registered where
  through : ModelKey
  table : String
  constraint : RLSM2MConstraint

/-- A many-to-many field in `register_m2m_rls`. A through model that has a constraint keeps
it; the field's own model is protected, so there is always a protected side. -/
def registerField (fromModel : Model) (registered : List Registered) (field : ManyToMany) :
    Except PolicyError (List Registered) :=
  if !(p.throughs field.through).autoCreated then .ok registered
  else if registered.any (·.through = field.through) then .ok registered
  else match field.related.bind p.apps.find with
    | none => .ok registered
    | some toModel => do
      let fromTenantFk := (p.tenantFkField fromModel).getD p.settings.tenantFkField
      let toTenantFk := if p.declaresRlsPolicy toModel then
        some ((p.tenantFkField (p.concrete toModel)).getD p.settings.tenantFkField) else none
      let constraint ← RLSM2MConstraint.init
        ⟨fromModel.path, toModel.path, field.columnName, field.reverseName, some fromTenantFk, toTenantFk⟩
        defaultOptions
      return registered ++ [⟨field.through, (p.throughs field.through).dbTable, constraint⟩]

/-- `register_m2m_rls`, with the constraints that the through models have before. -/
def registerM2mRls (before : List Registered) : Except PolicyError (List Registered) :=
  p.apps.models.foldlM (fun registered model =>
    if !p.declaresRlsPolicy model || model.abstract then .ok registered
    else model.localManyToMany.foldlM (p.registerField model) registered) before

end Project

/-! ## The commands -/

/-- What `_collect_m2m_tables` knows of a table. -/
structure M2mInfo where
  field : String
  sides : M2mSides
  fromTable : String
  toTable : String

/-- The through tables that the checks collect, each once. -/
structure M2mTables where
  entries : List (String × M2mInfo)
  nodup : (entries.map Prod.fst).Nodup

namespace M2mTables

def empty : M2mTables := ⟨[], List.nodup_nil⟩

/-- A table that is not there yet. -/
def add (m2mTables : M2mTables) (table : String) (info : M2mInfo)
    (h : ¬m2mTables.entries.any (·.1 = table) = true) : M2mTables where
  entries := m2mTables.entries ++ [(table, info)]
  nodup := by
    rw [List.map_append]
    refine m2mTables.nodup.append (List.nodup_singleton _) (List.disjoint_singleton.2 fun hin => h ?_)
    obtain ⟨t, ht, htable⟩ := List.mem_map.1 hin
    exact List.any_eq_true.2 ⟨t, ht, decide_eq_true htable⟩

end M2mTables

namespace Project

variable (p : Project)

/-- A many-to-many field in `_collect_m2m_tables`. -/
def collectField (model : Model) (m2mTables : M2mTables) (field : ManyToMany) : M2mTables :=
  if !(p.throughs field.through).autoCreated then m2mTables
  else if h : m2mTables.entries.any (·.1 = (p.throughs field.through).dbTable) then m2mTables
  else match field.related.bind p.apps.find with
    | none => m2mTables
    | some toModel =>
      let fromTenantFk := (p.tenantFkField model).getD p.settings.tenantFkField
      let toTenantFk := if p.declaresRlsPolicy toModel then
        some ((p.tenantFkField (p.concrete toModel)).getD p.settings.tenantFkField) else none
      m2mTables.add (p.throughs field.through).dbTable
        { field := field.name
          sides := ⟨model.path, toModel.path, field.columnName, field.reverseName, some fromTenantFk, toTenantFk⟩
          fromTable := model.dbTable
          toTable := toModel.dbTable } h

/-- `_collect_m2m_tables`. -/
def collectM2mTables : M2mTables :=
  p.apps.models.foldl (fun m2mTables model =>
    if !p.declaresRlsPolicy model || model.abstract then m2mTables
    else model.localManyToMany.foldl (p.collectField model) m2mTables) .empty

/-- `setup_m2m_rls`: the statement for each table that has no policy. -/
def setupM2mRls (policyNames : String → List String) : Except PolicyError (List (String × String)) := do
  if p.collectM2mTables.entries.isEmpty then return []
  p.settings.options.check
  return (p.collectM2mTables.entries.filter fun t => (policyNames t.1).isEmpty).map fun t =>
    (t.1, m2mPolicySql t.1 t.2.fromTable t.2.toTable t.2.sides p.settings.options)

/-! ## The fields that get a policy -/

/-- A field with an automatic through model, and the models that it relates. -/
structure AutomaticField where
  model : Model
  field : ManyToMany
  related : Model

/-- A many-to-many field, if its through model is automatic and its reference resolved. -/
def automatic? (model : Model) (field : ManyToMany) : Option AutomaticField :=
  if (p.throughs field.through).autoCreated then (field.related.bind p.apps.find).map (⟨model, field, ·⟩) else none

/-- The automatic fields of protected models, in the order of the registry. -/
def automaticFields : List AutomaticField :=
  (p.apps.models.filter fun model => p.declaresRlsPolicy model && !model.abstract).flatMap fun model =>
    model.localManyToMany.filterMap (p.automatic? model)

/-- The table of the field's through model. -/
def tableOf (f : AutomaticField) : String := (p.throughs f.field.through).dbTable

/-- The sides as the field has them. -/
def sidesOf (f : AutomaticField) : M2mSides where
  fromModel := f.model.path
  toModel := f.related.path
  fromFk := f.field.columnName
  toFk := f.field.reverseName
  fromTenantFk := some ((p.tenantFkField f.model).getD p.settings.tenantFkField)
  toTenantFk := if p.declaresRlsPolicy f.related then
    some ((p.tenantFkField (p.concrete f.related)).getD p.settings.tenantFkField) else none

/-- The first field of each through model. -/
def throughFields : List AutomaticField := Firsts.firsts (fun f => f.field.through) p.automaticFields

/-- Through models that share a table have the same sides. -/
def TablesAgree : Prop := ∀ f ∈ p.throughFields, ∀ f' ∈ p.throughFields, p.tableOf f = p.tableOf f' →
  p.sidesOf f = p.sidesOf f'

end Project

/-! ## The conditions in the texts -/

/-- A protected side: its table, the through table's foreign key to it, and its tenant
foreign key. -/
structure M2mSide where
  table : String
  fk : String
  tenantFk : String
deriving DecidableEq

/-- The row that the foreign key references is the current tenant's. -/
def M2mSide.cond (side : M2mSide) (gucTenantVar tenantPkType : String) : Cond SqlName :=
  .exists ⟨true, side.table⟩ none
    (.and (.equal (.column none ⟨false, "id"⟩) (.column none ⟨false, side.fk⟩))
      (.equal (.column none ⟨false, s!"{side.tenantFk}_id"⟩) (tenantValue gucTenantVar tenantPkType)))

/-- The condition of the policy of a through table. -/
def m2mCond (side : M2mSide) (sides : List M2mSide) (o : PolicyOptions) : Cond SqlName :=
  .caseTrue (boolFlag o.gucAdminVar)
    ((side.cond o.gucTenantVar o.tenantPkType).allOf (sides.map (M2mSide.cond · o.gucTenantVar o.tenantPkType)))

/-- The protected sides. -/
def M2mSides.protectedSides (s : M2mSides) (fromTable toTable : String) : List M2mSide :=
  (s.fromTenantFk.map (⟨fromTable, s.fromFk, ·⟩)).toList ++ (s.toTenantFk.map (⟨toTable, s.toFk, ·⟩)).toList

end RlsTenants
