import Mathlib.Data.List.Basic
import Mathlib.Logic.Function.Basic
import Mathlib.Data.Nat.Notation

/-!
# Validation of foreign keys

`RLSProtectedModel.clean_fields()` of `tenants/models.py`: Django's validation of each
field, and then the tenant of each foreign key's target.

Tables, rows and values are parameters, and so is what a field makes of a value
(`to_python`, its own checks, its validators). `sees` says which rows of the protected
tables the active context shows; the library looks targets up in an admin context, which
shows every row.
-/

namespace RlsTenants

namespace Validation

variable {τ ρ ν : Type} [DecidableEq ν]

/-! ## Databases -/

/-- The columns of the tables, by field; the field that the policy of a protected table
filters on (`_tenant_field`); and the fields that are unique. -/
structure Schema (τ ρ ν : Type) where
  value : τ → String → ρ → Option ν
  tenantField : τ → Option String
  unique : τ → String → Prop

/-- The tenant of a row. -/
def Schema.tenantOf (S : Schema τ ρ ν) (t : τ) (r : ρ) : Option ν :=
  (S.tenantField t).bind fun field => S.value t field r

/-- The rows of each table. -/
structure Database (S : Schema τ ρ ν) where
  rows : τ → List ρ
  unique_rows : ∀ t field, S.unique t field → ∀ r ∈ rows t, ∀ r' ∈ rows t,
    S.value t field r = S.value t field r' → S.value t field r ≠ none → r = r'

variable {S : Schema τ ρ ν}

/-! ## Models -/

/-- A parameter of an error's message. -/
inductive ErrorParam (ν : Type)
  | text (s : String)
  | value (v : ν)
deriving DecidableEq

/-- A `ValidationError`. -/
structure FieldError (ν : Type) where
  message : String
  code : String
  params : List (String × ErrorParam ν)
deriving DecidableEq

/-- What a foreign key points at, and the message of its `invalid` error. -/
structure ForeignKey (S : Schema τ ρ ν) where
  target : τ
  targetField : String
  unique : S.unique target targetField
  parentLink : Bool
  limitChoicesTo : ρ → Bool
  verboseName : String
  invalidMessage : String

/-- A field: the raw values that Django does not validate (of a generated field, an empty
one where `blank`), `to_python`, the checks of `validate()` that read no rows, and the
validators. -/
structure Field (S : Schema τ ρ ν) where
  name : String
  creationCounter : ℕ
  skipped : Option ν → Bool
  toPython : Option ν → Except (List (FieldError ν)) (Option ν)
  check : Option ν → List (FieldError ν)
  validators : Option ν → List (FieldError ν)
  foreignKey : Option (ForeignKey S)
  toPython_idem : ∀ {raw v}, toPython raw = .ok v → toPython v = .ok v

/-- A model, and the field that its policy filters on. -/
structure Model (S : Schema τ ρ ν) where
  label : String
  fields : List (Field S)
  tenantName : Option String
  names_nodup : (fields.map (·.name)).Nodup

/-- The values of an instance, by field. -/
abbrev Instance (ν : Type) : Type := String → Option ν

/-- Errors, by field. -/
abbrev Errors (ν : Type) : Type := String → Option (List (FieldError ν))

/-! ## Django's validation -/

/-- The error for a target that does not exist (`ForeignKey.validate`, `_invalid_target`). -/
def ForeignKey.invalidTarget (k : ForeignKey S) (v : ν) : FieldError ν :=
  ⟨k.invalidMessage, "invalid",
    [("model", .text k.verboseName), ("pk", .value v), ("field", .text k.targetField), ("value", .value v)]⟩

/-- Every row of a table without a policy shows. -/
def Schema.shows (S : Schema τ ρ ν) (sees : τ → ρ → Bool) (t : τ) (r : ρ) : Bool :=
  (S.tenantField t).isNone || sees t r

/-- The active context shows a target with the value, within `limit_choices_to`. -/
def Database.targetExists (D : Database S) (sees : τ → ρ → Bool) (k : ForeignKey S) (v : ν) : Bool :=
  (D.rows k.target).any fun r =>
    S.shows sees k.target r && S.value k.target k.targetField r = some v && k.limitChoicesTo r

/-- `Field.validate()`, and a foreign key's. -/
def Field.validate (D : Database S) (sees : τ → ρ → Bool) (f : Field S) (v : Option ν) : List (FieldError ν) :=
  match f.foreignKey with
  | none => f.check v
  | some k =>
    if k.parentLink then []
    else if f.check v ≠ [] then f.check v
    else
      match v with
      | none => []
      | some v => if D.targetExists sees k v then [] else [k.invalidTarget v]

/-- `Field.clean()`. -/
def Field.clean (D : Database S) (sees : τ → ρ → Bool) (f : Field S) (raw : Option ν) :
    Except (List (FieldError ν)) (Option ν) :=
  match f.toPython raw with
  | .error e => .error e
  | .ok v =>
    if f.validate D sees v ≠ [] then .error (f.validate D sees v)
    else if f.validators v ≠ [] then .error (f.validators v)
    else .ok v

/-- Validate one field: its error, or the cleaned value. -/
def Field.cleanIn (D : Database S) (sees : τ → ρ → Bool) (exclude : List String) (s : Errors ν × Instance ν)
    (f : Field S) : Errors ν × Instance ν :=
  if f.name ∈ exclude ∨ f.skipped (s.2 f.name) then s
  else
    match f.clean D sees (s.2 f.name) with
    | .ok v => (s.1, Function.update s.2 f.name v)
    | .error e => (Function.update s.1 f.name (some e), s.2)

/-- `Model.clean_fields()`: the errors, and the instance with the cleaned values. -/
def Model.djangoCleanFields (D : Database S) (sees : τ → ρ → Bool) (exclude : List String) (m : Model S)
    (inst : Instance ν) : Errors ν × Instance ν :=
  m.fields.foldl (Field.cleanIn D sees exclude) (fun _ => none, inst)

/-! ## The tenants of the targets -/

/-- The model's tenant field, if it is a foreign key (`_tenant_field`). -/
def Model.tenantField (m : Model S) : Option (Field S) :=
  m.tenantName.bind fun name => m.fields.find? fun f => f.name = name ∧ f.foreignKey.isSome

/-- The tenant field, and the foreign keys to protected models (`_checked_foreign_keys`). -/
def Model.checkedForeignKeys (m : Model S) : Option (Field S × List (Field S × ForeignKey S)) :=
  m.tenantField.map fun tenantField =>
    (tenantField, m.fields.filterMap fun f =>
      f.foreignKey.bind fun k =>
        if f.name ≠ tenantField.name ∧ !k.parentLink ∧ (S.tenantField k.target).isSome then some (f, k) else none)

/-- A foreign key, and the value it holds. -/
structure Target (S : Schema τ ρ ν) where
  field : Field S
  foreignKey : ForeignKey S
  value : ν

/-- The tenant of the target, none without a target: the first row with the value
(`_target_tenants`). -/
def Target.tenants (D : Database S) (x : Target S) : List (Option ν) :=
  (((D.rows x.foreignKey.target).filter fun r =>
    S.value x.foreignKey.target x.foreignKey.targetField r = some x.value).map
      (S.tenantOf x.foreignKey.target)).take 1

/-- The audit logger, and whether its lookup fails. -/
inductive AuditLog
  | off
  | on (lookupFails : Bool)

/-- The `fk.cross_tenant_rejected` record. -/
structure CrossTenantRejected (ν : Type) where
  tenantId : ν
  model : String
  fields : List String

/-- The tenants of the targets that validation has already rejected, for the record
(`_audited_target_tenants`); none if the lookup fails. -/
def auditedTargetTenants (D : Database S) (rejected : List (Target S)) : AuditLog →
    List (Target S × List (Option ν))
  | .off => []
  | .on true => []
  | .on false => rejected.map fun x => (x, x.tenants D)

/-- The targets that are not of the tenant, and the record of those that exist
(`_foreign_keys_of_other_tenants`). -/
def foreignKeysOfOtherTenants (D : Database S) (tenantId : ν) (targets rejected : List (Target S)) (model : String)
    (audit : AuditLog) : List (Target S) × Option (CrossTenantRejected ν) :=
  let found := targets.map (fun x => (x, x.tenants D)) ++ auditedTargetTenants D rejected audit
  let crossTenant := (found.filter fun x => x.2 ≠ [] ∧ x.2 ≠ [some tenantId]).map (·.1.field)
  let sorted := crossTenant.mergeSort fun f g => decide (f.creationCounter ≤ g.creationCounter)
  (targets.filter fun x => x.tenants D ≠ [some tenantId],
    if sorted = [] then none else some ⟨tenantId, model, sorted.map (·.name)⟩)

/-- What becomes of a foreign key: nothing, an error, a target to check, or one already
rejected as not found. -/
inductive Checked (S : Schema τ ρ ν)
  | passed
  | error (e : List (FieldError ν))
  | target (x : Target S)
  | rejected (x : Target S)

/-- The value that validation rejected as not found (`_not_found_value`). -/
def notFoundValue (inst : Instance ν) (f : Field S) (errors : List (FieldError ν)) : Option ν :=
  if errors.any (·.code = "invalid") then
    match f.toPython (inst f.name) with
    | .ok v => v
    | .error _ => none
  else none

/-- The loop body of `_cross_tenant_errors`. -/
def Field.checked (inst : Instance ν) (exclude : List String) (failed : Errors ν) (f : Field S) (k : ForeignKey S) :
    Checked S :=
  if f.name ∈ exclude then .passed
  else
    match failed f.name with
    | some errors =>
      match notFoundValue inst f errors with
      | some v => .rejected ⟨f, k, v⟩
      | none => .passed
    | none =>
      match f.toPython (inst f.name) with
      | .error e => .error e
      | .ok none => .passed
      | .ok (some v) => .target ⟨f, k, v⟩

/-- Errors from a list. -/
def Errors.ofList (l : List (String × List (FieldError ν))) : Errors ν := fun name =>
  (l.find? fun e => e.1 = name).map (·.2)

/-- The errors of the foreign keys that point at another tenant's row
(`_cross_tenant_errors`), and the record. -/
def crossTenantErrors (D : Database S) (m : Model S) (inst : Instance ν) (exclude : List String)
    (failed : Errors ν) (audit : AuditLog) : Errors ν × Option (CrossTenantRejected ν) :=
  match m.checkedForeignKeys with
  | none => (fun _ => none, none)
  | some (tenantField, foreignKeys) =>
    if (failed tenantField.name).isSome then (fun _ => none, none)
    else
      match tenantField.toPython (inst tenantField.name) with
      | .error _ => (fun _ => none, none)
      | .ok none => (fun _ => none, none)
      | .ok (some tenantId) =>
        let checked := foreignKeys.map fun (f, k) => (f, f.checked inst exclude failed k)
        let errors := checked.filterMap fun
          | (f, .error e) => some (f.name, e)
          | _ => none
        let targets := checked.filterMap fun
          | (_, .target x) => some x
          | _ => none
        let rejected := checked.filterMap fun
          | (_, .rejected x) => some x
          | _ => none
        let (others, record) := foreignKeysOfOtherTenants D tenantId targets rejected m.label audit
        (.ofList (errors ++ others.map fun x => (x.field.name, [x.foreignKey.invalidTarget x.value])), record)

/-- Validate the fields, then the tenant of each foreign key's target
(`RLSProtectedModel.clean_fields`): the errors, and the record. -/
def Model.cleanFields (D : Database S) (sees : τ → ρ → Bool) (exclude : List String) (m : Model S)
    (inst : Instance ν) (audit : AuditLog) : Errors ν × Option (CrossTenantRejected ν) :=
  let (errors, inst) := m.djangoCleanFields D sees exclude inst
  let (crossTenant, record) := crossTenantErrors D m inst exclude errors audit
  (fun name => crossTenant name <|> errors name, record)

/-! ## What validation should reveal -/

/-- The tenant of an instance. -/
def Model.HasTenant (m : Model S) (inst : Instance ν) (tenantId : ν) : Prop :=
  ∃ f, m.tenantField = some f ∧ f.toPython (inst f.name) = .ok (some tenantId)

/-- The databases have the same rows of the tenant, and the same tables without a policy. -/
structure Agree (tenantId : ν) (D D' : Database S) : Prop where
  rows : ∀ t r, S.tenantOf t r = some tenantId → (r ∈ D.rows t ↔ r ∈ D'.rows t)
  tables : ∀ t, S.tenantField t = none → ∀ r, r ∈ D.rows t ↔ r ∈ D'.rows t

/-- The active context shows rows of no other tenant: it is the tenant's, or there is none. -/
def ShowsOnly (S : Schema τ ρ ν) (tenantId : ν) (sees : τ → ρ → Bool) : Prop :=
  ∀ t r, (S.tenantField t).isSome → sees t r = true → S.tenantOf t r = some tenantId

/-- The active context shows the tenant's rows: it is the tenant's, or an admin's. -/
def ShowsAll (S : Schema τ ρ ν) (tenantId : ν) (sees : τ → ρ → Bool) : Prop :=
  ∀ t r, S.tenantOf t r = some tenantId → sees t r = true

/-- Django finds no error in the tenant field. -/
def Model.TenantValid (D : Database S) (sees : τ → ρ → Bool) (exclude : List String) (m : Model S)
    (inst : Instance ν) : Prop :=
  ∀ f, m.tenantField = some f → (m.djangoCleanFields D sees exclude inst).1 f.name = none

/-- The validators of the checked foreign keys accept their values. -/
def Model.TargetsAccepted (m : Model S) (exclude : List String) (inst : Instance ν) : Prop :=
  ∀ tenantField foreignKeys, m.checkedForeignKeys = some (tenantField, foreignKeys) → ∀ fk ∈ foreignKeys,
    fk.1.name ∉ exclude → fk.1.skipped (inst fk.1.name) = false →
      ∀ v, fk.1.toPython (inst fk.1.name) = .ok (some v) → fk.1.validators (some v) = []

/-- The tenant has a row with the value. -/
def HasRow (D : Database S) (tenantId : ν) (k : ForeignKey S) (v : ν) : Prop :=
  ∃ r ∈ D.rows k.target, S.tenantOf k.target r = some tenantId ∧ S.value k.target k.targetField r = some v

/-- The field's value is one of the target's type, with which the tenant has a row. -/
def Field.PointsAtOwn (D : Database S) (tenantId : ν) (f : Field S) (k : ForeignKey S) (raw : Option ν) : Prop :=
  ∃ v, f.toPython raw = .ok (some v) ∧ HasRow D tenantId k v

/-- The field's own checks or validators reject its value. -/
def Field.Refuses (f : Field S) (raw : Option ν) : Prop :=
  f.skipped raw = false ∧ ∃ v, f.toPython raw = .ok (some v) ∧ (f.check (some v) ≠ [] ∨ f.validators (some v) ≠ [])

end Validation

end RlsTenants
