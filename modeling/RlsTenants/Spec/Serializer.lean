import RlsTenants.Spec.Validation

/-!
# Validation of serializers

`RLSTenantSerializerMixin` of `contrib/drf.py`: DRF converts the data field by field, runs
the serializer's validators, and then `validate()` checks the tenant of each foreign key's
target.

What the other fields and the validators answer is a parameter. Of a relation field the
request says what was sent, which row of the database that names, and whether the field's
queryset shows the row.
-/

namespace RlsTenants

namespace Validation.Drf

variable {τ ρ ν σ : Type} [DecidableEq ν] {S : Schema τ ρ ν}

/-! ## Serializers -/

/-- DRF's `ErrorDetail`. -/
structure ErrorDetail where
  message : String
  code : String
deriving DecidableEq

/-- Errors, by field. -/
abbrev Errors : Type := String → Option (List ErrorDetail)

/-- A value of validated data: an object, the data of a nested serializer, or a column's
value. -/
inductive AttrValue (ρ ν : Type)
  | null
  | object (row : ρ)
  | data
  | raw (value : Option ν)

/-- Validated data, by source. -/
abbrev Attrs (ρ ν : Type) : Type := String → Option (AttrValue ρ ν)

/-- A relation field, with the text of its `does_not_exist` error: that of a primary key or
a slug shows a value, that of a hyperlink has no placeholder. -/
inductive Relation (σ : Type)
  | primaryKey (pkField : Option (σ → σ)) (message : String → String)
  | slug (message : String → String)
  | hyperlink (message : String)

/-- A serializer field. `accepts` is what its validators and `validate_<field>()` make of the
object that a relation field found. -/
structure SerializerField (σ ρ ν : Type) where
  name : String
  source : String
  readOnly : Bool
  relation : Option (Relation σ)
  accepts : ρ → Except (List ErrorDetail) (AttrValue ρ ν)

/-- What a request sends to a field: something that the field answers without a lookup, or a
row's key; `shown` is whether the field's queryset has the row. -/
inductive Input (σ ρ ν : Type)
  | answer (sent : Option σ) (result : Except (List ErrorDetail) (Option (AttrValue ρ ν)))
  | names (sent : σ) (row : Option ρ) (shown : Bool)

/-- The data of a request, by field. -/
abbrev Request (σ ρ ν : Type) : Type := String → Input σ ρ ν

/-- A serializer of a model, its validators, and how Python writes values. -/
structure Serializer (S : Schema τ ρ ν) (σ : Type) where
  model : Model S
  fields : List (SerializerField σ ρ ν)
  instance_ : Option (Validation.Instance ν)
  validators : Attrs ρ ν → Except Errors Unit
  str : σ → String
  strValue : ν → String
  render : FieldError ν → String
  names_nodup : (fields.map (·.name)).Nodup

/-! ## Fields -/

/-- `get_value()`. -/
def Input.sent : Input σ ρ ν → Option σ
  | .answer sent _ => sent
  | .names sent _ _ => some sent

/-- DRF's error for an object that does not exist: a primary key field shows what its
`pk_field` made of the value. -/
def Relation.doesNotExist (s : Serializer S σ) (sent : σ) : Relation σ → ErrorDetail
  | .primaryKey pkField message => ⟨message (s.str ((pkField.getD id) sent)), "does_not_exist"⟩
  | .slug message => ⟨message (s.str sent), "does_not_exist"⟩
  | .hyperlink message => ⟨message, "does_not_exist"⟩

/-- `run_validation()` of a field, and `validate_<field>()`; nothing for a skipped field. -/
def SerializerField.run (s : Serializer S σ) (f : SerializerField σ ρ ν) (input : Input σ ρ ν) :
    Except (List ErrorDetail) (Option (AttrValue ρ ν)) :=
  match input with
  | .answer _ result => result
  | .names sent row shown =>
    match f.relation with
    | none => .ok none
    | some relation =>
      match row with
      | none => .error [relation.doesNotExist s sent]
      | some row => if shown then (f.accepts row).map some else .error [relation.doesNotExist s sent]

/-- The loop body of `to_internal_value()`: validated data, and errors. -/
def Serializer.convert (s : Serializer S σ) (request : Request σ ρ ν) (acc : Attrs ρ ν × Errors)
    (f : SerializerField σ ρ ν) : Attrs ρ ν × Errors :=
  match f.run s (request f.name) with
  | .ok none => acc
  | .ok (some value) => (Function.update acc.1 f.source (some value), acc.2)
  | .error e => (acc.1, Function.update acc.2 f.name (some e))

def Serializer.writable (s : Serializer S σ) : List (SerializerField σ ρ ν) := s.fields.filter fun f => !f.readOnly

def Serializer.converted (s : Serializer S σ) (request : Request σ ρ ν) : Attrs ρ ν × Errors :=
  s.writable.foldl (s.convert request) (fun _ => none, fun _ => none)

/-- A writable field has an error. -/
def Serializer.fails (s : Serializer S σ) (request : Request σ ρ ν) : Bool :=
  s.writable.any fun f => !(f.run s (request f.name)).isOk

/-- `to_internal_value()`. -/
def Serializer.toInternalValue (s : Serializer S σ) (request : Request σ ρ ν) : Except Errors (Attrs ρ ν) :=
  if s.fails request then .error (s.converted request).2 else .ok (s.converted request).1

/-! ## Foreign keys -/

def attname (f : Field S) : String := f.name ++ "_id"

/-- Whether the data write a field, and the value (`_written_value`). -/
def writtenValue (attrs : Attrs ρ ν) (f : Field S) (k : ForeignKey S) : Option (Option ν) :=
  match attrs f.name with
  | some .null => some none
  | some (.object row) => some (S.value k.target k.targetField row)
  | some .data => none
  | some (.raw _) => none
  | none =>
    -- A column takes a value, no object.
    match attrs (attname f) with
    | some (.raw value) => some value
    | some .null => some none
    | _ => none

/-- The names of the writable fields, by source: of several the last one. -/
def Serializer.sources (s : Serializer S σ) (source : String) : Option (SerializerField σ ρ ν) :=
  s.writable.reverse.find? fun f => f.source = source

/-- The writable field of a foreign key. -/
def Serializer.fieldOf (s : Serializer S σ) (f : Field S) : Option (SerializerField σ ρ ν) :=
  (s.sources f.name).or (s.sources (attname f))

/-- The error of a target of another tenant (`_does_not_exist`). -/
def Serializer.doesNotExist (s : Serializer S σ) (field : Option (SerializerField σ ρ ν)) (x : Target S)
    (sent : Option σ) : ErrorDetail :=
  match field.bind (·.relation), sent with
  | some (.hyperlink message), _ => ⟨message, "does_not_exist"⟩
  | some (.primaryKey _ message), some sent => ⟨message (s.str sent), "does_not_exist"⟩
  | some (.primaryKey _ message), none => ⟨message (s.strValue x.value), "does_not_exist"⟩
  | some (.slug message), some sent => ⟨message (s.str sent), "does_not_exist"⟩
  | _, _ => ⟨s.render (x.foreignKey.invalidTarget x.value), "invalid"⟩

/-- The key of the errors of a foreign key. -/
def Serializer.errorKey (s : Serializer S σ) (x : Target S) : String :=
  match s.fieldOf x.field with
  | none => "non_field_errors"
  | some f => f.name

/-- The error that `validate()` gives a foreign key. -/
def Serializer.errorOf (s : Serializer S σ) (request : Request σ ρ ν) (x : Target S) : ErrorDetail :=
  let field := s.fieldOf x.field
  s.doesNotExist field x (field.bind fun f => (request f.name).sent)

/-- `errors.setdefault(key, []).extend(…)`. -/
def extend (errors : Errors) (key : String) (detail : ErrorDetail) : Errors :=
  Function.update errors key (some ((errors key).getD [] ++ [detail]))

/-! ## Validation -/

/-- The value of the tenant field that the row will have: what the data write, else the
object's. -/
def Serializer.tenantValue (s : Serializer S σ) (attrs : Attrs ρ ν) (f : Field S) : Option ν :=
  match (f.foreignKey.bind fun k => writtenValue attrs f k), s.instance_ with
  | some value, _ => value
  | none, some inst => inst f.name
  | none, none => none

/-- Whether the data move the object to another tenant. -/
def Serializer.moved (s : Serializer S σ) (attrs : Attrs ρ ν) (f : Field S) (tenantId : ν) : Bool :=
  match (f.foreignKey.bind fun k => writtenValue attrs f k), s.instance_ with
  | some _, some inst => decide (inst f.name ≠ some tenantId)
  | _, _ => false

/-- The value of a foreign key that is checked: one that is written, or one of an object that
moves. -/
def Serializer.checkedValue (s : Serializer S σ) (attrs : Attrs ρ ν) (moved : Bool) (f : Field S) (k : ForeignKey S) :
    Except (List (FieldError ν)) (Option ν) :=
  match writtenValue attrs f k with
  | some value => f.toPython value
  | none => if moved then f.toPython (s.instance_.bind fun inst => inst f.name) else .ok none

/-- The targets to check. -/
def Serializer.targets (s : Serializer S σ) (attrs : Attrs ρ ν) (moved : Bool) :
    List (Field S × ForeignKey S) → Except (List (FieldError ν)) (List (Target S))
  | [] => .ok []
  | (f, k) :: rest => do
    let value ← s.checkedValue attrs moved f k
    let targets ← s.targets attrs moved rest
    return match value with
      | none => targets
      | some value => ⟨f, k, value⟩ :: targets

/-- A Django error, as a serializer reports it. -/
def Serializer.djangoErrors (s : Serializer S σ) (errors : List (FieldError ν)) : Errors :=
  Function.update (fun _ => none) "non_field_errors" (some (errors.map fun e => ⟨s.render e, e.code⟩))

/-- The foreign keys whose targets are of another tenant than the row. -/
def Serializer.mismatched (s : Serializer S σ) (D : Database S) (audit : AuditLog) (attrs : Attrs ρ ν) :
    Except Errors (List (Target S)) :=
  match s.model.checkedForeignKeys with
  | none => .ok []
  | some (tenantField, foreignKeys) =>
    match tenantField.toPython (s.tenantValue attrs tenantField) with
    | .error e => .error (s.djangoErrors e)
    | .ok none => .ok []
    | .ok (some tenantId) =>
      match s.targets attrs (s.moved attrs tenantField tenantId) foreignKeys with
      | .error e => .error (s.djangoErrors e)
      | .ok targets => .ok (foreignKeysOfOtherTenants D tenantId targets [] s.model.label audit).1

/-- `validate()`. -/
def Serializer.validate (s : Serializer S σ) (D : Database S) (request : Request σ ρ ν) (audit : AuditLog)
    (attrs : Attrs ρ ν) : Except Errors (Attrs ρ ν) :=
  match s.mismatched D audit attrs with
  | .error errors => .error errors
  | .ok [] => .ok attrs
  | .ok mismatched => .error (mismatched.foldl (fun errors x => extend errors (s.errorKey x) (s.errorOf request x))
      fun _ => none)

/-- `run_validation()`: the errors of the fields come before `validate()`. -/
def Serializer.runValidation (s : Serializer S σ) (D : Database S) (request : Request σ ρ ν) (audit : AuditLog) :
    Except Errors (Attrs ρ ν) := do
  let attrs ← s.toInternalValue request
  s.validators attrs
  s.validate D request audit attrs

/-- What a client sees: `is_valid()` and `errors`. -/
def answer (result : Except Errors (Attrs ρ ν)) : Bool × Errors :=
  match result with
  | .ok _ => (true, fun _ => none)
  | .error errors => (false, errors)

/-- The request, with a target that does not exist in a field. -/
def Request.withoutTarget (request : Request σ ρ ν) (name : String) (sent : σ) : Request σ ρ ν :=
  Function.update request name (.names sent none false)

end Validation.Drf

end RlsTenants
