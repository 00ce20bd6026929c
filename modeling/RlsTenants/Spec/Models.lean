import RlsTenants.Spec.Grammar

/-!
# Django's models

What the builders read of Django's models.

* A field is stored in its `dbColumn`, or in a column named like its attribute:
  `<name>_id` for a foreign key. PostgreSQL cuts the name to 63 bytes.
* A registry finds a model by its app and its name, whatever the case of the name.
* A proxy model has its concrete model's table.
-/

namespace RlsTenants

/-- A model as a registry finds it: `label_lower`. -/
structure ModelKey where
  app : String
  name : String
deriving DecidableEq

/-- A model as it is written: `label`. -/
structure ModelPath where
  app : String
  name : String
deriving DecidableEq

/-- The case of a model's name makes no difference. -/
def ModelPath.key (p : ModelPath) : ModelKey := ⟨p.app, p.name.map Char.toLower⟩

/-- What a foreign key points at: the model, and the column of the field. -/
structure ForeignKey where
  related : ModelKey
  targetColumn : String
deriving DecidableEq

/-- A field that has a column. -/
structure Field where
  name : String
  dbColumn : Option String
  foreignKey : Option ForeignKey
deriving DecidableEq

/-- `Field.attname`. -/
def Field.attname (f : Field) : String := if f.foreignKey.isSome then s!"{f.name}_id" else f.name

/-- `Field.column`: `db_column or attname`. -/
def Field.column (f : Field) : String :=
  match f.dbColumn with
  | some c => if c = "" then f.attname else c
  | none => f.attname

/-- The name that Django creates something under: it leaves a quoted name as it is, and
PostgreSQL cuts it. -/
def createdName (name : String) : Name :=
  clip 63 (match name.toList with
    | '"' :: cs => if cs.getLast? = some '"' then cs.dropLast else name.toList
    | cs => cs)

/-- The column a field is stored in. -/
def Field.stored (f : Field) : Name := createdName f.column

/-- An automatic or explicit through model. -/
structure Through where
  autoCreated : Bool
  dbTable : String
deriving DecidableEq

/-- A many-to-many field, with the key of its through model; `related` is `none` while its
reference is not resolved. -/
structure ManyToMany where
  name : String
  through : ModelKey
  related : Option ModelKey
  columnName : String
  reverseName : String
deriving DecidableEq

/-- A model. `constraintFields` are the fields of its `RLSConstraint`s. -/
structure Model where
  path : ModelPath
  concrete : ModelKey
  abstract : Bool
  rlsProtected : Bool
  constraintFields : List String
  dbTable : String
  fields : List Field
  localManyToMany : List ManyToMany
deriving DecidableEq

namespace Model

/-- `_meta.proxy`. -/
def proxy (m : Model) : Bool := m.path.key ≠ m.concrete

/-- The columns of the model's table. -/
def columns (m : Model) : List Name := m.fields.map Field.stored

/-- `_meta.get_field`, by name or by attribute name; the last field of the name counts. -/
def getField (m : Model) (name : String) : Option Field :=
  m.fields.reverse.find? fun f => f.name = name ∨ f.attname = name

end Model

/-- `apps`, or the models of a migration's state: one model for a key. -/
structure Registry where
  models : List Model
  keys_nodup : (models.map fun m => m.path.key).Nodup

namespace Registry

/-- The model of a key. -/
def find (apps : Registry) (key : ModelKey) : Option Model := apps.models.find? fun m => m.path.key = key

/-- `apps.get_model`. -/
def getModel (apps : Registry) (path : ModelPath) : Option Model := apps.find path.key

theorem find_of_mem {apps : Registry} {m : Model} (h : m ∈ apps.models) : apps.find m.path.key = some m := by
  obtain ⟨models, hnodup⟩ := apps
  change models.find? _ = some m
  induction models with
  | nil => cases h
  | cons x xs ih =>
    rw [List.map_cons, List.nodup_cons] at hnodup
    rcases List.mem_cons.1 h with rfl | hm
    · simp
    · have hne : x.path.key ≠ m.path.key := by
        intro he
        apply hnodup.1
        rw [he]
        exact List.mem_map_of_mem hm
      rw [List.find?_cons_of_neg (by simpa using hne)]
      exact ih hnodup.2 hm

theorem mem_of_find {apps : Registry} {key : ModelKey} {m : Model} (h : apps.find key = some m) :
    m ∈ apps.models ∧ m.path.key = key :=
  ⟨List.mem_of_find?_eq_some h, by simpa using List.find?_some h⟩

end Registry

end RlsTenants
