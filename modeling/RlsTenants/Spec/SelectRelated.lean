import Mathlib.Data.List.Basic

/-!
# Tenant filters of `select_related()`

`TenantQuerySet.select_related`, `_resolve_related_path` and `RLSManager.get_queryset` of
`tenants/managers.py`, over a schema of models.

* `Query` holds what Django compiles: joins, inner or left outer, and conditions.
* `filter` sets join types as Django does: a condition that is an operand of an `OR` next
  to `isnull` leaves its joins outer.
* `Query.results` is what SQL returns for it, row by row with the joined rows.
-/

namespace RlsTenants

namespace SelectRelated

variable {μ κ : Type}

/-! ## Schemas and databases -/

/-- A field of a model, as `_meta.get_field()` gives it. -/
inductive Field (μ : Type) where
  | column
  /-- A relation whose target is still a string. -/
  | lazy (target : String)
  | foreignKey (attname : String) (target : μ) (null : Bool)
  /-- The reverse of a one-to-one field of `source`. -/
  | reverseOneToOne (source : μ) (attname : String)

/-- `related_model`, when it is a class. -/
def Field.relatedModel : Field μ → Option μ
  | .column => none
  | .lazy _ => none
  | .foreignKey _ target _ => some target
  | .reverseOneToOne source _ => some source

/-- `null`: Django has every reverse relation nullable. -/
def Field.null : Field μ → Bool
  | .column => false
  | .lazy _ => false
  | .foreignKey _ _ null => null
  | .reverseOneToOne _ _ => true

structure Schema (μ : Type) where
  getField : μ → String → Option (Field μ)
  /-- The names of a model's forward foreign keys, in its field order. -/
  foreignKeys : μ → List String
  isRlsProtected : μ → Bool
  /-- `_tenant_attname`. -/
  tenantAttname : μ → Option String

/-- A path of relations, hop by hop. -/
abbrev Path := List String

/-- The rows of tables, by primary key; `tenantOf` is the tenant that the policies see. -/
structure Tables (μ κ : Type) where
  rows : μ → List κ
  cell : μ → κ → String → Option κ
  tenantOf : μ → κ → Option κ

/-- What the policies show in the context of a tenant: every row of an unprotected model,
the tenant's own rows, and what `extra_predicates` let through. -/
def Tables.visible [DecidableEq κ] (db : Tables μ κ) (schema : Schema μ) (extra : μ → κ → Bool) (tenantId : κ) :
    Tables μ κ :=
  { db with rows := fun model => (db.rows model).filter fun row =>
      !schema.isRlsProtected model || db.tenantOf model row == some tenantId || extra model row }

/-- The rows that a hop from a row reaches. -/
def Tables.matchRows [DecidableEq κ] (db : Tables μ κ) (model : μ) (row : κ) : Field μ → List (μ × κ)
  | .foreignKey attname target _ =>
    match db.cell model row attname with
    | none => []
    | some key => ((db.rows target).filter (· == key)).map fun row => (target, row)
  | .reverseOneToOne source attname =>
    ((db.rows source).filter fun other => db.cell source other attname == some row).map fun row => (source, row)
  | _ => []

/-- A database: what the constraints of a schema keep true of its tables. -/
structure Database (schema : Schema μ) (κ : Type) extends Tables μ κ where
  nodup : ∀ model, (rows model).Nodup
  references : ∀ {model hop attname target null row key}, schema.getField model hop = some (.foreignKey attname target null) →
    row ∈ rows model → cell model row attname = some key → key ∈ rows target
  notNull : ∀ {model hop attname target row}, schema.getField model hop = some (.foreignKey attname target false) →
    row ∈ rows model → cell model row attname ≠ none
  unique : ∀ {model hop source attname key row row'}, schema.getField model hop = some (.reverseOneToOne source attname) →
    row ∈ rows source → row' ∈ rows source → cell source row attname = some key → cell source row' attname = some key →
    row = row'
  /-- The policies of a model read the column of its tenant field. -/
  tenant : ∀ {model attname row}, schema.tenantAttname model = some attname → row ∈ rows model →
    cell model row attname = tenantOf model row

/-! ## Queries -/

/-- A joined table. -/
structure Join where
  path : Path
  nullable : Bool
  outer : Bool
deriving DecidableEq

/-- A condition on a joined row. -/
inductive Cond (κ : Type) where
  | equals (path : Path) (attname : String) (value : κ)
  | isNull (path : Path)

/-- A query over a model: its joins, parents first, and the conjunction of its filters,
each a disjunction. -/
structure Query (μ κ : Type) where
  model : μ
  joins : List Join := []
  where_ : List (List (Cond κ)) := []

/-- Whether a join is there, and outer. -/
def isOuter (joins : List Join) (path : Path) : Bool := joins.any fun join => join.path == path && join.outer

/-- `setup_joins()` from a model that `done` reaches: a join that is there is reused, a new
one is outer when it is nullable or its parent is outer. -/
def setupJoins (schema : Schema μ) (done : Path) (model : μ) (joins : List Join) : Path → List Join
  | [] => joins
  | hop :: rest =>
    match schema.getField model hop with
    | none => joins
    | some field =>
      match field.relatedModel with
      | none => joins
      | some related =>
        let path := done ++ [hop]
        let joins :=
          if joins.any (·.path == path) then joins
          else joins ++ [⟨path, field.null, field.null || isOuter joins done⟩]
        setupJoins schema path related joins rest

/-- The table that a condition reads; `isnull` on a forward foreign key reads its column,
so its own join is trimmed. -/
def Cond.table (fieldAt : Path → Option (Field μ)) : Cond κ → Path
  | .equals path _ _ => path
  | .isNull path =>
    match fieldAt path with
    | some (.reverseOneToOne _ _) => path
    | _ => path.dropLast

/-- The field that the last hop of a path follows. -/
def fieldAt (schema : Schema μ) (model : μ) : Path → Option (Field μ)
  | [] => none
  | [hop] => schema.getField model hop
  | hop :: rest =>
    match (schema.getField model hop).bind Field.relatedModel with
    | none => none
    | some related => fieldAt schema related rest

/-- `demote_joins()`. -/
def demote (tables : List Path) (joins : List Join) : List Join :=
  joins.map fun join => if join.path ∈ tables then { join with outer := false } else join

/-- `promote_joins()`: a nullable join becomes outer, and so does each join below an outer
one. -/
def promote (tables : List Path) (joins : List Join) : List Join :=
  joins.foldl (fun joins join =>
    joins ++ [{ join with
      outer := join.outer || isOuter joins join.path.dropLast || decide (join.path ∈ tables) && join.nullable }]) []

/-- The tables for which a condition votes to be inner: `isnull` for none. -/
def Cond.votes : Cond κ → List Path
  | .equals path _ _ => path.inits.tail
  | .isNull _ => []

/-- `filter()`: a disjunction's tables are demoted when each operand votes for them, and
promoted when some do (`JoinPromoter`). -/
def Query.filter (schema : Schema μ) (q : Query μ κ) (conds : List (Cond κ)) : Query μ κ :=
  let joins := conds.foldl (fun joins cond =>
    setupJoins schema [] q.model joins (cond.table (fieldAt schema q.model))) q.joins
  let tables := conds.flatMap Cond.votes
  let all := tables.filter fun table => conds.all fun cond => decide (table ∈ cond.votes)
  let some_ := tables.filter fun table => !conds.all fun cond => decide (table ∈ cond.votes)
  { q with joins := promote some_ (demote all joins), where_ := q.where_ ++ [conds] }

/-! ## Results -/

/-- The row that each table of a query has joined. -/
abbrev Env (μ κ : Type) := Path → Option (μ × κ)

/-- Join one more table: a parent without a row, or a row without a match, drops out of an
inner join and stays in an outer one. -/
def joinStep [DecidableEq κ] (schema : Schema μ) (db : Tables μ κ) (envs : List (Env μ κ)) (join : Join) :
    List (Env μ κ) :=
  envs.flatMap fun env =>
    let found := match env join.path.dropLast with
      | none => []
      | some (model, row) =>
        match join.path.getLast?.bind (schema.getField model) with
        | none => []
        | some field => db.matchRows model row field
    match found with
    | [] => if join.outer then [fun path => if path = join.path then none else env path] else []
    | found => found.map fun row path => if path = join.path then some row else env path

/-- Whether a condition is true of the joined rows: no comparison with NULL is. -/
def Cond.holds [DecidableEq κ] (schema : Schema μ) (db : Tables μ κ) (env : Env μ κ) : Cond κ → Bool
  | .equals path attname value =>
    match env path with
    | none => false
    | some (model, row) => db.cell model row attname == some value
  | .isNull path =>
    match env path.dropLast with
    | none => true
    | some (model, row) =>
      match path.getLast?.bind (schema.getField model) with
      | some (.foreignKey attname _ _) => (db.cell model row attname).isNone
      | some (.reverseOneToOne _ _) => (env path).isNone
      | _ => false

/-- What SQL returns: the rows of the model, each with the rows joined to it. -/
def Query.results [DecidableEq κ] (schema : Schema μ) (db : Tables μ κ) (q : Query μ κ) :
    List (κ × Env μ κ) :=
  (db.rows q.model).flatMap fun row =>
    let env : Env μ κ := fun path => if path = [] then some (q.model, row) else none
    let envs := q.joins.foldl (joinStep schema db) [env]
    (envs.filter fun env => q.where_.all fun conds => conds.any (Cond.holds schema db env)).map fun env => (row, env)

/-! ## Querysets -/

/-- The arguments of `select_related()`: `None` or `False`, none at all, or paths. -/
inductive Fields where
  | clear
  | everything
  | paths (first : Path) (rest : List Path)

/-- What Django is told to select. -/
inductive Selection where
  | nothing
  | everything
  | paths (selected : List Path)

/-- A `for_user()` user. -/
structure TenantUser (κ : Type) where
  isTenantAdmin : Bool
  rlsTenantId : Option κ

/-- A `TenantQuerySet`. -/
structure QuerySet (μ κ : Type) where
  query : Query μ κ
  selection : Selection := .nothing
  rlsUser : Option (TenantUser κ) := none
  rlsIncludingShared : Bool := false

/-- `_resolve_related_path`: the target model, and whether any hop is nullable. -/
def resolveRelatedPath (schema : Schema μ) (current : μ) (nullable : Bool) : Path → Option μ × Bool
  | [] => (some current, nullable)
  | part :: rest =>
    match schema.getField current part with
    | none => (none, false)
    | some field =>
      match field.relatedModel with
      | none => (none, false)
      | some related => resolveRelatedPath schema related (nullable || field.null) rest

/-- `_get_active_tenant_id`, with the tenant of the `ContextVar`. -/
def getActiveTenantId (contextTenant : Option κ) (qs : QuerySet μ κ) : Option κ :=
  match contextTenant with
  | some tenantId => some tenantId
  | none =>
    match qs.rlsUser with
    | some user => if user.isTenantAdmin then none else user.rlsTenantId
    | none => none

/-- `QuerySet.select_related(*fields)` adds to the paths that are selected. -/
def addSelectRelated (paths : List Path) : Selection → Selection
  | .paths selected => .paths (selected ++ paths)
  | _ => .paths paths

/-- The filter on the model that a path reaches, if it gets one. -/
def tenantFilter (schema : Schema μ) (model : μ) (tenantId : κ) (fieldPath : Path) : Option (List (Cond κ)) :=
  match resolveRelatedPath schema model false fieldPath with
  | (none, _) => none
  | (some related, nullable) =>
    if !schema.isRlsProtected related then none
    else
      match schema.tenantAttname related with
      | none => none
      | some attname =>
        some (.equals fieldPath attname tenantId :: if nullable then [.isNull fieldPath] else [])

/-- `TenantQuerySet.select_related`. -/
def selectRelated (schema : Schema μ) (contextTenant : Option κ) (qs : QuerySet μ κ) : Fields → QuerySet μ κ
  | .clear => { qs with selection := .nothing }
  | .everything => { qs with selection := .everything }
  | .paths first rest =>
    let fields := first :: rest
    let tenantId := if qs.rlsIncludingShared then none else getActiveTenantId contextTenant qs
    let selected := { qs with selection := addSelectRelated fields qs.selection }
    match tenantId with
    | none => selected
    | some tenantId =>
      fields.foldl (fun qs fieldPath =>
        match tenantFilter schema qs.query.model tenantId fieldPath with
        | none => qs
        | some conds => { qs with query := qs.query.filter schema conds }) selected

/-- `RLSManager.get_queryset`: auto-scoped to the tenant of the `ContextVar`. -/
def getQueryset (schema : Schema μ) (tenantFkField : String) (contextTenant : Option κ) (model : μ) : QuerySet μ κ :=
  let qs : QuerySet μ κ := { query := { model } }
  match contextTenant with
  | none => qs
  | some tenantId => { qs with query := qs.query.filter schema [.equals [] (tenantFkField ++ "_id") tenantId] }

/-! ## Evaluation -/

/-- The paths of non-null foreign keys, up to a depth: what `select_related()` without
arguments follows. -/
def nonNullPaths (schema : Schema μ) : ℕ → μ → List Path
  | 0, _ => []
  | depth + 1, model => (schema.foreignKeys model).flatMap fun name =>
    match schema.getField model name with
    | some (.foreignKey _ target false) => [name] :: (nonNullPaths schema depth target).map (name :: ·)
    | _ => []

/-- The paths that Django selects; its `max_depth` is 5. -/
def Selection.followed (schema : Schema μ) (model : μ) : Selection → List Path
  | .nothing => []
  | .everything => nonNullPaths schema 5 model
  | .paths selected => selected

/-- The query with the joins of the selection (`get_related_selections()`). -/
def QuerySet.compiled (schema : Schema μ) (qs : QuerySet μ κ) : Query μ κ :=
  let joins := (qs.selection.followed schema qs.query.model).foldl (setupJoins schema [] qs.query.model) qs.query.joins
  { qs.query with joins }

/-- The object at a path of an instance: selected with it, or fetched at the access. -/
def access [DecidableEq κ] (schema : Schema μ) (db : Tables μ κ) (selected : List Path) (env : Env μ κ)
    (done : Path) (current : Option (μ × κ)) : Path → Option (μ × κ)
  | [] => current
  | hop :: rest =>
    match current with
    | none => none
    | some (model, row) =>
      let path := done ++ [hop]
      let next :=
        if selected.any fun field => path.isPrefixOf field then env path
        else ((schema.getField model hop).map (db.matchRows model row)).bind List.head?
      access schema db selected env path next rest

/-- The instances of a queryset: primary key, and the object that each path of attributes
gives. -/
def QuerySet.instances [DecidableEq κ] (schema : Schema μ) (db : Tables μ κ) (qs : QuerySet μ κ) :
    List (κ × (Path → Option (μ × κ))) :=
  ((qs.compiled schema).results schema db).map fun result =>
    (result.1, access schema db (qs.selection.followed schema qs.query.model) result.2 []
      (some (qs.query.model, result.1)))

end SelectRelated

end RlsTenants
