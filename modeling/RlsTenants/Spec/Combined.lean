import Mathlib.Data.List.Basic

/-!
# Combined querysets

What `tenants/managers.py` adds to Django's querysets, around `including_shared()`: the
flag, its copies, and the methods that refuse on it.

* `Query` is what Django knows of the rows: conditions, an ordering, a slice.
* `QuerySet` is an object; a `TenantQuerySet` carries a user and the flag, a plain one
  neither.
* `Heap` holds the objects, so that an operator can return an operand itself.
* `Expr` is an expression of the caller's; `eval` runs it on a heap.
-/

namespace RlsTenants

namespace Combined

variable {ρ τ : Type}

/-! ## Queries -/

/-- The condition of a query, over the rows that the policies show. -/
inductive Where (ρ : Type) where
  /-- Every row, of a default manager or through `including_shared()`. -/
  | rows (shared : Bool)
  | keep (condition : ρ → Bool)
  | nothing
  | and (a b : Where ρ)
  | or (a b : Where ρ)
  | xor (a b : Where ρ)
  /-- `pk__in` a query: its condition, ordering and slice. -/
  | pkIn (where_ : Where ρ) (orderBy : Option (ρ → ρ → Bool)) (lowMark : ℕ) (highMark : Option ℕ)

/-- The rows between two marks, in an order. -/
def window (orderBy : Option (ρ → ρ → Bool)) (lowMark : ℕ) (highMark : Option ℕ) (rows : List ρ) : List ρ :=
  let sorted := match orderBy with
    | none => rows
    | some le => rows.mergeSort le
  match highMark with
  | none => sorted.drop lowMark
  | some high => (sorted.take high).drop lowMark

/-- Whether a row meets a condition, in a table. -/
def Where.holds [DecidableEq ρ] : Where ρ → List ρ → ρ → Bool
  | .rows _, _, _ => true
  | .keep condition, _, row => condition row
  | .nothing, _, _ => false
  | .and a b, table, row => a.holds table row && b.holds table row
  | .or a b, table, row => a.holds table row || b.holds table row
  | .xor a b, table, row => Bool.xor (a.holds table row) (b.holds table row)
  | .pkIn where_ orderBy low high, table, row =>
    decide (row ∈ window orderBy low high (table.filter (where_.holds table)))

/-- Whether a row meets a condition through an `including_shared()` operand of it. -/
def Where.through [DecidableEq ρ] : Where ρ → List ρ → ρ → Bool
  | .rows shared, _, _ => shared
  | .keep _, _, _ => false
  | .nothing, _, _ => false
  | .and a b, table, row =>
    a.holds table row && b.holds table row && (a.through table row || b.through table row)
  | .or a b, table, row => a.through table row || b.through table row
  | .xor a b, table, row =>
    a.through table row && !b.holds table row || b.through table row && !a.holds table row
  | .pkIn where_ orderBy low high, table, row =>
    decide (row ∈ window orderBy low high (table.filter (where_.holds table))) && where_.through table row

/-- Whether the condition has Django's `NothingNode` at its top. -/
def Where.isEmpty : Where ρ → Bool
  | .nothing => true
  | .and a b => a.isEmpty || b.isEmpty
  | _ => false

/-- A `sql.Query`. -/
structure Query (ρ : Type) where
  where_ : Where ρ
  orderBy : Option (ρ → ρ → Bool) := none
  lowMark : ℕ := 0
  highMark : Option ℕ := none

/-- What a query returns from a table. -/
def Query.rows [DecidableEq ρ] (q : Query ρ) (table : List ρ) : List ρ :=
  window q.orderBy q.lowMark q.highMark (table.filter (q.where_.holds table))

/-- Whether a slice was taken (`is_sliced`). -/
def isSliced (marks : ℕ × Option ℕ) : Bool := marks.1 != 0 || marks.2.isSome

def Query.marks (q : Query ρ) : ℕ × Option ℕ := (q.lowMark, q.highMark)

/-- `Query.set_limits()`: the marks of a slice of a slice. -/
def limits (marks : ℕ × Option ℕ) (low high : Option ℕ) : ℕ × Option ℕ :=
  let highMark := match high, marks.2 with
    | none, mark => mark
    | some high, none => some (marks.1 + high)
    | some high, some mark => some (min mark (marks.1 + high))
  let lowMark := match low, highMark with
    | none, _ => marks.1
    | some low, none => marks.1 + low
    | some low, some mark => min mark (marks.1 + low)
  (lowMark, highMark)

def Query.addCondition (q : Query ρ) (condition : Where ρ) : Query ρ := { q with where_ := .and q.where_ condition }

/-- `set_empty()`. -/
def Query.setEmpty (q : Query ρ) : Query ρ := q.addCondition .nothing

def Query.setLimits (q : Query ρ) (low high : Option ℕ) : Query ρ :=
  let marks := limits q.marks low high
  let q := { q with lowMark := marks.1, highMark := marks.2 }
  if some marks.1 = marks.2 then q.setEmpty else q

/-! ## Querysets -/

/-- What `for_user()` reads of its user. -/
structure TenantUser (τ : Type) where
  isTenantAdmin : Bool
  rlsTenantId : Option τ

/-- The attributes that a `TenantQuerySet` adds. -/
structure TenantState (τ : Type) where
  rlsUser : Option (TenantUser τ) := none
  rlsIncludingShared : Bool := false

/-- A queryset; `tenant` is there on a `TenantQuerySet`. -/
structure QuerySet (ρ τ : Type) where
  tenant : Option (TenantState τ)
  query : Query ρ

/-- `getattr(qs, "_rls_including_shared", False)`. -/
def QuerySet.includingShared (qs : QuerySet ρ τ) : Bool := qs.tenant.any (·.rlsIncludingShared)

/-- The base manager of a model: Django's own, or an `RLSManager` (`base_manager_name`). -/
inductive BaseManager where
  | plain
  | rls
deriving DecidableEq

/-- What the library reads of a model. -/
structure Model (ρ τ : Type) where
  name : String
  label : String
  tenantOf : ρ → Option τ
  baseManager : BaseManager
  /-- Its `RLSConstraint` has `extra_predicates` (`_shares_rows`). -/
  sharesRows : Bool

/-- Why a call raises. -/
inductive Refusal where
  | typeError (message : String)
  | configurationError (message hint : String)
  | attributeError (name : String)
deriving DecidableEq

/-- `filter(tenant_id=…)`. -/
def Model.ofTenant [DecidableEq τ] (model : Model ρ τ) (tenantId : Option τ) : Where ρ :=
  .keep fun row => decide (model.tenantOf row = tenantId)

/-- `RLSManager.get_queryset`, with the tenant that is active. -/
def Model.getQueryset [DecidableEq τ] (model : Model ρ τ) (includingShared : Bool) (tenantId : Option τ) :
    QuerySet ρ τ :=
  if includingShared then ⟨some { rlsIncludingShared := true }, { where_ := .rows true }⟩
  else
    match tenantId with
    | some tenantId => ⟨some {}, { where_ := .and (.rows false) (model.ofTenant (some tenantId)) }⟩
    | none => ⟨some {}, { where_ := .rows false }⟩

/-- `RLSManager.including_shared`. -/
def Model.includingShared [DecidableEq τ] (model : Model ρ τ) : Except Refusal (QuerySet ρ τ) :=
  if model.sharesRows then .ok (model.getQueryset true none)
  else .error (.configurationError
    ("including_shared() on " ++ model.label ++ ": its RLSConstraint has no extra_predicates, so no rows of other " ++
      "tenants are shared with the current tenant.")
    ("Add extra_predicates (SharedWith, TenantField, RawPredicate) to the RLSConstraint of " ++ model.label ++
      " and run makemigrations, or use " ++ model.name ++ ".objects without including_shared()."))

/-- `model._base_manager.filter(pk__in=…)`. -/
def Model.baseRows [DecidableEq τ] (model : Model ρ τ) (tenantId : Option τ) (q : Query ρ) : QuerySet ρ τ :=
  let condition : Where ρ := .pkIn q.where_ q.orderBy q.lowMark q.highMark
  match model.baseManager with
  | .plain => ⟨none, { where_ := .and (.rows false) condition }⟩
  | .rls =>
    let qs := model.getQueryset false tenantId
    { qs with query := qs.query.addCondition condition }

/-! ## Objects -/

/-- The querysets of a program, by reference. -/
abbrev Heap (ρ τ : Type) := List (QuerySet ρ τ)

def look (heap : Heap ρ τ) (ref : ℕ) : QuerySet ρ τ := heap.getD ref ⟨none, { where_ := .nothing }⟩

def push (heap : Heap ρ τ) (qs : QuerySet ρ τ) : ℕ × Heap ρ τ := (heap.length, heap ++ [qs])

/-- `_chain()`: a new object, with the user and the flag of this one (`_clone`). -/
def chain (self : ℕ) (heap : Heap ρ τ) : ℕ × Heap ρ τ := push heap (look heap self)

/-! ## Operators -/

inductive Operator where
  | and
  | or
  | xor
deriving DecidableEq

def Operator.join : Operator → Where ρ → Where ρ → Where ρ
  | .and => .and
  | .or => .or
  | .xor => .xor

/-- `Query.combine()`. -/
def Query.combine (connector : Operator) (self rhs : Query ρ) : Except Refusal (Query ρ) :=
  if isSliced self.marks then .error (.typeError "Cannot combine queries once a slice has been taken.")
  else .ok { self with where_ := connector.join self.where_ rhs.where_, orderBy := rhs.orderBy <|> self.orderBy }

/-- `QuerySet.__and__`. -/
def djangoAnd (self other : ℕ) (heap : Heap ρ τ) : Except Refusal (ℕ × Heap ρ τ) :=
  if (look heap other).query.where_.isEmpty then .ok (other, heap)
  else if (look heap self).query.where_.isEmpty then .ok (self, heap)
  else do
    let query ← Query.combine .and (look heap self).query (look heap other).query
    return push heap { look heap self with query }

/-- `QuerySet.__or__` and `QuerySet.__xor__`: a sliced operand is replaced by rows of the
base manager. -/
def djangoUnion [DecidableEq τ] (model : Model ρ τ) (connector : Operator) (tenantId : Option τ) (self other : ℕ)
    (heap : Heap ρ τ) : Except Refusal (ℕ × Heap ρ τ) :=
  if (look heap self).query.where_.isEmpty then .ok (other, heap)
  else if (look heap other).query.where_.isEmpty then .ok (self, heap)
  else do
    let replaced (qs : QuerySet ρ τ) := if isSliced qs.query.marks then model.baseRows tenantId qs.query else qs
    let combined := replaced (look heap self)
    let query ← Query.combine connector combined.query (replaced (look heap other)).query
    return push heap { combined with query }

/-- Mark `combined` when `other` is an `including_shared()` queryset (`_combined`). -/
def combinedOf (self combined other : ℕ) (heap : Heap ρ τ) : ℕ × Heap ρ τ :=
  if !(look heap other).includingShared || (look heap combined).includingShared then (combined, heap)
  else
    let (combined, heap) := if combined = self then chain combined heap else (combined, heap)
    match (look heap combined).tenant with
    -- A plain `QuerySet`: `isinstance(combined, TenantQuerySet)` fails.
    | none => (combined, heap)
    | some state =>
      (combined, heap.set combined { look heap combined with tenant := some { state with rlsIncludingShared := true } })

/-- `&`, `|` and `^`: the left operand's class decides whether `_combined` runs. -/
def operator [DecidableEq τ] (model : Model ρ τ) (connector : Operator) (tenantId : Option τ) (self other : ℕ)
    (heap : Heap ρ τ) : Except Refusal (ℕ × Heap ρ τ) := do
  let (combined, heap') ← match connector with
    | .and => djangoAnd self other heap
    | .or => djangoUnion model .or tenantId self other heap
    | .xor => djangoUnion model .xor tenantId self other heap
  return if (look heap self).tenant.isSome then combinedOf self combined other heap' else (combined, heap')

/-! ## Methods -/

/-- A method that returns a queryset. -/
inductive Method (ρ τ : Type) where
  | filter (condition : ρ → Bool)
  | exclude (condition : ρ → Bool)
  | orderBy (le : ρ → ρ → Bool)
  | slice (low high : Option ℕ)
  | none
  | forUser (user : TenantUser τ)

/-- `filter()` and `exclude()` of Django. -/
def filterOrExclude (condition : ρ → Bool) (self : ℕ) (heap : Heap ρ τ) : Except Refusal (ℕ × Heap ρ τ) :=
  let qs := look heap self
  if isSliced qs.query.marks then .error (.typeError "Cannot filter a query once a slice has been taken.")
  else .ok (push heap { qs with query := qs.query.addCondition (.keep condition) })

/-- `TenantQuerySet.for_user`. -/
def forUser [DecidableEq τ] (model : Model ρ τ) (asUser : TenantUser τ) (self : ℕ) (heap : Heap ρ τ) :
    Except Refusal (ℕ × Heap ρ τ) :=
  match (look heap self).tenant with
  | none => .error (.attributeError "for_user")
  | some state =>
    let (qs, heap) := push heap { look heap self with tenant := some { state with rlsUser := some asUser } }
    if !asUser.isTenantAdmin && !state.rlsIncludingShared then
      filterOrExclude (fun row => decide (model.tenantOf row = asUser.rlsTenantId)) qs heap
    else .ok (qs, heap)

def Method.call [DecidableEq τ] (model : Model ρ τ) (self : ℕ) (heap : Heap ρ τ) :
    Method ρ τ → Except Refusal (ℕ × Heap ρ τ)
  | .filter condition => filterOrExclude condition self heap
  | .exclude condition => filterOrExclude (fun row => !condition row) self heap
  | .orderBy le =>
    let qs := look heap self
    if isSliced qs.query.marks then .error (.typeError "Cannot reorder a query once a slice has been taken.")
    else .ok (push heap { qs with query := { qs.query with orderBy := some le } })
  | .slice low high =>
    let qs := look heap self
    .ok (push heap { qs with query := qs.query.setLimits low high })
  | .none =>
    let qs := look heap self
    .ok (push heap { qs with query := qs.query.setEmpty })
  | .forUser user => Combined.forUser model user self heap

/-! ## Expressions -/

/-- An expression over querysets of one model. `tenantId` is the tenant that is active
where the queryset is built. -/
inductive Expr (ρ τ : Type) where
  | objects (tenantId : Option τ)
  | includingShared
  | method (e : Expr ρ τ) (call : Method ρ τ)
  | operator (connector : Operator) (tenantId : Option τ) (a b : Expr ρ τ)

/-- The object that an expression gives, and the objects that it leaves behind. -/
def Expr.eval [DecidableEq τ] (model : Model ρ τ) : Expr ρ τ → Heap ρ τ → Except Refusal (ℕ × Heap ρ τ)
  | .objects tenantId, heap => .ok (push heap (model.getQueryset false tenantId))
  | .includingShared, heap => do return push heap (← model.includingShared)
  | .method e call, heap => do
    let (ref, heap) ← e.eval model heap
    call.call model ref heap
  | .operator connector tenantId a b, heap => do
    let (self, heap) ← a.eval model heap
    let (other, heap) ← b.eval model heap
    Combined.operator model connector tenantId self other heap

/-! ## Writes -/

/-- The methods that write or lock; of `bulk_update()` how many objects it is given, of
`update_or_create()` how many lookups. -/
inductive WriteMethod where
  | update
  | delete
  | bulkUpdate (objs : ℕ)
  | updateOrCreate (lookups : ℕ)
  | selectForUpdate

def WriteMethod.text : WriteMethod → String
  | .update => "update"
  | .delete => "delete"
  | .bulkUpdate _ => "bulk_update"
  | .updateOrCreate _ => "update_or_create"
  | .selectForUpdate => "select_for_update"

/-- `_refuse_on_shared_rows`. -/
def refuseOnSharedRows (model : Model ρ τ) (state : TenantState τ) (method : String) : Except Refusal Unit :=
  if state.rlsIncludingShared then .error (.typeError
    ("Cannot call " ++ method ++ "() on an including_shared() queryset: its rows include rows other tenants share, " ++
      "which the current tenant may read but not update, delete or lock. Call " ++ method ++
      "() on a queryset of " ++ model.name ++ " without including_shared()."))
  else .ok ()

/-- What Django itself refuses on a slice. -/
def djangoRefuses (marks : ℕ × Option ℕ) : WriteMethod → Except Refusal Unit
  | .update => if isSliced marks then .error (.typeError "Cannot update a query once a slice has been taken.") else .ok ()
  | .delete => if isSliced marks then .error (.typeError "Cannot use 'limit' or 'offset' with delete().") else .ok ()
  | .bulkUpdate count | .updateOrCreate count =>
    if isSliced marks && count != 0 then .error (.typeError "Cannot filter a query once a slice has been taken.")
    else .ok ()
  | .selectForUpdate => .ok ()

/-- A write on a queryset: refused, or let through to the database. -/
def QuerySet.write (model : Model ρ τ) (qs : QuerySet ρ τ) (method : WriteMethod) : Except Refusal Unit := do
  if let some state := qs.tenant then refuseOnSharedRows model state method.text
  djangoRefuses qs.query.marks method

end Combined

end RlsTenants
