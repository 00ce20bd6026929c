import RlsTenants.Spec.Holder

/-!
# Contexts that travel with Celery tasks

`contrib/celery.py`: what is captured into a task's headers where it is enqueued, and
what its body runs in on the worker.

* `capture` reads the holder, then the public tenant state, then the headers of the
  task that runs now;
* `mergeHeaders` puts the captured headers beside those that the caller gives;
* `RLSTask.call` is the worker's side.

What the broker makes of the headers is not the library's: `Request.Carries` says which
requests bring them.
-/

namespace RlsTenants

/-- The two headers in a `headers` mapping: a key may be missing, and the tenant's value
may be `None`. Of the admin header only its truth value is read. -/
structure Headers where
  rlsTenantId : Option (Option TenantId)
  rlsAdmin : Option Bool
deriving DecidableEq

/-- No headers of the library's. -/
def Headers.empty : Headers := ⟨none, none⟩

/-- A task's request: its `headers`, if they are a mapping, and the attributes that some
transports surface headers as (`None` and false if they are missing). -/
structure Request where
  headers : Option Headers
  rlsTenantId : Option TenantId
  rlsAdmin : Bool
deriving DecidableEq

/-- The headers of the task that runs now, if it has a tenant header. -/
def inheritHeaders (currentTask : Option Request) : Headers :=
  match currentTask.bind (·.headers) with
  | some ⟨some tenantId, admin⟩ => ⟨some tenantId, some (admin.getD false)⟩
  | _ => .empty

/-- The recorded tenant id; the public one only lends it its type. -/
def recordedTenantId (tenantId : Option TenantId) (currentTenant : String) : TenantId :=
  match tenantId with
  | some tenantId => if tenantId.toStr ≠ currentTenant then .str currentTenant else tenantId
  | none => .str currentTenant

/-- The active context as header values (`_capture`). -/
def capture (s : Scope) (currentTask : Option Request) : Headers :=
  match s.vars.live with
  | some live =>
    match s.store.valuesOf (some live) with
    | some values =>
      if values.isAdmin = "true" then ⟨some none, some true⟩
      else if values.currentTenant ≠ "" then
        ⟨some (some (recordedTenantId s.vars.tenantId values.currentTenant)), some false⟩
      else inheritHeaders currentTask
    | none => inheritHeaders currentTask
  | none =>
    match s.vars.tenantId with
    | some tenantId => ⟨some (some tenantId), some false⟩
    | none => if s.vars.active then ⟨some none, some true⟩ else inheritHeaders currentTask

/-- `headers.setdefault` for each captured key (`_merge_headers`, `_before_task_publish`). -/
def mergeHeaders (headers captured : Headers) : Headers :=
  ⟨headers.rlsTenantId <|> captured.rlsTenantId, headers.rlsAdmin <|> captured.rlsAdmin⟩

/-- The tenant and the admin flag of a task's request (`_request_context`). -/
def requestContext (request : Request) : Option TenantId × Bool :=
  match request.headers with
  | some ⟨some tenantId, admin⟩ => (tenantId, admin.getD false)
  | _ => (request.rlsTenantId, request.rlsAdmin)

/-- A task: how Python writes its name, and whether it must have a context. -/
structure RLSTask where
  name : String
  rlsRequireContext : Bool

/-- What a task's body runs in. -/
inductive TaskRun
  | tenantContext (tenantId : TenantId) (source : String)
  | adminContext (source : String)
  | noContext
  | denied (source reason message hint : String)
deriving DecidableEq

/-- `HINT_NO_CONTEXT`. -/
def hintNoContext : String :=
  "Establish an RLS context before the query: wrap it in tenant_context(tenant_id) or admin_context(), " ++
    "scope the queryset with .for_user(user), or enable RLSTenantMiddleware so each request sets the context " ++
    "automatically."

/-- Restore the propagated context around the body (`RLSTask.__call__`). -/
def RLSTask.call (task : RLSTask) (request : Request) : TaskRun :=
  match requestContext request with
  | (some tenantId, _) => .tenantContext tenantId "celery"
  | (none, true) => .adminContext "celery"
  | (none, false) =>
    if task.rlsRequireContext then
      .denied "celery" "no_context" s!"Task {task.name} ran without an RLS context." hintNoContext
    else .noContext

/-- The values of the context that the body runs in. -/
def TaskRun.gucs : TaskRun → Option ContextGucs
  | tenantContext tenantId _ => some (.forTenant tenantId.toStr)
  | adminContext _ => some adminGucs
  | noContext => none
  | denied _ _ _ _ => none

/-! ## What the broker keeps -/

/-- The headers are the same, up to the `str()` of the tenant id. -/
def Headers.Same (h h' : Headers) : Prop :=
  h.rlsTenantId.map (·.map TenantId.toStr) = h'.rlsTenantId.map (·.map TenantId.toStr) ∧ h.rlsAdmin = h'.rlsAdmin

/-- The request brings the headers: as a mapping, with no tenant of its own where they
have none, or as attributes. -/
def Request.Carries (request : Request) (h : Headers) : Prop :=
  match request.headers with
  | some h' => h'.Same h ∧ (h.rlsTenantId = none →
      request.rlsTenantId = none ∧ request.rlsAdmin = h.rlsAdmin.getD false)
  | none => request.rlsTenantId.map TenantId.toStr = h.rlsTenantId.join.map TenantId.toStr ∧
      request.rlsAdmin = h.rlsAdmin.getD false

/-! ## What a task should carry -/

/-- The values of the context that is active where a task is enqueued: of the holder if
there is one, else of the public tenant state. -/
def Scope.active (s : Scope) : Option ContextGucs :=
  match s.vars.live with
  | some live => s.store.valuesOf (some live)
  | none =>
    match s.vars.tenantId with
    | some tenantId => some (.forTenant tenantId.toStr)
    | none => if s.vars.active then some adminGucs else none

/-- The values of an admin context, or of a tenant's whose id is not the empty text. -/
inductive ContextGucs.Scopes : ContextGucs → Prop
  | admin : Scopes adminGucs
  | tenant {tenantId : String} (h : tenantId ≠ "") : Scopes (.forTenant tenantId)

/-- The context that the headers of the running task give, none without a tenant header. -/
def inherited (currentTask : Option Request) : Option ContextGucs :=
  match currentTask.bind (·.headers) with
  | some ⟨some (some tenantId), _⟩ => some (.forTenant tenantId.toStr)
  | some ⟨some none, some true⟩ => some adminGucs
  | _ => none

/-- A task enqueued here carries `c`: the active context, or without one that of the
running task. -/
inductive Scope.Sends (s : Scope) (currentTask : Option Request) : Option ContextGucs → Prop
  | active {v : ContextGucs} (h : s.active = some v) (hv : v.Scopes) : Sends s currentTask (some v)
  | inherited (h : s.active = none) : Sends s currentTask (inherited currentTask)

end RlsTenants
