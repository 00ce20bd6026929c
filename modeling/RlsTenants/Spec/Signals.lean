import RlsTenants.Spec.Celery

/-!
# Contexts that the task signals enter

`install()` of `contrib/celery.py` enters a task's context when the task's run begins and
exits it when the run ends, for tasks that are no `RLSTask`.

* `taskPrerun` and `taskPostrun` are the two handlers. They share `_signal_contexts`: a
  stack of contexts for each task id.
* `Runs.exec` runs a thread's tasks, each inside another or after it.
-/

namespace RlsTenants

namespace Signals

/-- A context that a prerun entered: which one it is, its values, and those it found. -/
structure SignalContext where
  id : ℕ
  values : ContextGucs
  found : Option ContextGucs
deriving DecidableEq

/-- A thread: the context its statements run in, `_signal_contexts` (newest first), and
how many contexts were entered. -/
structure Thread where
  current : Option ContextGucs
  signalContexts : String → Option (List SignalContext)
  entered : ℕ

/-- A run of a task. `entryFails` says that entering its context raises. -/
structure SignalledTask where
  taskId : Option String
  isRLSTask : Bool
  request : Request
  entryFails : Bool
deriving DecidableEq

/-- The values of the context that a request's headers give. -/
def contextGucs (request : Request) : Option ContextGucs :=
  match requestContext request with
  | (some tenantId, _) => some (.forTenant tenantId.toStr)
  | (none, true) => some adminGucs
  | (none, false) => none

/-- `with context:`, as far as the block begins. -/
def SignalContext.enter (c : SignalContext) (s : Thread) : Thread :=
  { s with current := some c.values, entered := s.entered + 1 }

/-- `_safe_exit`: the context variables are put back before a statement that may fail. -/
def SignalContext.safeExit (c : SignalContext) (s : Thread) : Thread := { s with current := c.found }

/-- Set one task id's stack, or delete it. -/
def Thread.setStack (id : String) (stack : Option (List SignalContext)) (s : Thread) : Thread :=
  { s with signalContexts := Function.update s.signalContexts id stack }

/-- Enter the propagated context before a task's body runs (`_task_prerun`): the thread,
and the context entered, if any. -/
def taskPrerun (r : SignalledTask) (s : Thread) : Thread × Option SignalContext :=
  match r.taskId with
  | none => (s, none)
  | some id =>
    if r.isRLSTask then (s, none)
    else
      match contextGucs r.request with
      | none => (s, none)
      | some values =>
        -- an entry that fails is logged, and the task runs without a context of its own
        if r.entryFails then (s, none)
        else
          let context := ⟨s.entered, values, s.current⟩
          ((context.enter s).setStack id (some (context :: (s.signalContexts id).getD [])), some context)

/-- Exit the context entered by `taskPrerun` (`_task_postrun`): the thread, and the
context exited, if any. -/
def taskPostrun (taskId : Option String) (s : Thread) : Thread × Option SignalContext :=
  match taskId with
  | none => (s, none)
  | some id =>
    match s.signalContexts id with
    | none => (s, none)
    | some [] => (s, none)
    | some (context :: stack) =>
      (context.safeExit (s.setStack id (if stack = [] then none else some stack)), some context)

/-! ## Threads of tasks -/

/-- Runs of tasks on one thread: each has runs inside it, and runs after it. -/
inductive Runs
  | nil
  | run (r : SignalledTask) (inner next : Runs)

/-- What is known of a run when it has ended: the contexts that its prerun entered and its
postrun exited, the context that it began in, and those that its body ran in, between the
runs inside it. -/
structure Report where
  run : SignalledTask
  entered : Option SignalContext
  exited : Option SignalContext
  enclosing : Option ContextGucs
  body : List (Option ContextGucs)

/-- The runs, one after the other: the thread, the reports, and the context after each. -/
def Runs.exec : Runs → Thread → Thread × List Report × List (Option ContextGucs)
  | nil, s => (s, [], [])
  | run r inner next, s =>
    let (s₁, entered) := taskPrerun r s
    let (s₂, reports, body) := inner.exec s₁
    let (s₃, exited) := taskPostrun r.taskId s₂
    let (s₄, reports', after) := next.exec s₃
    (s₄, reports ++ ⟨r, entered, exited, s.current, s₁.current :: body⟩ :: reports', s₃.current :: after)

/-! ## What the signals should do -/

/-- The run's context was entered, exited and in force around its body; a run without one
exited none, and its body ran in the enclosing context. -/
structure Report.Paired (report : Report) : Prop where
  exits : report.exited = report.entered
  body : ∀ c ∈ report.body, c = match report.entered with
    | some context => some context.values
    | none => report.enclosing

/-- Every run is paired, and no context is left. -/
def Runs.Paired (runs : Runs) (s : Thread) : Prop :=
  (∀ report ∈ (runs.exec s).2.1, report.Paired) ∧ (runs.exec s).1.signalContexts = fun _ => none

/-- The run enters a context of its own. -/
def SignalledTask.enters (r : SignalledTask) : Bool :=
  r.taskId.isSome && !r.isRLSTask && (contextGucs r.request).isSome && !r.entryFails

/-- No run that enters nothing lies within a run of its task id that entered a context;
`within` are the task ids of the latter. -/
def Runs.Aligned : Runs → List String → Prop
  | nil, _ => True
  | run r inner next, within =>
    (r.enters = false → ∀ id, r.taskId = some id → id ∉ within) ∧
      inner.Aligned (if r.enters then r.taskId.toList ++ within else within) ∧ next.Aligned within

end Signals

end RlsTenants
