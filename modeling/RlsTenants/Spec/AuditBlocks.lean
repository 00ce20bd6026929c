import RlsTenants.Lib.ContextVar
import RlsTenants.Lib.Effect
import RlsTenants.Spec.Audit

/-!
# Context blocks and their audit records

`tenant_context` and `admin_context` hand a record to the audit logger when they are entered
and when they are left; `attributed` says, through the variable `_origin`, for whom.

* `Stages` are what the statements of a block raise, where they fail.
* `Context.enter` and `leave` are the two halves of a block, before and after its body.
* `Prog` are programs of nested blocks, and `Prog.exec` runs one.
* `Prog.result` and `Prog.records` say what a program does and logs, without `_origin`.
-/

namespace RlsTenants

namespace Audit

open PyText ContextVar Effect Effect.Comp

/-! ## Exceptions and the logger -/

/-- An exception; `isException` is false where it is only a `BaseException`. -/
structure Exn where
  name : String
  isException : Bool
deriving DecidableEq

/-- What the loggers do: the levels that are on, and what their filters and handlers raise,
after all records so far. -/
structure Logging where
  isEnabledFor : Level → Bool
  sink : List Record → Option Exn
  fallback : List Record → Option Exn

/-- Filters and handlers raise nothing but `Exception`s. -/
structure Logging.Ordinary (L : Logging) : Prop where
  sink : ∀ log, ∀ e ∈ L.sink log, e.isException = true
  fallback : ∀ log, ∀ e ∈ L.fallback log, e.isException = true

/-- `Origin`. -/
structure Origin where
  source : Option Source
  userId : Value
deriving DecidableEq

/-- `_DIRECT`. -/
def direct : Origin := ⟨some .contextManager, .none⟩

/-- `_origin` in one `Context`, and the records that the audit logger was handed. -/
structure State where
  context : ℕ
  origin : Origin
  ledger : Ledger
  log : List Record

/-- Where a program starts. -/
def State.start (context : ℕ) : State := ⟨context, direct, ⟨0, []⟩, []⟩

abbrev Run (α : Type) : Type := Comp State Exn α

/-- A statement that may fail. -/
def raises (e : Option Exn) : Run Unit :=
  match e with
  | some e => raise e
  | none => pure ()

/-- `suppress(Exception)`. -/
def suppress (m : Run Unit) : Run Unit := attempt m fun e => if e.isException then pure () else raise e

/-- Run `last` if `m` raises; its exception replaces that of `m`. -/
def onError {α : Type} (m : Run α) (last : Run Unit) : Run α := attempt m fun e => do last; raise e

/-- `audit_logger.log`. -/
def hand (L : Logging) (r : Record) : Run Unit := do
  modify fun s => { s with log := s.log ++ [r] }
  let log ← reads State.log
  raises (L.sink log)

/-- `emit`: an `Exception` of the logger is logged, and goes no further. -/
def emit (L : Logging) (r : Record) : Run Unit :=
  if !L.isEnabledFor r.level then pure ()
  else attempt (hand L r) fun e =>
    if e.isException then
      suppress (do
        let log ← reads State.log
        raises (L.fallback log))
    else raise e

/-! ## Attribution -/

def originVar : Var Origin Origin := ⟨id, fun a _ => a⟩

/-- `_origin.set`. -/
def setOrigin (o : Origin) : Run (Token Origin) := fun s =>
  let (token, origin, ledger) := originVar.set s.context o s.origin s.ledger
  (.ok token, { s with origin := origin, ledger := ledger })

/-- `_origin.reset`. -/
def resetOrigin (token : Token Origin) : Run Unit := fun s =>
  match originVar.reset s.context token s.origin s.ledger with
  | .ok (origin, ledger) => (.ok (), { s with origin := origin, ledger := ledger })
  | .error .used => (.error ⟨"RuntimeError", true⟩, s)
  | .error .elsewhere => (.error ⟨"ValueError", true⟩, s)

/-- `current_origin`. -/
def currentOrigin : Run Origin := reads State.origin

/-- The record of `context_event`. -/
def contextRecord (event : Event) (source : Source) (userId tenantId : Value) (usingAlias : Str) : Record :=
  { event := event, source := source, level := .info, tenantId := tenantId, admin := some (tenantId = .none),
    userId := userId, details := [(nameUsing, .str usingAlias)] }

/-- `context_event`. -/
def contextEvent (L : Logging) (event : Event) (origin : Origin) (tenantId : Value) (usingAlias : Str) : Run Unit :=
  match origin.source with
  | none => pure ()
  | some source => emit L (contextRecord event source origin.userId tenantId usingAlias)

/-! ## Blocks -/

/-- What the steps of a block raise: the snapshot, the values and statements of the entry,
the reset of the values, the restore, and the last debug line. -/
structure Stages where
  snapshot : Option Exn
  entry : Option Exn
  reset : Option Exn
  restore : Option Exn
  debug : Option Exn

/-- The variables of a block. -/
structure Frame where
  origin : Origin
  tenantId : Value
  usingAlias : Str
  stages : Stages

/-- The `finally` of a block. -/
def finish (L : Logging) (f : Frame) (entered : Bool) : Run Unit := do
  ensuring (raises f.stages.restore)
    (if entered then contextEvent L .contextExited f.origin f.tenantId f.usingAlias else pure ())
  raises f.stages.debug

/-- A block up to its `yield`, once its origin is known. -/
def enterBlock (L : Logging) (f : Frame) : Run Frame := do
  raises f.stages.snapshot
  onError
    (onError
      (do
        raises f.stages.entry
        contextEvent L .contextEntered f.origin f.tenantId f.usingAlias)
      (raises f.stages.reset))
    (finish L f false)
  pure f

/-- A block after its `yield`. -/
def leave (L : Logging) (f : Frame) : Run Unit := ensuring (raises f.stages.reset) (finish L f true)

/-- `NoTenantContextError`. -/
def noTenantContext : Exn := ⟨"NoTenantContextError", true⟩

/-- `_refuse_tenant_id_none`. -/
def refuseTenantIdNone (L : Logging) (origin : Origin) : Run Frame := do
  match origin.source with
  | some source => emit L (denied source .tenantIdNone origin.userId .none none [])
  | none => pure ()
  raise noTenantContext

/-- `tenant_context`, up to its `yield`. -/
def tenantContext (L : Logging) (tenantId : Value) (usingAlias : Str) (stages : Stages) : Run Frame := do
  let origin ← currentOrigin
  if tenantId = .none then refuseTenantIdNone L origin
  else enterBlock L ⟨origin, tenantId, usingAlias, stages⟩

/-- `admin_context`, up to its `yield`. -/
def adminContext (L : Logging) (usingAlias : Str) (stages : Stages) : Run Frame := do
  let origin ← currentOrigin
  enterBlock L ⟨origin, .none, usingAlias, stages⟩

/-- What the key of a user is, or what reading it raises. -/
abbrev UserId : Type := Except Exn Value

def ofUserId : UserId → Run Value
  | .ok v => pure v
  | .error e => raise e

/-- `attributed`, up to its `yield`. -/
def attributed (L : Logging) (context : Run Frame) (source : Option Source) (user : UserId) : Run Frame := do
  let userId ← ofUserId user
  let token ← setOrigin ⟨source, userId⟩
  let f ← onError context (resetOrigin token)
  onError (resetOrigin token) (leave L f)
  pure f

/-- The context managers of a program. -/
inductive Context
  | tenantContext (tenantId : Value) (usingAlias : Str) (stages : Stages)
  | adminContext (usingAlias : Str) (stages : Stages)
  | attributed (context : Context) (source : Option Source) (user : UserId)

/-- `silenced`. -/
def silenced (context : Context) : Context := .attributed context none (.ok .none)

/-- `__enter__`. -/
def Context.enter (L : Logging) : Context → Run Frame
  | .tenantContext tenantId usingAlias stages => Audit.tenantContext L tenantId usingAlias stages
  | .adminContext usingAlias stages => Audit.adminContext L usingAlias stages
  | .attributed context source user => Audit.attributed L (context.enter L) source user

/-! ## Programs -/

inductive Prog
  | pass
  | raise (e : Exn)
  | seq (p q : Prog)
  | tryExcept (p : Prog) (catches : Exn → Bool) (q : Prog)
  | tryFinally (p q : Prog)
  | block (context : Context) (body : Prog)

def Prog.exec (L : Logging) : Prog → Run Unit
  | .pass => pure ()
  | .raise e => Comp.raise e
  | .seq p q => do
    p.exec L
    q.exec L
  | .tryExcept p catches q => attempt (p.exec L) fun e => if catches e then q.exec L else Comp.raise e
  | .tryFinally p q => ensuring (p.exec L) (q.exec L)
  | .block context body => do
    let f ← context.enter L
    ensuring (body.exec L) (leave L f)

/-! ## What a program is meant to log -/

/-- What the end of a block raises. -/
def Stages.ending (st : Stages) : Option Exn := (st.restore.or st.debug).or st.reset

/-- A block whose steps are these is entered, or it is not. -/
def Frame.entry (f : Frame) : Except Exn Frame :=
  match f.stages.snapshot with
  | some e => .error e
  | none => match f.stages.entry with
    | some e => .error (f.stages.ending.getD e)
    | none => .ok f

/-- What entering a block gives, for the origin that it is entered with: its own if it is
attributed, the innermost one. -/
def Context.entry (origin : Origin) : Context → Except Exn Frame
  | .tenantContext tenantId usingAlias stages =>
    if tenantId = .none then .error noTenantContext else Frame.entry ⟨origin, tenantId, usingAlias, stages⟩
  | .adminContext usingAlias stages => Frame.entry ⟨origin, .none, usingAlias, stages⟩
  | .attributed context source user =>
    match user with
    | .ok userId => context.entry ⟨source, userId⟩
    | .error e => .error e

/-- The record of one end of a block, unless it is silenced. -/
def Frame.record (f : Frame) (event : Event) : List Record :=
  match f.origin.source with
  | some source => [contextRecord event source f.origin.userId f.tenantId f.usingAlias]
  | none => []

/-- How a block ends whose body ends so. -/
def Frame.after (f : Frame) (body : Except Exn Unit) : Except Exn Unit :=
  match f.stages.ending with
  | some e => .error e
  | none => body

/-- How a program ends; each block is entered for itself. -/
def Prog.result : Prog → Except Exn Unit
  | .pass => .ok ()
  | .raise e => .error e
  | .seq p q =>
    match p.result with
    | .ok () => q.result
    | .error e => .error e
  | .tryExcept p catches q =>
    match p.result with
    | .ok () => .ok ()
    | .error e => if catches e then q.result else .error e
  | .tryFinally p q =>
    match q.result with
    | .ok () => p.result
    | .error e => .error e
  | .block context body =>
    match context.entry direct with
    | .ok f => f.after body.result
    | .error e => .error e

/-- The records of a program: those of a block stand around those of its body. -/
def Prog.records : Prog → List Record
  | .pass => []
  | .raise _ => []
  | .seq p q =>
    match p.result with
    | .ok () => p.records ++ q.records
    | .error _ => p.records
  | .tryExcept p catches q =>
    match p.result with
    | .ok () => p.records
    | .error e => if catches e then p.records ++ q.records else p.records
  | .tryFinally p q => p.records ++ q.records
  | .block context body =>
    match context.entry direct with
    | .ok f => f.record .contextEntered ++ body.records ++ f.record .contextExited
    | .error _ => []

/-- The records of blocks among all records. -/
def contextRecords (log : List Record) : List Record :=
  log.filter fun r => r.event = .contextEntered || r.event = .contextExited

/-- Each entry has its exit, with the same tenant, flag, user, source and details. -/
inductive Balanced : List Record → Prop
  | nil : Balanced []
  | pair (r : Record) {l : List Record} (hr : r.event = .contextEntered) (hl : Balanced l) :
      Balanced (r :: l ++ [{ r with event := .contextExited }])
  | append {l l' : List Record} (hl : Balanced l) (hl' : Balanced l') : Balanced (l ++ l')

end Audit

end RlsTenants
