import Mathlib.Data.Int.Notation
import Mathlib.Data.List.Basic
import RlsTenants.Lib.Run

/-!
# A command for all tenants

`run_for_all_tenants` runs a command once per tenant, in this process or in a pool of
worker processes, and reports how each run ended.

* `runForTenant` is the report of one run, `brokenRun` that of a run that the pool lost.
* `serialLoop` runs the tenants in turn.
* `step` is one step of the main process, of a worker or of the pool: submitting, waiting
  for the futures, cancelling what has not started after a failure, and the last sweep.
* `Reported` is what the command promises.
-/

namespace RlsTenants

namespace ForAllTenants

open Run

/-! ## Reports -/

/-- The primary key of a tenant. -/
inductive Pk
  | number (n : ℤ)
  | text (s : String)
deriving DecidableEq

def Pk.show : Pk → String
  | .number n => toString n
  | .text s => s

/-- What `_list_tenants` gives for a tenant. -/
structure Tenant where
  pk : Pk
  label : String
deriving DecidableEq

inductive Status
  | ok
  | failed
  | skipped
deriving DecidableEq

/-- `TenantRun`; `milliseconds` is `seconds`. -/
structure TenantRun where
  tenant : Pk
  label : String
  status : Status
  milliseconds : Option ℕ
  error : Option String
  traceback : Option String
  stdout : Option String
  stderr : Option String
deriving DecidableEq

/-- The tenant that a report is about. -/
def TenantRun.of (run : TenantRun) : Tenant := ⟨run.tenant, run.label⟩

/-- What `SystemExit` carries. -/
inductive ExitStatus
  | none
  | code (n : ℤ)
  | text (s : String)
deriving DecidableEq

/-- `code not in (None, 0)`. -/
def ExitStatus.fails : ExitStatus → Bool
  | .none => false
  | .code n => n != 0
  | .text _ => true

def ExitStatus.show : ExitStatus → String
  | .none => "None"
  | .code n => toString n
  | .text s => s

/-- How `call_command` ends inside the tenant's context, as far as `_run_for_tenant` catches it. -/
inductive Ending
  | returned
  | exited (status : ExitStatus)
  | raised (type message traceback : String)
deriving DecidableEq

/-- A run of the command, and what it wrote. -/
structure CommandRun where
  ending : Ending
  milliseconds : ℕ
  stdout : String
  stderr : String
deriving DecidableEq

/-- What comes of running the command in this process: an exception that is no `Exception`,
such as `KeyboardInterrupt`, passes through `_run_for_tenant`. -/
inductive Attempt
  | ran (r : CommandRun)
  | interrupted (exception : String)
deriving DecidableEq

/-- The error of a run. -/
def Ending.error : Ending → Option String
  | .returned => none
  | .exited status => if status.fails then some s!"exited with status {status.show}" else none
  | .raised type message _ => some s!"{type}: {message}"

def Ending.traceback : Ending → Option String
  | .raised _ _ traceback => some traceback
  | _ => none

/-- The command ran, and failed. -/
def Attempt.failed : Attempt → Bool
  | .ran r => r.ending.error.isSome
  | .interrupted _ => false

/-- `_run_for_tenant`. -/
def runForTenant (t : Tenant) (capture : Bool) (r : CommandRun) : TenantRun where
  tenant := t.pk
  label := t.label
  status := if r.ending.error.isNone then .ok else .failed
  milliseconds := some r.milliseconds
  error := r.ending.error
  traceback := r.ending.traceback
  stdout := if capture then some r.stdout else none
  stderr := if capture then some r.stderr else none

/-- The report of a tenant whose future has a `BrokenProcessPool`. -/
def brokenRun (t : Tenant) (why : String) : TenantRun where
  tenant := t.pk
  label := t.label
  status := .failed
  milliseconds := none
  error := some s!"the worker pool broke before this tenant finished (a worker process died, or failed to start): {why}"
  traceback := none
  stdout := none
  stderr := none

/-- The report of a tenant that is skipped. -/
def skippedRun (t : Tenant) : TenantRun where
  tenant := t.pk
  label := t.label
  status := .skipped
  milliseconds := none
  error := none
  traceback := none
  stdout := none
  stderr := none

/-! ## The command -/

/-- An invocation that is not refused, with the tenants that it lists. -/
structure Command where
  name : String
  tenants : List Tenant
  parallel : ℕ
  failFast : Bool
  json : Bool

/-- No tenant is listed twice. A filter over a to-many relation lists one once for each match. -/
def Command.Distinct (c : Command) : Prop := (c.tenants.map Tenant.pk).Nodup

/-- How the command raises. -/
inductive Raised
  | commandError (message : String)
  | brokenProcessPool (why : String)
  | interrupted (exception : String)
deriving DecidableEq

/-- What a finished command leaves: its reports in order, the positions of the tenants whose
command started, the reports of their own runs, and what it raises. -/
structure Outcome where
  runs : List TenantRun
  started : List ℕ
  own : ℕ → Option TenantRun
  raised : Option Raised

/-- The failures among the reports. -/
def failures (runs : List TenantRun) : List TenantRun := runs.filter fun run => run.status = .failed

/-- `_summarize`. -/
def summarize (name : String) (runs : List TenantRun) : Option Raised :=
  if failures runs = [] then none
  else some (.commandError (s!"{name} failed for {(failures runs).length} of {runs.length} tenant(s): " ++
    ", ".intercalate ((failures runs).map fun run => s!"{run.label} (pk={Pk.show run.tenant})")))

/-! ## In this process -/

/-- What the loop leaves: the reports, the positions that were run, and what ended it early. -/
structure Serial where
  runs : List TenantRun
  started : List ℕ
  interrupted : Option String

/-- The loop of `_run_serially`. -/
def serialLoop (c : Command) (commands : ℕ → Attempt) : ℕ → Bool → List Tenant → Serial
  | _, _, [] => ⟨[], [], none⟩
  | i, true, t :: ts =>
    let rest := serialLoop c commands (i + 1) true ts
    { rest with runs := skippedRun t :: rest.runs }
  | i, false, t :: ts =>
    match commands i with
    | .interrupted exception => ⟨[], [i], some exception⟩
    | .ran r =>
      let run := runForTenant t c.json r
      let rest := serialLoop c commands (i + 1) (run.status = .failed && c.failFast) ts
      ⟨run :: rest.runs, i :: rest.started, rest.interrupted⟩

/-- The report of an attempt. -/
def Attempt.report (t : Tenant) (capture : Bool) : Attempt → Option TenantRun
  | .ran r => some (runForTenant t capture r)
  | .interrupted _ => none

/-- `handle` with one worker; `commands` are the attempts that there would be. -/
def handleSerially (c : Command) (commands : ℕ → Attempt) : Outcome :=
  let result := serialLoop c commands 0 false c.tenants
  { runs := result.runs
    started := result.started
    own := fun i => if i ∈ result.started then c.tenants[i]?.bind fun t => (commands i).report t c.json else none
    raised :=
      match result.interrupted with
      | some exception => some (.interrupted exception)
      | none => summarize c.name result.runs }

/-! ## In workers -/

/-- A future of the pool. It is running once a worker may take it. -/
inductive Future
  | pending
  | running
  | finished (r : CommandRun)
  | broken (why : String)
  | cancelled
deriving DecidableEq

def Future.done : Future → Bool
  | .pending => false
  | .running => false
  | _ => true

/-- `Future.cancel`. -/
def Future.cancel : Future → Future
  | .pending => .cancelled
  | f => f

/-- A future, and its tenant. -/
structure Slot where
  tenant : Tenant
  future : Future
deriving DecidableEq

/-- What the loop over the futures reports, unless the future is cancelled. -/
def Slot.report (s : Slot) : Option TenantRun :=
  match s.future with
  | .finished r => some (runForTenant s.tenant true r)
  | .broken why => some (brokenRun s.tenant why)
  | _ => none

/-- What the last sweep reports. -/
def Slot.sweep (s : Slot) : Option TenantRun := if s.future = .cancelled then some (skippedRun s.tenant) else none

/-- Where the main process is. -/
inductive Main
  | submitting
  | waiting
  | cancelling (next : ℕ)
  | sweeping (next : ℕ)
  | finished
  | crashed (why : String)
deriving DecidableEq

/-- The main process, the futures in order, and why the pool is broken, if it is. `yielded`
are the futures that `as_completed` gave. -/
structure State where
  slots : List Slot
  started : List ℕ
  pool : Option String
  main : Main
  yielded : List ℕ
  stopped : Bool
  runs : List TenantRun
deriving DecidableEq

inductive Event
  /-- The next `submit`, or the end of them. -/
  | submit
  /-- `as_completed` gives this future. -/
  | yield (i : ℕ)
  /-- `as_completed` ends. -/
  | exhaust
  /-- The next `cancel`, or the end of them. -/
  | cancel
  /-- The next future of the sweep, or the end of it. -/
  | sweep
  /-- A worker takes this future, and its command starts. -/
  | start (i : ℕ)
  /-- Its command ends. -/
  | finish (i : ℕ) (r : CommandRun)
  /-- A worker dies, or fails to start. -/
  | break (why : String)
  /-- The broken pool gives up this future. -/
  | fail (i : ℕ)
deriving DecidableEq

/-- Where `handle` starts: without tenants there is nothing to run. -/
def State.initial (c : Command) : State :=
  ⟨[], [], none, if c.tenants = [] then .finished else .submitting, [], false, []⟩

/-- Change a future. -/
def State.setFuture (s : State) (i : ℕ) (slot : Slot) (f : Future) : State :=
  { s with slots := s.slots.set i { slot with future := f } }

/-- `pool.submit`: a broken pool raises. -/
def submit (c : Command) (s : State) : State :=
  match c.tenants[s.slots.length]? with
  | none => { s with main := .waiting }
  | some t =>
    match s.pool with
    | none => { s with slots := s.slots ++ [⟨t, .pending⟩] }
    | some why => { s with main := .crashed why }

/-- The body of the loop over the futures. -/
def onYield (c : Command) (i : ℕ) (slot : Slot) (s : State) : State :=
  match slot.report with
  | none => { s with yielded := s.yielded ++ [i] }
  | some run =>
    if run.status = .failed && c.failFast && !s.stopped then
      { s with yielded := s.yielded ++ [i], runs := s.runs ++ [run], stopped := true, main := .cancelling 0 }
    else { s with yielded := s.yielded ++ [i], runs := s.runs ++ [run] }

/-- One step; an event that cannot happen changes nothing. -/
def step (c : Command) (s : State) : Event → State
  | .submit => if s.main = .submitting then submit c s else s
  | .yield i =>
    match s.slots[i]? with
    | some slot =>
      if s.main = .waiting ∧ i ∉ s.yielded ∧ slot.future.done = true then onYield c i slot s else s
    | none => s
  | .exhaust =>
    if s.main = .waiting ∧ s.yielded.length = s.slots.length then { s with main := .sweeping 0 } else s
  | .cancel =>
    match s.main with
    | .cancelling i =>
      match s.slots[i]? with
      | some slot => { s.setFuture i slot slot.future.cancel with main := .cancelling (i + 1) }
      | none => { s with main := .waiting }
    | _ => s
  | .sweep =>
    match s.main with
    | .sweeping i =>
      match s.slots[i]? with
      | some slot => { s with runs := s.runs ++ slot.sweep.toList, main := .sweeping (i + 1) }
      | none => { s with main := .finished }
    | _ => s
  | .start i =>
    match s.slots[i]? with
    | some slot =>
      if s.pool = none ∧ slot.future = .pending then { s.setFuture i slot .running with started := s.started ++ [i] }
      else s
    | none => s
  | .finish i r =>
    match s.slots[i]? with
    | some slot => if s.pool = none ∧ slot.future = .running then s.setFuture i slot (.finished r) else s
    | none => s
  | .break why => if s.pool = none then { s with pool := some why } else s
  | .fail i =>
    match s.slots[i]?, s.pool with
    | some slot, some why => if slot.future.done = false then s.setFuture i slot (.broken why) else s
    | _, _ => s

/-- The command has come to its end. -/
def State.Ended (s : State) : Prop := s.main = .finished ∨ ∃ why, s.main = .crashed why

/-- What a command in workers leaves at its end. -/
def State.outcome (c : Command) (s : State) : Outcome where
  runs := s.runs
  started := s.started
  own i := s.slots[i]?.bind Slot.report
  raised :=
    match s.main with
    | .crashed why => some (.brokenProcessPool why)
    | _ => summarize c.name s.runs

/-! ## What the command promises -/

/-- **Every tenant is reported once**, with its own outcome. -/
structure Reported (c : Command) (o : Outcome) : Prop where
  listed : ∀ run ∈ o.runs, run.of ∈ c.tenants
  once : ∀ t ∈ c.tenants, (o.runs.map TenantRun.tenant).count t.pk = 1
  skipped : ∀ x run y, o.runs = x ++ run :: y → run.status = .skipped →
    c.failFast = true ∧ (∃ run' ∈ x, run'.status = .failed) ∧ ∀ i ∈ o.started, c.tenants[i]? ≠ some run.of
  own : ∀ i ∈ o.started, ∃ run ∈ o.runs, o.own i = some run ∧ c.tenants[i]? = some run.of
  serial : c.parallel = 1 → c.failFast = true → ∀ i ∈ o.started, ∀ j ∈ o.started, j < i →
    ∀ run, o.own j = some run → run.status ≠ .failed
  raises : o.raised.isSome = true ↔ ∃ run ∈ o.runs, run.status = .failed

/-- No command is interrupted, unless an earlier failure stops the run before it. -/
def Uninterrupted (c : Command) (commands : ℕ → Attempt) : Prop :=
  ∀ i < c.tenants.length, ∀ exception, commands i = .interrupted exception →
    c.failFast = true ∧ ∃ j < i, (commands j).failed = true

/-- A tenant is submitted to a pool that is whole. -/
def PoolWhole (c : Command) (s : State) (e : Event) : Prop :=
  e = .submit → s.main = .submitting → s.slots.length < c.tenants.length → s.pool = none

/-- How the command settles, in this process and in workers, where every run comes to an end:
it reports every tenant once exactly if none is listed twice and no command is interrupted,
or the pool was whole at each submission. -/
structure Settles (c : Command) : Prop where
  serially : c.parallel = 1 → ∀ commands,
    (Reported c (handleSerially c commands) ↔ c.Distinct ∧ Uninterrupted c commands)
  ends : c.parallel ≠ 1 → ∀ es, ∃ es', (run (step c) (.initial c) (es ++ es')).Ended
  bounded : c.parallel ≠ 1 → ∃ bound, ∀ es, Along (step c) (fun s e => step c s e ≠ s) (.initial c) es → es.length ≤ bound
  exactly : c.parallel ≠ 1 → ∀ es, (run (step c) (.initial c) es).Ended →
    (Reported c ((run (step c) (.initial c) es).outcome c) ↔
      c.Distinct ∧ Along (step c) (PoolWhole c) (.initial c) es)

end ForAllTenants

end RlsTenants
