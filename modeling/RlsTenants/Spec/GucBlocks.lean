import RlsTenants.Lib.Txn

/-!
# Blocks of GUC values

`set_guc`, `get_guc` and `restore_guc` of `rls/guc.py`, and the blocks of `rls/context.py`
(`rls_context`, `bypass_flag`) over one connection, with Django's `transaction.atomic()`.

* `Prog` are well-nested programs of blocks, atomic blocks and exceptions.
* `Prog.exec` runs one, and reports the connection before and after each block.
-/

namespace RlsTenants

namespace GucBlocks

open Txn

/-! ## The session -/

/-- The values of the GUCs, by folded name; an unset one is empty. -/
abbrev Settings : Type := String → String

/-- PostgreSQL compares the names of GUCs without case. -/
def foldName (name : String) : String := .ofList (name.toList.map Char.toLower)

/-- Set one GUC. -/
def put (name value : String) (v : Settings) : Settings := Function.update v (foldName name) value

/-- A Django connection: the session, by savepoint number, `in_atomic_block`,
`needs_rollback`, and the next savepoint's number. -/
structure Conn where
  pg : State ℕ Settings
  inAtomicBlock : Bool
  needsRollback : Bool
  nextSid : ℕ

/-- Why a program stops: a `DatabaseError`, or another exception. -/
inductive Failure
  | database
  | other
deriving DecidableEq

/-- A write in the scope of a block: for the transaction, or for the session. -/
def writeScoped (isLocal : Bool) (f : Settings → Settings) (s : State ℕ Settings) : State ℕ Settings :=
  if isLocal then s.writeLocal f else s.write f

/-- Run a statement: Django refuses it while `needs_rollback` is set, and PostgreSQL in a
failed transaction. `fails` says that it fails on its own, which fails its transaction. -/
def Conn.execute (fails : Bool) (f : State ℕ Settings → State ℕ Settings) (c : Conn) : Option Failure × Conn :=
  if c.needsRollback ∨ c.pg.isFailed then (some .database, c)
  else if fails then (some .database, { c with pg := c.pg.fail })
  else (none, { c with pg := f c.pg })

/-! ## GUCs -/

/-- `_GUC_NAME_RE`. -/
def isGucName (name : String) : Bool :=
  match name.toList with
  | [] => false
  | c :: cs => (c.isAlpha || c = '_') && cs.all fun c => c.isAlphanum || c = '_' || c = '.'

/-- `set_guc()`. -/
def setGuc (name value : String) (isLocal fails : Bool) (c : Conn) : Option Failure × Conn :=
  if !isGucName name then (some .other, c)
  else if isLocal && !c.inAtomicBlock then (some .other, c)
  else c.execute fails (writeScoped isLocal (put name value))

/-- `get_guc()`: the value, none if it is empty. -/
def getGuc (name : String) (c : Conn) : Except Failure (Option String) :=
  if !isGucName name then .error .other
  else if c.needsRollback ∨ c.pg.isFailed then .error .database
  else .ok (if c.pg.current (foldName name) = "" then none else some (c.pg.current (foldName name)))

/-- `restore_guc()`. -/
def restoreGuc (name : String) (previous : Option String) (isLocal : Bool) (c : Conn) : Option Failure × Conn :=
  match previous with
  | some previous => setGuc name previous isLocal false c
  | none => setGuc name "" isLocal false c

/-- The loop of `restore_gucs`: while an exception propagates, a database error is
swallowed. -/
def restoreEach (isLocal excPending : Bool) : List (String × Option String) → Conn → Option Failure × Conn
  | [], c => (none, c)
  | (name, previous) :: rest, c =>
    match restoreGuc name previous isLocal c with
    | (none, c) => restoreEach isLocal excPending rest c
    | (some .database, c) => if excPending then restoreEach isLocal excPending rest c else (some .database, c)
    | (some .other, c) => (some .other, c)

/-- Restore several GUCs, with `needs_rollback` lifted meanwhile (`restore_gucs`). -/
def restoreGucs (previous : List (String × Option String)) (isLocal excPending : Bool) (c : Conn) :
    Option Failure × Conn :=
  if previous = [] then (none, c)
  else
    let (failure, c') := restoreEach isLocal excPending previous { c with needsRollback := false }
    (failure, { c' with needsRollback := c.needsRollback })

/-- `{name: get_guc(name) for name in variables}`. -/
def snapshot (c : Conn) : List String → Except Failure (List (String × Option String))
  | [] => .ok []
  | name :: names => do
    let previous ← getGuc name c
    let rest ← snapshot c names
    pure ((name, previous) :: rest)

/-- Set the variables in turn; the statement numbered `fails` fails. -/
def setEach (isLocal : Bool) : Option ℕ → List (String × String) → Conn → Option Failure × Conn
  | _, [], c => (none, c)
  | fails, (name, value) :: rest, c =>
    match setGuc name value isLocal (fails = some 0) c with
    | (none, c) => setEach isLocal (fails.map (· - 1)) rest c
    | (some failure, c) => (some failure, c)

/-! ## Django's transactions -/

/-- What `atomic.__enter__` has begun: the transaction, a savepoint, or neither. -/
inductive Atomic
  | transaction
  | savepoint (sid : ℕ)
  | nothing

/-- Give the transaction to a savepoint statement. -/
def onOpen (f : Open ℕ Settings → Option (Open ℕ Settings)) : State ℕ Settings → State ℕ Settings
  | .idle v => .idle v
  | .inTx o => .inTx ((f o).getD o)

/-- `ROLLBACK TO SAVEPOINT` and `RELEASE SAVEPOINT`. -/
def undoSavepoint (sid : ℕ) (o : Open ℕ Settings) : Option (Open ℕ Settings) :=
  (o.rollbackTo sid).bind (·.release sid)

/-- `atomic.__enter__`. -/
def atomicEnter (savepoint : Bool) (c : Conn) : Except Failure (Atomic × Conn) :=
  if !c.inAtomicBlock then
    .ok (.transaction, { c with pg := c.pg.start, inAtomicBlock := true, needsRollback := false })
  else if savepoint && !c.needsRollback then
    match c.execute false (onOpen fun o => some (o.savepoint c.nextSid)) with
    | (none, c') => .ok (.savepoint c.nextSid, { c' with nextSid := c.nextSid + 1 })
    | (some failure, _) => .error failure
  else .ok (.nothing, c)

/-- `atomic.__exit__`, after the exception of its block, if any. -/
def atomicExit (raised : Option Failure) (c : Conn) : Atomic → Option Failure × Conn
  | .transaction =>
    let c := { c with inAtomicBlock := false }
    if raised = none ∧ !c.needsRollback then (none, { c with pg := c.pg.commit })
    else (raised, { c with pg := c.pg.rollback, needsRollback := false })
  | .savepoint sid =>
    if raised = none ∧ !c.needsRollback then
      match c.execute false (onOpen fun o => o.release sid) with
      | (none, c) => (none, c)
      -- a savepoint that cannot be released is rolled back
      | (some failure, c) => (some failure, { c with pg := onOpen (undoSavepoint sid) c.pg })
    else (raised, { c with pg := onOpen (undoSavepoint sid) c.pg, needsRollback := false })
  | .nothing =>
    if raised = none ∧ !c.needsRollback then (none, c) else (raised, { c with needsRollback := true })

/-! ## Programs -/

/-- Programs. `fails` is the number of the block's set statement that fails, if any;
`setRollback` is `transaction.set_rollback()`. -/
inductive Prog
  | done
  | seq (p q : Prog)
  | rlsContext (vars : List (String × String)) (isLocal : Bool) (fails : Option ℕ) (body : Prog)
  | bypassFlag (flag : String) (isLocal fails : Bool) (body : Prog)
  | atomic (savepoint : Bool) (body : Prog)
  | raising
  | failing
  | catching (body : Prog)
  | setRollback (rollback : Bool)

/-- The connection before and after a block, and the GUCs that it sets for the session. -/
structure Report where
  session : List String
  before : Conn
  after : Conn

/-- Run a program: the exception that leaves it, the connection, and the reports. -/
def Prog.exec : Prog → Conn → Option Failure × Conn × List Report
  | done, c => (none, c, [])
  | seq p q, c =>
    match p.exec c with
    | (none, c₁, reports) =>
      let (failure, c₂, reports') := q.exec c₁
      (failure, c₂, reports ++ reports')
    | (some failure, c₁, reports) => (some failure, c₁, reports)
  | rlsContext vars isLocal fails body, c =>
    let session := if isLocal then [] else vars.map Prod.fst
    match snapshot c (vars.map Prod.fst) with
    | .error failure => (some failure, c, [⟨session, c, c⟩])
    | .ok previous =>
      let (raised, c₂, reports) :=
        match setEach isLocal fails vars c with
        | (none, c₁) => body.exec c₁
        | (some failure, c₁) => (some failure, c₁, [])
      let (failure, c₃) := restoreGucs previous isLocal raised.isSome c₂
      (failure <|> raised, c₃, reports ++ [⟨session, c, c₃⟩])
  | bypassFlag flag isLocal fails body, c =>
    let session := if isLocal then [] else [flag]
    match getGuc flag c with
    | .error failure => (some failure, c, [⟨session, c, c⟩])
    | .ok previous =>
      -- before its `try`: a flag that cannot be set is not restored
      match setGuc flag "true" isLocal fails c with
      | (some failure, c₁) => (some failure, c₁, [⟨session, c, c₁⟩])
      | (none, c₁) =>
        let (raised, c₂, reports) := body.exec c₁
        let (failure, c₃) := restoreGucs [(flag, previous)] isLocal raised.isSome c₂
        (failure <|> raised, c₃, reports ++ [⟨session, c, c₃⟩])
  | atomic savepoint body, c =>
    match atomicEnter savepoint c with
    | .error failure => (some failure, c, [⟨[], c, c⟩])
    | .ok (begun, c₁) =>
      let (raised, c₂, reports) := body.exec c₁
      let (failure, c₃) := atomicExit raised c₂ begun
      (failure, c₃, reports ++ [⟨[], c, c₃⟩])
  | raising, c => (some .other, c, [])
  | failing, c =>
    let (failure, c₁) := c.execute true id
    (failure, c₁, [])
  | catching body, c =>
    let (_, c₁, reports) := body.exec c
    (none, c₁, reports)
  | setRollback rollback, c =>
    if c.inAtomicBlock then (none, { c with needsRollback := rollback }, []) else (some .database, c, [])

/-! ## What blocks should do -/

/-- A session without a transaction. -/
def Conn.idle (v : Settings) : Conn := ⟨.idle v, false, false, 0⟩

/-- What a commit of the transaction would keep. -/
def sessionValues : State ℕ Settings → Settings
  | .idle v => v
  | .inTx o => o.level.session

/-- The block leaves the values that it found: those that statements see, in a transaction
that has not failed, and the session's, outside one. -/
structure Report.Restored (report : Report) : Prop where
  effective : report.after.pg.isFailed = false → report.after.pg.current = report.before.pg.current
  session : ∀ v, report.before.pg = .idle v → report.after.pg = .idle v

/-- No local value hides another one of the session, of the GUCs that the block sets for
the session. -/
def Report.Unhidden (report : Report) : Prop :=
  ∀ name ∈ report.session,
    report.before.pg.current (foldName name) = sessionValues report.before.pg (foldName name)

instance (report : Report) : Decidable report.Unhidden :=
  inferInstanceAs (Decidable (∀ name ∈ report.session, _ = _))

end GucBlocks

end RlsTenants
