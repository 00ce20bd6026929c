import RlsTenants.Spec.Session
import RlsTenants.Proof.Outside
import RlsTenants.Proof.Plain

/-!
# Every read runs under its context's values

`step_keeps`: an event keeps the record of a guarded connection right, if its statement is
read as what it is, and transaction control is not cut off after it has run
(`Event.Clear`). `reads_under_context`: so in every run of such events each command on
rows runs while the session holds the values of the context it was issued in.
`reads_under_another_context` is a run in which a savepoint's name hides it from the
reader.
-/

namespace RlsTenants

open Txn Effect Comp Run

variable {conf : Conf} {T : Option ContextGucs → Prop} {H : Name → Prop} {strict : Bool} {L : Ran → Prop}

/-- The reader does not take the statement for transaction control. Where the guard gives
statements a transaction of their own, one on rows is not taken for one that PostgreSQL
refuses there. -/
def DataStatement.Clear (env : Env) (d : DataStatement) : Prop :=
  controlsTheTransaction (parse d.object) = false ∧
    (env.conf.useLocalSet = true → env.context.isSome = true →
      refusedInATransaction (parse d.object) = true → ∀ id, d.kind ≠ .rows id)

/-- PostgreSQL ends the comment at the carriage return and runs the query; the reader sees
`COMMIT`. -/
example : controlsTheTransaction (parse (.str "-- all\rSELECT * FROM notes\nCOMMIT".toList)) = true := by
  decide +kernel

/-- The statement of the event is read as what it is, and transaction control ends as it
is told. -/
def Event.Clear (conf : Conf) : Event → Prop
  | .data context statement _ => statement.Clear ⟨conf, context⟩
  | .control _ statement fates => statement.form.Clear statement.text ∧ ∀ f ∈ fates, f.Plain
  | _ => True

theorem Inv.with_fates {c : Connection} (h : Inv T H strict L c) (fates : List Fate) :
    Inv T H strict L { c with fates := fates } := ⟨⟨h.quiet, h.raw, h.guarded, h.log⟩, h.session⟩

/-- No message of those to come is cut off after it has run. -/
def FatesPlain (c : Connection) : Prop := ∀ f ∈ c.fates, f.Plain

theorem send_fatesPlain (context : Option ContextGucs) (cs : List Command) :
    Keeps FatesPlain (send context cs) := by
  intro c h
  have htail : ∀ f ∈ c.fates.tail, f.Plain := fun f hf => h f (List.mem_of_mem_tail hf)
  unfold send
  split
  · split
    · split <;> exact htail
    · exact htail
    · exact htail
    · exact htail
  · exact h

theorem ensureConnection_fatesPlain {env : Env} : Keeps FatesPlain (ensureConnection env) :=
  Remote.ensureConnection (fun _ _ _ _ _ _ _ _ h => h) (fun _ _ _ _ h => h) send_fatesPlain

theorem FatesPlain.head {c : Connection} (h : FatesPlain c) : (c.fates.headD .runs).Plain := by
  cases hf : c.fates with
  | nil => trivial
  | cons f fs => exact h f (by rw [hf]; exact List.mem_cons_self)

theorem DataStatement.Clear.data {env : Env} {d : DataStatement} (h : d.Clear env) : Data L env d.sql where
  control := h.1
  neutral cmd hcmd := by
    rw [List.mem_singleton.1 hcmd]
    cases d.kind <;> trivial
  refused hlocal hcontext hr id hid := by
    have hne := h.2 hlocal hcontext hr id
    have hcmd : Command.rows id = d.kind.command := List.mem_singleton.1 hid
    cases hkind : d.kind with
    | rows id' =>
      rw [hkind, DataKind.command, Command.rows.injEq] at hcmd
      exact absurd (hcmd ▸ hkind) hne
    | other => rw [hkind] at hcmd; cases hcmd
    | fault => rw [hkind] at hcmd; cases hcmd

/-- The record can take the event for what it is. -/
def Event.Read (L : Ran → Prop) (conf : Conf) : Event → Prop
  | .data context statement _ => Data L ⟨conf, context⟩ statement.sql
  | .control _ statement fates => statement.form.Clear statement.text ∧ ∀ f ∈ fates, f.Plain
  | _ => True

theorem Event.Clear.read {e : Event} (h : e.Clear conf) : e.Read L conf := by
  cases e with
  | data context statement fates => exact DataStatement.Clear.data h
  | control context statement fates => exact h
  | _ => trivial

/-- **An event keeps the record right.** -/
theorem step_keeps {e : Event} {c : Connection} (h : Inv T H true L c) (he : e.Read L conf)
    (hH : ∀ context p fates, e = .control context p fates → ∀ n, p.form.command.target = some n → ¬H n)
    (hlog : ∀ context g, (T context → g = valuesOf context) → L ⟨context, g⟩) :
    Inv T H true L (e.step conf c) := by
  have h := h.with_fates e.fates
  refine Ends.inv (I := Inv T H true L) ?_
  cases e with
  | data context d fates =>
    exact (ensureConnection_ends _ h).bind_rule fun _ c' hi => guard_data_ends hi.1 he (hlog context)
  | control context p fates =>
    obtain ⟨hclear, hfates⟩ := he
    obtain ⟨st, hp, hst⟩ := p.legible hclear
    have hensure := (ensureConnection_ends ⟨conf, context⟩ h).with_inv (ensureConnection_fatesPlain _ hfates)
    refine (hensure.mono (fun _ _ h => h) fun _ _ h => h.1).bind_rule fun _ c' ⟨hi, hf⟩ => ?_
    exact guard_control_ends hi.1 hp hst (hH context p fates rfl) hf.head
  | driverEnd committed fates => exact transactionEnd_ends h fun _ => rfl
  | settle context wroteNothing cleared fates => exact (settle_keeps wroteNothing cleared).triple _ h
  | suspect under => exact (suspect_keeps under).triple _ h
  | markForRollback b => exact ⟨⟨h.quiet, h.raw, h.guarded, h.log⟩, h.session⟩
  | setAutocommit b =>
    show Inv T H true L (if _ then _ else _)
    split
    · exact ⟨⟨h.quiet, h.raw, h.guarded, h.log⟩, h.session⟩
    · exact h
  | close => exact close_ends h

theorem Unopened.inv {c : Connection} (h : Unopened c) : Inv T H strict L c :=
  .of_down ⟨h.faults, fun hl => absurd h.link hl, h.guarded, by rw [h.ran]; simp⟩ (by rw [h.link]; simp)

/-- **Guard soundness.** In every run whose statements are read as what they are, every command on rows runs while the session holds the values of its context. -/
theorem reads_under_context {c : Connection} (hc : Unopened c) {es : List Event} (hes : ∀ e ∈ es, e.Clear conf) :
    ∀ r ∈ (run (Event.step conf) c es).ran, r.seen = valuesOf r.context := by
  have hinv : Inv (fun _ => True) (fun _ => False) true (fun r => r.seen = valuesOf r.context)
      (run (Event.step conf) c es) := by
    refine run_keeps_along (P := fun _ e => e.Clear conf) (fun c e hi he => ?_) hc.inv (along_of_forall hes c)
    exact step_keeps hi he.read (fun _ _ _ _ _ _ h => h) fun _ g h => h trivial
  exact hinv.log

/-! ## Runs -/

/-- A connection to be opened by its first statement. -/
def Connection.unopened : Connection :=
  ⟨true, 0, .closed, .idle ⟨.cleared, []⟩, true, true, false, false, .init, [], [], [], [], []⟩

theorem unopened_unopened : Unopened .unopened := ⟨rfl, rfl, rfl, rfl⟩

/-- `SELECT` on rows. -/
def DataStatement.select : DataStatement := ⟨.str "SELECT 1".toList, .rows 0⟩

theorem select_clear (env : Env) : DataStatement.select.Clear env :=
  ⟨by decide +kernel, fun _ _ h => absurd h (by decide +kernel)⟩

/-- `BEGIN`. -/
def Plain.begin : Plain :=
  ⟨.begin none [], "BEGIN".toList, [], rfl, .nil, by simp, by simp [Form.ident?]⟩

/-- The name `a`. -/
def Ident.a : Ident := .unquoted 'a' [] ⟨by decide, by simp⟩

theorem short_a : byteLength Ident.a.full ≤ 63 := by decide

/-- The name `prepared`. -/
def Ident.prepared : Ident :=
  .unquoted 'p' "repared".toList ⟨by decide, List.all_eq_true.1 (by decide +kernel)⟩

/-- `SAVEPOINT i`. -/
def Plain.savepoint (i : Ident) (short : byteLength i.full ≤ 63) : Plain where
  form := .savepoint i
  first := "SAVEPOINT".toList
  rest := [([' '], i.written)]
  spelledFirst := rfl
  spelled := .cons rfl .nil
  blanks := by simp [isBlank]
  short j hj := by rw [Form.ident?, Option.some.injEq] at hj; exact hj ▸ short

/-- `ROLLBACK TO i`. -/
def Plain.rollbackTo (i : Ident) (short : byteLength i.full ≤ 63) : Plain where
  form := .rollbackTo none false i
  first := "ROLLBACK".toList
  rest := [([' '], "TO".toList), ([' '], i.written)]
  spelledFirst := rfl
  spelled := .cons rfl (.cons rfl .nil)
  blanks := by simp [isBlank]
  short j hj := by rw [Form.ident?, Option.some.injEq] at hj; exact hj ▸ short

/-- A read in a context, one in another under a savepoint, and one back in the first. -/
def savepointRun : List Event :=
  let one := some (ContextGucs.forTenant "1")
  let two := some (ContextGucs.forTenant "2")
  [.control none .begin [], .data one .select [], .control one (.savepoint .a (by decide)) [],
    .data two .select [], .control two (.rollbackTo .a (by decide)) [], .data one .select []]

theorem reads_under_context_savepoint :
    (run (Event.step ⟨false, "rls".toList⟩) .unopened savepointRun).ran.all
      (fun r => decide (r.seen = valuesOf r.context)) = true := by
  have ha : Ident.a.Clear := by simp [Ident.Clear, Ident.a, Ident.written, isSpace]
  have hprep : upper Ident.a.name ≠ "PREPARED".toList := by decide +kernel
  have hsave : upper Ident.a.written ≠ "SAVEPOINT".toList := by decide +kernel
  refine List.all_eq_true.2 fun r hr => decide_eq_true (reads_under_context unopened_unopened ?_ r hr)
  intro e he
  simp only [savepointRun, List.mem_cons, List.not_mem_nil, or_false] at he
  rcases he with rfl | rfl | rfl | rfl | rfl | rfl
  · exact ⟨trivial, by simp⟩
  · exact select_clear _
  · exact ⟨⟨by decide +kernel, ha, hprep⟩, by simp⟩
  · exact select_clear _
  · exact ⟨⟨by decide +kernel, ha, fun _ => hsave⟩, by simp⟩
  · exact select_clear _

/-- A savepoint called `prepared` is set, and gone back to, under one called `a` that is
set again over it. -/
def hiddenSavepoint : List Event :=
  let one := some (ContextGucs.forTenant "1")
  let two := some (ContextGucs.forTenant "2")
  [.control none .begin [],
    .data one .select [],
    .control one (.savepoint .a (by decide)) [],
    .control one (.savepoint .prepared (by decide +kernel)) [],
    .data two .select [],
    .control two (.savepoint .a (by decide)) [],
    .control two (.rollbackTo .prepared (by decide +kernel)) [],
    .control two (.rollbackTo .a (by decide)) [],
    .data two .select []]

/-- **A read under another context's values.** -/
theorem reads_under_another_context :
    ¬∀ (conf : Conf) (c : Connection) (es : List Event), Unopened c →
      ∀ r ∈ (run (Event.step conf) c es).ran, r.seen = valuesOf r.context := by
  intro h
  have := h ⟨false, "rls".toList⟩ .unopened hiddenSavepoint unopened_unopened
  revert this
  decide +kernel

end RlsTenants
