import RlsTenants.Spec.Holder

/-!
# Copies of a context

Tasks, `sync_to_async` calls and `async_to_sync` calls each run in a copy of the
`Context` they were made in. A hop (one of the calls) suspends its caller until it
returns or is cancelled; then `asgiref` copies each variable of the hop's map into the
caller's where the two differ (`Store.copyInto`). A function whose hop was cancelled
runs on, and hands nothing back any more.

A step that is not possible (a suspended copy acting, a token used twice) changes
nothing.
-/

namespace RlsTenants

open ContextVar Effect

/-- How a copy is made. -/
inductive Fork
  | task
  | syncToAsync
  | asyncToSync
deriving DecidableEq

/-- A copy of a `Context`: its map, who gets its values back, and the hop it awaits. -/
structure Copy where
  vars : Vars
  caller : Option ℕ
  awaits : Option ℕ
  returned : Bool
deriving DecidableEq

/-- What a token is for: a block, `process_request`'s context, or a request's hold. -/
inductive Purpose
  | block
  | processRequest
  | hold
deriving DecidableEq

/-- A token handed out, and whether its block, context or hold has ended. -/
structure Issued where
  purpose : Purpose
  token : GucsToken
  done : Bool
deriving DecidableEq

/-- Every copy, what they share, and the tokens handed out, in order. -/
structure Copies where
  copies : List Copy
  store : Store
  issued : List Issued
deriving DecidableEq

/-- What can happen next. The first number of a step is the copy that acts, except for
`exit` and `release`, which run in the copy that entered or held (`k` is the token),
and for `comesBack`, which names the hop. -/
inductive HopStep
  | fork (i : ℕ) (fork : Fork)
  | enter (i : ℕ) (values : Option ContextGucs)
  | exit (k : ℕ)
  | processRequest (i : ℕ) (values : ContextGucs)
  | cleanUp (i : ℕ) (k : ℕ)
  | hold (i : ℕ)
  | release (k : ℕ)
  | comesBack (h : ℕ) (cancelled : Bool)
deriving DecidableEq

/-- Copy each variable of `src` into `dest` where `dest_value != src_value`. -/
def Store.copyInto (s : Store) (src dest : Vars) : Vars where
  tenantId := if dest.tenantId ≠ src.tenantId then src.tenantId else dest.tenantId
  active := if dest.active ≠ src.active then src.active else dest.active
  live := if s.pyNe dest.live src.live then src.live else dest.live

namespace Copies

variable (w : Copies)

/-- The copy can act: it is there, has not returned and awaits nothing. -/
def Runs (i : ℕ) : Prop := ∃ c, w.copies[i]? = some c ∧ c.awaits = none ∧ c.returned = false

instance (i : ℕ) : Decidable (w.Runs i) :=
  match h : w.copies[i]? with
  | none => .isFalse (by rintro ⟨c, hc, -⟩; simp [h] at hc)
  | some c =>
    if hc : c.awaits = none ∧ c.returned = false then .isTrue ⟨c, h, hc.1, hc.2⟩
    else .isFalse (by rintro ⟨c', hc', h1⟩; rw [h] at hc'; cases hc'; exact hc h1)

/-- What copy `i` sees. -/
def scope (i : ℕ) : Scope := ⟨i, ((w.copies[i]?).map (·.vars)).getD Vars.init, w.store⟩

/-- What copy `i` sees becomes `s`. -/
def putScope (i : ℕ) (s : Scope) : Copies :=
  { w with copies := w.copies.modify i fun c => { c with vars := s.vars }, store := s.store }

/-- The holder that is current in copy `i`. -/
def live (i : ℕ) : Option ℕ := (w.scope i).vars.live

/-- The values of the context that is active in copy `i`. -/
def contextGucs (i : ℕ) : Option ContextGucs := (w.scope i).contextGucs

/-- A token is handed out in copy `i`. -/
def issue (i : ℕ) (purpose : Purpose) (entered : GucsToken × Scope) : Copies :=
  { w.putScope i entered.2 with issued := w.issued ++ [⟨purpose, entered.1, false⟩] }

/-- The token `k` is used in copy `i`. -/
def use (i k : ℕ) (s : Scope) : Copies :=
  { w.putScope i s with issued := w.issued.modify k fun o => { o with done := true } }

/-- Make a copy of copy `i`, and suspend `i` if it is a hop. A coroutine that
`async_to_sync` starts on a thread of its own begins without values. -/
def forkFrom (i : ℕ) (f : Fork) : Copies :=
  let vars := (w.scope i).vars
  let hop := w.copies.length
  match f with
  | .task => { w with copies := w.copies ++ [⟨vars, none, none, false⟩] }
  | .syncToAsync =>
    { w with copies :=
      (w.copies.modify i fun c => { c with awaits := some hop }) ++ [⟨vars, some i, none, false⟩] }
  | .asyncToSync =>
    { w with copies :=
      (w.copies.modify i fun c => { c with awaits := some hop }) ++
        [⟨w.store.copyInto vars Vars.init, some i, none, false⟩] }

/-- The hop's values are copied into its caller, which goes on. -/
def handBack (h c : ℕ) (cancelled : Bool) : Copies :=
  let resumed := w.copies.modify c fun x =>
    { x with vars := w.store.copyInto (w.scope h).vars x.vars, awaits := none }
  { w with copies := resumed.modify h fun x => { x with returned := !cancelled } }

def step (w : Copies) : HopStep → Copies
  | .fork i f => if w.Runs i then w.forkFrom i f else w
  | .enter i values =>
    if w.Runs i then w.issue i .block ((w.scope i).setContextGucs values true) else w
  | .processRequest i values =>
    if w.Runs i then w.issue i .processRequest ((w.scope i).setContextGucs (some values) false) else w
  | .hold i => if w.Runs i then w.issue i .hold (w.scope i).holdContextGucs else w
  | .exit k =>
    match w.issued[k]? with
    | some ⟨.block, t, false⟩ =>
      let i := t.token.context
      if w.Runs i then w.use i k (Scope.resetContextGucs t (w.scope i)).2 else w
    | _ => w
  | .cleanUp i k =>
    match w.issued[k]? with
    | some ⟨.processRequest, t, false⟩ =>
      -- a token of another `Context` raises, which the clean-up suppresses
      if w.Runs i then w.use i k (Scope.resetContextGucs t (w.scope i)).2 else w
    | _ => w
  | .release k =>
    match w.issued[k]? with
    | some ⟨.hold, t, false⟩ =>
      let i := t.token.context
      if w.Runs i then w.use i k (Scope.releaseContextGucs t (w.scope i)).2 else w
    | _ => w
  | .comesBack h cancelled =>
    match w.copies[h]? with
    | some ⟨_, some c, awaits, false⟩ =>
      -- a function returns once it awaits nothing; it can be cancelled at any moment
      if (w.copies[c]?).any (·.awaits = some h) ∧ (cancelled ∨ awaits = none) then
        w.handBack h c cancelled
      else w
    | _ => w

/-- `n` threads or event loops without any context. -/
def start (n : ℕ) : Copies := ⟨List.replicate n ⟨Vars.init, none, none, false⟩, ⟨[], ⟨0, []⟩⟩, []⟩

end Copies

end RlsTenants
