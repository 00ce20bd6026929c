import Mathlib.Logic.Function.Basic
import RlsTenants.Lib.Effect
import RlsTenants.Lib.Run
import RlsTenants.Spec.Tracker

/-!
# Tenant selection

`tenants/selection.py`, and the part of `tenants/middleware.py` that resolves the tenant
of a request: users who belong to several tenants select one, by a header or for their
session.

The tenant model's primary key is a parameter (`TenantPk`). Django's `login()` and
`logout()`, changed memberships and the requests themselves are the steps of a `World`.
-/

namespace RlsTenants

open Effect Comp Run

/-! ## Keys of the tenant model -/

/-- A value given for a tenant: `None`, a key, or a text. -/
inductive Given (κ : Type)
  | none
  | key (k : κ)
  | text (s : String)
deriving DecidableEq

/-- The errors of `to_python` for a value that is no key. -/
inductive PkError
  | validationError
  | typeError
  | valueError
deriving DecidableEq

/-- The primary key field of the tenant model: its `to_python`, and `str` of its values. -/
structure TenantPk (κ : Type) where
  toPython : Given κ → Except PkError (Option κ)
  str : κ → String
  toPython_str : ∀ k, toPython (.text (str k)) = .ok (some k)

variable {κ : Type} [DecidableEq κ] {P : TenantPk κ}

/-- `str()` of a value. -/
def Given.toStr (P : TenantPk κ) : Given κ → String
  | none => "None"
  | key k => P.str k
  | text s => s

/-! ## Users -/

/-- The tenants of a user: whether the user has `rls_tenant_ids`, and what the properties
return. They are ids of tenants. -/
structure Membership (P : TenantPk κ) where
  isTenantAdmin : Bool
  multiTenant : Bool
  rlsTenantId : Given κ
  rlsTenantIds : List (Given κ)
  default_ok : rlsTenantId ≠ .none → (P.toPython rlsTenantId).isOk
  ids_ok : ∀ v ∈ rlsTenantIds, (P.toPython v).isOk

/-- A user: what `login()` stores of one, and the tenants. `AnonymousUser` has no key. -/
structure User (P : TenantPk κ) where
  pk : Option String
  isAuthenticated : Bool
  membership : Membership P

/-- Whether the user selects a tenant per request (`_selects_tenants`). -/
def User.selectsTenants (u : User P) : Bool := u.membership.multiTenant && !u.membership.isTenantAdmin

/-- The default tenant's key, if there is a default. -/
def Membership.defaultPk (m : Membership P) : Except PkError (Option κ) :=
  if m.rlsTenantId = .none then pure none else P.toPython m.rlsTenantId

/-- The tenants a user may select (`_selectable`). -/
def Membership.selectable (m : Membership P) : Except PkError (List κ) := do
  let ids ← m.rlsTenantIds.mapM P.toPython
  let default ← m.defaultPk
  pure ((ids ++ [default]).filterMap id)

/-- The value as a key, if the user may select that tenant (`_may_select`). -/
def Membership.maySelect (m : Membership P) (value : Given κ) : Except PkError (Option κ) :=
  match P.toPython value with
  | .error _ => pure none
  | .ok none => pure none
  | .ok (some tenantId) => do
    if tenantId ∈ (← m.selectable) then pure (some tenantId) else pure none

/-! ## Requests -/

/-- `RLS_TENANTS["TENANT_HEADER"]` and `RLS_TENANTS["TENANT_SESSION_KEY"]`. -/
structure SelectionConf where
  tenantHeader : Option String
  tenantSessionKey : Option String

/-- A session: the user it is logged in as, and the selection. -/
structure Session where
  userId : Option String
  selection : Option String
deriving DecidableEq

/-- What a request has: its session, and the header that its response depends on. -/
structure RequestState where
  session : Option Session
  varyOn : Option String
deriving DecidableEq

/-- Where a selection came from. -/
inductive Via
  | header
  | session
  | query
  | switch
deriving DecidableEq

def notSelectableMessage : String := "The selected tenant is not one you can access."

def notSessionUserMessage : String :=
  "A tenant selection is stored in the session of a logged-in user; this request is authenticated otherwise. " ++
   "Select the tenant with the RLS_TENANTS['TENANT_HEADER'] header instead."

/-- A client's text is cut to 64 characters in an audit record (`_shown`). -/
def Given.shown : Given κ → Given κ
  | text s => .text (if 64 < s.length then String.ofList (s.toList.take 64) ++ "..." else s)
  | v => v

/-- The `context.denied` record of a refused selection. -/
structure Denied (κ : Type) where
  source : String
  reason : String
  userId : Option String
  selected : Given κ
  via : Via
deriving DecidableEq

/-- The `tenant.switched` record. -/
structure Switched (κ : Type) where
  source : String
  tenantId : Option κ
  admin : Bool
  userId : Option String
  previous : Option String
deriving DecidableEq

/-- Why a request ends: a refused selection, a user without a tenant, a setting, or a
membership that is no key. -/
inductive RequestError (κ : Type)
  | permissionDenied (message : String) (record : Denied κ)
  | noTenantContext
  | configuration (message : String)
  | primaryKey (error : PkError)
deriving DecidableEq

abbrev Req (κ α : Type) : Type := Comp RequestState (RequestError κ) α

/-- Raise an error of the primary key field. -/
def liftPk {α : Type} : Except PkError α → Req κ α
  | .ok a => pure a
  | .error e => raise (.primaryKey e)

/-- Refuse a selection (`_refuse`). -/
def refuse {α : Type} (user : Option (User P)) (value : Given κ) (source : String) (via : Via)
    (message : String) : Req κ α :=
  raise (.permissionDenied message ⟨source, "tenant_not_selectable", user.bind (·.pk), value.shown, via⟩)

/-- Whether the session is logged in as the user (`_is_session_of`). -/
def Session.isOf (s : Session) (u : User P) : Bool := s.userId.isSome && s.userId = u.pk

/-- Change the request's session. -/
def modifySession (f : Session → Session) : Req κ Unit := modify fun r => { r with session := r.session.map f }

/-- The session's selection for the user, else `rls_tenant_id`. -/
def sessionTenantId (conf : SelectionConf) (user : User P) (source : String) : Req κ (Given κ) := do
  match conf.tenantSessionKey, ← reads (·.session) with
  | some _, some session =>
    match session.selection with
    | some raw =>
      if session.isOf user then
        match ← liftPk (user.membership.maySelect (.text raw)) with
        | none => do
          modifySession fun s => { s with selection := none }
          refuse (some user) (.text raw) source .session notSelectableMessage
        | some tenantId => pure (.key tenantId)
      else pure user.membership.rlsTenantId
    | none => pure user.membership.rlsTenantId
  | _, _ => pure user.membership.rlsTenantId

/-- The tenant the request of a user who selects tenants runs in (`_request_tenant_id`). -/
def requestTenantId (conf : SelectionConf) (headers : String → Option String) (user : User P) (source : String) :
    Req κ (Given κ) := do
  match conf.tenantHeader with
  | some header =>
    modify fun r => { r with varyOn := some header }
    match headers header with
    | some raw =>
      match ← liftPk (user.membership.maySelect (.text raw)) with
      | none => refuse (some user) (.text raw) source .header notSelectableMessage
      | some tenantId => pure (.key tenantId)
    | none => sessionTenantId conf user source
  | none => sessionTenantId conf user source

/-- The session, for a selection to be stored in (`_selection_session`). -/
def selectionSession (conf : SelectionConf) : Req κ Session := do
  match conf.tenantSessionKey with
  | none =>
    raise (.configuration ("Tenant selection in the session is turned off (RLS_TENANTS['TENANT_SESSION_KEY'] " ++
      "is None). Set it to a session key, e.g. 'rls_tenant', or select the tenant with " ++
      "the RLS_TENANTS['TENANT_HEADER'] header."))
  | some _ =>
    match ← reads (·.session) with
    | none =>
      raise (.configuration ("The request has no session. Add " ++
        "'django.contrib.sessions.middleware.SessionMiddleware' to MIDDLEWARE to store " ++
        "a tenant selection."))
    | some session => pure session

/-- Store a selection in the session (`_switch`). -/
def switchTenant (conf : SelectionConf) (user : Option (User P)) (value : Given κ) (source : String) (via : Via) :
    Req κ (κ × Switched κ) := do
  let session ← selectionSession conf
  match user with
  | none => refuse user value source via notSelectableMessage
  | some u =>
    if !u.isAuthenticated || !u.selectsTenants then
      refuse user value source via notSelectableMessage
    else if !session.isOf u then
      refuse user value source via notSessionUserMessage
    else
      match ← liftPk (u.membership.maySelect value) with
      | none => refuse user value source via notSelectableMessage
      | some tenantId => do
        modifySession fun s => { s with selection := some (P.str tenantId) }
        pure (tenantId, ⟨source, some tenantId, false, u.pk, session.selection⟩)

/-- Remove the session's selection (`_clear`). -/
def clearSelection (conf : SelectionConf) (user : Option (User P)) (source : String) :
    Req κ (Option (Switched κ)) := do
  let session ← selectionSession conf
  match user with
  | none => pure none
  | some u =>
    if !u.isAuthenticated || !session.isOf u then pure none
    else
      match session.selection with
      | none => pure none
      | some previous => do
        modifySession fun s => { s with selection := none }
        pure (some ⟨source, none, false, u.pk, some previous⟩)

/-! ## The middleware -/

/-- The tenant of the request of a user who selects tenants (`_member_of`). -/
def memberOf (conf : SelectionConf) (headers : String → Option String) (user : User P) :
    Req κ (Option (Given κ)) :=
  if user.selectsTenants then some <$> requestTenantId conf headers user "middleware" else pure none

/-- The GUC values of the request's user (`_resolve_user_guc_vars`). -/
def resolveUserGucVars (user : User P) (tenantId : Given κ) : Req κ ContextGucs :=
  if user.membership.isTenantAdmin then pure adminGucs
  else
    let tenantId := if tenantId = .none then user.membership.rlsTenantId else tenantId
    if tenantId = .none then raise .noTenantContext else pure (.forTenant (tenantId.toStr P))

/-- What the middleware sets for a request: the auto-scope tenant and the GUC values, or
nothing (`process_request` and `_enter_request_gucs` up to the GUCs, `_scope_tenant_id`). -/
def enterRequest (conf : SelectionConf) (headers : String → Option String) (user : User P) :
    Req κ (Option (Given κ × ContextGucs)) := do
  if !user.isAuthenticated then pure none
  else
    match ← memberOf conf headers user with
    | some .none => pure none
    | some tenantId => do
      let gucs ← resolveUserGucVars user tenantId
      pure (some (tenantId, gucs))
    | none => do
      let gucs ← resolveUserGucVars user .none
      pure (some (if user.membership.isTenantAdmin then .none else user.membership.rlsTenantId, gucs))

/-! ## A session, and its requests -/

/-- The users, and the session they share. -/
structure World (P : TenantPk κ) (υ : Type) where
  users : υ → User P
  session : Session

/-- What happens. A request is `attached` if it brings the session: a token client may
not. `rehashed` says that the session's hash is no longer the user's. -/
inductive SelectionStep (P : TenantPk κ) (υ : Type)
  | request (user : υ) (headers : String → Option String) (attached : Bool) (source : String)
  | switch (user : Option υ) (value : Given κ) (attached : Bool) (source : String) (via : Via)
  | clear (user : Option υ) (attached : Bool) (source : String)
  | login (user : υ) (rehashed : Bool)
  | logout
  | change (user : υ) (membership : Membership P)

variable {υ : Type}

/-- What a request starts with. -/
def World.requestState (w : World P υ) (attached : Bool) : RequestState :=
  ⟨if attached then some w.session else none, none⟩

/-- Run the code of a request. -/
def World.serve {α : Type} (w : World P υ) (attached : Bool) (m : Req κ α) :
    Except (RequestError κ) α × World P υ :=
  let (result, r) := m (w.requestState attached)
  (result, { w with session := r.session.getD w.session })

/-- Resolve the tenant of a request. -/
def World.request (conf : SelectionConf) (w : World P υ) (user : υ) (headers : String → Option String)
    (attached : Bool) (source : String) : Except (RequestError κ) (Given κ) × World P υ :=
  w.serve attached (requestTenantId conf headers (w.users user) source)

/-- A call of `switch_tenant()`, or of the admin's switcher. -/
def World.switch (conf : SelectionConf) (w : World P υ) (user : Option υ) (value : Given κ) (attached : Bool)
    (source : String) (via : Via) : Except (RequestError κ) (κ × Switched κ) × World P υ :=
  w.serve attached (switchTenant conf (user.map w.users) value source via)

/-- A call of `clear_tenant_selection()`, or of the admin's switcher. -/
def World.clear (conf : SelectionConf) (w : World P υ) (user : Option υ) (attached : Bool) (source : String) :
    Except (RequestError κ) (Option (Switched κ)) × World P υ :=
  w.serve attached (clearSelection conf (user.map w.users) source)

/-- Django's `login()` keeps the session of the same user, and one of no user; it flushes
any other, and one whose hash is not the user's. -/
def Session.login (s : Session) (pk : Option String) (rehashed : Bool) : Session :=
  if s.userId = none then { s with userId := pk }
  else if s.userId = pk ∧ rehashed = false then s
  else ⟨pk, none⟩

/-- The world after a step. Only users who select tenants have their request resolved. -/
def SelectionStep.step [DecidableEq υ] (conf : SelectionConf) (w : World P υ) : SelectionStep P υ → World P υ
  | request user headers attached source =>
    if (w.users user).selectsTenants then (w.request conf user headers attached source).2 else w
  | switch user value attached source via => (w.switch conf user value attached source via).2
  | clear user attached source => (w.clear conf user attached source).2
  | login user rehashed => { w with session := w.session.login (w.users user).pk rehashed }
  | logout => { w with session := ⟨none, none⟩ }
  | change user membership =>
    { w with users := Function.update w.users user { w.users user with membership := membership } }

/-- A new session. -/
def World.start (users : υ → User P) : World P υ := ⟨users, ⟨none, none⟩⟩

/-! ## What requests should run in -/

/-- The user may select the tenant: it is one of `rls_tenant_ids`, or the default. -/
def Membership.Has (m : Membership P) (k : κ) : Prop :=
  (∃ v ∈ m.rlsTenantIds, P.toPython v = .ok (some k)) ∨
    m.rlsTenantId ≠ .none ∧ P.toPython m.rlsTenantId = .ok (some k)

/-- What a request selects: by its header, else by the session, if it is the user's. -/
def selectedBy (conf : SelectionConf) (headers : String → Option String) (session : Option Session)
    (user : User P) : Option (Via × String) :=
  match conf.tenantHeader.bind headers with
  | some raw => some (.header, raw)
  | none =>
    match conf.tenantSessionKey, session with
    | some _, some s => if s.isOf user then s.selection.map fun raw => (.session, raw) else none
    | _, _ => none

/-- What holds of a request of a user who selects tenants. -/
structure SafeRequest (conf : SelectionConf) (w : World P υ) (user : υ) (headers : String → Option String)
    (attached : Bool) (source : String) : Prop where
  /-- The tenant is the user's. -/
  runs : ∀ v, (w.request conf user headers attached source).1 = .ok v →
    (∃ k, v = .key k ∧ (w.users user).membership.Has k) ∨ v = (w.users user).membership.rlsTenantId
  /-- A selection is the tenant, if it is the user's. -/
  chosen : ∀ via raw k, selectedBy conf headers (w.requestState attached).session (w.users user) = some (via, raw) →
    P.toPython (.text raw) = .ok (some k) → (w.users user).membership.Has k →
    (w.request conf user headers attached source).1 = .ok (.key k)
  /-- Any other is refused, and removed from the session. -/
  refused : ∀ via raw, selectedBy conf headers (w.requestState attached).session (w.users user) = some (via, raw) →
    (∀ k, P.toPython (.text raw) = .ok (some k) → ¬(w.users user).membership.Has k) →
    (∃ record, (w.request conf user headers attached source).1 =
      .error (.permissionDenied notSelectableMessage record)) ∧
    (via = .session → (w.request conf user headers attached source).2.session.selection = none)
  /-- The selection of another user's session counts for nothing, and stays. -/
  others : w.session.isOf (w.users user) = false →
    (w.request conf user headers attached source).2 = w ∧
    ∀ s : Session, s.isOf (w.users user) = false →
      (World.request conf { w with session := s } user headers attached source).1 =
        (w.request conf user headers attached source).1
  /-- The middleware sets the values of that tenant. -/
  enters : (w.users user).isAuthenticated = true → ∀ v, v ≠ .none →
    (w.request conf user headers attached "middleware").1 = .ok v →
    (w.serve attached (enterRequest conf headers (w.users user))).1 = .ok (some (v, .forTenant (v.toStr P)))

/-- The step ends the selection of `k`. -/
inductive SelectionStep.EndsSelection (conf : SelectionConf) (k : κ) (w : World P υ) : SelectionStep P υ → Prop
  | cleared {user : υ} {source : String} (h : w.session.isOf (w.users user) = true) :
    EndsSelection conf k w (.clear (some user) true source)
  | switched {user : Option υ} {value : Given κ} {attached : Bool} {source : String} {via : Via}
    {r : κ × Switched κ} (h : (w.switch conf user value attached source via).1 = .ok r) :
    EndsSelection conf k w (.switch user value attached source via)
  | revoked {user : υ} {headers : String → Option String} {attached : Bool} {source : String}
    (h : selectedBy conf headers (w.requestState attached).session (w.users user) = some (.session, P.str k))
    (hk : ¬(w.users user).membership.Has k) : EndsSelection conf k w (.request user headers attached source)
  | flushed {user : υ} {rehashed : Bool} (h : w.session.userId ≠ (w.users user).pk ∨ rehashed = true) :
    EndsSelection conf k w (.login user rehashed)
  | loggedOut : EndsSelection conf k w .logout

/-- A run of steps stored the selection `raw` for the user called `id`. -/
def StoredFor [DecidableEq υ] (conf : SelectionConf) (w : World P υ) (es : List (SelectionStep P υ))
    (id raw : String) : Prop :=
  ∃ es₁ es₂ user value attached source via r,
    es = es₁ ++ .switch (some user) value attached source via :: es₂ ∧
    ((run (SelectionStep.step conf) w es₁).users user).pk = some id ∧
    ((run (SelectionStep.step conf) w es₁).switch conf (some user) value attached source via).1 = .ok r ∧
    raw = P.str r.1

end RlsTenants
