import Mathlib.Data.List.Induction
import RlsTenants.Spec.Selection

/-!
# The tenant a request runs in

* `maySelect_cases`: the selectable tenants are the user's.
* `requestTenantId_run`: what a request is resolved to, by what it selects.
* `selection_is_safe`: over every run of requests, switches, logins and changed
  memberships, a request runs in a tenant of its user's or is refused, and a selection
  lasts until it is ended.
-/

namespace RlsTenants

open Effect Comp Run

variable {κ : Type} [DecidableEq κ] {P : TenantPk κ} {υ : Type}

/-! ## Memberships -/

omit [DecidableEq κ] in
theorem mapM_toPython {vs : List (Given κ)} (h : ∀ v ∈ vs, (P.toPython v).isOk) :
    ∃ ids, vs.mapM P.toPython = .ok ids ∧ ∀ k, some k ∈ ids ↔ ∃ v ∈ vs, P.toPython v = .ok (some k) := by
  induction vs with
  | nil => exact ⟨[], rfl, by simp⟩
  | cons v vs ih =>
    obtain ⟨ids, hids, hmem⟩ := ih fun v hv => h v (List.mem_cons_of_mem _ hv)
    have hv := h v List.mem_cons_self
    cases hp : P.toPython v with
    | error e =>
      rw [hp] at hv
      cases hv
    | ok id =>
      refine ⟨id :: ids, ?_, ?_⟩
      · rw [List.mapM_cons, hp, hids]
        rfl
      · intro k
        simp only [List.mem_cons, hmem, exists_eq_or_imp, hp, Except.ok.injEq, eq_comm (a := some k)]

theorem defaultPk_ok (m : Membership P) : ∃ d, m.defaultPk = .ok d ∧
    ∀ k, d = some k ↔ m.rlsTenantId ≠ .none ∧ P.toPython m.rlsTenantId = .ok (some k) := by
  unfold Membership.defaultPk
  by_cases hd : m.rlsTenantId = .none
  · exact ⟨none, if_pos hd, by simp [hd]⟩
  · have hok := m.default_ok hd
    rw [if_neg hd]
    cases hp : P.toPython m.rlsTenantId with
    | error e =>
      rw [hp] at hok
      cases hok
    | ok d => exact ⟨d, rfl, by simp [hd]⟩

/-- The selectable tenants are those that the user has. -/
theorem selectable_ok (m : Membership P) : ∃ ks, m.selectable = .ok ks ∧ ∀ k, k ∈ ks ↔ m.Has k := by
  obtain ⟨ids, hids, hmem⟩ := mapM_toPython m.ids_ok
  obtain ⟨d, hd, hdefault⟩ := defaultPk_ok m
  refine ⟨(ids ++ [d]).filterMap id, ?_, ?_⟩
  · unfold Membership.selectable
    rw [hids, hd]
    rfl
  · intro k
    unfold Membership.Has
    rw [← hmem, ← hdefault]
    simp [eq_comm]

/-- A value is one of the user's tenants, or it is not selectable. -/
theorem maySelect_cases (m : Membership P) (v : Given κ) :
    (∃ k, P.toPython v = .ok (some k) ∧ m.Has k ∧ m.maySelect v = .ok (some k)) ∨
      (∀ k, P.toPython v = .ok (some k) → ¬m.Has k) ∧ m.maySelect v = .ok none := by
  unfold Membership.maySelect
  cases hp : P.toPython v with
  | error e => exact .inr ⟨by simp, rfl⟩
  | ok id =>
    cases id with
    | none => exact .inr ⟨by simp, rfl⟩
    | some k =>
      obtain ⟨ks, hks, hmem⟩ := selectable_ok m
      dsimp only
      rw [hks]
      by_cases hk : k ∈ ks
      · refine .inl ⟨k, rfl, (hmem k).1 hk, ?_⟩
        exact if_pos hk
      · refine .inr ⟨?_, if_neg hk⟩
        intro k' hk' hhas
        obtain rfl : k = k' := by simpa using hk'
        exact hk ((hmem k).2 hhas)

theorem maySelect_has {m : Membership P} {v : Given κ} {k : κ} (hp : P.toPython v = .ok (some k)) (hk : m.Has k) :
    m.maySelect v = .ok (some k) := by
  rcases maySelect_cases m v with ⟨k', hp', -, h⟩ | ⟨h, -⟩
  · obtain rfl : k = k' := by simpa [hp] using hp'
    exact h
  · exact absurd hk (h k hp)

theorem maySelect_not {m : Membership P} {v : Given κ} (h : ∀ k, P.toPython v = .ok (some k) → ¬m.Has k) :
    m.maySelect v = .ok none := by
  rcases maySelect_cases m v with ⟨k, hp, hk, -⟩ | ⟨-, h'⟩
  · exact absurd hk (h k hp)
  · exact h'

/-! ## One request -/

/-- The response depends on the tenant header. -/
def RequestState.vary (conf : SelectionConf) (r : RequestState) : RequestState :=
  match conf.tenantHeader with
  | some header => { r with varyOn := some header }
  | none => r

/-- A refused selection is removed from the session it came from. -/
def RequestState.drop (via : Via) (r : RequestState) : RequestState :=
  if via = .session then { r with session := r.session.map fun s => { s with selection := none } } else r

variable {conf : SelectionConf} {headers : String → Option String} {user : User P} {source : String}

theorem sessionTenantId_run (r : RequestState) (h : conf.tenantHeader.bind headers = none) :
    sessionTenantId conf user source r =
      match selectedBy conf headers r.session user with
      | none => (.ok user.membership.rlsTenantId, r)
      | some (via, raw) =>
        match user.membership.maySelect (.text raw) with
        | .ok (some k) => (.ok (.key k), r)
        | .ok none =>
          (.error (.permissionDenied notSelectableMessage
            ⟨source, "tenant_not_selectable", user.pk, (Given.text raw).shown, via⟩), r.drop via)
        | .error e => (.error (.primaryKey e), r) := by
  unfold sessionTenantId selectedBy
  rw [h]
  cases hkey : conf.tenantSessionKey with
  | none => rfl
  | some key =>
    obtain ⟨session, varyOn⟩ := r
    cases session with
    | none => rfl
    | some s =>
      obtain ⟨userId, selection⟩ := s
      cases selection with
      | none =>
        by_cases hu : Session.isOf ⟨userId, none⟩ user = true
        · simp [hu]
        · simp [hu]
      | some raw =>
        by_cases hu : Session.isOf ⟨userId, some raw⟩ user = true
        · simp only [bind_run, reads_run, hu, if_true, Option.map_some]
          cases user.membership.maySelect (.text raw) with
          | error e => rfl
          | ok id => cases id <;> rfl
        · simp [hu]

/-- **One request.** It runs in the user's default tenant, in the one it selects, or not
at all. -/
theorem requestTenantId_run (conf : SelectionConf) (headers : String → Option String) (user : User P)
    (source : String) (r : RequestState) : requestTenantId conf headers user source r =
    match selectedBy conf headers r.session user with
    | none => (.ok user.membership.rlsTenantId, r.vary conf)
    | some (via, raw) =>
      match user.membership.maySelect (.text raw) with
      | .ok (some k) => (.ok (.key k), r.vary conf)
      | .ok none =>
        (.error (.permissionDenied notSelectableMessage
          ⟨source, "tenant_not_selectable", user.pk, (Given.text raw).shown, via⟩), (r.vary conf).drop via)
      | .error e => (.error (.primaryKey e), r.vary conf) := by
  unfold requestTenantId RequestState.vary
  cases hconf : conf.tenantHeader with
  | none =>
    have hbind : conf.tenantHeader.bind headers = none := by rw [hconf]; rfl
    exact sessionTenantId_run r hbind
  | some header =>
    cases hraw : headers header with
    | none =>
      have hbind : conf.tenantHeader.bind headers = none := by rw [hconf]; exact hraw
      simp only [bind_run, modify_run, hraw]
      rw [sessionTenantId_run _ hbind]
    | some raw =>
      have hsel : selectedBy conf headers r.session user = some (.header, raw) := by
        unfold selectedBy
        rw [hconf, Option.bind_some, hraw]
      simp only [bind_run, modify_run, hraw, hsel]
      cases user.membership.maySelect (.text raw) with
      | error e => rfl
      | ok id => cases id <;> rfl

theorem vary_session (r : RequestState) : (r.vary conf).session = r.session := by
  unfold RequestState.vary
  split <;> rfl

omit [DecidableEq κ] in
theorem selectedBy_session {session : Option Session} {raw : String}
    (h : selectedBy conf headers session user = some (.session, raw)) :
    conf.tenantHeader.bind headers = none ∧ conf.tenantSessionKey.isSome ∧
      ∃ s, session = some s ∧ s.isOf user = true ∧ s.selection = some raw := by
  unfold selectedBy at h
  cases hb : conf.tenantHeader.bind headers with
  | some raw' => simp [hb] at h
  | none =>
    rw [hb] at h
    cases hk : conf.tenantSessionKey with
    | none => simp [hk] at h
    | some key =>
      cases session with
      | none => simp [hk] at h
      | some s =>
        rw [hk] at h
        dsimp only at h
        split at h
        · rename_i hs
          obtain ⟨raw', hraw, heq⟩ := Option.map_eq_some_iff.1 h
          obtain rfl : raw' = raw := (Prod.mk.inj heq).2
          exact ⟨rfl, rfl, s, rfl, hs, hraw⟩
        · cases h

omit [DecidableEq κ] in
/-- A request whose session is another user's selects what it would without the session. -/
theorem selectedBy_other {s : Session} (h : s.isOf user = false) :
    selectedBy conf headers (some s) user = selectedBy conf headers none user := by
  unfold selectedBy
  cases conf.tenantHeader.bind headers with
  | some raw => rfl
  | none => cases conf.tenantSessionKey <;> simp [h]

/-! ## One request of a session -/

section Request

variable {w : World P υ} {u : υ} {attached : Bool}

omit [DecidableEq κ] in
theorem requestState_session (w : World P υ) (attached : Bool) :
    ((w.requestState attached).session).getD w.session = w.session := by
  cases attached <;> rfl

omit [DecidableEq κ] in
theorem serve_run {α : Type} {m : Req κ α} {result : Except (RequestError κ) α} {r : RequestState}
    (h : m (w.requestState attached) = (result, r)) :
    w.serve attached m = (result, { w with session := r.session.getD w.session }) := by
  unfold World.serve
  rw [h]

omit [DecidableEq κ] in
/-- Code that leaves the request's session leaves the world. -/
theorem serve_same {α : Type} {m : Req κ α} {result : Except (RequestError κ) α} {r : RequestState}
    (h : m (w.requestState attached) = (result, r)) (hr : r.session = (w.requestState attached).session) :
    w.serve attached m = (result, w) := by
  rw [serve_run h, hr, requestState_session]

/-- What a request that selects nothing does. -/
theorem request_default (h : selectedBy conf headers (w.requestState attached).session (w.users u) = none) :
    w.request conf u headers attached source = (.ok (w.users u).membership.rlsTenantId, w) := by
  have hrun := requestTenantId_run conf headers (w.users u) source (w.requestState attached)
  rw [h] at hrun
  exact serve_same hrun (vary_session _)

/-- What a request that selects one of the user's tenants does. -/
theorem request_chosen {via : Via} {raw : String} {k : κ}
    (h : selectedBy conf headers (w.requestState attached).session (w.users u) = some (via, raw))
    (hp : P.toPython (.text raw) = .ok (some k)) (hk : (w.users u).membership.Has k) :
    w.request conf u headers attached source = (.ok (.key k), w) := by
  have hrun := requestTenantId_run conf headers (w.users u) source (w.requestState attached)
  rw [h] at hrun
  dsimp only at hrun
  rw [maySelect_has hp hk] at hrun
  exact serve_same hrun (vary_session _)

/-- What a request that selects anything else does. -/
theorem request_refused {via : Via} {raw : String}
    (h : selectedBy conf headers (w.requestState attached).session (w.users u) = some (via, raw))
    (hnot : ∀ k, P.toPython (.text raw) = .ok (some k) → ¬(w.users u).membership.Has k) :
    w.request conf u headers attached source =
      (.error (.permissionDenied notSelectableMessage
        ⟨source, "tenant_not_selectable", (w.users u).pk, (Given.text raw).shown, via⟩),
      if via = .session then { w with session := { w.session with selection := none } } else w) := by
  have hrun := requestTenantId_run conf headers (w.users u) source (w.requestState attached)
  rw [h] at hrun
  dsimp only at hrun
  rw [maySelect_not hnot] at hrun
  unfold World.request
  rw [serve_run hrun]
  unfold RequestState.drop
  by_cases hv : via = .session
  · subst hv
    -- Only a request with the session selects by it.
    obtain ⟨-, -, s, hs, -, -⟩ := selectedBy_session h
    cases attached with
    | false => cases hs
    | true => simp [vary_session, World.requestState]
  · rw [if_neg hv, if_neg hv, vary_session, requestState_session]

/-- A request is one of three. -/
theorem request_cases (conf : SelectionConf) (w : World P υ) (u : υ) (headers : String → Option String)
    (attached : Bool) (source : String) :
    (selectedBy conf headers (w.requestState attached).session (w.users u) = none ∧
        w.request conf u headers attached source = (.ok (w.users u).membership.rlsTenantId, w)) ∨
      (∃ k, (w.users u).membership.Has k ∧ w.request conf u headers attached source = (.ok (.key k), w)) ∨
      ∃ via raw record,
        selectedBy conf headers (w.requestState attached).session (w.users u) = some (via, raw) ∧
        (∀ k, P.toPython (.text raw) = .ok (some k) → ¬(w.users u).membership.Has k) ∧
        w.request conf u headers attached source =
          (.error (.permissionDenied notSelectableMessage record),
            if via = .session then { w with session := { w.session with selection := none } } else w) := by
  cases h : selectedBy conf headers (w.requestState attached).session (w.users u) with
  | none => exact .inl ⟨rfl, request_default h⟩
  | some sel =>
    obtain ⟨via, raw⟩ := sel
    rcases maySelect_cases (w.users u).membership (.text raw) with ⟨k, hp, hk, -⟩ | ⟨hnot, -⟩
    · exact .inr (.inl ⟨k, hk, request_chosen h hp hk⟩)
    · exact .inr (.inr ⟨via, raw, _, rfl, hnot, request_refused h hnot⟩)

/-- The selection of another user's session counts for nothing, and stays. -/
theorem request_other (h : w.session.isOf (w.users u) = false) :
    (w.request conf u headers attached source).2 = w ∧
    ∀ s : Session, s.isOf (w.users u) = false →
      (World.request conf { w with session := s } u headers attached source).1 =
        (w.request conf u headers attached source).1 := by
  have hsel : ∀ s : Session, s.isOf (w.users u) = false →
      selectedBy conf headers (World.requestState { w with session := s } attached).session (w.users u) =
        selectedBy conf headers none (w.users u) := by
    intro s hs
    cases attached with
    | false => rfl
    | true => exact selectedBy_other hs
  have hvia : ∀ via raw, selectedBy conf headers none (w.users u) = some (via, raw) → via ≠ .session := by
    rintro via raw hs rfl
    obtain ⟨-, -, s, hs, -, -⟩ := selectedBy_session hs
    cases hs
  have hw := hsel w.session h
  constructor
  · rcases request_cases conf w u headers attached source with ⟨-, hr⟩ | ⟨k, -, hr⟩ | ⟨via, raw, record, hs, -, hr⟩
    · rw [hr]
    · rw [hr]
    · rw [hr, if_neg (hvia via raw (hw.symm.trans hs))]
  · intro s hs
    have hs' := (hsel s hs).trans hw.symm
    cases hc : selectedBy conf headers (w.requestState attached).session (w.users u) with
    | none => rw [request_default hc, request_default (hs'.trans hc)]
    | some sel =>
      obtain ⟨via, raw⟩ := sel
      rcases maySelect_cases (w.users u).membership (.text raw) with ⟨k, hp, hk, -⟩ | ⟨hnot, -⟩
      · rw [request_chosen hc hp hk, request_chosen (hs'.trans hc) hp hk]
      · rw [request_refused hc hnot, request_refused (hs'.trans hc) hnot]

end Request

/-! ## The middleware -/

omit [DecidableEq κ] in
theorem selectsTenants_not_admin (h : user.selectsTenants = true) : user.membership.isTenantAdmin = false := by
  simp only [User.selectsTenants, Bool.and_eq_true, Bool.not_eq_true'] at h
  exact h.2

/-- The middleware sets the values of the tenant that the request runs in. -/
theorem enterRequest_run (hsel : user.selectsTenants = true) (ha : user.isAuthenticated = true) {v : Given κ}
    (hv : v ≠ .none) {r r' : RequestState} (h : requestTenantId conf headers user "middleware" r = (.ok v, r')) :
    enterRequest conf headers user r = (.ok (some (v, .forTenant (v.toStr P))), r') := by
  have hmember : memberOf conf headers user r = (.ok (some v), r') := by
    unfold memberOf
    rw [if_pos hsel, map_run, h]
  have hgucs : resolveUserGucVars user v r' = (.ok (.forTenant (v.toStr P)), r') := by
    unfold resolveUserGucVars
    simp only [selectsTenants_not_admin hsel, hv, if_false, Bool.false_eq_true, pure_run]
  unfold enterRequest
  simp only [ha, Bool.not_true, Bool.false_eq_true, if_false, bind_run, hmember]
  cases v with
  | none => exact absurd rfl hv
  | key k => simp only [hgucs, pure_run]
  | text s => simp only [hgucs, pure_run]

theorem safeRequest {w : World P υ} {u : υ} (hsel : (w.users u).selectsTenants = true)
    (headers : String → Option String) (attached : Bool) (source : String) :
    SafeRequest conf w u headers attached source where
  runs v hv := by
    rcases request_cases conf w u headers attached source with ⟨-, hr⟩ | ⟨k, hk, hr⟩ | ⟨via, raw, record, -, -, hr⟩
    · rw [hr] at hv
      exact .inr (Except.ok.inj hv).symm
    · rw [hr] at hv
      exact .inl ⟨k, (Except.ok.inj hv).symm, hk⟩
    · rw [hr] at hv
      cases hv
  chosen via raw k h hp hk := by rw [request_chosen h hp hk]
  refused via raw h hnot := by
    rw [request_refused h hnot]
    refine ⟨⟨_, rfl⟩, ?_⟩
    intro hv
    rw [if_pos hv]
  others h := request_other h
  enters ha v hv h := by
    have hrun : requestTenantId conf headers (w.users u) "middleware" (w.requestState attached) =
        (.ok v, (requestTenantId conf headers (w.users u) "middleware" (w.requestState attached)).2) :=
      Prod.ext h rfl
    unfold World.serve
    rw [enterRequest_run hsel ha hv hrun]

/-! ## Switching and clearing -/

omit [DecidableEq κ] in
theorem selectionSession_cases (conf : SelectionConf) (r : RequestState) :
    (∃ s, conf.tenantSessionKey.isSome ∧ r.session = some s ∧
        (selectionSession conf : Req κ Session) r = (.ok s, r)) ∨
      ∃ e, (selectionSession conf : Req κ Session) r = (.error e, r) := by
  unfold selectionSession
  cases conf.tenantSessionKey with
  | none => exact .inr ⟨_, rfl⟩
  | some key =>
    obtain ⟨session, varyOn⟩ := r
    cases session with
    | none => exact .inr ⟨_, rfl⟩
    | some s => exact .inl ⟨s, rfl, rfl, rfl⟩

/-- A switch stores a tenant of the session's user, or raises and changes nothing. -/
theorem switchTenant_cases (conf : SelectionConf) (user : Option (User P)) (value : Given κ) (source : String)
    (via : Via) (r : RequestState) :
    (∃ e, switchTenant conf user value source via r = (.error e, r)) ∨
      ∃ u s k, user = some u ∧ r.session = some s ∧ conf.tenantSessionKey.isSome ∧ s.isOf u = true ∧
        u.membership.Has k ∧
        switchTenant conf user value source via r =
          (.ok (k, ⟨source, some k, false, u.pk, s.selection⟩),
            { r with session := some { s with selection := some (P.str k) } }) := by
  unfold switchTenant
  rcases selectionSession_cases (κ := κ) conf r with ⟨s, hkey, hs, hrun⟩ | ⟨e, hrun⟩
  · rw [bind_run, hrun]
    dsimp only
    cases user with
    | none => exact .inl ⟨_, rfl⟩
    | some u =>
      dsimp only
      by_cases ha : (!u.isAuthenticated || !u.selectsTenants) = true
      · rw [if_pos ha]
        exact .inl ⟨_, rfl⟩
      · rw [if_neg ha]
        by_cases hu : s.isOf u = true
        · rw [hu]
          rcases maySelect_cases u.membership value with ⟨k, -, hk, hmay⟩ | ⟨-, hmay⟩
          · refine .inr ⟨u, s, k, rfl, hs, hkey, hu, hk, ?_⟩
            rw [hmay]
            obtain ⟨session, varyOn⟩ := r
            obtain rfl : session = some s := hs
            rfl
          · rw [hmay]
            exact .inl ⟨_, rfl⟩
        · rw [Bool.not_eq_true] at hu
          rw [hu]
          exact .inl ⟨_, rfl⟩
  · rw [bind_run, hrun]
    exact .inl ⟨e, rfl⟩

omit [DecidableEq κ] in
/-- Clearing removes the selection of the session's user, or changes nothing. -/
theorem clearSelection_cases (conf : SelectionConf) (user : Option (User P)) (source : String)
    (r : RequestState) :
    (clearSelection conf user source r).2 = r ∨
      ∃ u s, user = some u ∧ r.session = some s ∧ s.isOf u = true ∧
        (clearSelection conf user source r).2 = { r with session := some { s with selection := none } } := by
  unfold clearSelection
  rcases selectionSession_cases (κ := κ) conf r with ⟨s, -, hs, hrun⟩ | ⟨e, hrun⟩
  · rw [bind_run, hrun]
    dsimp only
    cases user with
    | none => exact .inl rfl
    | some u =>
      dsimp only
      by_cases hu : (!u.isAuthenticated || !s.isOf u) = true
      · rw [if_pos hu]
        exact .inl rfl
      · rw [if_neg hu]
        simp only [Bool.or_eq_true, Bool.not_eq_true', not_or, Bool.not_eq_false] at hu
        cases hsel : s.selection with
        | none => exact .inl rfl
        | some previous =>
          refine .inr ⟨u, s, rfl, hs, hu.2, ?_⟩
          obtain ⟨session, varyOn⟩ := r
          obtain rfl : session = some s := hs
          rfl
  · rw [bind_run, hrun]
    exact .inl rfl

section World

variable {w : World P υ}

theorem switch_cases (conf : SelectionConf) (w : World P υ) (user : Option υ) (value : Given κ) (attached : Bool)
    (source : String) (via : Via) :
    (∃ e, w.switch conf user value attached source via = (.error e, w)) ∨
      ∃ u r, user = some u ∧ conf.tenantSessionKey.isSome ∧ w.session.isOf (w.users u) = true ∧
        (w.users u).membership.Has r.1 ∧
        w.switch conf user value attached source via =
          (.ok r, { w with session := { w.session with selection := some (P.str r.1) } }) := by
  rcases switchTenant_cases conf (user.map w.users) value source via (w.requestState attached) with
    ⟨e, hrun⟩ | ⟨u', s, k, hu, hs, hkey, hof, hk, hrun⟩
  · exact .inl ⟨e, serve_same hrun rfl⟩
  · obtain ⟨u, rfl, rfl⟩ := Option.map_eq_some_iff.1 hu
    cases attached with
    | false => cases hs
    | true =>
      obtain rfl : w.session = s := Option.some.inj hs
      exact .inr ⟨u, _, rfl, hkey, hof, hk, serve_run hrun⟩

omit [DecidableEq κ] in
theorem clear_cases (conf : SelectionConf) (w : World P υ) (user : Option υ) (attached : Bool) (source : String) :
    (w.clear conf user attached source).2 = w ∨
      attached = true ∧ ∃ u, user = some u ∧ w.session.isOf (w.users u) = true ∧
        (w.clear conf user attached source).2 = { w with session := { w.session with selection := none } } := by
  have hserve : (w.clear conf user attached source).2 = { w with session :=
      (clearSelection conf (user.map w.users) source (w.requestState attached)).2.session.getD w.session } := rfl
  rw [hserve]
  rcases clearSelection_cases conf (user.map w.users) source (w.requestState attached) with
    hsame | ⟨u', s, hu, hs, hof, hrun⟩
  · rw [hsame, requestState_session]
    exact .inl rfl
  · obtain ⟨u, rfl, rfl⟩ := Option.map_eq_some_iff.1 hu
    cases attached with
    | false => cases hs
    | true =>
      obtain rfl : w.session = s := Option.some.inj hs
      refine .inr ⟨rfl, u, rfl, hof, ?_⟩
      rw [hrun]
      rfl

/-! ## One step -/

variable [DecidableEq υ]

/-- What a step can do to the session. -/
theorem step_session (conf : SelectionConf) (e : SelectionStep P υ) (w : World P υ) :
    (e.step conf w).session = w.session ∨
      (e.step conf w).session.selection = none ∧
        (∀ k, w.session.selection = some (P.str k) → e.EndsSelection conf k w) ∨
      w.session.userId = none ∧ (e.step conf w).session.selection = w.session.selection ∨
      ∃ u value attached source via r, e = .switch (some u) value attached source via ∧
        (w.switch conf (some u) value attached source via).1 = .ok r ∧ w.session.isOf (w.users u) = true ∧
        (e.step conf w).session = { w.session with selection := some (P.str r.1) } := by
  cases e with
  | request u headers attached source =>
    simp only [SelectionStep.step]
    split
    · rcases request_cases conf w u headers attached source with
        ⟨-, hr⟩ | ⟨k, -, hr⟩ | ⟨via, raw, record, hs, hnot, hr⟩
      · exact .inl (by rw [hr])
      · exact .inl (by rw [hr])
      · rw [hr]
        by_cases hv : via = .session
        · subst hv
          refine .inr (.inl ⟨rfl, ?_⟩)
          intro k hk
          -- The refused selection is the one that the session has.
          have hraw : raw = P.str k := by
            obtain ⟨-, -, s, hs', -, hsel⟩ := selectedBy_session hs
            cases attached with
            | false => cases hs'
            | true =>
              obtain rfl : w.session = s := Option.some.inj hs'
              exact Option.some.inj (hsel.symm.trans hk)
          subst hraw
          exact .revoked hs (hnot k (P.toPython_str k))
        · exact .inl (by rw [if_neg hv])
    · exact .inl rfl
  | switch user value attached source via =>
    rcases switch_cases conf w user value attached source via with ⟨e, hr⟩ | ⟨u, r, rfl, -, hof, -, hr⟩
    · refine .inl ?_
      show (w.switch conf user value attached source via).2.session = _
      rw [hr]
    · refine .inr (.inr (.inr ⟨u, value, attached, source, via, r, rfl, by rw [hr], hof, ?_⟩))
      show (w.switch conf (some u) value attached source via).2.session = _
      rw [hr]
  | clear user attached source =>
    rcases clear_cases conf w user attached source with hr | ⟨rfl, u, rfl, hof, hr⟩
    · exact .inl (congrArg World.session hr)
    · refine .inr (.inl ⟨?_, ?_⟩)
      · show (w.clear conf (some u) true source).2.session.selection = none
        rw [hr]
      · intro k _
        exact .cleared hof
  | login u rehashed =>
    show (w.session.login (w.users u).pk rehashed) = _ ∨ (w.session.login (w.users u).pk rehashed).selection = _ ∧ _ ∨
      _ ∧ (w.session.login (w.users u).pk rehashed).selection = _ ∨ _
    unfold Session.login
    by_cases hnone : w.session.userId = none
    · rw [if_pos hnone]
      exact .inr (.inr (.inl ⟨hnone, rfl⟩))
    · rw [if_neg hnone]
      by_cases hsame : w.session.userId = (w.users u).pk ∧ rehashed = false
      · rw [if_pos hsame]
        exact .inl rfl
      · rw [if_neg hsame]
        refine .inr (.inl ⟨rfl, ?_⟩)
        intro k _
        refine .flushed ?_
        by_cases hpk : w.session.userId = (w.users u).pk
        · exact .inr (by simpa [hpk] using hsame)
        · exact .inl hpk
  | logout => exact .inr (.inl ⟨rfl, fun k _ => .loggedOut⟩)
  | change u membership => exact .inl rfl

/-- A selection stays until it is ended. -/
theorem step_keeps_selection {e : SelectionStep P υ} {id : String} {k : κ}
    (hw : w.session.userId = some id ∧ w.session.selection = some (P.str k)) (he : ¬e.EndsSelection conf k w) :
    (e.step conf w).session.userId = some id ∧ (e.step conf w).session.selection = some (P.str k) := by
  obtain ⟨hid, hsel⟩ := hw
  rcases step_session conf e w with
    h | ⟨-, hends⟩ | ⟨hnone, -⟩ | ⟨u, value, attached, source, via, r, rfl, hr, -, -⟩
  · rw [h]
    exact ⟨hid, hsel⟩
  · exact absurd (hends k hsel) he
  · rw [hid] at hnone
    cases hnone
  · exact absurd (.switched hr) he

/-! ## Runs -/

/-- A selection in the session is one that a user of that session stored. -/
theorem selection_stored (users : υ → User P) (es : List (SelectionStep P υ)) {raw : String}
    (h : (run (SelectionStep.step conf) (World.start users) es).session.selection = some raw) :
    ∃ id, (run (SelectionStep.step conf) (World.start users) es).session.userId = some id ∧
      StoredFor conf (World.start users) es id raw := by
  induction es using List.reverseRecOn with
  | nil => cases h
  | append_singleton es e ih =>
    rw [run_append] at h ⊢
    simp only [run_cons, run_nil] at h ⊢
    have hlater : ∀ id, StoredFor conf (World.start users) es id raw →
        StoredFor conf (World.start users) (es ++ [e]) id raw := by
      rintro id ⟨es₁, es₂, u, value, attached, source, via, r, rfl, hr⟩
      exact ⟨es₁, es₂ ++ [e], u, value, attached, source, via, r, by simp, hr⟩
    rcases step_session conf e (run (SelectionStep.step conf) (World.start users) es) with
      hsame | ⟨hnone, -⟩ | ⟨hid, hsame⟩ | ⟨u, value, attached, source, via, r, rfl, hr, hof, hstored⟩
    · rw [hsame] at h ⊢
      obtain ⟨id, hid, hst⟩ := ih h
      exact ⟨id, hid, hlater id hst⟩
    · rw [hnone] at h
      cases h
    · rw [hsame] at h
      obtain ⟨id, hid', -⟩ := ih h
      rw [hid] at hid'
      cases hid'
    · rw [hstored] at h ⊢
      obtain rfl : P.str r.1 = raw := Option.some.inj h
      simp only [Session.isOf, Bool.and_eq_true, decide_eq_true_eq] at hof
      obtain ⟨id, hid⟩ := Option.isSome_iff_exists.1 hof.1
      exact ⟨id, hid, es, [], u, value, attached, source, via, r, rfl, hof.2.symm.trans hid, hr, rfl⟩

/-- **Selection.** After every run of a session: a request of a user who selects tenants
is safe; a selection in the session is one that a user of this session stored; and after
a successful switch, a request of that user without the header runs in the selected
tenant, whatever happens in between that does not end the selection. -/
theorem selection_is_safe (conf : SelectionConf) (users : υ → User P) (es : List (SelectionStep P υ)) :
    let w := run (SelectionStep.step conf) (World.start users) es
    (∀ u headers attached source, (w.users u).selectsTenants = true →
      SafeRequest conf w u headers attached source) ∧
    (∀ raw, w.session.selection = some raw →
      ∃ id, w.session.userId = some id ∧ StoredFor conf (World.start users) es id raw) ∧
    ∀ u value attached source via r, (w.switch conf (some u) value attached source via).1 = .ok r →
      ∀ es', Along (SelectionStep.step conf) (fun w e => ¬e.EndsSelection conf r.1 w)
          (w.switch conf (some u) value attached source via).2 es' →
        let w' := run (SelectionStep.step conf) (w.switch conf (some u) value attached source via).2 es'
        ∀ u' headers source', (w'.users u').pk = (w.users u).pk → conf.tenantHeader.bind headers = none →
          (w'.users u').membership.Has r.1 →
          (w'.request conf u' headers true source').1 = .ok (.key r.1) := by
  intro w
  refine ⟨fun u headers attached source hsel => safeRequest hsel headers attached source,
    fun raw h => selection_stored users es h, ?_⟩
  intro u value attached source via r hr es' hes w' u' headers source' hpk hheader hk
  rcases switch_cases conf w (some u) value attached source via with ⟨e, hfail⟩ | ⟨u₁, r₁, hu, hkey, hof, -, hswitch⟩
  · rw [hfail] at hr
    cases hr
  obtain rfl : u = u₁ := Option.some.inj hu
  obtain rfl : r₁ = r := by
    rw [hswitch] at hr
    exact Except.ok.inj hr
  simp only [Session.isOf, Bool.and_eq_true, decide_eq_true_eq] at hof
  obtain ⟨id, hid⟩ := Option.isSome_iff_exists.1 hof.1
  -- Every step keeps the session's user and the selection.
  have hw' : w'.session.userId = some id ∧ w'.session.selection = some (P.str r₁.1) := by
    refine run_keeps_along (I := fun w : World P υ =>
      w.session.userId = some id ∧ w.session.selection = some (P.str r₁.1)) ?_ ?_ hes
    · intro w e hw he
      exact step_keeps_selection hw he
    · rw [hswitch]
      exact ⟨hid, rfl⟩
  have hselected : selectedBy conf headers (w'.requestState true).session (w'.users u') =
      some (.session, P.str r₁.1) := by
    obtain ⟨key, hkey⟩ := Option.isSome_iff_exists.1 hkey
    have hof' : w'.session.isOf (w'.users u') = true := by
      simp only [Session.isOf, hw'.1, hpk, ← hof.2, hid, Option.isSome_some, decide_true, Bool.and_self]
    unfold selectedBy
    rw [hheader, hkey]
    simp [World.requestState, hof', hw'.2]
  rw [request_chosen hselected (P.toPython_str r₁.1) hk]

end World

/-! ### A key that is a text -/

/-- A tenant model whose primary key is a `CharField`. -/
def textPk : TenantPk String where
  toPython
    | .none => .ok none
    | .key k => .ok (some k)
    | .text s => .ok (some s)
  str k := k
  toPython_str _ := rfl

/-- A user of the tenants `acme`, by default, and `others`. -/
def acmeUser (others : List String) : User textPk where
  pk := some "7"
  isAuthenticated := true
  membership := ⟨false, true, .text "acme", others.map .text, fun _ => rfl, by
    intro v hv
    obtain ⟨s, -, rfl⟩ := List.mem_map.1 hv
    rfl⟩

/-- The user logs in, switches to `beta`, joins another tenant, and sends a request. -/
theorem selection_is_safe_beta :
    let conf : SelectionConf := ⟨some "X-Tenant", some "rls_tenant"⟩
    let w := run (SelectionStep.step conf) (World.start fun _ : Unit => acmeUser ["beta"]) [.login () false]
    let w' := run (SelectionStep.step conf) (w.switch conf (some ()) (.text "beta") true "selection" .switch).2
      [.change () (acmeUser ["beta", "gamma"]).membership]
    (w'.request conf () (fun _ => none) true "middleware").1 = .ok (.key "beta") := by
  intro conf w w'
  have h := (selection_is_safe conf (fun _ : Unit => acmeUser ["beta"]) [.login () false]).2.2
  have hhas : (w'.users ()).membership.Has "beta" := .inl ⟨.text "beta", by decide, rfl⟩
  exact h () (.text "beta") true "selection" .switch _ rfl
    [.change () (acmeUser ["beta", "gamma"]).membership] ⟨nofun, trivial⟩ () (fun _ => none) "middleware" rfl rfl hhas

end RlsTenants
