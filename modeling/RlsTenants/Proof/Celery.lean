import RlsTenants.Spec.Celery
import RlsTenants.Spec.Blocks

/-!
# What a task carries

* `task_carries_context`: the worker runs a task's body in the context that is active
  where the task is enqueued; where none is active, also under a holder of no context,
  in that of the task that runs there. A tenant header of the caller's decides alone.
* `canvas_carries`: every step of a canvas runs in the context of its first one.
-/

namespace RlsTenants

open ContextVar Effect

/-! ## Capturing -/

/-- The context that headers give. -/
def Headers.gucs (h : Headers) : Option ContextGucs :=
  match h with
  | ⟨some (some tenantId), _⟩ => some (.forTenant tenantId.toStr)
  | ⟨_, some true⟩ => some adminGucs
  | _ => none

/-- Captured headers: both are there or none is, and a tenant's has no admin flag. -/
inductive Headers.Captured : Headers → Prop
  | nothing : Captured .empty
  | tenant (tenantId : TenantId) (admin : Bool) : Captured ⟨some (some tenantId), some admin⟩
  | bare (admin : Bool) : Captured ⟨some none, some admin⟩

theorem inheritHeaders_captured (current : Option Request) : (inheritHeaders current).Captured := by
  unfold inheritHeaders
  split
  · rename_i tenantId admin _
    cases tenantId with
    | none => exact .bare _
    | some tenantId => exact .tenant tenantId _
  · exact .nothing

theorem inheritHeaders_gucs (current : Option Request) : (inheritHeaders current).gucs = inherited current := by
  unfold inheritHeaders inherited
  rcases current.bind (·.headers) with _ | ⟨_ | _ | tenantId, _ | _ | _⟩ <;> rfl

theorem recordedTenantId_toStr (tenantId : Option TenantId) (currentTenant : String) :
    (recordedTenantId tenantId currentTenant).toStr = currentTenant := by
  unfold recordedTenantId
  split
  · split
    · rfl
    · rename_i h
      exact not_not.1 h
  · rfl

theorem capture_captured (s : Scope) (current : Option Request) : (capture s current).Captured := by
  unfold capture
  split
  · split
    · split
      · exact .bare true
      · split
        · exact .tenant _ false
        · exact inheritHeaders_captured current
    · exact inheritHeaders_captured current
  · split
    · exact .tenant _ false
    · split
      · exact .bare true
      · exact inheritHeaders_captured current

/-- **Capturing.** The headers give the context that the task should carry. -/
theorem capture_gucs {s : Scope} {current : Option Request} {c : Option ContextGucs} (h : s.Sends current c) :
    (capture s current).gucs = c := by
  cases h with
  | active h hv =>
    rename_i v
    unfold Scope.active at h
    unfold capture
    cases hl : s.vars.live with
    | some live =>
      rw [hl] at h
      dsimp only at h ⊢
      rw [h]
      cases hv with
      | admin => rfl
      | tenant ht =>
        rename_i t
        have hadmin : (ContextGucs.forTenant t).isAdmin ≠ "true" := by simp [ContextGucs.forTenant]
        have htenant : (ContextGucs.forTenant t).currentTenant ≠ "" := ht
        dsimp only
        rw [if_neg hadmin, if_pos htenant]
        simp only [Headers.gucs, recordedTenantId_toStr]
        rfl
    | none =>
      rw [hl] at h
      dsimp only at h ⊢
      cases ht : s.vars.tenantId with
      | some tenantId =>
        rw [ht] at h
        exact h
      | none =>
        rw [ht] at h
        dsimp only at h ⊢
        split at h
        · rename_i ha
          rw [if_pos ha]
          exact h
        · exact absurd h (by simp)
  | inherited h =>
    have hi := inheritHeaders_gucs current
    unfold Scope.active at h
    unfold capture
    cases hl : s.vars.live with
    | some live =>
      rw [hl] at h
      dsimp only at h ⊢
      rw [h]
      exact hi
    | none =>
      rw [hl] at h
      dsimp only at h ⊢
      cases ht : s.vars.tenantId with
      | some tenantId => simp [ht] at h
      | none =>
        rw [ht] at h
        dsimp only at h ⊢
        split at h
        · exact absurd h (by simp)
        · rename_i ha
          rw [if_neg ha]
          exact hi

/-! ## On the worker -/

theorem call_gucs (t : RLSTask) (r : Request) : (t.call r).gucs =
    match requestContext r with
    | (some tenantId, _) => some (.forTenant tenantId.toStr)
    | (none, true) => some adminGucs
    | (none, false) => none := by
  unfold RLSTask.call
  rcases requestContext r with ⟨_ | tenantId, _ | _⟩
  · dsimp only
    split <;> rfl
  · rfl
  · rfl
  · rfl

/-- **On the worker.** The body runs in the context that the headers give. -/
theorem call_of_carries {r : Request} {h : Headers} (hr : r.Carries h) (t : RLSTask) :
    (t.call r).gucs = h.gucs := by
  rw [call_gucs]
  obtain ⟨headers, attrId, attrAdmin⟩ := r
  obtain ⟨tenantId, admin⟩ := h
  cases headers with
  | some h' =>
    obtain ⟨tenantId', admin'⟩ := h'
    obtain ⟨⟨hid, hadmin⟩, hattr⟩ := hr
    dsimp only at hid hadmin hattr
    subst hadmin
    -- The tenant header: missing, `None`, or an id.
    rcases tenantId with _ | _ | id
    · have hid' : tenantId' = none := by simpa using hid
      obtain ⟨rfl, rfl⟩ := hattr rfl
      subst hid'
      rcases admin' with _ | _ | _ <;> rfl
    · have hid' : tenantId' = some none := by
        rcases tenantId' with _ | _ | id' <;> simp at hid ⊢
      subst hid'
      rcases admin' with _ | _ | _ <;> rfl
    · obtain ⟨id', rfl, hstr⟩ : ∃ id', tenantId' = some (some id') ∧ id'.toStr = id.toStr := by
        rcases tenantId' with _ | _ | id' <;> simp at hid ⊢
        exact hid
      simp only [requestContext, Headers.gucs, hstr]
  | none =>
    obtain ⟨hid, rfl⟩ := hr
    dsimp only at hid ⊢
    rcases tenantId with _ | _ | id
    · have hid' : attrId = none := by simpa using hid
      subst hid'
      rcases admin with _ | _ | _ <;> rfl
    · have hid' : attrId = none := by simpa using hid
      subst hid'
      rcases admin with _ | _ | _ <;> rfl
    · obtain ⟨id', rfl, hstr⟩ : ∃ id', attrId = some id' ∧ id'.toStr = id.toStr := by simpa using hid
      simp only [requestContext, Headers.gucs, hstr]

/-! ## From the enqueuing code to the worker -/

/-- What is captured, by the context it gives. -/
theorem Headers.Captured.cases_gucs {h : Headers} (hc : h.Captured) {c : Option ContextGucs} (hg : h.gucs = c) :
    (h = .empty ∧ c = none) ∨ (h = ⟨some none, some false⟩ ∧ c = none) ∨
      (h = ⟨some none, some true⟩ ∧ c = some adminGucs) ∨
      ∃ tenantId admin, h = ⟨some (some tenantId), some admin⟩ ∧ c = some (.forTenant tenantId.toStr) := by
  subst hg
  cases hc with
  | nothing => exact .inl ⟨rfl, rfl⟩
  | tenant tenantId admin => exact .inr (.inr (.inr ⟨tenantId, admin, rfl, rfl⟩))
  | bare admin =>
    cases admin with
    | false => exact .inr (.inl ⟨rfl, rfl⟩)
    | true => exact .inr (.inr (.inl ⟨rfl, rfl⟩))

theorem forTenant_ne_admin (tenantId : String) : some (ContextGucs.forTenant tenantId) ≠ some adminGucs := by
  intro h
  have := congrArg (Option.map ContextGucs.isAdmin) h
  simp [ContextGucs.forTenant, adminGucs] at this

variable {s : Scope} {current : Option Request} {explicit : Headers} {r : Request} {c : Option ContextGucs}

theorem merged_no_headers (hc : s.Sends current c) :
    (mergeHeaders .empty (capture s current)).gucs = c := by
  have h := capture_gucs hc
  unfold mergeHeaders Headers.empty
  exact h

theorem merged_admin_header (hc : s.Sends current c) (b : Bool) :
    (mergeHeaders ⟨none, some b⟩ (capture s current)).gucs =
      if c = none ∨ c = some adminGucs then (if b then some adminGucs else none) else c := by
  rcases (capture_captured s current).cases_gucs (capture_gucs hc) with
    ⟨h, rfl⟩ | ⟨h, rfl⟩ | ⟨h, rfl⟩ | ⟨tenantId, admin, h, rfl⟩
  · rw [h]
    cases b <;> rfl
  · rw [h]
    cases b <;> rfl
  · rw [h]
    cases b <;> rfl
  · have hne := forTenant_ne_admin tenantId.toStr
    have hnot : ¬(some (ContextGucs.forTenant tenantId.toStr) = none ∨
        some (ContextGucs.forTenant tenantId.toStr) = some adminGucs) := by
      rintro (h | h)
      · cases h
      · exact hne h
    rw [h, if_neg hnot]
    rfl

theorem merged_tenant_header (captured : Headers) (tenantId : TenantId) (admin : Option Bool) :
    (mergeHeaders ⟨some (some tenantId), admin⟩ captured).gucs = some (.forTenant tenantId.toStr) := rfl

theorem merged_none_header (captured : Headers) {admin : Option Bool}
    (ha : admin = none → captured.rlsAdmin ≠ some true) :
    (mergeHeaders ⟨some none, admin⟩ captured).gucs = if admin = some true then some adminGucs else none := by
  cases admin with
  | some b => cases b <;> rfl
  | none =>
    have hne := ha rfl
    obtain ⟨tenantId, admin⟩ := captured
    rcases admin with _ | _ | _
    · rfl
    · rfl
    · exact absurd rfl hne

/-- Headers that are merged again, eagerly or by the signal, stay as they are. -/
theorem mergeHeaders_twice (explicit captured : Headers) :
    mergeHeaders (mergeHeaders explicit captured) captured = mergeHeaders explicit captured := by
  obtain ⟨_ | tenantId, _ | admin⟩ := explicit <;> obtain ⟨_ | _, _ | _⟩ := captured <;> rfl

/-- **What a task carries.** With no header of the caller's, the active context, or the
running task's where none is active. An admin header of the caller's stands in for the
captured one. A tenant header of the caller's decides alone: an id is the tenant's, and
`None` is no context unless the caller's admin header says so (where the caller gives no
admin header, none is captured that does). -/
theorem task_carries_context (t : RLSTask) (hr : r.Carries (mergeHeaders explicit (capture s current)))
    (hc : s.Sends current c) :
    (explicit = .empty → (t.call r).gucs = c) ∧
    (∀ b, explicit = ⟨none, some b⟩ → (t.call r).gucs =
      if c = none ∨ c = some adminGucs then (if b then some adminGucs else none) else c) ∧
    (∀ id, explicit.rlsTenantId = some (some id) → (t.call r).gucs = some (.forTenant id.toStr)) ∧
    (explicit.rlsTenantId = some none →
      (explicit.rlsAdmin = none → (capture s current).rlsAdmin ≠ some true) →
      (t.call r).gucs = if explicit.rlsAdmin = some true then some adminGucs else none) := by
  have hcall := call_of_carries hr t
  obtain ⟨tenantId, admin⟩ := explicit
  refine ⟨?_, ?_, ?_, ?_⟩
  · intro he
    rw [hcall, he]
    exact merged_no_headers hc
  · intro b he
    rw [hcall, he]
    exact merged_admin_header hc b
  · intro id he
    obtain rfl : tenantId = some (some id) := he
    rw [hcall]
    exact merged_tenant_header _ id admin
  · intro he ha
    obtain rfl : tenantId = some none := he
    rw [hcall]
    exact merged_none_header _ ha

/-! ### In a block -/

/-- In a block of `tenants/context.py`, the block's context is active. -/
theorem active_enterState (active : Bool) (tenantId : Option TenantId) (gucs : Option ContextGucs) (t : Thread) :
    (enterState active tenantId gucs t).2.scope.active = gucs := by
  simp [enterState, Scope.active, Scope.setContextGucs, Scope.setVar, Var.set, Vars.liveVar, Store.create,
    Store.valuesOf]

/-- The code in a block, in a thread that has no other. -/
def inBlock (active : Bool) (tenantId : Option TenantId) (gucs : Option ContextGucs) : Scope :=
  (enterState active tenantId gucs ⟨⟨false, "rls".toList⟩, ⟨0, Vars.init, ⟨[], ⟨0, []⟩⟩⟩, []⟩).2.scope

/-- The request of a task that was enqueued in an admin context. -/
def adminRequest : Request := ⟨some ⟨some none, some true⟩, none, true⟩

theorem task_carries_context_block :
    (RLSTask.call ⟨"'tasks.sync'", false⟩ ⟨some ⟨some (some (.int 7)), some false⟩, some (.int 7), false⟩).gucs =
      some (.forTenant "7") := by
  let s := inBlock true (some (.int 7)) (some (.forTenant "7"))
  have hs : s.Sends (some adminRequest) (some (.forTenant "7")) :=
    .active (active_enterState ..) (.tenant (by decide))
  have hr : Request.Carries ⟨some ⟨some (some (.int 7)), some false⟩, some (.int 7), false⟩
      (mergeHeaders .empty (capture s (some adminRequest))) :=
    And.intro (And.intro (by decide) (by decide)) (by decide)
  exact (task_carries_context _ hr hs).1 rfl

/-- A block of no context, in a task that runs as admin: the task it enqueues does too. -/
theorem task_carries_not_none : ¬∀ (t : RLSTask) (s : Scope) (current : Option Request) (r : Request),
    r.Carries (mergeHeaders .empty (capture s current)) → s.vars.live ≠ none → s.contextGucs = none →
      (t.call r).gucs = none := by
  intro h
  let s := inBlock false none none
  have hr : adminRequest.Carries (mergeHeaders .empty (capture s (some adminRequest))) :=
    And.intro (And.intro (by decide) (by decide)) (by decide)
  have hnone := h ⟨"'tasks.sync'", false⟩ s (some adminRequest) adminRequest hr (by decide) (by decide)
  exact absurd hnone (by decide)

/-! ## Canvases -/

/-- The worker enqueues the next step of a canvas when the step before it has run: no
context is active, and that step is still the current task. -/
def Request.Follows (r r' : Request) : Prop :=
  r'.headers.isSome ∧ ∃ s : Scope, s.vars = Vars.init ∧ r'.Carries (mergeHeaders .empty (capture s (some r)))

/-- The request's headers have a tenant header. -/
def Request.Headed (r : Request) : Prop := ∃ tenantId admin, r.headers = some ⟨some tenantId, admin⟩

theorem call_headed (t : RLSTask) (hr : r.Headed) : (t.call r).gucs = inherited (some r) := by
  obtain ⟨tenantId, admin, h⟩ := hr
  rw [call_gucs]
  simp only [requestContext, inherited, h, Option.bind_some]
  rcases tenantId with _ | tenantId <;> rcases admin with _ | _ | _ <;> rfl

/-- One step hands its context to the next. -/
theorem follows_call {r' : Request} (hr : r.Headed) (hf : r.Follows r') (t t' : RLSTask) :
    r'.Headed ∧ (t'.call r').gucs = (t.call r).gucs := by
  obtain ⟨hsome, s, hs, hcarries⟩ := hf
  have hidle : s.active = none := by
    unfold Scope.active
    rw [hs]
    rfl
  constructor
  · -- The captured tenant header is the running task's.
    obtain ⟨tenantId, admin, h⟩ := hr
    obtain ⟨h', hh'⟩ := Option.isSome_iff_exists.1 hsome
    have hcap : capture s (some r) = ⟨some tenantId, some (admin.getD false)⟩ := by
      unfold capture
      rw [hs]
      simp [Vars.init, inheritHeaders, h]
    unfold Request.Carries at hcarries
    rw [hh', hcap] at hcarries
    obtain ⟨⟨hid, -⟩, -⟩ := hcarries
    obtain ⟨tenantId', admin'⟩ := h'
    cases tenantId' with
    | none => exact absurd hid (by simp [mergeHeaders, Headers.empty])
    | some tenantId' => exact ⟨tenantId', admin', hh'⟩
  · rw [call_headed t hr, call_of_carries hcarries t']
    exact merged_no_headers (.inherited hidle)

/-- **Canvases.** Every step runs in the context of the first one. -/
theorem canvas_carries (t : RLSTask) {rs : List Request} (hr : r.Headed)
    (hchain : List.IsChain Request.Follows (r :: rs)) :
    ∀ r' ∈ rs, ∀ t' : RLSTask, (t'.call r').gucs = (t.call r).gucs := by
  induction rs generalizing r with
  | nil => intro r' h; cases h
  | cons r₁ rs ih =>
    obtain ⟨hf, htail⟩ := List.isChain_cons_cons.1 hchain
    obtain ⟨hr₁, -⟩ := follows_call hr hf t t
    intro r' hmem t'
    rcases List.mem_cons.1 hmem with rfl | hmem
    · exact (follows_call hr hf t t').2
    · rw [ih hr₁ htail r' hmem t']
      exact (follows_call hr hf t t).2

end RlsTenants
