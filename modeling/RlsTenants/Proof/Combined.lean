import RlsTenants.Spec.Combined

/-!
# Combined querysets refuse writes

* `operator_result`: an operator leaves every queryset that the caller holds as it is.
* `eval_spec`: what an expression's result is, from the expression alone.
* `shared_rows_refuse_iff`: the result refuses writes, exactly when an `including_shared()`
  operand reaches it outside every sliced left operand of `|` and `^`.
-/

namespace RlsTenants

namespace Combined

variable {ρ τ : Type} {model : Model ρ τ} {heap heap' : Heap ρ τ} {qs : QuerySet ρ τ} {self other combined ref : ℕ}

/-! ## The heap -/

@[simp] theorem look_push : look (heap ++ [qs]) heap.length = qs := by simp [look]

theorem look_prefix (h : heap <+: heap') (href : ref < heap.length) : look heap' ref = look heap ref := by
  obtain ⟨rest, rfl⟩ := h
  unfold look
  rw [List.getD_eq_getElem?_getD, List.getD_eq_getElem?_getD, List.getElem?_append_left href]

@[simp] theorem look_set (href : ref < heap.length) : look (heap.set ref qs) ref = qs := by simp [look, href]

/-- A result: a reference to an object of a heap that extends the caller's. -/
structure Result (heap : Heap ρ τ) (r : ℕ × Heap ρ τ) : Prop where
  held : heap <+: r.2
  lt : r.1 < r.2.length

theorem push_result : Result heap (push heap qs) :=
  ⟨List.prefix_append heap [qs], by simp [push]⟩

theorem Result.trans {r r' : ℕ × Heap ρ τ} (h : Result heap r) (h' : Result r.2 r') : Result heap r' :=
  ⟨h.held.trans h'.held, h'.lt⟩

/-! ## Slices -/

theorem setLimits_marks (q : Query ρ) (low high : Option ℕ) :
    (q.setLimits low high).marks = limits q.marks low high := by
  unfold Query.setLimits
  dsimp only
  split <;> rfl

theorem setLimits_isEmpty (q : Query ρ) (low high : Option ℕ) :
    (q.setLimits low high).where_.isEmpty =
      (q.where_.isEmpty || decide (some (limits q.marks low high).1 = (limits q.marks low high).2)) := by
  unfold Query.setLimits
  dsimp only
  split
  case isTrue hmarks => simp [Query.setEmpty, Query.addCondition, Where.isEmpty, hmarks]
  case isFalse hmarks => simp [hmarks]

/-! ## Expressions from the outside -/

/-- Where an operator takes its result from: an operand, or the base manager. -/
inductive Origin where
  | left
  | right
  | base

/-- An empty operand gives the other one; a sliced left operand of `|` or `^` gives the
base manager's queryset. -/
def origin (connector : Operator) (aEmpty bEmpty aSliced : Bool) : Origin :=
  match connector with
  | .and => if bEmpty then .right else .left
  | .or | .xor => if aEmpty then .right else if bEmpty then .left else if aSliced then .base else .left

def Method.marks (marks : ℕ × Option ℕ) : Method ρ τ → ℕ × Option ℕ
  | .slice low high => limits marks low high
  | _ => marks

/-- Whether a method empties its queryset: `none()`, and a slice of no rows. -/
def Method.empties (marks : ℕ × Option ℕ) : Method ρ τ → Bool
  | .none => true
  | .slice low high => decide (some (limits marks low high).1 = (limits marks low high).2)
  | _ => false

mutual

/-- Whether an expression is empty to Django: made so by `none()` or by a slice. -/
def Expr.isEmpty : Expr ρ τ → Bool
  | .objects _ => false
  | .includingShared => false
  | .method e call => e.isEmpty || call.empties e.marks
  | .operator .and _ a b => a.isEmpty || b.isEmpty
  | .operator _ _ a b => a.isEmpty && b.isEmpty

/-- The slice of an expression. -/
def Expr.marks : Expr ρ τ → ℕ × Option ℕ
  | .objects _ => (0, none)
  | .includingShared => (0, none)
  | .method e call => call.marks e.marks
  | .operator connector _ a b =>
    match origin connector a.isEmpty b.isEmpty (isSliced a.marks) with
    | .left => a.marks
    | .right => b.marks
    | .base => (0, none)

end

/-- Where the result of `a` and `b` comes from. -/
def Expr.origin (connector : Operator) (a b : Expr ρ τ) : Origin :=
  Combined.origin connector a.isEmpty b.isEmpty (isSliced a.marks)

/-- Whether an expression is a plain `QuerySet`: a sliced left operand of `|` or `^` has
been replaced by the rows of a plain base manager. -/
def Expr.isPlain (model : Model ρ τ) : Expr ρ τ → Bool
  | .objects _ => false
  | .includingShared => false
  | .method e _ => e.isPlain model
  | .operator connector _ a b =>
    match Expr.origin connector a b with
    | .left => a.isPlain model
    | .right => b.isPlain model
    | .base => model.baseManager = .plain

/-- Whether an `including_shared()` operand reaches the result: not out of the sliced left
operand of a `|` or `^`, and not into a plain `QuerySet`. -/
def Expr.reachesShared (model : Model ρ τ) : Expr ρ τ → Bool
  | .objects _ => false
  | .includingShared => true
  | .method e _ => e.reachesShared model
  | .operator connector _ a b =>
    match Expr.origin connector a b with
    | .left => !a.isPlain model && (a.reachesShared model || b.reachesShared model)
    | .right => b.reachesShared model
    | .base => model.baseManager = .rls && !a.isPlain model && b.reachesShared model

/-- No `|` or `^` of the expression has a sliced left operand. -/
def Expr.Uncut : Expr ρ τ → Prop
  | .objects _ => True
  | .includingShared => True
  | .method e _ => e.Uncut
  | .operator connector _ a b => a.Uncut ∧ b.Uncut ∧ Expr.origin connector a b ≠ .base

/-- Whether a condition has the rows of an `including_shared()` operand in it. -/
def Where.mentionsShared : Where ρ → Bool
  | .rows shared => shared
  | .keep _ => false
  | .nothing => false
  | .and a b => a.mentionsShared || b.mentionsShared
  | .or a b => a.mentionsShared || b.mentionsShared
  | .xor a b => a.mentionsShared || b.mentionsShared
  | .pkIn where_ _ _ _ => where_.mentionsShared

/-- A queryset is as its expression says. -/
structure Matches (model : Model ρ τ) (e : Expr ρ τ) (qs : QuerySet ρ τ) : Prop where
  isEmpty : qs.query.where_.isEmpty = e.isEmpty
  marks : qs.query.marks = e.marks
  isPlain : qs.tenant.isNone = e.isPlain model
  flag : qs.includingShared = e.reachesShared model
  shared : qs.query.where_.mentionsShared = true → e.Uncut → e.reachesShared model = true

theorem setLimits_mentionsShared (q : Query ρ) (low high : Option ℕ) :
    (q.setLimits low high).where_.mentionsShared = q.where_.mentionsShared := by
  unfold Query.setLimits
  dsimp only
  split
  · simp [Query.setEmpty, Query.addCondition, Where.mentionsShared]
  · rfl

/-! ## Methods -/

variable {e a b : Expr ρ τ}

theorem filterOrExclude_spec {condition : ρ → Bool} {r : ℕ × Heap ρ τ}
    (h : filterOrExclude condition self heap = .ok r) :
    r = push heap { look heap self with query := (look heap self).query.addCondition (.keep condition) } := by
  unfold filterOrExclude at h
  dsimp only at h
  split at h
  · cases h
  · exact (Except.ok.inj h).symm

/-- A method gives a new object, with the class and the flag of its queryset. -/
theorem call_spec [DecidableEq τ] {call : Method ρ τ} {r : ℕ × Heap ρ τ} (h : call.call model self heap = .ok r)
    (hself : Matches model e (look heap self)) : Result heap r ∧ Matches model (.method e call) (look r.2 r.1) := by
  obtain ⟨hempty, hmarks, hplain, hflag, hshared⟩ := hself
  cases call with
  | filter condition =>
    rw [Method.call] at h
    obtain rfl := filterOrExclude_spec h
    refine ⟨push_result, ?_⟩
    rw [push, look_push]
    exact ⟨by simp [Query.addCondition, Where.isEmpty, Expr.isEmpty, Method.empties, hempty], hmarks, hplain, hflag,
      by simpa [Query.addCondition, Where.mentionsShared, Expr.Uncut, Expr.reachesShared] using hshared⟩
  | exclude condition =>
    rw [Method.call] at h
    obtain rfl := filterOrExclude_spec h
    refine ⟨push_result, ?_⟩
    rw [push, look_push]
    exact ⟨by simp [Query.addCondition, Where.isEmpty, Expr.isEmpty, Method.empties, hempty], hmarks, hplain, hflag,
      by simpa [Query.addCondition, Where.mentionsShared, Expr.Uncut, Expr.reachesShared] using hshared⟩
  | orderBy le =>
    rw [Method.call] at h
    dsimp only at h
    split at h
    · cases h
    · obtain rfl := Except.ok.inj h
      refine ⟨push_result, ?_⟩
      rw [push, look_push]
      exact ⟨by simp [Expr.isEmpty, Method.empties, hempty], hmarks, hplain, hflag,
      by simpa [Query.addCondition, Where.mentionsShared, Expr.Uncut, Expr.reachesShared] using hshared⟩
  | slice low high =>
    obtain rfl := Except.ok.inj h
    refine ⟨push_result, ?_⟩
    rw [push, look_push]
    refine ⟨?_, ?_, hplain, hflag, ?_⟩
    · rw [setLimits_isEmpty, hempty, hmarks]
      rfl
    · rw [setLimits_marks, hmarks]
      rfl
    · rw [setLimits_mentionsShared]
      exact hshared
  | none =>
    obtain rfl := Except.ok.inj h
    refine ⟨push_result, ?_⟩
    rw [push, look_push]
    exact ⟨by simp [Query.setEmpty, Query.addCondition, Where.isEmpty, Expr.isEmpty, Method.empties], hmarks, hplain,
      hflag, by simpa [Query.setEmpty, Query.addCondition, Where.mentionsShared, Expr.Uncut, Expr.reachesShared] using hshared⟩
  | forUser user =>
    rw [Method.call] at h
    unfold Combined.forUser at h
    cases hstate : (look heap self).tenant with
    | none =>
      rw [hstate] at h
      cases h
    | some state =>
      rw [hstate] at h
      have hplain' : false = e.isPlain model := by simpa [hstate] using hplain
      have hflag' : state.rlsIncludingShared = e.reachesShared model := by
        simpa [QuerySet.includingShared, hstate] using hflag
      dsimp only [push] at h
      split at h
      · obtain rfl := filterOrExclude_spec h
        refine ⟨push_result.trans push_result, ?_⟩
        rw [push, look_push, look_push]
        exact ⟨by simp [Query.addCondition, Where.isEmpty, Expr.isEmpty, Method.empties, hempty], hmarks, hplain', hflag',
          by simpa [Query.addCondition, Where.mentionsShared, Expr.Uncut, Expr.reachesShared] using hshared⟩
      · obtain rfl := Except.ok.inj h
        refine ⟨push_result, ?_⟩
        rw [look_push]
        exact ⟨by simp [Expr.isEmpty, Method.empties, hempty], hmarks, hplain', hflag',
          by simpa [Query.addCondition, Where.mentionsShared, Expr.Uncut, Expr.reachesShared] using hshared⟩

/-! ## Operators -/

theorem uncut_isPlain (h : e.Uncut) : e.isPlain model = false := by
  induction e with
  | objects tenantId => rfl
  | includingShared => rfl
  | method e call ih => exact ih h
  | operator connector tenantId a b iha ihb =>
    obtain ⟨ha, hb, horigin⟩ := h
    rw [Expr.isPlain]
    cases hcase : Expr.origin connector a b with
    | left => exact iha ha
    | right => exact ihb hb
    | base => exact absurd hcase horigin

theorem includingShared_none (h : qs.tenant.isNone = true) : qs.includingShared = false := by
  have htenant : qs.tenant = none := Option.isNone_iff_eq_none.mp h
  simp [QuerySet.includingShared, htenant]

theorem baseRows_tenant [DecidableEq τ] (tenantId : Option τ) (q : Query ρ) :
    (model.baseRows tenantId q).tenant.isNone = decide (model.baseManager = .plain) ∧
      (model.baseRows tenantId q).includingShared = false := by
  unfold Model.baseRows Model.getQueryset
  cases model.baseManager with
  | plain => exact ⟨rfl, rfl⟩
  | rls => cases tenantId <;> exact ⟨rfl, rfl⟩

theorem baseRows_query [DecidableEq τ] (tenantId : Option τ) (q : Query ρ) :
    (model.baseRows tenantId q).query.marks = (0, none) := by
  unfold Model.baseRows Model.getQueryset
  cases model.baseManager with
  | plain => rfl
  | rls => cases tenantId <;> rfl

theorem baseRows_mentionsShared [DecidableEq τ] (tenantId : Option τ) (q : Query ρ) :
    (model.baseRows tenantId q).query.where_.mentionsShared = q.where_.mentionsShared := by
  unfold Model.baseRows Model.getQueryset
  cases model.baseManager with
  | plain => rfl
  | rls => cases tenantId <;> rfl

/-- Django returns an operand, or a new object. -/
structure Given (heap : Heap ρ τ) (left right : ℕ) (r : ℕ × Heap ρ τ) : Prop where
  result : Result heap r
  ref : r.1 = right ∨ r.1 = left ∨ heap.length ≤ r.1

theorem Given.of_push : Given heap self other (push heap qs) := ⟨push_result, .inr (.inr (Nat.le_refl _))⟩

theorem djangoAnd_given {r : ℕ × Heap ρ τ} (h : djangoAnd self other heap = .ok r) (hself : self < heap.length)
    (hother : other < heap.length) : Given heap self other r := by
  unfold djangoAnd at h
  split at h
  · obtain rfl := Except.ok.inj h
    exact ⟨⟨List.prefix_rfl, hother⟩, .inl rfl⟩
  · split at h
    · obtain rfl := Except.ok.inj h
      exact ⟨⟨List.prefix_rfl, hself⟩, .inr (.inl rfl)⟩
    · cases hquery : Query.combine .and (look heap self).query (look heap other).query with
      | error refusal =>
        rw [hquery] at h
        cases h
      | ok query =>
        rw [hquery] at h
        obtain rfl := Except.ok.inj h
        exact .of_push

theorem djangoUnion_given [DecidableEq τ] {connector : Operator} {tenantId : Option τ} {r : ℕ × Heap ρ τ}
    (h : djangoUnion model connector tenantId self other heap = .ok r) (hself : self < heap.length)
    (hother : other < heap.length) : Given heap self other r := by
  unfold djangoUnion at h
  split at h
  · obtain rfl := Except.ok.inj h
    exact ⟨⟨List.prefix_rfl, hother⟩, .inl rfl⟩
  · split at h
    · obtain rfl := Except.ok.inj h
      exact ⟨⟨List.prefix_rfl, hself⟩, .inr (.inl rfl)⟩
    · dsimp only at h
      cases hquery : Query.combine connector
          (if isSliced (look heap self).query.marks = true then model.baseRows tenantId (look heap self).query
            else look heap self).query
          (if isSliced (look heap other).query.marks = true then model.baseRows tenantId (look heap other).query
            else look heap other).query with
      | error refusal =>
        rw [hquery] at h
        cases h
      | ok query =>
        rw [hquery] at h
        obtain rfl := Except.ok.inj h
        exact .of_push

/-- What Django builds, before it is marked. -/
structure Built (model : Model ρ τ) (tenantId : Option τ) (a b : Expr ρ τ) (connector : Operator) (heap : Heap ρ τ)
    (left right : ℕ) (r : ℕ × Heap ρ τ) : Prop where
  isEmpty : (look r.2 r.1).query.where_.isEmpty = (Expr.operator connector tenantId a b).isEmpty
  marks : (look r.2 r.1).query.marks = (Expr.operator connector tenantId a b).marks
  isPlain : (look r.2 r.1).tenant.isNone = (Expr.operator connector tenantId a b).isPlain model
  flag : (look r.2 r.1).includingShared = match Expr.origin connector a b with
    | .left => (look heap left).includingShared
    | .right => (look heap right).includingShared
    | .base => false
  shared : (look r.2 r.1).query.where_.mentionsShared = true → match Expr.origin connector a b with
    | .left => (look heap left).query.where_.mentionsShared = true ∨
        (look heap right).query.where_.mentionsShared = true
    | .right => (look heap right).query.where_.mentionsShared = true
    | .base => True

theorem Built.of_right {connector : Operator} {tenantId : Option τ} (horigin : Expr.origin connector a b = .right)
    (hempty : b.isEmpty = (Expr.operator connector tenantId a b).isEmpty) (hb : Matches model b (look heap other)) :
    Built model tenantId a b connector heap self other (other, heap) where
  isEmpty := hb.isEmpty.trans hempty
  marks := by
    rw [hb.marks, Expr.marks]
    unfold Expr.origin at horigin
    rw [horigin]
  isPlain := by rw [hb.isPlain, Expr.isPlain, horigin]
  flag := by rw [horigin]
  shared h := by rwa [horigin]

theorem Built.of_left {connector : Operator} {tenantId : Option τ} (horigin : Expr.origin connector a b = .left)
    (hempty : a.isEmpty = (Expr.operator connector tenantId a b).isEmpty) (ha : Matches model a (look heap self)) :
    Built model tenantId a b connector heap self other (self, heap) where
  isEmpty := ha.isEmpty.trans hempty
  marks := by
    rw [ha.marks, Expr.marks]
    unfold Expr.origin at horigin
    rw [horigin]
  isPlain := by rw [ha.isPlain, Expr.isPlain, horigin]
  flag := by rw [horigin]
  shared h := by
    rw [horigin]
    exact .inl h

theorem combine_spec {connector : Operator} {q rhs query : Query ρ} (h : Query.combine connector q rhs = .ok query) :
    query.where_ = connector.join q.where_ rhs.where_ ∧ query.marks = q.marks := by
  unfold Query.combine at h
  split at h
  · cases h
  · obtain rfl := Except.ok.inj h
    exact ⟨rfl, rfl⟩

theorem djangoAnd_spec {tenantId : Option τ} {r : ℕ × Heap ρ τ} (h : djangoAnd self other heap = .ok r)
    (ha : Matches model a (look heap self)) (hb : Matches model b (look heap other)) :
    Built model tenantId a b .and heap self other r := by
  unfold djangoAnd at h
  rw [hb.isEmpty, ha.isEmpty] at h
  have horigin : Expr.origin .and a b = if b.isEmpty then .right else .left := rfl
  split at h
  case isTrue hbe =>
    obtain rfl := Except.ok.inj h
    rw [if_pos hbe] at horigin
    exact .of_right horigin (by simp [Expr.isEmpty, hbe]) hb
  case isFalse hbe =>
    rw [if_neg hbe] at horigin
    split at h
    case isTrue hae =>
      obtain rfl := Except.ok.inj h
      exact .of_left horigin (by simp [Expr.isEmpty, hae]) ha
    case isFalse hae =>
      cases hquery : Query.combine .and (look heap self).query (look heap other).query with
      | error refusal =>
        rw [hquery] at h
        cases h
      | ok query =>
        rw [hquery] at h
        obtain rfl := Except.ok.inj h
        obtain ⟨hwhere, hmarks⟩ := combine_spec hquery
        refine ⟨?_, ?_, ?_, ?_, ?_⟩ <;> rw [push, look_push]
        · simp [hwhere, Operator.join, Where.isEmpty, Expr.isEmpty, ha.isEmpty, hb.isEmpty]
        · rw [hmarks, ha.marks, Expr.marks]
          unfold Expr.origin at horigin
          rw [horigin]
        · rw [Expr.isPlain, horigin]
          exact ha.isPlain
        · rw [horigin]
          rfl
        · rw [horigin, hwhere]
          simp [Operator.join, Where.mentionsShared]

theorem origin_union {connector : Operator} (h : connector ≠ .and) :
    Expr.origin connector a b =
      if a.isEmpty then .right else if b.isEmpty then .left else if isSliced a.marks then .base else .left := by
  cases connector with
  | and => exact absurd rfl h
  | or => rfl
  | xor => rfl

theorem isEmpty_union {connector : Operator} {tenantId : Option τ} (h : connector ≠ .and) :
    (Expr.operator connector tenantId a b).isEmpty = (a.isEmpty && b.isEmpty) := by
  cases connector with
  | and => exact absurd rfl h
  | or => rfl
  | xor => rfl

theorem djangoUnion_spec [DecidableEq τ] {connector : Operator} {tenantId : Option τ} {r : ℕ × Heap ρ τ}
    (h : djangoUnion model connector tenantId self other heap = .ok r) (hne : connector ≠ .and)
    (ha : Matches model a (look heap self)) (hb : Matches model b (look heap other)) :
    Built model tenantId a b connector heap self other r := by
  unfold djangoUnion at h
  rw [hb.isEmpty, ha.isEmpty] at h
  have horigin := origin_union (a := a) (b := b) hne
  split at h
  case isTrue hae =>
    obtain rfl := Except.ok.inj h
    rw [if_pos hae] at horigin
    exact .of_right horigin (by rw [isEmpty_union hne, hae, Bool.true_and]) hb
  case isFalse hae =>
    rw [if_neg hae] at horigin
    split at h
    case isTrue hbe =>
      obtain rfl := Except.ok.inj h
      rw [if_pos hbe] at horigin
      exact .of_left horigin (by rw [isEmpty_union hne, hbe, Bool.and_true]) ha
    case isFalse hbe =>
      rw [if_neg hbe] at horigin
      dsimp only at h
      rw [ha.marks] at h
      cases hquery : Query.combine connector
          (if isSliced a.marks = true then model.baseRows tenantId (look heap self).query else look heap self).query
          (if isSliced (look heap other).query.marks = true then model.baseRows tenantId (look heap other).query
            else look heap other).query with
      | error refusal =>
        rw [hquery] at h
        cases h
      | ok query =>
        rw [hquery] at h
        obtain rfl := Except.ok.inj h
        obtain ⟨hwhere, hmarks⟩ := combine_spec hquery
        -- Neither `or` nor `xor` has a `NothingNode` at its top.
        have hempty : query.where_.isEmpty = (Expr.operator connector tenantId a b).isEmpty := by
          rw [isEmpty_union hne, hwhere]
          cases connector with
          | and => exact absurd rfl hne
          | or => simp [Operator.join, Where.isEmpty, hae]
          | xor => simp [Operator.join, Where.isEmpty, hae]
        refine ⟨?_, ?_, ?_, ?_, ?_⟩ <;> rw [push, look_push]
        · exact hempty
        · rw [hmarks, Expr.marks]
          unfold Expr.origin at horigin
          rw [horigin]
          by_cases hsliced : isSliced a.marks = true
          · rw [if_pos hsliced, if_pos hsliced]
            exact baseRows_query tenantId _
          · rw [if_neg hsliced, if_neg hsliced]
            exact ha.marks
        · rw [Expr.isPlain, horigin]
          by_cases hsliced : isSliced a.marks = true
          · rw [if_pos hsliced, if_pos hsliced]
            exact (baseRows_tenant tenantId _).1
          · rw [if_neg hsliced, if_neg hsliced]
            exact ha.isPlain
        · rw [horigin]
          by_cases hsliced : isSliced a.marks = true
          · rw [if_pos hsliced, if_pos hsliced]
            exact (baseRows_tenant tenantId _).2
          · rw [if_neg hsliced, if_neg hsliced]
            rfl
        · rw [horigin]
          by_cases hsliced : isSliced a.marks = true
          · simp [if_pos hsliced]
          · rw [hwhere]
            simp only [if_neg hsliced]
            intro hshared
            have hright : (if isSliced (look heap other).query.marks = true then
                model.baseRows tenantId (look heap other).query else look heap other).query.where_.mentionsShared =
                (look heap other).query.where_.mentionsShared := by
              split
              · exact baseRows_mentionsShared tenantId _
              · rfl
            cases connector with
            | and => exact absurd rfl hne
            | or => simpa [Operator.join, Where.mentionsShared, hright] using hshared
            | xor => simpa [Operator.join, Where.mentionsShared, hright] using hshared

/-- **Marking.** `_combined` changes no object that the caller holds, and marks the result
when it is a `TenantQuerySet`. -/
theorem combinedOf_spec (hgiven : Given heap self other (combined, heap')) (hother : other < heap.length) :
    Result heap (combinedOf self combined other heap') ∧
      (look (combinedOf self combined other heap').2 (combinedOf self combined other heap').1).query =
        (look heap' combined).query ∧
      (look (combinedOf self combined other heap').2 (combinedOf self combined other heap').1).tenant.isNone =
        (look heap' combined).tenant.isNone ∧
      (look (combinedOf self combined other heap').2 (combinedOf self combined other heap').1).includingShared =
        (!(look heap' combined).tenant.isNone &&
          ((look heap' combined).includingShared || (look heap other).includingShared)) := by
  obtain ⟨hresult, href⟩ := hgiven
  have hlook : look heap' other = look heap other := look_prefix hresult.held hother
  unfold combinedOf
  rw [hlook]
  by_cases hdone : (!(look heap other).includingShared || (look heap' combined).includingShared) = true
  · rw [if_pos hdone]
    refine ⟨hresult, rfl, rfl, ?_⟩
    cases htenant : (look heap' combined).tenant.isNone with
    | true => simp [includingShared_none htenant]
    | false =>
      cases hflag : (look heap' combined).includingShared <;> simp_all
  · rw [if_neg hdone]
    obtain ⟨hflag, hflag'⟩ : (look heap other).includingShared = true ∧ (look heap' combined).includingShared = false := by
      simpa using hdone
    have hne : combined ≠ other := by
      intro h
      rw [h, hlook, hflag] at hflag'
      cases hflag'
    -- The object that is marked: a fresh one, or a clone of the left operand.
    obtain ⟨target, heap₁, htarget, hheld, hlt, hfresh, hsame⟩ : ∃ target heap₁,
        (if combined = self then chain combined heap' else (combined, heap')) = (target, heap₁) ∧ heap <+: heap₁ ∧
          target < heap₁.length ∧ heap.length ≤ target ∧ look heap₁ target = look heap' combined := by
      by_cases hchain : combined = self
      · rw [if_pos hchain]
        refine ⟨_, _, rfl, hresult.held.trans (List.prefix_append _ _), by simp, ?_, look_push⟩
        exact hresult.held.length_le
      · rw [if_neg hchain]
        have hle : heap.length ≤ combined := by
          rcases href with h | h | h
          · exact absurd h hne
          · exact absurd h hchain
          · exact h
        exact ⟨_, _, rfl, hresult.held, hresult.lt, hle, rfl⟩
    dsimp only
    rw [htarget]
    dsimp only
    rw [hsame]
    cases htenant : (look heap' combined).tenant with
    | none =>
      refine ⟨⟨hheld, hlt⟩, by rw [hsame], by rw [hsame, htenant], ?_⟩
      rw [hsame, hflag']
      rfl
    | some state =>
      refine ⟨⟨?_, by simpa using hlt⟩, ?_, ?_, ?_⟩
      · obtain ⟨rest, rfl⟩ := hheld
        dsimp only
        rw [List.set_append_right _ _ hfresh]
        exact List.prefix_append _ _
      · rw [look_set hlt]
      · rw [look_set hlt]
        rfl
      · rw [look_set hlt, hflag]
        simp [QuerySet.includingShared]

/-- An operator is Django's, and `_combined` when the left operand is a `TenantQuerySet`. -/
theorem operator_cases [DecidableEq τ] {connector : Operator} {tenantId : Option τ} {r : ℕ × Heap ρ τ}
    (h : operator model connector tenantId self other heap = .ok r) (hself : self < heap.length)
    (hother : other < heap.length) : ∃ c, Given heap self other c ∧
      (∀ a b, Matches model a (look heap self) → Matches model b (look heap other) →
        Built model tenantId a b connector heap self other c) ∧
      (if (look heap self).tenant.isSome then combinedOf self c.1 other c.2 else c) = r := by
  unfold operator at h
  cases connector with
  | and =>
    cases hand : djangoAnd self other heap with
    | error refusal =>
      rw [hand] at h
      cases h
    | ok c =>
      rw [hand] at h
      exact ⟨c, djangoAnd_given hand hself hother, fun _ _ => djangoAnd_spec hand, Except.ok.inj h⟩
  | or =>
    cases hor : djangoUnion model .or tenantId self other heap with
    | error refusal =>
      rw [hor] at h
      cases h
    | ok c =>
      rw [hor] at h
      exact ⟨c, djangoUnion_given hor hself hother, fun _ _ => djangoUnion_spec hor (by decide), Except.ok.inj h⟩
  | xor =>
    cases hxor : djangoUnion model .xor tenantId self other heap with
    | error refusal =>
      rw [hxor] at h
      cases h
    | ok c =>
      rw [hxor] at h
      exact ⟨c, djangoUnion_given hxor hself hother, fun _ _ => djangoUnion_spec hxor (by decide), Except.ok.inj h⟩

/-- **An operator** changes no object that the caller holds. -/
theorem operator_result [DecidableEq τ] {connector : Operator} {tenantId : Option τ} {r : ℕ × Heap ρ τ}
    (h : operator model connector tenantId self other heap = .ok r) (hself : self < heap.length)
    (hother : other < heap.length) : Result heap r := by
  obtain ⟨c, hgiven, -, hmark⟩ := operator_cases h hself hother
  split at hmark
  · subst hmark
    exact (combinedOf_spec hgiven hother).1
  · subst hmark
    exact hgiven.result

/-- **The result of an operator** is as the expression says. -/
theorem operator_spec [DecidableEq τ] {connector : Operator} {tenantId : Option τ} {r : ℕ × Heap ρ τ}
    (h : operator model connector tenantId self other heap = .ok r) (ha : Matches model a (look heap self))
    (hb : Matches model b (look heap other)) (hself : self < heap.length) (hother : other < heap.length) :
    Matches model (.operator connector tenantId a b) (look r.2 r.1) := by
  obtain ⟨⟨combined, heap'⟩, hgiven, hbuild, hmark⟩ := operator_cases h hself hother
  have hbuilt := hbuild a b ha hb
  have hplain : (look heap self).tenant.isSome = !a.isPlain model := by
    rw [← ha.isPlain]
    cases (look heap self).tenant <;> rfl
  have hshared : (look heap' combined).query.where_.mentionsShared = true →
      (Expr.operator connector tenantId a b).Uncut → (Expr.operator connector tenantId a b).reachesShared model = true := by
    intro hmentions hcut
    obtain ⟨hacut, hbcut, horigin⟩ := hcut
    have hmentions' := hbuilt.shared hmentions
    rw [Expr.reachesShared]
    cases hcase : Expr.origin connector a b with
    | left =>
      rw [hcase] at hmentions'
      rcases hmentions' with hleft | hright
      · simp [uncut_isPlain hacut, ha.shared hleft hacut]
      · simp [uncut_isPlain hacut, hb.shared hright hbcut]
    | right =>
      rw [hcase] at hmentions'
      exact hb.shared hmentions' hbcut
    | base => exact absurd hcase horigin
  have hflag := hbuilt.flag
  dsimp only at hflag hmark
  split at hmark
  case isTrue hsome =>
    rw [hplain] at hsome
    subst hmark
    obtain ⟨-, hquery, htenant, hmarked⟩ := combinedOf_spec hgiven hother
    refine ⟨?_, ?_, ?_, ?_, by rwa [hquery]⟩
    · rw [hquery]
      exact hbuilt.isEmpty
    · rw [hquery]
      exact hbuilt.marks
    · rw [htenant]
      exact hbuilt.isPlain
    · rw [hmarked, hbuilt.isPlain, hflag, Expr.reachesShared, Expr.isPlain, hb.flag]
      cases horigin : Expr.origin connector a b with
      | left => simp [ha.flag]
      | right =>
        cases hbplain : b.isPlain model with
        | true =>
          have hnone := includingShared_none (hb.isPlain.trans hbplain)
          rw [hb.flag] at hnone
          simp [hnone]
        | false => simp
      | base => cases hbase : model.baseManager <;> simp_all
  case isFalse hsome =>
    obtain hp : a.isPlain model = true := by simpa [hplain] using hsome
    subst hmark
    refine ⟨hbuilt.isEmpty, hbuilt.marks, hbuilt.isPlain, ?_, hshared⟩
    rw [hflag, Expr.reachesShared]
    cases horigin : Expr.origin connector a b with
    | left =>
      have hnone := includingShared_none (ha.isPlain.trans hp)
      simp [hnone, hp]
    | right => exact hb.flag
    | base => simp [hp]

/-! ## Evaluation -/

/-- **What an expression gives**, on any heap: an object as the expression says, and no
change to the objects that are there. -/
theorem eval_spec [DecidableEq τ] {r : ℕ × Heap ρ τ} (h : e.eval model heap = .ok r) :
    Result heap r ∧ Matches model e (look r.2 r.1) := by
  induction e generalizing heap r with
  | objects tenantId =>
    obtain rfl := Except.ok.inj h
    refine ⟨push_result, ?_⟩
    rw [push, look_push]
    cases tenantId with
    | none => exact ⟨rfl, rfl, rfl, rfl, fun hshared _ => hshared⟩
    | some tenantId => exact ⟨rfl, rfl, rfl, rfl, fun hshared _ => hshared⟩
  | includingShared =>
    rw [Expr.eval] at h
    unfold Model.includingShared at h
    split at h
    · obtain rfl := Except.ok.inj h
      refine ⟨push_result, ?_⟩
      rw [push, look_push]
      exact ⟨rfl, rfl, rfl, rfl, fun _ _ => rfl⟩
    · cases h
  | method e call ih =>
    rw [Expr.eval] at h
    cases he : e.eval model heap with
    | error refusal =>
      rw [he] at h
      cases h
    | ok r' =>
      rw [he] at h
      obtain ⟨hresult, hmatches⟩ := ih he
      have hcall : call.call model r'.1 r'.2 = .ok r := h
      obtain ⟨hresult', hmatches'⟩ := call_spec hcall hmatches
      exact ⟨hresult.trans hresult', hmatches'⟩
  | operator connector tenantId a b iha ihb =>
    rw [Expr.eval] at h
    cases ha : a.eval model heap with
    | error refusal =>
      rw [ha] at h
      cases h
    | ok ra =>
      rw [ha] at h
      obtain ⟨haresult, hamatches⟩ := iha ha
      cases hb : b.eval model ra.2 with
      | error refusal =>
        simp only [bind, Except.bind, hb] at h
        cases h
      | ok rb =>
        simp only [bind, Except.bind, hb] at h
        have hop' : Combined.operator model connector tenantId ra.1 rb.1 rb.2 = .ok r := h
        obtain ⟨hbresult, hbmatches⟩ := ihb hb
        -- The right operand's evaluation has not touched the left operand.
        have hleft : look rb.2 ra.1 = look ra.2 ra.1 := look_prefix hbresult.held haresult.lt
        have hlt : ra.1 < rb.2.length := Nat.lt_of_lt_of_le haresult.lt hbresult.held.length_le
        rw [← hleft] at hamatches
        exact ⟨(haresult.trans hbresult).trans (operator_result hop' hlt hbresult.lt),
          operator_spec hop' hamatches hbmatches hlt hbresult.lt⟩

/-! ## Shared rows -/

/-- A queryset can return a row through an `including_shared()` operand. -/
def QuerySet.CanReturnShared [DecidableEq ρ] (qs : QuerySet ρ τ) : Prop :=
  ∃ table row, row ∈ qs.query.rows table ∧ qs.query.where_.through table row = true

/-- The result of an expression can. -/
def Expr.CanReturnShared [DecidableEq ρ] [DecidableEq τ] (model : Model ρ τ) (e : Expr ρ τ) : Prop :=
  ∃ heap ref heap', e.eval model heap = .ok (ref, heap') ∧ (look heap' ref).CanReturnShared

/-- Every write raises `TypeError`. -/
def QuerySet.RefusesWrites (model : Model ρ τ) (qs : QuerySet ρ τ) : Prop :=
  ∀ method, ∃ message, qs.write model method = .error (.typeError message)

theorem refusesWrites_iff : qs.RefusesWrites model ↔ qs.includingShared = true := by
  unfold QuerySet.RefusesWrites QuerySet.includingShared QuerySet.write
  cases htenant : qs.tenant with
  | none =>
    -- Django itself locks the rows of any slice.
    constructor
    · intro h
      obtain ⟨message, hmessage⟩ := h .selectForUpdate
      cases hmessage
    · intro h
      cases h
  | some state =>
    cases hflag : state.rlsIncludingShared with
    | true =>
      constructor
      · intro _
        simp [hflag]
      · intro _ method
        simp only [refuseOnSharedRows, hflag, if_true]
        exact ⟨_, rfl⟩
    | false =>
      constructor
      · intro h
        obtain ⟨message, hmessage⟩ := h .selectForUpdate
        simp only [refuseOnSharedRows, hflag] at hmessage
        cases hmessage
      · intro h
        simp [hflag] at h

theorem through_mentions [DecidableEq ρ] {where_ : Where ρ} {table : List ρ} {row : ρ}
    (h : where_.through table row = true) : where_.mentionsShared = true := by
  induction where_ with
  | rows shared => exact h
  | keep condition => cases h
  | nothing => cases h
  | and a b iha ihb =>
    simp only [Where.through, Bool.and_eq_true, Bool.or_eq_true] at h
    rw [Where.mentionsShared, Bool.or_eq_true]
    exact h.2.imp iha ihb
  | or a b iha ihb =>
    simp only [Where.through, Bool.or_eq_true] at h
    rw [Where.mentionsShared, Bool.or_eq_true]
    exact h.imp iha ihb
  | xor a b iha ihb =>
    simp only [Where.through, Bool.and_eq_true, Bool.or_eq_true] at h
    rw [Where.mentionsShared, Bool.or_eq_true]
    exact h.imp (fun hleft => iha hleft.1) fun hright => ihb hright.1
  | pkIn where_ orderBy lowMark highMark ih =>
    simp only [Where.through, Bool.and_eq_true] at h
    exact ih h.2

/-- Without a sliced left operand of `|` or `^`, what can return shared rows is marked. -/
theorem uncut_reaches [DecidableEq ρ] [DecidableEq τ] (hcut : e.Uncut) (h : e.CanReturnShared model) :
    e.reachesShared model = true := by
  obtain ⟨heap, ref, heap', heval, table, row, -, hthrough⟩ := h
  exact (eval_spec heval).2.shared (through_mentions hthrough) hcut

/-- **Shared rows are read-only.** No operator changes a queryset that the caller holds. A
result that can return a row through an `including_shared()` operand refuses every write,
exactly when such an operand reaches it outside the sliced left operands of `|` and `^`;
and with no sliced left operand, one does. -/
theorem shared_rows_refuse_iff [DecidableEq ρ] [DecidableEq τ] (model : Model ρ τ) (e : Expr ρ τ) :
    (∀ connector tenantId self other heap r, self < heap.length → other < heap.length →
      operator model connector tenantId self other heap = .ok r → heap <+: r.2) ∧
    ((∀ heap ref heap', e.eval model heap = .ok (ref, heap') →
        (look heap' ref).CanReturnShared → (look heap' ref).RefusesWrites model) ↔
      (e.CanReturnShared model → e.reachesShared model = true)) ∧
    (e.Uncut → e.CanReturnShared model → e.reachesShared model = true) := by
  refine ⟨fun _ _ _ _ _ _ hself hother hop => (operator_result hop hself hother).held, ⟨?_, ?_⟩, uncut_reaches⟩
  · rintro h ⟨heap, ref, heap', heval, hshared⟩
    have hrefuses := h heap ref heap' heval hshared
    rw [← (eval_spec heval).2.flag]
    exact refusesWrites_iff.mp hrefuses
  · intro h heap ref heap' heval hshared
    rw [refusesWrites_iff, (eval_spec heval).2.flag]
    exact h ⟨heap, ref, heap', heval, hshared⟩

/-- Notes: the number of a row and its tenant. -/
def notes : Model (ℕ × ℕ) ℕ where
  name := "Note"
  label := "notes.Note"
  tenantOf row := some row.2
  baseManager := .plain
  sharesRows := true

/-- `Note.objects.all()[:1] | Note.objects.including_shared()` -/
def sliceOrShared : Expr (ℕ × ℕ) ℕ :=
  .operator .or (some 1) (.method (.objects (some 1)) (.slice none (some 1))) .includingShared

/-- It returns the row of another tenant, and Django deletes it. -/
theorem sliceOrShared_deletes :
    (sliceOrShared.eval notes []).toOption.map (fun r => (look r.2 r.1).query.rows [(1, 1), (2, 2)]) =
        some [(1, 1), (2, 2)] ∧
      (sliceOrShared.eval notes []).toOption.map (fun r => (look r.2 r.1).query.where_.through [(1, 1), (2, 2)] (2, 2)) =
        some true ∧
      (sliceOrShared.eval notes []).toOption.map (fun r => (look r.2 r.1).write notes .delete) = some (.ok ()) := by
  decide

end Combined

end RlsTenants
