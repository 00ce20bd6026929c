import Mathlib.Data.List.Nodup
import RlsTenants.Proof.Validation
import RlsTenants.Spec.Serializer

/-!
# What a serializer's errors reveal

* `converted_errors`: the errors of the fields are their own.
* `foldl_extend`: the errors of `validate()`, by key.
* `reported_iff`: the error of a foreign key is DRF's error of its field exactly if the field
  shows what was sent.
* `failed_alike_iff`, `passed_alike_iff`: when the answers for a target and for none agree, if
  some field fails and if none does.
* `target_hidden_iff`: a target gets the answer of one that does not exist exactly when the
  field's queryset hides it, or nothing else is wrong and the texts agree.
-/

namespace RlsTenants

namespace Validation.Drf

variable {τ ρ ν σ : Type} {S : Schema τ ρ ν} {s : Serializer S σ} {request : Request σ ρ ν}
  {f g : SerializerField σ ρ ν} {attrs : Attrs ρ ν}

/-! ## Errors of the fields -/

/-- The error of one field. -/
def fieldError (s : Serializer S σ) (request : Request σ ρ ν) (f : SerializerField σ ρ ν) : Option (List ErrorDetail) :=
  match f.run s (request f.name) with
  | .ok _ => none
  | .error e => some e

theorem convert_errors (acc : Attrs ρ ν × Errors) (name : String) :
    (s.convert request acc f).2 name = if f.name = name then (fieldError s request f).or (acc.2 name) else acc.2 name := by
  unfold Serializer.convert fieldError
  rcases f.run s (request f.name) with e | _ | value
  · by_cases hname : f.name = name
    · subst hname
      simp
    · have hne : name ≠ f.name := fun h => hname h.symm
      simp [hname, hne]
  · simp
  · simp

/-- Errors of other fields leave a field's error. -/
theorem foldl_convert_notMem {l : List (SerializerField σ ρ ν)} {acc : Attrs ρ ν × Errors} {name : String}
    (h : ∀ g ∈ l, g.name ≠ name) : (l.foldl (s.convert request) acc).2 name = acc.2 name := by
  induction l generalizing acc with
  | nil => rfl
  | cons g l ih =>
    rw [List.foldl_cons, ih fun g' hg' => h g' (List.mem_cons_of_mem _ hg'), convert_errors,
      if_neg (h g List.mem_cons_self)]

theorem foldl_convert_mem {l : List (SerializerField σ ρ ν)} {acc : Attrs ρ ν × Errors} (hf : f ∈ l)
    (hnodup : (l.map (·.name)).Nodup) (hacc : acc.2 f.name = none) :
    (l.foldl (s.convert request) acc).2 f.name = fieldError s request f := by
  induction l generalizing acc with
  | nil => cases hf
  | cons g l ih =>
    rw [List.map_cons, List.nodup_cons] at hnodup
    rw [List.foldl_cons]
    rcases List.mem_cons.mp hf with rfl | hf
    · have hrest : ∀ g ∈ l, g.name ≠ f.name := by
        intro g hg hname
        exact hnodup.1 (List.mem_map.mpr ⟨g, hg, hname⟩)
      rw [foldl_convert_notMem hrest, convert_errors, if_pos rfl, hacc, Option.or_none]
    · have hne : g.name ≠ f.name := fun hname => hnodup.1 (List.mem_map.mpr ⟨f, hf, hname.symm⟩)
      apply ih hf hnodup.2
      rw [convert_errors, if_neg hne]
      exact hacc

theorem writable_nodup : (s.writable.map (·.name)).Nodup :=
  s.names_nodup.sublist (List.filter_sublist.map _)

/-- **The errors of the fields** are their own. -/
theorem converted_errors (hf : f ∈ s.writable) : (s.converted request).2 f.name = fieldError s request f :=
  foldl_convert_mem hf writable_nodup rfl

theorem converted_other {name : String} (h : ∀ g ∈ s.writable, g.name ≠ name) : (s.converted request).2 name = none :=
  foldl_convert_notMem h

theorem fieldError_none_iff : fieldError s request f = none ↔ (f.run s (request f.name)).isOk = true := by
  unfold fieldError
  cases f.run s (request f.name) with
  | error e => simp [Except.isOk, Except.toBool]
  | ok value => simp [Except.isOk, Except.toBool]

/-! ## Errors of `validate()` -/

/-- One error, of one field. -/
def single (name : String) (details : List ErrorDetail) : Errors := Function.update (fun _ => none) name (some details)

/-- The errors of `validate()`, by key. -/
theorem foldl_extend {α : Type} (key : α → String) (detail : α → ErrorDetail) (l : List α) (errors : Errors)
    (name : String) : (l.foldl (fun errors x => extend errors (key x) (detail x)) errors) name =
      if (l.filter fun x => key x = name) = [] then errors name
      else some ((errors name).getD [] ++ (l.filter fun x => key x = name).map detail) := by
  induction l generalizing errors with
  | nil => rfl
  | cons x l ih =>
    rw [List.foldl_cons, ih]
    unfold extend
    by_cases hkey : key x = name
    · subst hkey
      by_cases hrest : (l.filter fun y => key y = key x) = []
      · simp [hrest]
      · simp [hrest]
    · have hne : name ≠ key x := fun h => hkey h.symm
      simp [hkey, hne]

/-- One error comes from one foreign key. -/
theorem foldl_extend_single {α : Type} {key : α → String} {detail : α → ErrorDetail} {l : List α} {name : String}
    {d : ErrorDetail} : l.foldl (fun errors x => extend errors (key x) (detail x)) (fun _ => none) = single name [d] ↔
      ∃ x, l = [x] ∧ key x = name ∧ detail x = d := by
  constructor
  · intro h
    have hkeys : ∀ x ∈ l, key x = name := by
      intro x hx
      by_contra hne
      have hat := congrFun h (key x)
      have hfilter : (l.filter fun y => key y = key x) ≠ [] := by
        intro hnil
        have := List.filter_eq_nil_iff.mp hnil x hx
        simp at this
      rw [foldl_extend, if_neg hfilter, single, Function.update_of_ne hne] at hat
      cases hat
    have hall : (l.filter fun x => key x = name) = l := by
      rw [List.filter_eq_self]
      intro x hx
      simpa using hkeys x hx
    have hat := congrFun h name
    rw [foldl_extend, hall, single, Function.update_self] at hat
    split at hat
    · cases hat
    · have hmap : l.map detail = [d] := by simpa using hat
      obtain ⟨x, rfl, hdetail⟩ := List.map_eq_singleton_iff.mp hmap
      exact ⟨x, rfl, hkeys x List.mem_cons_self, hdetail⟩
  · rintro ⟨x, rfl, rfl, rfl⟩
    rfl

/-! ## A target that does not exist -/

variable {relation : Relation σ} {sent : σ} {row : ρ} {shown : Bool}

theorem withoutTarget_other {name : String} (h : g.name ≠ name) :
    request.withoutTarget name sent g.name = request g.name := Function.update_of_ne h _ _

/-- Its field fails, with DRF's error. -/
theorem run_withoutTarget (hrel : f.relation = some relation) :
    f.run s (request.withoutTarget f.name sent f.name) = .error [relation.doesNotExist s sent] := by
  unfold SerializerField.run Request.withoutTarget
  rw [Function.update_self, hrel]

theorem fieldError_withoutTarget (hrel : f.relation = some relation) :
    fieldError s (request.withoutTarget f.name sent) f = some [relation.doesNotExist s sent] := by
  rw [fieldError, run_withoutTarget hrel]

theorem run_names (hrel : f.relation = some relation) (hsent : request f.name = .names sent (some row) shown) :
    f.run s (request f.name) =
      if shown then (f.accepts row).map some else .error [relation.doesNotExist s sent] := by
  unfold SerializerField.run
  rw [hsent, hrel]

/-- Every other writable field takes what it was sent. -/
def OthersPass (s : Serializer S σ) (request : Request σ ρ ν) (f : SerializerField σ ρ ν) : Prop :=
  ∀ g ∈ s.writable, g.name ≠ f.name → (g.run s (request g.name)).isOk = true

theorem field_unique (hf : f ∈ s.writable) (hg : g ∈ s.writable) (h : g.name = f.name) : g = f :=
  List.inj_on_of_nodup_map writable_nodup hg hf h

theorem toInternalValue_error (hf : f ∈ s.writable) (h : (f.run s (request f.name)).isOk = false) :
    s.toInternalValue request = .error (s.converted request).2 := by
  have hfails : s.fails request = true := by
    unfold Serializer.fails
    rw [List.any_eq_true]
    exact ⟨f, hf, by rw [h]; rfl⟩
  rw [Serializer.toInternalValue, if_pos hfails]

theorem toInternalValue_ok (h : ∀ g ∈ s.writable, (g.run s (request g.name)).isOk = true) :
    s.toInternalValue request = .ok (s.converted request).1 := by
  have hfails : s.fails request ≠ true := by
    unfold Serializer.fails
    intro hany
    obtain ⟨g, hg, hnot⟩ := List.any_eq_true.mp hany
    rw [h g hg] at hnot
    cases hnot
  rw [Serializer.toInternalValue, if_neg hfails]

/-- Two requests that differ in one field have the same errors exactly when that field does. -/
theorem converted_errors_iff (hf : f ∈ s.writable) {request' : Request σ ρ ν}
    (hother : ∀ g : SerializerField σ ρ ν, g.name ≠ f.name → request' g.name = request g.name) :
    (s.converted request).2 = (s.converted request').2 ↔ fieldError s request f = fieldError s request' f := by
  constructor
  · intro h
    have hat := congrFun h f.name
    rwa [converted_errors hf, converted_errors hf] at hat
  · intro h
    funext name
    by_cases hwritten : ∃ g ∈ s.writable, g.name = name
    · obtain ⟨g, hg, rfl⟩ := hwritten
      rw [converted_errors hg, converted_errors hg]
      by_cases hname : g.name = f.name
      · rw [field_unique hf hg hname]
        exact h
      · unfold fieldError
        rw [hother g hname]
    · have hnone : ∀ g ∈ s.writable, g.name ≠ name := fun g hg hname => hwritten ⟨g, hg, hname⟩
      rw [converted_other hnone, converted_other hnone]

/-- The only error of a request. -/
theorem converted_single (hf : f ∈ s.writable) (hothers : OthersPass s request f) {details : List ErrorDetail}
    (herror : fieldError s request f = some details) : (s.converted request).2 = single f.name details := by
  funext name
  by_cases hwritten : ∃ g ∈ s.writable, g.name = name
  · obtain ⟨g, hg, rfl⟩ := hwritten
    rw [converted_errors hg]
    by_cases hname : g.name = f.name
    · rw [field_unique hf hg hname, herror, single, Function.update_self]
    · rw [single, Function.update_of_ne hname, fieldError_none_iff]
      exact hothers g hg hname
  · have hnone : ∀ g ∈ s.writable, g.name ≠ name := fun g hg hname => hwritten ⟨g, hg, hname⟩
    have hne : name ≠ f.name := fun hname => hnone f hf hname.symm
    rw [converted_other hnone, single, Function.update_of_ne hne]

/-! ## The texts -/

/-- DRF's error shows the value that was sent: no `pk_field` changes what is shown. -/
def Relation.ShowsSent (s : Serializer S σ) (sent : σ) : Relation σ → Prop
  | .primaryKey pkField message => message (s.str ((pkField.getD id) sent)) = message (s.str sent)
  | .slug _ => True
  | .hyperlink _ => True

/-- The texts agree exactly if the field shows what was sent. -/
theorem doesNotExist_eq_iff {x : Target S} (hrel : f.relation = some relation) :
    s.doesNotExist (some f) x (some sent) = relation.doesNotExist s sent ↔ relation.ShowsSent s sent := by
  unfold Serializer.doesNotExist Relation.doesNotExist Relation.ShowsSent
  rw [Option.bind_some, hrel]
  cases relation with
  | primaryKey pkField message =>
    simp only [ErrorDetail.mk.injEq, and_true]
    exact eq_comm
  | slug message => simp
  | hyperlink message => simp

theorem fieldOf_mem {y : Field S} (h : s.fieldOf y = some g) : g ∈ s.writable := by
  unfold Serializer.fieldOf Serializer.sources at h
  rcases Option.or_eq_some_iff.mp h with h | ⟨-, h⟩
  · exact List.mem_reverse.mp (List.mem_of_find?_eq_some h)
  · exact List.mem_reverse.mp (List.mem_of_find?_eq_some h)

/-- **A foreign key's error is that of no object** exactly if the field reports it and shows
what was sent. -/
theorem reported_iff {x : Target S} (hf : f ∈ s.writable) (hrel : f.relation = some relation)
    (hsent : request f.name = .names sent (some row) shown) :
    s.errorKey x = f.name ∧ s.errorOf request x = relation.doesNotExist s sent ↔
      s.fieldOf x.field = some f ∧ relation.ShowsSent s sent := by
  unfold Serializer.errorKey Serializer.errorOf
  cases hfield : s.fieldOf x.field with
  | none =>
    -- The error is the model field's `invalid`.
    have hcode : (s.doesNotExist none x none).code ≠ (relation.doesNotExist s sent).code := by
      cases relation <;> simp [Serializer.doesNotExist, Relation.doesNotExist]
    constructor
    · rintro ⟨-, h⟩
      exact absurd (congrArg ErrorDetail.code h) hcode
    · rintro ⟨h, -⟩
      cases h
  | some g =>
    dsimp only
    rw [Option.some.injEq, Option.bind_some]
    constructor
    · rintro ⟨hname, h⟩
      obtain rfl := field_unique hf (fieldOf_mem hfield) hname
      rw [hsent] at h
      exact ⟨rfl, (doesNotExist_eq_iff hrel).mp h⟩
    · rintro ⟨rfl, hshows⟩
      rw [hsent]
      exact ⟨rfl, (doesNotExist_eq_iff hrel).mpr hshows⟩

/-! ## The answers -/

variable [DecidableEq ν] {D : Database S} {audit : AuditLog}

/-- The checks after the fields: the serializer's validators, then the tenants of the
targets. -/
def Serializer.checked (s : Serializer S σ) (D : Database S) (audit : AuditLog) (attrs : Attrs ρ ν) :
    Except Errors (List (Target S)) := do
  s.validators attrs
  s.mismatched D audit attrs

/-- Of the targets that the row will have, `x` alone is not the row's tenant's. -/
def AloneElsewhere (s : Serializer S σ) (D : Database S) (attrs : Attrs ρ ν) (x : Target S) : Prop :=
  ∃ tenantField foreignKeys tenantId targets, s.model.checkedForeignKeys = some (tenantField, foreignKeys) ∧
    tenantField.toPython (s.tenantValue attrs tenantField) = .ok (some tenantId) ∧
    s.targets attrs (s.moved attrs tenantField tenantId) foreignKeys = .ok targets ∧
    targets.filter (fun y => y.tenants D ≠ [some tenantId]) = [x]

theorem mismatched_iff (audit : AuditLog) {x : Target S} : s.mismatched D audit attrs = .ok [x] ↔ AloneElsewhere s D attrs x := by
  unfold Serializer.mismatched AloneElsewhere
  constructor
  · intro h
    split at h
    next => cases h
    next tenantField foreignKeys hchecked =>
      split at h
      next => cases h
      next => cases h
      next tenantId htenant =>
        split at h
        next => cases h
        next targets htargets => exact ⟨tenantField, foreignKeys, tenantId, targets, hchecked, htenant, htargets, Except.ok.inj h⟩
  · rintro ⟨tenantField, foreignKeys, tenantId, targets, hchecked, htenant, htargets, halone⟩
    rw [hchecked]
    dsimp only
    rw [htenant]
    dsimp only
    rw [htargets]
    exact congrArg Except.ok halone

theorem checked_iff {x : Target S} : s.checked D audit attrs = .ok [x] ↔
    s.validators attrs = .ok () ∧ AloneElsewhere s D attrs x := by
  unfold Serializer.checked
  rw [← mismatched_iff audit]
  cases hvalidators : s.validators attrs with
  | error errors => simp [bind, Except.bind]
  | ok _ => simp [bind, Except.bind]

theorem validators_of_checked {mismatched : List (Target S)} (h : s.checked D audit attrs = .ok mismatched) :
    s.validators attrs = .ok () := by
  unfold Serializer.checked at h
  cases hvalidators : s.validators attrs with
  | error errors => simp [bind, Except.bind, hvalidators] at h
  | ok _ => rfl

/-- When a target is answered like one that does not exist: the field's queryset hides it;
or the field's own validators say just that; or no other field is wrong, and what follows
says just that: one foreign key, of this field, with the same text. -/
inductive Hidden (s : Serializer S σ) (D : Database S) (audit : AuditLog) (request : Request σ ρ ν)
    (f : SerializerField σ ρ ν) (error : ErrorDetail) (row : ρ) (shown : Bool) : Prop
  | unseen (h : shown = false)
  | rejected (h : f.accepts row = .error [error])
  | refused {value} (hothers : OthersPass s request f) (hrow : f.accepts row = .ok value)
      (h : s.checked D audit (s.converted request).1 = .error (single f.name [error]))
  | alone {value x} (hothers : OthersPass s request f) (hrow : f.accepts row = .ok value)
      (hvalid : s.validators (s.converted request).1 = .ok ()) (h : AloneElsewhere s D (s.converted request).1 x)
      (hkey : s.errorKey x = f.name) (htext : s.errorOf request x = error)

/-! ### The two answers -/

theorem runValidation_error {errors : Errors} (h : s.toInternalValue request = .error errors) :
    answer (s.runValidation D request audit) = (false, errors) := by
  unfold Serializer.runValidation
  rw [h]
  rfl

/-- What follows the fields, as an answer. -/
theorem runValidation_ok (h : s.toInternalValue request = .ok attrs) :
    answer (s.runValidation D request audit) =
      match s.checked D audit attrs with
      | .error errors => (false, errors)
      | .ok [] => (true, fun _ => none)
      | .ok (x :: rest) =>
        (false, (x :: rest).foldl (fun errors y => extend errors (s.errorKey y) (s.errorOf request y)) fun _ => none) := by
  unfold Serializer.runValidation Serializer.checked
  rw [h]
  cases hvalidators : s.validators attrs with
  | error errors => simp [bind, Except.bind, hvalidators, answer]
  | ok _ =>
    simp only [bind, Except.bind, hvalidators]
    unfold Serializer.validate
    rcases hmismatched : s.mismatched D audit attrs with errors | _ | ⟨x, rest⟩
    · simp [answer]
    · simp [answer]
    · simp [answer]

/-- One field fails, and the answer is the errors of the fields. -/
theorem answer_failed (hf : f ∈ s.writable) (h : (f.run s (request f.name)).isOk = false) :
    answer (s.runValidation D request audit) = (false, (s.converted request).2) :=
  runValidation_error (toInternalValue_error hf h)

theorem answer_withoutTarget (hf : f ∈ s.writable) (hrel : f.relation = some relation) :
    answer (s.runValidation D (request.withoutTarget f.name sent) audit) =
      (false, (s.converted (request.withoutTarget f.name sent)).2) := by
  apply answer_failed hf
  rw [run_withoutTarget hrel]
  rfl

/-- The answers are equal. -/
def AnsweredAlike (s : Serializer S σ) (D : Database S) (audit : AuditLog) (request : Request σ ρ ν)
    (f : SerializerField σ ρ ν) (sent : σ) : Prop :=
  answer (s.runValidation D request audit) = answer (s.runValidation D (request.withoutTarget f.name sent) audit)

/-- **Some field fails**: then the answers agree exactly if the target's field has DRF's error
for no object. -/
theorem failed_alike_iff (hf : f ∈ s.writable) (hrel : f.relation = some relation) (hg : g ∈ s.writable)
    (hfail : (g.run s (request g.name)).isOk = false) :
    AnsweredAlike s D audit request f sent ↔ fieldError s request f = some [relation.doesNotExist s sent] := by
  have hother : ∀ g' : SerializerField σ ρ ν, g'.name ≠ f.name →
      request.withoutTarget f.name sent g'.name = request g'.name := fun _ => withoutTarget_other
  rw [AnsweredAlike, answer_failed hg hfail, answer_withoutTarget hf hrel, Prod.mk.injEq, converted_errors_iff hf hother,
    fieldError_withoutTarget hrel]
  exact ⟨fun h => h.2, fun h => ⟨rfl, h⟩⟩

/-- The checks that follow the fields say just one thing, of one field. -/
def SaysJust (s : Serializer S σ) (D : Database S) (audit : AuditLog) (request : Request σ ρ ν) (name : String)
    (error : ErrorDetail) : Prop :=
  s.checked D audit (s.converted request).1 = .error (single name [error]) ∨
    ∃ x, s.checked D audit (s.converted request).1 = .ok [x] ∧ s.errorKey x = name ∧ s.errorOf request x = error

/-- **No field fails**: then they agree exactly if the checks that follow say just that. -/
theorem passed_alike_iff (hf : f ∈ s.writable) (hrel : f.relation = some relation)
    (hok : (f.run s (request f.name)).isOk = true) (hothers : OthersPass s request f) :
    AnsweredAlike s D audit request f sent ↔ SaysJust s D audit request f.name (relation.doesNotExist s sent) := by
  have hall : ∀ g ∈ s.writable, (g.run s (request g.name)).isOk = true := by
    intro g hg
    by_cases hname : g.name = f.name
    · rw [field_unique hf hg hname]
      exact hok
    · exact hothers g hg hname
  have hothers' : OthersPass s (request.withoutTarget f.name sent) f := by
    intro g hg hname
    rw [withoutTarget_other hname]
    exact hothers g hg hname
  unfold AnsweredAlike SaysJust
  rw [answer_withoutTarget hf hrel, converted_single hf hothers' (fieldError_withoutTarget hrel),
    runValidation_ok (toInternalValue_ok hall)]
  rcases s.checked D audit (s.converted request).1 with errors | _ | ⟨x, rest⟩
  · simp
  · simp
  · dsimp only
    rw [Prod.mk.injEq, foldl_extend_single]
    simp

/-! ### The cases -/

theorem hidden_rejected_iff {details : List ErrorDetail} {error : ErrorDetail} (hrow : f.accepts row = .error details) :
    Hidden s D audit request f error row true ↔ details = [error] := by
  constructor
  · intro h
    cases h with
    | unseen h => cases h
    | rejected h =>
      rw [hrow] at h
      exact Except.error.inj h
    | refused _ hvalue _ =>
      rw [hrow] at hvalue
      cases hvalue
    | alone _ hvalue _ _ _ _ =>
      rw [hrow] at hvalue
      cases hvalue
  · rintro rfl
    exact .rejected hrow

theorem hidden_accepted_iff {value : AttrValue ρ ν} {error : ErrorDetail} (hrow : f.accepts row = .ok value) :
    Hidden s D audit request f error row true ↔ OthersPass s request f ∧ SaysJust s D audit request f.name error := by
  constructor
  · intro h
    cases h with
    | unseen h => cases h
    | rejected h =>
      rw [hrow] at h
      cases h
    | refused hothers _ h => exact ⟨hothers, .inl h⟩
    | alone hothers _ hvalid halone hkey htext =>
      exact ⟨hothers, .inr ⟨_, checked_iff.mpr ⟨hvalid, halone⟩, hkey, htext⟩⟩
  · rintro ⟨hothers, h | ⟨x, hchecked, hkey, htext⟩⟩
    · exact .refused hothers hrow h
    · obtain ⟨hvalid, halone⟩ := checked_iff.mp hchecked
      exact .alone hothers hrow hvalid halone hkey htext

/-- The field does not show the target. -/
theorem unseen_alike (hf : f ∈ s.writable) (hrel : f.relation = some relation)
    (hsent : request f.name = .names sent (some row) false) : AnsweredAlike s D audit request f sent := by
  have hrun : f.run s (request f.name) = .error [relation.doesNotExist s sent] := run_names hrel hsent
  rw [failed_alike_iff hf hrel hf (by rw [hrun]; rfl), fieldError, hrun]

/-- It rejects the target. -/
theorem rejected_alike_iff {details : List ErrorDetail} (hf : f ∈ s.writable) (hrel : f.relation = some relation)
    (hsent : request f.name = .names sent (some row) true) (hrow : f.accepts row = .error details) :
    AnsweredAlike s D audit request f sent ↔ details = [relation.doesNotExist s sent] := by
  have hrun : f.run s (request f.name) = .error details := by
    rw [run_names hrel hsent, if_pos rfl, hrow]
    rfl
  rw [failed_alike_iff hf hrel hf (by rw [hrun]; rfl), fieldError, hrun, Option.some.injEq]

/-- It accepts the target: then another field must not fail. -/
theorem accepted_alike_iff {value : AttrValue ρ ν} (hf : f ∈ s.writable) (hrel : f.relation = some relation)
    (hsent : request f.name = .names sent (some row) true) (hrow : f.accepts row = .ok value) :
    AnsweredAlike s D audit request f sent ↔
      OthersPass s request f ∧ SaysJust s D audit request f.name (relation.doesNotExist s sent) := by
  have hok : (f.run s (request f.name)).isOk = true := by
    rw [run_names hrel hsent, if_pos rfl, hrow]
    rfl
  by_cases hothers : OthersPass s request f
  · rw [passed_alike_iff hf hrel hok hothers]
    exact ⟨fun h => ⟨hothers, h⟩, fun h => h.2⟩
  · obtain ⟨g, hg, hfail⟩ : ∃ g ∈ s.writable, (g.run s (request g.name)).isOk = false := by
      unfold OthersPass at hothers
      simp only [not_forall] at hothers
      obtain ⟨g, hg, -, hfail⟩ := hothers
      exact ⟨g, hg, by simpa using hfail⟩
    -- The target's field has no error, and `validate()` does not run.
    rw [failed_alike_iff hf hrel hg hfail, fieldError_none_iff.mpr hok]
    constructor
    · intro h
      cases h
    · exact fun h => absurd h.1 hothers

/-- **A target is hidden** from the client exactly under `Hidden`: it then gets the answer of
a target that does not exist. -/
theorem target_hidden_iff (s : Serializer S σ) (D : Database S) (audit : AuditLog) (request : Request σ ρ ν)
    {f : SerializerField σ ρ ν} {relation : Relation σ} {sent : σ} {row : ρ} {shown : Bool} (hf : f ∈ s.writable)
    (hrel : f.relation = some relation) (hsent : request f.name = .names sent (some row) shown) :
    answer (s.runValidation D request audit) =
        answer (s.runValidation D (request.withoutTarget f.name sent) audit) ↔
      Hidden s D audit request f (relation.doesNotExist s sent) row shown := by
  cases shown with
  | false => exact ⟨fun _ => .unseen rfl, fun _ => unseen_alike hf hrel hsent⟩
  | true =>
    cases hrow : f.accepts row with
    | error details =>
      rw [hidden_rejected_iff hrow]
      exact rejected_alike_iff hf hrel hsent hrow
    | ok value =>
      rw [hidden_accepted_iff hrow]
      exact accepted_alike_iff hf hrel hsent hrow

/-- **The foreign keys decide**: where the field accepts the target, no other field fails and
`validate()` gets to the foreign keys, the target is hidden exactly if it alone is not of the
row's tenant and its field, which reports it, shows what was sent. -/
theorem foreignKeys_alike_iff {value : AttrValue ρ ν} {mismatched : List (Target S)} (hf : f ∈ s.writable)
    (hrel : f.relation = some relation) (hsent : request f.name = .names sent (some row) true)
    (hrow : f.accepts row = .ok value) (hothers : OthersPass s request f)
    (hchecked : s.checked D audit (s.converted request).1 = .ok mismatched) :
    AnsweredAlike s D audit request f sent ↔
      ∃ x, AloneElsewhere s D (s.converted request).1 x ∧ s.fieldOf x.field = some f ∧ relation.ShowsSent s sent := by
  rw [accepted_alike_iff hf hrel hsent hrow]
  constructor
  · rintro ⟨-, h | ⟨x, hx, hreported⟩⟩
    · rw [hchecked] at h
      cases h
    · exact ⟨x, (checked_iff.mp hx).2, (reported_iff hf hrel hsent).mp hreported⟩
  · rintro ⟨x, halone, hreported⟩
    have hvalid : s.validators (s.converted request).1 = .ok () := validators_of_checked hchecked
    exact ⟨hothers, .inr ⟨x, checked_iff.mpr ⟨hvalid, halone⟩, (reported_iff hf hrel hsent).mpr hreported⟩⟩

/-! ## A line's serializer -/

/-- `PrimaryKeyRelatedField(queryset=Order.objects.all())`, whose `pk_field` drops a leading
zero, if it has one. -/
def orderField (pkField : Option (String → String)) : SerializerField String (ℕ × ℕ) ℕ where
  name := "order"
  source := "order"
  readOnly := false
  relation := some (.primaryKey pkField fun pk => "Invalid pk \"" ++ pk ++ "\" - object does not exist.")
  accepts row := .ok (.object row)

def amountField : SerializerField String (ℕ × ℕ) ℕ where
  name := "amount"
  source := "amount"
  readOnly := false
  relation := none
  accepts row := .ok (.object row)

/-- A serializer for a line of tenant 1. -/
def lineSerializer (pkField : Option (String → String)) : Serializer shop String where
  model := line fun _ => []
  fields := [orderField pkField, amountField]
  instance_ := some (lineOf 1 5)
  validators _ := .ok ()
  str := id
  strValue := toString
  render e := e.message
  names_nodup := by simp [orderField, amountField]

/-- An update of the order and the amount, in a context that shows every order. -/
def lineRequest (sent : String) (order : ℕ × ℕ) (amount : Except (List ErrorDetail) (Option (AttrValue (ℕ × ℕ) ℕ))) :
    Request String (ℕ × ℕ) ℕ :=
  fun name => if name = "order" then .names sent (some order) true else .answer none amount

def shopOrders : Database shop := shopOf [(5, 1), (7, 2)] (by decide)

/-- With a valid amount, the order of tenant 2 is answered like one that does not exist. -/
theorem target_hidden_line :
    answer ((lineSerializer none).runValidation shopOrders (lineRequest "7" (7, 2) (.ok none)) .off) =
      answer ((lineSerializer none).runValidation shopOrders
        ((lineRequest "7" (7, 2) (.ok none)).withoutTarget "order" "7") .off) := by
  have hwritable : orderField none ∈ (lineSerializer none).writable := by
    simp [Serializer.writable, lineSerializer, orderField]
  refine (target_hidden_iff (lineSerializer none) shopOrders .off (lineRequest "7" (7, 2) (.ok none)) hwritable rfl
    rfl).mpr ?_
  have halone : AloneElsewhere (lineSerializer none) shopOrders
      ((lineSerializer none).converted (lineRequest "7" (7, 2) (.ok none))).1
      ⟨shopField "order" fun _ => [], shopKey "order", 7⟩ :=
    ⟨_, _, 1, [⟨shopField "order" fun _ => [], shopKey "order", 7⟩], line_checked _, rfl, rfl, rfl⟩
  refine .alone ?_ rfl rfl halone rfl rfl
  intro g hg hname
  obtain rfl : g = amountField := by
    have hmem : g = orderField none ∨ g = amountField := by
      simpa [Serializer.writable, lineSerializer, orderField, amountField] using hg
    rcases hmem with rfl | rfl
    · exact absurd rfl hname
    · rfl
  rfl

/-- With an invalid amount, the order of tenant 2 gets no error; and with a `pk_field`, it
gets another text than an order that does not exist. -/
theorem line_reveals_order :
    let tooMuch : Except (List ErrorDetail) (Option (AttrValue (ℕ × ℕ) ℕ)) := .error [⟨"Too much.", "invalid"⟩]
    ((answer ((lineSerializer none).runValidation shopOrders (lineRequest "7" (7, 2) tooMuch) .off)).2 "order" = none ∧
      (answer ((lineSerializer none).runValidation shopOrders
          ((lineRequest "7" (7, 2) tooMuch).withoutTarget "order" "7") .off)).2 "order" =
        some [⟨"Invalid pk \"7\" - object does not exist.", "does_not_exist"⟩]) ∧
    let drops : Option (String → String) := some fun sent => if sent = "07" then "7" else sent
    (answer ((lineSerializer drops).runValidation shopOrders (lineRequest "07" (7, 2) (.ok none)) .off)).2 "order" =
        some [⟨"Invalid pk \"07\" - object does not exist.", "does_not_exist"⟩] ∧
      (answer ((lineSerializer drops).runValidation shopOrders
          ((lineRequest "07" (7, 2) (.ok none)).withoutTarget "order" "07") .off)).2 "order" =
        some [⟨"Invalid pk \"7\" - object does not exist.", "does_not_exist"⟩] := by
  decide

end Validation.Drf

end RlsTenants
