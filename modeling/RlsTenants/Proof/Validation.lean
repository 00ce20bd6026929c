import Mathlib.Data.List.Nodup
import RlsTenants.Spec.Validation

/-!
# Validation does not reveal other tenants' rows

* `django_at`: what Django makes of one field.
* `tenants_eq`: the library's lookup says whether the tenant has a row with the value.
* `cleanFields_at`: the errors of one foreign key, whoever reports them.
* `validation_is_private`: databases that agree on the tenant's rows give the same errors.
-/

namespace RlsTenants

namespace Validation

variable {τ ρ ν : Type} [DecidableEq ν] {S : Schema τ ρ ν} {D D' : Database S} {sees : τ → ρ → Bool}
  {exclude : List String} {m : Model S} {inst : Instance ν} {f : Field S} {k : ForeignKey S} {T : ν}

/-! ## Django's part -/

/-- What Django makes of a field: its errors, and the value it then has. -/
def Field.outcome (D : Database S) (sees : τ → ρ → Bool) (exclude : List String) (f : Field S) (raw : Option ν) :
    Option (List (FieldError ν)) × Option ν :=
  if f.name ∈ exclude ∨ f.skipped raw then (none, raw)
  else
    match f.clean D sees raw with
    | .ok v => (none, v)
    | .error e => (some e, raw)

theorem cleanIn_other (D : Database S) (sees : τ → ρ → Bool) (exclude : List String) (s : Errors ν × Instance ν)
    {n : String} (h : n ≠ f.name) :
    (f.cleanIn D sees exclude s).1 n = s.1 n ∧ (f.cleanIn D sees exclude s).2 n = s.2 n := by
  unfold Field.cleanIn
  split
  · exact ⟨rfl, rfl⟩
  · split
    · exact ⟨rfl, Function.update_of_ne h ..⟩
    · exact ⟨Function.update_of_ne h .., rfl⟩

theorem cleanIn_self {s : Errors ν × Instance ν} (h : s.1 f.name = none) :
    ((f.cleanIn D sees exclude s).1 f.name, (f.cleanIn D sees exclude s).2 f.name) =
      f.outcome D sees exclude (s.2 f.name) := by
  unfold Field.cleanIn Field.outcome
  by_cases hskip : f.name ∈ exclude ∨ f.skipped (s.2 f.name)
  · rw [if_pos hskip, if_pos hskip, h]
  · rw [if_neg hskip, if_neg hskip]
    cases f.clean D sees (s.2 f.name) with
    | ok v => simp [h]
    | error e => simp

theorem foldl_other (D : Database S) (sees : τ → ρ → Bool) (exclude : List String) (s : Errors ν × Instance ν)
    {n : String} {fields : List (Field S)} (h : n ∉ fields.map (·.name)) :
    (fields.foldl (Field.cleanIn D sees exclude) s).1 n = s.1 n ∧
      (fields.foldl (Field.cleanIn D sees exclude) s).2 n = s.2 n := by
  induction fields generalizing s with
  | nil => exact ⟨rfl, rfl⟩
  | cons f fields ih =>
    rw [List.map_cons, List.mem_cons, not_or] at h
    obtain ⟨h1, h2⟩ := ih (f.cleanIn D sees exclude s) h.2
    obtain ⟨h3, h4⟩ := cleanIn_other D sees exclude s h.1
    exact ⟨h1.trans h3, h2.trans h4⟩

theorem foldl_at {fields : List (Field S)} {s : Errors ν × Instance ν} (hf : f ∈ fields)
    (hnodup : (fields.map (·.name)).Nodup) (h : s.1 f.name = none) :
    ((fields.foldl (Field.cleanIn D sees exclude) s).1 f.name,
      (fields.foldl (Field.cleanIn D sees exclude) s).2 f.name) = f.outcome D sees exclude (s.2 f.name) := by
  induction fields generalizing s with
  | nil => cases hf
  | cons g fields ih =>
    rw [List.map_cons, List.nodup_cons] at hnodup
    rcases List.mem_cons.1 hf with rfl | hf
    · obtain ⟨h1, h2⟩ := foldl_other D sees exclude (f.cleanIn D sees exclude s) hnodup.1
      rw [List.foldl_cons, h1, h2]
      exact cleanIn_self h
    · have hne : f.name ≠ g.name := fun he => hnodup.1 (he ▸ List.mem_map_of_mem hf)
      obtain ⟨h1, h2⟩ := cleanIn_other D sees exclude s hne
      rw [List.foldl_cons, ih hf hnodup.2 (h1.trans h), h2]

/-- **One field.** Django's errors and the cleaned value of a field are its own. -/
theorem django_at (D : Database S) (sees : τ → ρ → Bool) (exclude : List String) (inst : Instance ν)
    (hf : f ∈ m.fields) :
    ((m.djangoCleanFields D sees exclude inst).1 f.name, (m.djangoCleanFields D sees exclude inst).2 f.name) =
      f.outcome D sees exclude (inst f.name) :=
  foldl_at hf m.names_nodup rfl

theorem django_errors (D : Database S) (sees : τ → ρ → Bool) (exclude : List String) (inst : Instance ν)
    (hf : f ∈ m.fields) :
    (m.djangoCleanFields D sees exclude inst).1 f.name = (f.outcome D sees exclude (inst f.name)).1 :=
  congrArg Prod.fst (django_at D sees exclude inst hf)

theorem django_other {n : String} (h : n ∉ m.fields.map (·.name)) :
    (m.djangoCleanFields D sees exclude inst).1 n = none :=
  (foldl_other _ _ _ _ h).1

/-- Cleaning does not change what a value converts to. -/
theorem outcome_toPython (D : Database S) (sees : τ → ρ → Bool) (exclude : List String) (f : Field S)
    (raw : Option ν) : f.toPython (f.outcome D sees exclude raw).2 = f.toPython raw := by
  unfold Field.outcome
  split
  · rfl
  · split
    · rename_i v hv
      unfold Field.clean at hv
      cases hp : f.toPython raw with
      | error e => simp [hp] at hv
      | ok w =>
        rw [hp] at hv
        dsimp only at hv
        split at hv
        · cases hv
        · split at hv
          · cases hv
          · obtain rfl : w = v := Except.ok.inj hv
            exact f.toPython_idem hp
    · rfl

/-- The cleaned value converts to what the raw value did. -/
theorem django_toPython (D : Database S) (sees : τ → ρ → Bool) (exclude : List String) (inst : Instance ν)
    (hf : f ∈ m.fields) :
    f.toPython ((m.djangoCleanFields D sees exclude inst).2 f.name) = f.toPython (inst f.name) := by
  have hvalue : (m.djangoCleanFields D sees exclude inst).2 f.name = (f.outcome D sees exclude (inst f.name)).2 :=
    congrArg Prod.snd (django_at D sees exclude inst hf)
  rw [hvalue, outcome_toPython]

theorem targetExists_iff {v : ν} : D.targetExists sees k v = true ↔
    ∃ r ∈ D.rows k.target, S.shows sees k.target r = true ∧ S.value k.target k.targetField r = some v ∧
      k.limitChoicesTo r = true := by
  simp [Database.targetExists, and_assoc]

/-- Two databases that both have the target, or both lack it, give a field the same outcome. -/
theorem outcome_congr {raw : Option ν}
    (h : ∀ k, f.foreignKey = some k → k.parentLink = false → ∀ v, f.toPython raw = .ok (some v) →
      D.targetExists sees k v = D'.targetExists sees k v) :
    f.outcome D sees exclude raw = f.outcome D' sees exclude raw := by
  have hvalidate : ∀ v, f.toPython raw = .ok v → f.validate D sees v = f.validate D' sees v := by
    intro v hv
    unfold Field.validate
    cases hk : f.foreignKey with
    | none => rfl
    | some k =>
      dsimp only
      cases hp : k.parentLink with
      | true => rfl
      | false =>
        cases v with
        | none => rfl
        | some v => simp only [h k hk hp v hv]
  unfold Field.outcome Field.clean
  cases hpy : f.toPython raw with
  | error e => rfl
  | ok v => simp only [hvalidate v hpy]

/-! ## The library's part -/

omit [DecidableEq ν] in
theorem Agree.hasRow {v : ν} (h : Agree T D D') : HasRow D T k v ↔ HasRow D' T k v := by
  constructor
  · rintro ⟨r, hr, ht, hv⟩
    exact ⟨r, (h.rows _ _ ht).1 hr, ht, hv⟩
  · rintro ⟨r, hr, ht, hv⟩
    exact ⟨r, (h.rows _ _ ht).2 hr, ht, hv⟩

omit [DecidableEq ν] in
/-- The only row with the value. -/
theorem unique_row {v : ν} {r r' : ρ} (hr : r ∈ D.rows k.target) (hr' : r' ∈ D.rows k.target)
    (hv : S.value k.target k.targetField r = some v) (hv' : S.value k.target k.targetField r' = some v) : r = r' :=
  D.unique_rows _ _ k.unique r hr r' hr' (hv.trans hv'.symm) (by simp [hv])

/-- **The lookup.** It finds the tenant exactly where the tenant has a row with the value. -/
theorem tenants_eq (x : Target S) : x.tenants D = [some T] ↔ HasRow D T x.foreignKey x.value := by
  unfold Target.tenants
  set rows := (D.rows x.foreignKey.target).filter fun r =>
    S.value x.foreignKey.target x.foreignKey.targetField r = some x.value with hrows
  have hmem : ∀ r, r ∈ rows ↔ r ∈ D.rows x.foreignKey.target ∧
      S.value x.foreignKey.target x.foreignKey.targetField r = some x.value := by
    intro r
    simp [hrows]
  constructor
  · intro h
    cases hl : rows with
    | nil => simp [hl] at h
    | cons r rest =>
      obtain ⟨hr, hv⟩ := (hmem r).1 (by simp [hl])
      exact ⟨r, hr, by simpa [hl] using h, hv⟩
  · rintro ⟨r, hr, ht, hv⟩
    cases hl : rows with
    | nil =>
      have := (hmem r).2 ⟨hr, hv⟩
      simp [hl] at this
    | cons r' rest =>
      obtain ⟨hr', hv'⟩ := (hmem r').1 (by simp [hl])
      obtain rfl := unique_row hr hr' hv hv'
      simp [ht]

/-- The error that the library gives a foreign key. -/
def Checked.errors (D : Database S) (T : ν) : Checked S → Option (List (FieldError ν))
  | .error e => some e
  | .target x => if x.tenants D = [some T] then none else some [x.foreignKey.invalidTarget x.value]
  | _ => none

omit [DecidableEq ν] in
theorem ofList_mem {l : List (String × List (FieldError ν))} {n : String} {e : List (FieldError ν)} (h : (n, e) ∈ l)
    (hunique : ∀ e', (n, e') ∈ l → e' = e) : Errors.ofList l n = some e := by
  unfold Errors.ofList
  cases hfind : l.find? fun e => decide (e.1 = n) with
  | none =>
    have := List.find?_eq_none.1 hfind (n, e) h
    simp at this
  | some x =>
    obtain ⟨n', e'⟩ := x
    obtain rfl : n' = n := by simpa using List.find?_some hfind
    rw [Option.map_some, hunique e' (List.mem_of_find?_eq_some hfind)]

omit [DecidableEq ν] in
theorem ofList_notMem {l : List (String × List (FieldError ν))} {n : String} (h : ∀ e, (n, e) ∉ l) :
    Errors.ofList l n = none := by
  unfold Errors.ofList
  rw [Option.map_eq_none_iff, List.find?_eq_none]
  rintro ⟨n', e⟩ hmem hn
  obtain rfl : n' = n := by simpa using hn
  exact h e hmem

omit [DecidableEq ν] in
/-- A target keeps its foreign key. -/
theorem checked_field {failed : Errors ν} {x : Target S} (h : f.checked inst exclude failed k = .target x) :
    x.field = f ∧ x.foreignKey = k := by
  unfold Field.checked at h
  split at h
  · cases h
  · split at h
    · split at h <;> cases h
    · split at h
      · cases h
      · cases h
      · cases h
        exact ⟨rfl, rfl⟩

section Cross

variable {tenantField : Field S} {foreignKeys : List (Field S × ForeignKey S)} {failed : Errors ν} {audit : AuditLog}

omit [DecidableEq ν] in
theorem checked_mem (h : m.checkedForeignKeys = some (tenantField, foreignKeys)) :
    m.tenantField = some tenantField ∧ ∀ fk, fk ∈ foreignKeys ↔
      fk.1 ∈ m.fields ∧ fk.1.foreignKey = some fk.2 ∧ fk.1.name ≠ tenantField.name ∧ fk.2.parentLink = false ∧
        (S.tenantField fk.2.target).isSome := by
  unfold Model.checkedForeignKeys at h
  obtain ⟨tf, htf, heq⟩ := Option.map_eq_some_iff.1 h
  obtain ⟨rfl, rfl⟩ := Prod.mk.inj heq
  refine ⟨htf, ?_⟩
  rintro ⟨f, k⟩
  simp only [List.mem_filterMap, Option.bind_eq_some_iff, Option.ite_none_right_eq_some, Option.some.injEq,
    Prod.mk.injEq, Bool.not_eq_true']
  constructor
  · rintro ⟨g, hg, k', hk', ⟨hne, hp, ht⟩, rfl, rfl⟩
    exact ⟨hg, hk', hne, hp, ht⟩
  · rintro ⟨hf, hk, hne, hp, ht⟩
    exact ⟨f, hf, k, hk, ⟨hne, hp, ht⟩, rfl, rfl⟩

omit [DecidableEq ν] in
/-- Two checked foreign keys of one name are one. -/
theorem checked_unique (h : m.checkedForeignKeys = some (tenantField, foreignKeys))
    {fk fk' : Field S × ForeignKey S} (hfk : fk ∈ foreignKeys) (hfk' : fk' ∈ foreignKeys)
    (hn : fk.1.name = fk'.1.name) : fk = fk' := by
  obtain ⟨-, hmem⟩ := checked_mem h
  obtain ⟨h1, h2, -⟩ := (hmem fk).1 hfk
  obtain ⟨h1', h2', -⟩ := (hmem fk').1 hfk'
  have hf : fk.1 = fk'.1 := List.inj_on_of_nodup_map m.names_nodup h1 h1' hn
  refine Prod.ext hf ?_
  rw [hf] at h2
  exact Option.some.inj (h2.symm.trans h2')

/-- The library's errors are those of the checked foreign keys. -/
theorem crossTenantErrors_at (h : m.checkedForeignKeys = some (tenantField, foreignKeys))
    (hfailed : failed tenantField.name = none)
    (hT : tenantField.toPython (inst tenantField.name) = .ok (some T)) :
    (∀ fk ∈ foreignKeys, (crossTenantErrors D m inst exclude failed audit).1 fk.1.name =
      (fk.1.checked inst exclude failed fk.2).errors D T) ∧
    ∀ n, (∀ fk ∈ foreignKeys, fk.1.name ≠ n) → (crossTenantErrors D m inst exclude failed audit).1 n = none := by
  have hentries : ∃ l, (crossTenantErrors D m inst exclude failed audit).1 = Errors.ofList l ∧
      ∀ n e, (n, e) ∈ l ↔ ∃ fk ∈ foreignKeys, fk.1.name = n ∧
        (fk.1.checked inst exclude failed fk.2).errors D T = some e := by
    unfold crossTenantErrors foreignKeysOfOtherTenants
    simp only [h, hfailed, hT, Option.isSome_none, Bool.false_eq_true, if_false]
    refine ⟨_, rfl, ?_⟩
    intro n e
    simp only [List.mem_append, List.mem_filterMap, List.mem_map, List.mem_filter, decide_eq_true_eq]
    constructor
    · rintro (⟨x, ⟨fk, hfk, rfl⟩, hx⟩ | ⟨x, ⟨⟨y, ⟨fk, hfk, rfl⟩, hy⟩, hne⟩, hx⟩)
      · refine ⟨fk, hfk, ?_⟩
        cases hc : fk.1.checked inst exclude failed fk.2 with
        | error e' =>
          simp only [hc, Option.some.injEq, Prod.mk.injEq] at hx
          exact ⟨hx.1, by rw [← hx.2]; rfl⟩
        | passed => simp [hc] at hx
        | target x => simp [hc] at hx
        | rejected x => simp [hc] at hx
      · refine ⟨fk, hfk, ?_⟩
        cases hc : fk.1.checked inst exclude failed fk.2 with
        | target x' =>
          simp only [hc, Option.some.injEq] at hy
          subst hy
          obtain ⟨hn, he⟩ := Prod.mk.inj hx
          refine ⟨by rw [← (checked_field hc).1]; exact hn, ?_⟩
          rw [← he]
          exact if_neg hne
        | passed => simp [hc] at hy
        | error e => simp [hc] at hy
        | rejected x => simp [hc] at hy
    · rintro ⟨fk, hfk, rfl, he⟩
      cases hc : fk.1.checked inst exclude failed fk.2 with
      | error e' =>
        rw [hc] at he
        obtain rfl : e' = e := Option.some.inj he
        exact .inl ⟨(fk.1, .error e'), ⟨fk, hfk, by rw [hc]⟩, rfl⟩
      | target x =>
        rw [hc] at he
        unfold Checked.errors at he
        dsimp only at he
        by_cases hten : x.tenants D = [some T]
        · rw [if_pos hten] at he
          cases he
        · rw [if_neg hten] at he
          refine .inr ⟨x, ⟨⟨(fk.1, .target x), ⟨fk, hfk, by rw [hc]⟩, rfl⟩, hten⟩, ?_⟩
          rw [(checked_field hc).1, Option.some.inj he]
      | passed =>
        rw [hc] at he
        cases he
      | rejected x =>
        rw [hc] at he
        cases he
  obtain ⟨l, hl, hmem⟩ := hentries
  constructor
  · intro fk hfk
    rw [hl]
    cases he : (fk.1.checked inst exclude failed fk.2).errors D T with
    | none =>
      refine ofList_notMem ?_
      intro e hmem'
      obtain ⟨fk', hfk', hn, he'⟩ := (hmem _ e).1 hmem'
      obtain rfl := checked_unique h hfk' hfk hn
      rw [he] at he'
      cases he'
    | some e =>
      refine ofList_mem ((hmem _ e).2 ⟨fk, hfk, rfl, he⟩) ?_
      intro e' hmem'
      obtain ⟨fk', hfk', hn, he'⟩ := (hmem _ e').1 hmem'
      obtain rfl := checked_unique h hfk' hfk hn
      exact Option.some.inj (he'.symm.trans he)
  · intro n hn
    rw [hl]
    refine ofList_notMem ?_
    intro e hmem'
    obtain ⟨fk, hfk, hname, -⟩ := (hmem n e).1 hmem'
    exact hn fk hfk hname

end Cross

/-! ## Both parts -/

section Both

variable {tenantField : Field S} {foreignKeys : List (Field S × ForeignKey S)} {audit : AuditLog}
  {fk : Field S × ForeignKey S}

omit [DecidableEq ν] in
/-- The instance's tenant is what its tenant field converts to. -/
theorem hasTenant_toPython (h : m.checkedForeignKeys = some (tenantField, foreignKeys)) (hT : m.HasTenant inst T) :
    tenantField.toPython (inst tenantField.name) = .ok (some T) := by
  obtain ⟨f, hf, ht⟩ := hT
  obtain ⟨htf, -⟩ := checked_mem h
  obtain rfl : f = tenantField := Option.some.inj (hf.symm.trans htf)
  exact ht

omit [DecidableEq ν] in
theorem tenantField_mem (h : m.tenantField = some f) : f ∈ m.fields := by
  obtain ⟨name, -, hfind⟩ := Option.bind_eq_some_iff.1 h
  exact List.mem_of_find?_eq_some hfind

/-- The errors of one field, when the tenant field has none. -/
def Field.reported (D : Database S) (sees : τ → ρ → Bool) (exclude : List String) (T : ν) (f : Field S)
    (k : ForeignKey S) (raw : Option ν) : Option (List (FieldError ν)) :=
  if f.name ∈ exclude then none
  else
    match (f.outcome D sees exclude raw).1 with
    | some e => some e
    | none =>
      match f.toPython raw with
      | .error e => some e
      | .ok none => none
      | .ok (some v) => if Target.tenants D ⟨f, k, v⟩ = [some T] then none else some [k.invalidTarget v]

theorem cleanFields_eq (D : Database S) (sees : τ → ρ → Bool) (exclude : List String) (m : Model S)
    (inst : Instance ν) (audit : AuditLog) (n : String) :
    (m.cleanFields D sees exclude inst audit).1 n =
      ((crossTenantErrors D m (m.djangoCleanFields D sees exclude inst).2 exclude
          (m.djangoCleanFields D sees exclude inst).1 audit).1 n <|>
        (m.djangoCleanFields D sees exclude inst).1 n) := rfl

/-- **One foreign key.** Its errors, whoever reports them. -/
theorem cleanFields_at (h : m.checkedForeignKeys = some (tenantField, foreignKeys)) (hT : m.HasTenant inst T)
    (hvalid : m.TenantValid D sees exclude inst) (hfk : fk ∈ foreignKeys) :
    (m.cleanFields D sees exclude inst audit).1 fk.1.name =
      fk.1.reported D sees exclude T fk.2 (inst fk.1.name) := by
  obtain ⟨htf, hmem⟩ := checked_mem h
  have hf := ((hmem fk).1 hfk).1
  have htoPython : tenantField.toPython ((m.djangoCleanFields D sees exclude inst).2 tenantField.name) =
      .ok (some T) := by
    rw [django_toPython D sees exclude inst (tenantField_mem htf), hasTenant_toPython h hT]
  rw [cleanFields_eq, (crossTenantErrors_at h (hvalid _ htf) htoPython).1 fk hfk]
  unfold Field.reported Field.checked
  rw [django_errors D sees exclude inst hf, django_toPython D sees exclude inst hf]
  by_cases hex : fk.1.name ∈ exclude
  · have hout : (fk.1.outcome D sees exclude (inst fk.1.name)).1 = none := by
      unfold Field.outcome
      rw [if_pos (.inl hex)]
    rw [if_pos hex, if_pos hex, hout]
    rfl
  · rw [if_neg hex, if_neg hex]
    cases (fk.1.outcome D sees exclude (inst fk.1.name)).1 with
    | some e =>
      dsimp only
      cases notFoundValue (m.djangoCleanFields D sees exclude inst).2 fk.1 e <;> rfl
    | none =>
      dsimp only
      rcases fk.1.toPython (inst fk.1.name) with e | _ | v
      · rfl
      · rfl
      · dsimp only [Checked.errors]
        split <;> rfl

/-- Any other field's errors are Django's. -/
theorem cleanFields_other (h : m.checkedForeignKeys = some (tenantField, foreignKeys)) (hT : m.HasTenant inst T)
    (hvalid : m.TenantValid D sees exclude inst) {n : String} (hn : ∀ fk ∈ foreignKeys, fk.1.name ≠ n) :
    (m.cleanFields D sees exclude inst audit).1 n = (m.djangoCleanFields D sees exclude inst).1 n := by
  obtain ⟨htf, -⟩ := checked_mem h
  have htoPython : tenantField.toPython ((m.djangoCleanFields D sees exclude inst).2 tenantField.name) =
      .ok (some T) := by
    rw [django_toPython D sees exclude inst (tenantField_mem htf), hasTenant_toPython h hT]
  rw [cleanFields_eq, (crossTenantErrors_at h (hvalid _ htf) htoPython).2 n hn]
  rfl

/-- While the tenant field has an error, all errors are Django's. -/
theorem cleanFields_invalid (h : m.checkedForeignKeys = some (tenantField, foreignKeys))
    (hinvalid : ((m.djangoCleanFields D sees exclude inst).1 tenantField.name).isSome) :
    (m.cleanFields D sees exclude inst audit).1 = (m.djangoCleanFields D sees exclude inst).1 := by
  funext n
  rw [cleanFields_eq]
  unfold crossTenantErrors
  simp only [h, hinvalid, if_true]
  rfl

/-! ## Two databases -/

theorem targetExists_of_tables {v : ν} (h : Agree T D D') (hk : S.tenantField k.target = none) :
    D.targetExists sees k v = D'.targetExists sees k v := by
  rw [Bool.eq_iff_iff, targetExists_iff, targetExists_iff]
  simp only [h.tables k.target hk]

theorem targetExists_of_showsOnly {v : ν} (h : Agree T D D') (hs : ShowsOnly S T sees) :
    D.targetExists sees k v = D'.targetExists sees k v := by
  cases hk : S.tenantField k.target with
  | none => exact targetExists_of_tables h hk
  | some field =>
    -- Only the tenant's rows show, and these are in both databases.
    have hmem : ∀ r, S.shows sees k.target r = true → (r ∈ D.rows k.target ↔ r ∈ D'.rows k.target) := by
      intro r hr
      refine h.rows _ _ (hs _ _ (by simp [hk]) ?_)
      simpa [Schema.shows, hk] using hr
    rw [Bool.eq_iff_iff, targetExists_iff, targetExists_iff]
    constructor
    · rintro ⟨r, hr, hshow, hv, hl⟩
      exact ⟨r, (hmem r hshow).1 hr, hshow, hv, hl⟩
    · rintro ⟨r, hr, hshow, hv, hl⟩
      exact ⟨r, (hmem r hshow).2 hr, hshow, hv, hl⟩

/-- Where the tenant has the row, the active context shows it in both databases or in
neither. -/
theorem targetExists_of_hasRow {v : ν} (h : Agree T D D') (hrow : HasRow D T k v) :
    D.targetExists sees k v = D'.targetExists sees k v := by
  obtain ⟨r, hr, ht, hv⟩ := hrow
  have hr' := (h.rows _ _ ht).1 hr
  rw [Bool.eq_iff_iff, targetExists_iff, targetExists_iff]
  constructor
  · rintro ⟨r₁, hr₁, hshow, hv₁, hl⟩
    obtain rfl := unique_row hr hr₁ hv hv₁
    exact ⟨r, hr', hshow, hv, hl⟩
  · rintro ⟨r₁, hr₁, hshow, hv₁, hl⟩
    obtain rfl := unique_row hr' hr₁ hv hv₁
    exact ⟨r, hr, hshow, hv, hl⟩

theorem reported_of_outcome {raw : Option ν} (h : Agree T D D')
    (hout : f.outcome D sees exclude raw = f.outcome D' sees exclude raw) :
    f.reported D sees exclude T k raw = f.reported D' sees exclude T k raw := by
  unfold Field.reported
  rw [hout]
  rcases f.toPython raw with e | _ | v
  · rfl
  · rfl
  · dsimp only
    by_cases hrow : HasRow D T k v
    · rw [if_pos ((tenants_eq _).2 hrow), if_pos ((tenants_eq _).2 (h.hasRow.1 hrow))]
    · rw [if_neg (mt (tenants_eq _).1 hrow), if_neg (mt (tenants_eq _).1 (mt h.hasRow.2 hrow))]

/-- A target that the tenant lacks is an error, and the same one whether or not another
tenant has it. -/
theorem reported_of_noRow {raw : Option ν} {v : ν} (hk : f.foreignKey = some k) (hp : k.parentLink = false)
    (hex : f.name ∉ exclude) (hv : f.toPython raw = .ok (some v))
    (haccept : f.skipped raw = false → f.validators (some v) = [])
    (hrow : ¬HasRow D T k v) :
    f.reported D sees exclude T k raw =
      if f.skipped raw = false ∧ f.check (some v) ≠ [] then some (f.check (some v)) else some [k.invalidTarget v] := by
  have hlookup : Target.tenants D ⟨f, k, v⟩ ≠ [some T] := fun he => hrow ((tenants_eq _).1 he)
  have hout : (f.outcome D sees exclude raw).1 =
      if f.skipped raw = false ∧ f.check (some v) ≠ [] then some (f.check (some v))
      else if f.skipped raw = false ∧ D.targetExists sees k v = false then some [k.invalidTarget v] else none := by
    unfold Field.outcome Field.clean Field.validate
    cases hskip : f.skipped raw with
    | true => simp
    | false =>
      by_cases hcheck : f.check (some v) = []
      · cases htarget : D.targetExists sees k v <;> simp [hex, hv, hk, hp, hcheck, htarget, haccept hskip]
      · simp [hex, hv, hk, hp, hcheck]
  unfold Field.reported
  rw [if_neg hex, hout, hv]
  by_cases hown : f.skipped raw = false ∧ f.check (some v) ≠ []
  · rw [if_pos hown, if_pos hown]
  · rw [if_neg hown, if_neg hown]
    dsimp only
    rw [if_neg hlookup]
    split
    · rename_i e he
      split at he
      · exact he.symm
      · cases he
    · rfl

theorem reported_congr {raw : Option ν} (h : Agree T D D') (hk : f.foreignKey = some k)
    (hp : k.parentLink = false)
    (haccept : f.name ∉ exclude → f.skipped raw = false → ∀ v, f.toPython raw = .ok (some v) →
      f.validators (some v) = []) :
    f.reported D sees exclude T k raw = f.reported D' sees exclude T k raw := by
  by_cases hex : f.name ∈ exclude
  · unfold Field.reported
    rw [if_pos hex, if_pos hex]
  · by_cases hrow : ∃ v, f.toPython raw = .ok (some v) ∧ ¬HasRow D T k v
    · obtain ⟨v, hv, hrow⟩ := hrow
      have hrow' : ¬HasRow D' T k v := fun hr => hrow (h.hasRow.2 hr)
      rw [reported_of_noRow hk hp hex hv (fun hskip => haccept hex hskip v hv) hrow,
        reported_of_noRow hk hp hex hv (fun hskip => haccept hex hskip v hv) hrow']
    · refine reported_of_outcome h (outcome_congr ?_)
      intro k' hk' _ v hv
      obtain rfl : k = k' := Option.some.inj (hk.symm.trans hk')
      have hhas : HasRow D T k v := by
        by_contra hno
        exact hrow ⟨v, hv, hno⟩
      exact targetExists_of_hasRow h hhas

/-- A context of the tenant's own rows: Django's errors are the same. -/
theorem django_showsOnly (h : Agree T D D') (hs : ShowsOnly S T sees) :
    (m.djangoCleanFields D sees exclude inst).1 = (m.djangoCleanFields D' sees exclude inst).1 := by
  funext n
  by_cases hn : n ∈ m.fields.map (·.name)
  · obtain ⟨f, hf, rfl⟩ := List.mem_map.1 hn
    rw [django_errors _ _ _ _ hf, django_errors _ _ _ _ hf]
    refine congrArg Prod.fst (outcome_congr ?_)
    intro k _ _ v _
    exact targetExists_of_showsOnly h hs
  · rw [django_other hn, django_other hn]

/-- A field that is no checked foreign key: Django's errors are the same in any context. -/
theorem django_unchecked (h : Agree T D D') (hc : m.checkedForeignKeys = some (tenantField, foreignKeys))
    (hvalid : m.TenantValid D sees exclude inst) (hvalid' : m.TenantValid D' sees exclude inst) {n : String}
    (hn : ∀ fk ∈ foreignKeys, fk.1.name ≠ n) :
    (m.djangoCleanFields D sees exclude inst).1 n = (m.djangoCleanFields D' sees exclude inst).1 n := by
  obtain ⟨htf, hmem⟩ := checked_mem hc
  by_cases ht : n = tenantField.name
  · subst ht
    rw [hvalid _ htf, hvalid' _ htf]
  by_cases hfield : n ∈ m.fields.map (·.name)
  · obtain ⟨f, hf, rfl⟩ := List.mem_map.1 hfield
    rw [django_errors _ _ _ _ hf, django_errors _ _ _ _ hf]
    refine congrArg Prod.fst (outcome_congr ?_)
    intro k hk hp v _
    -- Only a table without a policy is left.
    cases htable : S.tenantField k.target with
    | none => exact targetExists_of_tables h htable
    | some field => exact absurd rfl (hn (f, k) ((hmem _).2 ⟨hf, hk, ht, hp, by simp [htable]⟩))
  · rw [django_other hfield, django_other hfield]

omit [DecidableEq ν] in
theorem checked_of_hasTenant (hT : m.HasTenant inst T) : ∃ tenantField foreignKeys,
    m.checkedForeignKeys = some (tenantField, foreignKeys) := by
  obtain ⟨f, hf, -⟩ := hT
  unfold Model.checkedForeignKeys
  rw [hf]
  exact ⟨_, _, rfl⟩

/-- In a context that shows the tenant's rows, a target is an error unless the tenant has it. -/
theorem reported_isSome_iff {raw : Option ν} (hk : f.foreignKey = some k) (hp : k.parentLink = false)
    (hs : ShowsAll S T sees) (hlimit : ∀ r, k.limitChoicesTo r = true) (hex : f.name ∉ exclude)
    (hnull : f.toPython raw ≠ .ok none) :
    (f.reported D sees exclude T k raw).isSome ↔ ¬f.PointsAtOwn D T k raw ∨ f.Refuses raw := by
  unfold Field.reported
  rw [if_neg hex]
  rcases hv : f.toPython raw with e | _ | v
  · have hown : ¬f.PointsAtOwn D T k raw := by
      rintro ⟨v, hv', -⟩
      rw [hv] at hv'
      cases hv'
    simp only [hown, not_false_eq_true, true_or, iff_true]
    split <;> rfl
  · exact absurd hv hnull
  · have hrefuses : f.Refuses raw ↔
        f.skipped raw = false ∧ (f.check (some v) ≠ [] ∨ f.validators (some v) ≠ []) := by
      simp [Field.Refuses, hv]
    have hown : f.PointsAtOwn D T k raw ↔ HasRow D T k v := by
      simp [Field.PointsAtOwn, hv]
    rw [hown, hrefuses]
    dsimp only
    by_cases hrow : HasRow D T k v
    · -- The target exists and shows, so only the field's own checks can fail.
      have htarget : D.targetExists sees k v = true := by
        obtain ⟨r, hr, ht, hval⟩ := hrow
        exact targetExists_iff.2 ⟨r, hr, by simp [Schema.shows, hs _ _ ht], hval, hlimit r⟩
      rw [if_pos ((tenants_eq _).2 hrow)]
      unfold Field.outcome Field.clean Field.validate
      cases hskip : f.skipped raw with
      | true => simp [hrow]
      | false =>
        by_cases hcheck : f.check (some v) = []
        · by_cases hval : f.validators (some v) = []
          · simp [hex, hv, hk, hp, hcheck, hval, htarget, hrow]
          · simp [hex, hv, hk, hp, hcheck, hval, htarget]
        · simp [hex, hv, hk, hp, hcheck]
    · rw [if_neg (mt (tenants_eq _).1 hrow)]
      simp only [hrow, not_false_eq_true, true_or, iff_true]
      split <;> rfl

/-- **Validation is private.** Databases that agree on the tenant's rows give the same errors,
and a checked foreign key is an error exactly when the tenant does not have its target. -/
theorem validation_is_private (D D' : Database S) (sees : τ → ρ → Bool) (exclude : List String) (m : Model S)
    (inst : Instance ν) (T : ν) (audit audit' : AuditLog) (hT : m.HasTenant inst T) (h : Agree T D D') :
    (ShowsOnly S T sees ∨ m.TenantValid D sees exclude inst ∧ m.TenantValid D' sees exclude inst ∧
        m.TargetsAccepted exclude inst →
      (m.cleanFields D sees exclude inst audit).1 = (m.cleanFields D' sees exclude inst audit').1) ∧
    (ShowsAll S T sees → m.TenantValid D sees exclude inst →
      ∀ tenantField foreignKeys, m.checkedForeignKeys = some (tenantField, foreignKeys) → ∀ fk ∈ foreignKeys,
        fk.1.name ∉ exclude → fk.1.toPython (inst fk.1.name) ≠ .ok none → (∀ r, fk.2.limitChoicesTo r = true) →
          (((m.cleanFields D sees exclude inst audit).1 fk.1.name).isSome ↔
            ¬fk.1.PointsAtOwn D T fk.2 (inst fk.1.name) ∨ fk.1.Refuses (inst fk.1.name))) := by
  constructor
  · intro hcontext
    obtain ⟨tenantField, foreignKeys, hc⟩ := checked_of_hasTenant hT
    obtain ⟨htf, hmem⟩ := checked_mem hc
    by_cases hvalid : m.TenantValid D sees exclude inst ∧ m.TenantValid D' sees exclude inst
    · obtain ⟨hvalid, hvalid'⟩ := hvalid
      funext n
      by_cases hn : ∀ fk ∈ foreignKeys, fk.1.name ≠ n
      · rw [cleanFields_other hc hT hvalid hn, cleanFields_other hc hT hvalid' hn]
        exact django_unchecked h hc hvalid hvalid' hn
      · simp only [not_forall, not_not] at hn
        obtain ⟨fk, hfk, rfl⟩ := hn
        obtain ⟨-, hk, -, hp, -⟩ := (hmem fk).1 hfk
        rw [cleanFields_at hc hT hvalid hfk, cleanFields_at hc hT hvalid' hfk]
        rcases hcontext with hs | ⟨-, -, haccept⟩
        · refine reported_of_outcome h (outcome_congr ?_)
          intro k _ _ v _
          exact targetExists_of_showsOnly h hs
        · exact reported_congr h hk hp (haccept _ _ hc fk hfk)
    · -- The tenant field has the same error in both databases, and nothing else is looked up.
      have hs : ShowsOnly S T sees := by
        rcases hcontext with hs | ⟨h1, h2, -⟩
        · exact hs
        · exact absurd ⟨h1, h2⟩ hvalid
      have hdjango : (m.djangoCleanFields D sees exclude inst).1 = (m.djangoCleanFields D' sees exclude inst).1 :=
        django_showsOnly h hs
      have hinvalid : ((m.djangoCleanFields D sees exclude inst).1 tenantField.name).isSome := by
        by_contra hnone
        rw [Option.not_isSome_iff_eq_none] at hnone
        apply hvalid
        constructor
        · intro f hf
          obtain rfl : tenantField = f := Option.some.inj (htf.symm.trans hf)
          exact hnone
        · intro f hf
          obtain rfl : tenantField = f := Option.some.inj (htf.symm.trans hf)
          rw [← hdjango]
          exact hnone
      rw [cleanFields_invalid hc hinvalid, cleanFields_invalid hc (hdjango ▸ hinvalid), hdjango]
  · intro hs hvalid tenantField foreignKeys hc fk hfk hex hnull hlimit
    obtain ⟨-, hmem⟩ := checked_mem hc
    obtain ⟨-, hk, -, hp, -⟩ := (hmem fk).1 hfk
    rw [cleanFields_at hc hT hvalid hfk]
    exact reported_isSome_iff hk hp hs hlimit hex hnull

end Both

/-! ## A shop -/

/-- The orders of the tenants, each row its key and its tenant. -/
def shop : Schema String (ℕ × ℕ) ℕ where
  value _ field r := if field = "id" then some r.1 else some r.2
  tenantField t := if t = "order" then some "tenant" else none
  unique _ field := field = "id"

/-- A shop of one tenant, and its orders. -/
def shopOf (orders : List (ℕ × ℕ)) (h : (orders.map (·.1)).Nodup) : Database shop where
  rows t := if t = "order" then orders else if t = "tenant" then [(1, 1)] else []
  unique_rows := by
    rintro t _ rfl r hr r' hr' he -
    have hkey : r.1 = r'.1 := Option.some.inj he
    split at hr
    · rw [if_pos ‹_›] at hr'
      exact List.inj_on_of_nodup_map h hr hr' hkey
    · rw [if_neg ‹_›] at hr'
      split at hr
      · rw [if_pos ‹_›] at hr'
        rw [List.mem_singleton.1 hr, List.mem_singleton.1 hr']
      · cases hr

/-- A required foreign key to one of the shop's tables. -/
def shopKey (name : String) : ForeignKey shop where
  target := name
  targetField := "id"
  unique := rfl
  parentLink := false
  limitChoicesTo _ := true
  verboseName := name
  invalidMessage := "%(model)s instance with %(field)s %(value)r does not exist."

def shopField (name : String) (validators : Option ℕ → List (FieldError ℕ)) : Field shop where
  name := name
  creationCounter := 0
  skipped _ := false
  toPython := .ok
  check _ := []
  validators := validators
  foreignKey := some (shopKey name)
  toPython_idem _ := rfl

/-- An order's line. -/
def line (validators : Option ℕ → List (FieldError ℕ)) : Model shop where
  label := "shop.Line"
  fields := [shopField "tenant" fun _ => [], shopField "order" validators]
  tenantName := some "tenant"
  names_nodup := by simp [shopField]

/-- A line of a tenant's, in an order. -/
def lineOf (tenant order : ℕ) : Instance ℕ := fun name => if name = "tenant" then some tenant else some order

theorem line_tenantField (validators : Option ℕ → List (FieldError ℕ)) :
    (line validators).tenantField = some (shopField "tenant" fun _ => []) := by
  simp [Model.tenantField, line, shopField]

theorem line_checked (validators : Option ℕ → List (FieldError ℕ)) :
    (line validators).checkedForeignKeys =
      some (shopField "tenant" fun _ => [], [(shopField "order" validators, shopKey "order")]) := by
  unfold Model.checkedForeignKeys
  rw [line_tenantField]
  simp [line, shopField, shopKey, shop]

theorem line_hasTenant (validators : Option ℕ → List (FieldError ℕ)) (tenant order : ℕ) :
    (line validators).HasTenant (lineOf tenant order) tenant :=
  ⟨_, line_tenantField validators, rfl⟩

theorem line_tenantValid (orders : List (ℕ × ℕ)) (h : (orders.map (·.1)).Nodup) (order : ℕ) :
    (line fun _ => []).TenantValid (shopOf orders h) (fun _ _ => true) [] (lineOf 1 order) := by
  intro f hf
  obtain rfl := Option.some.inj ((line_tenantField _).symm.trans hf)
  rw [django_errors _ _ _ _ (tenantField_mem hf)]
  simp [Field.outcome, Field.clean, Field.validate, Database.targetExists, Schema.shows, shop, shopOf, shopField,
    shopKey, lineOf]

/-- An order of the second tenant is nothing to any other tenant. -/
theorem shop_agree {T : ℕ} (hT : T ≠ 2) :
    Agree T (shopOf [(5, 1), (7, 2)] (by decide)) (shopOf [(5, 1)] (by decide)) where
  rows t r ht := by
    by_cases horder : t = "order"
    · subst horder
      have htenant : r.2 = T := by simpa [Schema.tenantOf, shop] using ht
      have hr : r ≠ (7, 2) := by
        rintro rfl
        exact hT htenant.symm
      simp [shopOf, hr]
    · simp [Schema.tenantOf, shop, horder] at ht
  tables t ht r := by
    have horder : t ≠ "order" := by
      rintro rfl
      simp [shop] at ht
    simp [shopOf, horder]

/-- An admin's context, and a line in the second tenant's order: an error with that order in
the database, and the same one without it. -/
theorem validation_is_private_shop :
    ((line fun _ => []).cleanFields (shopOf [(5, 1), (7, 2)] (by decide)) (fun _ _ => true) [] (lineOf 1 7)
        (.on true)).1 =
      ((line fun _ => []).cleanFields (shopOf [(5, 1)] (by decide)) (fun _ _ => true) [] (lineOf 1 7) .off).1 ∧
    (((line fun _ => []).cleanFields (shopOf [(5, 1), (7, 2)] (by decide)) (fun _ _ => true) [] (lineOf 1 7)
        (.on true)).1 "order").isSome := by
  obtain ⟨hsame, herror⟩ := validation_is_private (shopOf [(5, 1), (7, 2)] (by decide))
    (shopOf [(5, 1)] (by decide)) (fun _ _ => true) [] (line fun _ => []) (lineOf 1 7) 1 (.on true) .off
    (line_hasTenant _ 1 7) (shop_agree (by decide))
  have haccept : (line fun _ => []).TargetsAccepted [] (lineOf 1 7) := by
    intro tenantField foreignKeys hc fk hfk _ _ v _
    rw [line_checked] at hc
    obtain ⟨-, rfl⟩ := Prod.mk.inj (Option.some.inj hc)
    rw [List.mem_singleton.1 hfk]
    rfl
  have hnotOwn : ¬(shopField "order" fun _ => []).PointsAtOwn (shopOf [(5, 1), (7, 2)] (by decide)) 1
      (shopKey "order") (some 7) := by
    rintro ⟨v, hv, r, hr, ht, hval⟩
    obtain rfl : 7 = v := Option.some.inj (Except.ok.inj hv)
    have hmem : r = (5, 1) ∨ r = (7, 2) := by simpa [shopOf, shopKey] using hr
    rcases hmem with rfl | rfl
    · exact absurd hval (by decide)
    · exact absurd ht (by decide)
  refine And.intro (hsame (.inr ⟨line_tenantValid _ _ 7, line_tenantValid _ _ 7, haccept⟩)) ?_
  exact (herror (fun _ _ _ => rfl) (line_tenantValid _ _ 7) _ _ (line_checked _) _ (List.mem_singleton.2 rfl)
    (by decide) (by decide) (fun _ => rfl)).2 (.inl hnotOwn)

/-- An admin's context, and the second tenant's order: a line of a tenant that does not exist
differs by it, and so does one whose validator rejects the order. -/
theorem validation_is_not_private :
    (Agree 3 (shopOf [(5, 1), (7, 2)] (by decide)) (shopOf [(5, 1)] (by decide)) ∧
      (line fun _ => []).HasTenant (lineOf 3 7) 3 ∧
      ((line fun _ => []).cleanFields (shopOf [(5, 1), (7, 2)] (by decide)) (fun _ _ => true) [] (lineOf 3 7)
          .off).1 "order" = none ∧
      ((line fun _ => []).cleanFields (shopOf [(5, 1)] (by decide)) (fun _ _ => true) [] (lineOf 3 7)
          .off).1 "order" = some [(shopKey "order").invalidTarget 7]) ∧
    (Agree 1 (shopOf [(5, 1), (7, 2)] (by decide)) (shopOf [(5, 1)] (by decide)) ∧
      (line fun _ => [⟨"Closed.", "closed", []⟩]).HasTenant (lineOf 1 7) 1 ∧
      ((line fun _ => [⟨"Closed.", "closed", []⟩]).cleanFields (shopOf [(5, 1), (7, 2)] (by decide))
          (fun _ _ => true) [] (lineOf 1 7) .off).1 "order" = some [⟨"Closed.", "closed", []⟩] ∧
      ((line fun _ => [⟨"Closed.", "closed", []⟩]).cleanFields (shopOf [(5, 1)] (by decide))
          (fun _ _ => true) [] (lineOf 1 7) .off).1 "order" = some [(shopKey "order").invalidTarget 7]) :=
  And.intro (And.intro (shop_agree (by decide)) (And.intro (line_hasTenant _ 3 7) (And.intro (by decide) (by decide))))
    (And.intro (shop_agree (by decide)) (And.intro (line_hasTenant _ 1 7) (And.intro (by decide) (by decide))))

end Validation

end RlsTenants
