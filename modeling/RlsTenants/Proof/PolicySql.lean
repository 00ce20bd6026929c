import RlsTenants.Spec.PolicySql

/-!
# What the policies let through

* `buildPolicyCreateSql_eq` and `safeTenantSql_eq`: the texts are the conditions
  `tenantUsing`, `tenantCheck` and `safeTenant`.
* `passes_tenantUsing`: a row passes when a bypass flag is set or its column holds the
  current tenant.
* **`safeTenantSql_mirrors_iff`**: the fragment for raw queries keeps the rows that the
  policy passes, and raises when the policy does, unless the tenant GUC holds a text that
  is no key while a bypass flag is set.
-/

namespace RlsTenants

open RowSql

/-! ## The texts -/

/-- Two texts side by side are one. -/
theorem append_joined {b c d : String} (h : b ++ c = d) (a : String) : a ++ b ++ c = a ++ d := by
  rw [String.append_assoc, h]

theorem scalarSql_nullif_empty (s : Scalar) :
    scalarSql (.nullif s "") = "nullif(" ++ scalarSql s ++ ", '')" := by
  have h : scalarSql (.nullif s "") = "nullif(" ++ scalarSql s ++ ", '" ++ "" ++ "')" := rfl
  have hlit : (", '" ++ "')" : String) = ", '')" := by simp
  rw [h, String.append_empty, append_joined hlit]

theorem operandSql_tenantValue (gucTenantVar tenantPkType : String) :
    operandSql (tenantValue gucTenantVar tenantPkType) = tenantValueSql gucTenantVar tenantPkType := by
  have h : operandSql (tenantValue gucTenantVar tenantPkType) =
      scalarSql (.nullif (.setting gucTenantVar) "") ++ "::" ++ tenantPkType := rfl
  have h' : tenantValueSql gucTenantVar tenantPkType =
      "nullif(" ++ scalarSetting gucTenantVar ++ ", '')::" ++ tenantPkType := rfl
  have hlit : (", '')" ++ "::" : String) = ", '')::" := by simp
  rw [h, h', scalarSql_nullif_empty, append_joined hlit]
  rfl

theorem condSql_boolFlag (gap gucVar : String) : condSql gap (boolFlag gucVar) = boolFlagSql gucVar := by
  have h : condSql gap (boolFlag gucVar) = scalarSetting gucVar ++ " = '" ++ "true" ++ "'" := rfl
  have hlit : (" = '" ++ "true" : String) = " = 'true" := by simp
  have hlit' : (" = 'true" ++ "'" : String) = " = 'true'" := by simp
  rw [h, append_joined hlit, append_joined hlit']
  rfl

theorem condSql_anyOf (gap : String) (c : Cond SqlName) (cs : List (Cond SqlName)) :
    condSql gap (c.anyOf cs) = joinSql (gap ++ "OR ") ((c :: cs).map (condSql gap)) := by
  induction cs generalizing c with
  | nil => rfl
  | cons d ds ih =>
    have h : condSql gap (c.anyOf (d :: ds)) = condSql gap c ++ gap ++ "OR " ++ condSql gap (d.anyOf ds) := rfl
    have h' : joinSql (gap ++ "OR ") ((c :: d :: ds).map (condSql gap)) =
      condSql gap c ++ (gap ++ "OR ") ++ joinSql (gap ++ "OR ") ((d :: ds).map (condSql gap)) := rfl
    have hassoc : condSql gap c ++ gap ++ "OR " = condSql gap c ++ (gap ++ "OR ") := append_joined rfl _
    rw [h, h', ih d, hassoc]

theorem condSql_flags (gap gucVar : String) (flags : List String) :
    condSql gap ((boolFlag gucVar).anyOf (flags.map boolFlag)) =
      joinSql (gap ++ "OR ") (boolFlagSql gucVar :: flags.map boolFlagSql) := by
  have h : (flags.map boolFlag).map (condSql gap) = flags.map boolFlagSql := by
    rw [List.map_map]
    exact List.map_congr_left fun flag _ => condSql_boolFlag gap flag
  rw [condSql_anyOf, List.map_cons, condSql_boolFlag, h]

theorem condSql_tenantMatch (gap : String) (column : Operand SqlName) (gucTenantVar tenantPkType : String) :
    condSql gap (.equal column (tenantValue gucTenantVar tenantPkType)) =
      tenantMatchSql (operandSql column) gucTenantVar tenantPkType := by
  rw [condSql_equal, operandSql_tenantValue]
  rfl

/-- What stands before each OR of a tenant policy. -/
def policyGap : String := "\n                              "

theorem condSql_tenantUsing (column : Operand SqlName) (gucTenantVar gucAdminVar tenantPkType : String)
    (flags : List String) : condSql policyGap (tenantUsing column gucTenantVar gucAdminVar tenantPkType flags) =
      caseSql (joinSql "\n                              OR " (boolFlagSql gucAdminVar :: flags.map boolFlagSql))
        (tenantMatchSql (operandSql column) gucTenantVar tenantPkType) := by
  have h : policyGap ++ "OR " = "\n                              OR " := by simp [policyGap]
  rw [tenantUsing, condSql_caseTrue, condSql_flags, condSql_tenantMatch, h]

/-- **The text of a tenant policy is the text of its two conditions.** -/
theorem buildPolicyCreateSql_eq (table : String) (column : Operand SqlName)
    (gucTenantVar gucAdminVar tenantPkType : String) (flags : List String) :
    buildPolicyCreateSql table (operandSql column) gucTenantVar gucAdminVar tenantPkType flags =
      createPolicyBlock table s!"{table}_tenant_isolation_policy"
        (condSql policyGap (tenantUsing column gucTenantVar gucAdminVar tenantPkType flags))
        (condSql policyGap (tenantCheck column gucTenantVar gucAdminVar tenantPkType)) := by
  rw [tenantCheck, condSql_tenantUsing, condSql_tenantUsing]
  rfl

/-- The column of the fragment: qualified with a table or not. -/
def fragmentColumn (column : String) (table : Option String) : Operand SqlName :=
  .column (table.map (⟨true, ·⟩)) ⟨false, column⟩

theorem operandSql_fragmentColumn (column t : String) :
    operandSql (fragmentColumn column (some t)) = s!"\"{t}\".{column}" := by
  have h : operandSql (fragmentColumn column (some t)) = "\"" ++ t ++ "\"" ++ "." ++ column := rfl
  have hlit : ("\"" ++ "." : String) = "\"." := by simp
  rw [h, append_joined hlit]
  rfl

theorem condSql_safeTenant (settings : Settings) (column : Operand SqlName) (flags : List String) :
    condSql " " (safeTenant settings column flags) =
      "(" ++ tenantMatchSql (operandSql column) settings.gucCurrentTenant settings.tenantPkType ++ " OR " ++
        joinSql " OR " (boolFlagSql settings.gucIsAdmin :: flags.map boolFlagSql) ++ ")" := by
  have hlit : (" " ++ "OR " : String) = " OR " := by simp
  have h : condSql " " (safeTenant settings column flags) =
      "(" ++ (condSql " " (.equal column (tenantValue settings.gucCurrentTenant settings.tenantPkType)) ++ " " ++
        "OR " ++ condSql " " ((boolFlag settings.gucIsAdmin).anyOf (flags.map boolFlag))) ++ ")" := rfl
  have hassoc : ∀ a b c d e : String, a ++ (b ++ c ++ d ++ e) = a ++ b ++ (c ++ d) ++ e := by
    simp [String.append_assoc]
  rw [h, condSql_flags, condSql_tenantMatch, hassoc, hlit]

/-- A computation that succeeds is made of steps that do. -/
theorem bind_ok {ε α β : Type} {x : Except ε α} {f : α → Except ε β} {b : β} (h : x >>= f = .ok b) :
    ∃ a, x = .ok a ∧ f a = .ok b := by
  cases x with
  | error e => exact absurd h (by simp [bind, Except.bind])
  | ok a => exact ⟨a, rfl, h⟩

theorem exists_of_isOk {ε α : Type} {x : Except ε α} (h : x.isOk = true) : ∃ a, x = .ok a := by
  cases x with
  | error e => cases h
  | ok a => exact ⟨a, rfl⟩

/-- **The text of the fragment is the text of its condition.** -/
theorem safeTenantSql_eq {settings : Settings} {column text : String} {table : Option String}
    {flags : List String} (h : safeTenantSql settings column table true flags = .ok text) :
    text = condSql " " (safeTenant settings (fragmentColumn column table) flags) := by
  rw [condSql_safeTenant]
  simp only [safeTenantSql] at h
  obtain ⟨_, -, h⟩ := bind_ok h
  obtain ⟨_, -, h⟩ := bind_ok h
  obtain ⟨_, -, h⟩ := bind_ok h
  cases table with
  | none =>
    obtain ⟨_, -, h⟩ := bind_ok h
    obtain ⟨_, -, h⟩ := bind_ok h
    exact (Except.ok.inj h).symm
  | some t =>
    obtain ⟨_, -, h⟩ := bind_ok h
    obtain ⟨_, -, h⟩ := bind_ok h
    obtain ⟨_, -, h⟩ := bind_ok h
    rw [operandSql_fragmentColumn]
    exact (Except.ok.inj h).symm

/-! ## What they let through -/

section Passes

variable {κ : Type} {D : Server SqlName Name κ} {scope : List (RowFrame Name κ)}

/-- The flag is set for the session. -/
def FlagSet (D : Server SqlName Name κ) (gucVar : String) : Prop := D.setting gucVar = some "true"

/-- The tenant of the session; none if the GUC is unset or empty, or holds no key. -/
def currentTenant (D : Server SqlName Name κ) (gucTenantVar tenantPkType : String) : Option κ :=
  ((D.setting gucTenantVar).filter (· ≠ "")).bind (D.cast tenantPkType)

/-- The tenant GUC is unset or empty, or holds a key. -/
def TenantCasts (D : Server SqlName Name κ) (gucTenantVar tenantPkType : String) : Prop :=
  ∀ t, D.setting gucTenantVar = some t → t ≠ "" → (D.cast tenantPkType t).isSome

theorem eval_tenantValue (gucTenantVar tenantPkType : String) :
    (tenantValue gucTenantVar tenantPkType).eval D scope =
      match (D.setting gucTenantVar).filter (· ≠ "") with
      | none => some none
      | some t => (D.cast tenantPkType t).map some := by
  cases h : (D.setting gucTenantVar).filter (· ≠ "") with
  | none => simp only [tenantValue, Operand.eval, Scalar.eval, h]
  | some t => simp only [tenantValue, Operand.eval, Scalar.eval, h]

theorem eval_tenantValue_some {gucTenantVar tenantPkType : String} {k : κ} :
    (tenantValue gucTenantVar tenantPkType).eval D scope = some (some k) ↔
      currentTenant D gucTenantVar tenantPkType = some k := by
  rw [eval_tenantValue, currentTenant]
  cases (D.setting gucTenantVar).filter (· ≠ "") <;> simp

theorem eval_tenantValue_none {gucTenantVar tenantPkType : String} :
    (tenantValue gucTenantVar tenantPkType).eval D scope = none ↔ ¬TenantCasts D gucTenantVar tenantPkType := by
  rw [eval_tenantValue, TenantCasts]
  cases hs : D.setting gucTenantVar with
  | none => simp
  | some t =>
    by_cases ht : t = ""
    · simp [ht, Option.filter]
    · simp [ht, Option.filter]

theorem currentTenant_unset {D : Server SqlName Name κ} {gucTenantVar : String} (tenantPkType : String)
    (h : D.setting gucTenantVar = none ∨ D.setting gucTenantVar = some "") :
    currentTenant D gucTenantVar tenantPkType = none := by
  rcases h with h | h <;> simp [currentTenant, h]

theorem bound_flags (gucVar : String) (flags : List String) :
    ((boolFlag gucVar).anyOf (flags.map boolFlag)).Bound D scope := by
  rw [bound_anyOf]
  intro c hc
  rw [← List.map_cons] at hc
  obtain ⟨flag, -, rfl⟩ := List.mem_map.1 hc
  trivial

variable [DecidableEq κ]

theorem passes_boolFlag (gucVar : String) : (boolFlag gucVar).Passes D scope ↔ FlagSet D gucVar := by
  simp [boolFlag, FlagSet, Scalar.eval]

theorem settled_boolFlag (gucVar : String) : (boolFlag gucVar).Settled D scope := settled_textEqual _ _

/-- A column holds the current tenant. -/
theorem passes_tenantMatch {column : Operand SqlName} {gucTenantVar tenantPkType : String} :
    (Cond.equal column (tenantValue gucTenantVar tenantPkType)).Passes D scope ↔
      ∃ k, column.eval D scope = some (some k) ∧ currentTenant D gucTenantVar tenantPkType = some k := by
  simp only [passes_equal, eval_tenantValue_some]

theorem settled_flags (gucVar : String) (flags : List String) :
    ((boolFlag gucVar).anyOf (flags.map boolFlag)).Settled D scope := by
  refine settled_anyOf (settled_boolFlag gucVar) fun c hc => ?_
  obtain ⟨flag, -, rfl⟩ := List.mem_map.1 hc
  exact settled_boolFlag flag

theorem passes_flags {gucVar : String} {flags : List String} :
    ((boolFlag gucVar).anyOf (flags.map boolFlag)).Passes D scope ↔ ∃ flag ∈ gucVar :: flags, FlagSet D flag := by
  rw [passes_anyOf]
  simp [passes_boolFlag]

theorem not_raises_flags (gucVar : String) (flags : List String) :
    ¬((boolFlag gucVar).anyOf (flags.map boolFlag)).Raises D scope := by
  rw [raises_anyOf]
  simp [boolFlag]

/-- **Who passes the tenant policy**: any row while a bypass flag is set, and the current
tenant's rows. -/
theorem passes_tenantUsing {column : Operand SqlName} {gucTenantVar gucAdminVar tenantPkType : String}
    {flags : List String} :
    (tenantUsing column gucTenantVar gucAdminVar tenantPkType flags).Passes D scope ↔
      (∃ flag ∈ gucAdminVar :: flags, FlagSet D flag) ∨
        ∃ k, column.eval D scope = some (some k) ∧ currentTenant D gucTenantVar tenantPkType = some k := by
  rw [tenantUsing, passes_caseTrue (settled_flags _ _), passes_flags, passes_tenantMatch]

theorem raises_tenantUsing {column : Operand SqlName} {gucTenantVar gucAdminVar tenantPkType : String}
    {flags : List String} {v : Option κ} (hc : column.eval D scope = some v) :
    (tenantUsing column gucTenantVar gucAdminVar tenantPkType flags).Raises D scope ↔
      (¬∃ flag ∈ gucAdminVar :: flags, FlagSet D flag) ∧ ¬TenantCasts D gucTenantVar tenantPkType := by
  rw [tenantUsing, raises_caseTrue (settled_flags _ _), passes_flags, raises_equal, eval_tenantValue_none, hc]
  simp

theorem passes_safeTenant {settings : Settings} {column : Operand SqlName} {flags : List String} :
    (safeTenant settings column flags).Passes D scope ↔
      (∃ flag ∈ settings.gucIsAdmin :: flags, FlagSet D flag) ∨ ∃ k, column.eval D scope = some (some k) ∧
        currentTenant D settings.gucCurrentTenant settings.tenantPkType = some k := by
  rw [safeTenant, passes_group, passes_or, passes_tenantMatch, passes_flags, or_comm]

theorem raises_safeTenant {settings : Settings} {column : Operand SqlName} {flags : List String} {v : Option κ}
    (hc : column.eval D scope = some v) : (safeTenant settings column flags).Raises D scope ↔
      ¬TenantCasts D settings.gucCurrentTenant settings.tenantPkType := by
  rw [safeTenant, raises_group, raises_or, raises_equal, eval_tenantValue_none, hc]
  simp [not_raises_flags]

end Passes

/-! ## The fragment mirrors the policy -/

/-- The fragment, alone or with further conditions, keeps the rows that the policy passes
and raises only where the policy does. -/
def Mirrors {κ : Type} [DecidableEq κ] (D : Server SqlName Name κ) (scope : List (RowFrame Name κ))
    (fragment : Cond SqlName) (tableScope : List (RowFrame Name κ)) (policy : Cond SqlName) : Prop :=
  ∀ more : List (Cond SqlName),
    ((fragment.allOf more).Passes D scope ↔ policy.Passes D tableScope ∧ ∀ c ∈ more, c.Passes D scope) ∧
    ((fragment.allOf more).Raises D scope → policy.Raises D tableScope ∨ ∃ c ∈ more, c.Raises D scope)

section Mirrors

variable {κ : Type} [DecidableEq κ] {D : Server SqlName Name κ} {scope tableScope : List (RowFrame Name κ)}
  {fragment policy : Cond SqlName}

/-- Further conditions make no difference. -/
theorem mirrors_iff : Mirrors D scope fragment tableScope policy ↔
    (fragment.Passes D scope ↔ policy.Passes D tableScope) ∧
      (fragment.Raises D scope → policy.Raises D tableScope) := by
  constructor
  · intro h
    simpa [Cond.allOf] using h []
  · intro h more
    rw [passes_allOf, raises_allOf]
    simp only [List.forall_mem_cons, List.exists_mem_cons_iff, h.1]
    exact ⟨trivial, Or.imp_left h.2⟩

variable {settings : Settings} {column : String} {table : Option String} {flags : List String} {text : String}
  {policyColumn : Operand SqlName} {v : Option κ}

/-- **The fragment mirrors the policy unless the tenant GUC holds a text that is no key
while a bypass flag is set**: the policy's CASE guards the cast, the fragment's OR does not. -/
theorem safeTenantSql_mirrors_iff (policyTable : String)
    (hsql : safeTenantSql settings column table true flags = .ok text)
    (hcol : (fragmentColumn column table).eval D scope = some v)
    (hpol : policyColumn.eval D tableScope = some v) :
    let fragment := safeTenant settings (fragmentColumn column table) flags
    let policy := tenantUsing policyColumn settings.gucCurrentTenant settings.gucIsAdmin settings.tenantPkType flags
    text = condSql " " fragment ∧
    buildPolicyCreateSql policyTable (operandSql policyColumn) settings.gucCurrentTenant settings.gucIsAdmin
        settings.tenantPkType flags =
      createPolicyBlock policyTable s!"{policyTable}_tenant_isolation_policy" (condSql policyGap policy)
        (condSql policyGap (tenantCheck policyColumn settings.gucCurrentTenant settings.gucIsAdmin
          settings.tenantPkType)) ∧
    (Mirrors D scope fragment tableScope policy ↔
      TenantCasts D settings.gucCurrentTenant settings.tenantPkType ∨
        ¬∃ flag ∈ settings.gucIsAdmin :: flags, FlagSet D flag) := by
  intro fragment policy
  refine ⟨safeTenantSql_eq hsql, buildPolicyCreateSql_eq _ _ _ _ _ _, ?_⟩
  simp only [fragment, policy]
  rw [mirrors_iff, passes_safeTenant, passes_tenantUsing, raises_safeTenant hcol, raises_tenantUsing hpol, hcol, hpol]
  constructor
  · intro h
    by_cases hcast : TenantCasts D settings.gucCurrentTenant settings.tenantPkType
    · exact .inl hcast
    · exact .inr (h.2 hcast).1
  · rintro (hcast | hflag)
    · exact ⟨Iff.rfl, fun h => absurd hcast h⟩
    · exact ⟨Iff.rfl, fun h => ⟨hflag, h⟩⟩

end Mirrors

/-! ### A text that is no key, and the admin flag -/

section Example

/-- The number that a text of digits is. -/
def castDigits (text : String) : Option Int :=
  if text.toList.isEmpty then none else
    text.toList.foldlM (fun n c => if c.isDigit then some (10 * n + (c.toNat - '0'.toNat : Nat)) else none) 0

/-- A server with the default settings, whose tenant GUC holds `tenant` and whose admin flag is on. -/
def adminServer (tenant : String) : Server SqlName Name Int where
  name := SqlName.stored
  setting name :=
    if name = "rls.is_admin" then some "true" else if name = "rls.current_tenant" then some tenant else none
  cast _ text := castDigits text
  columns _ := ["tenant_id".toList]
  rows _ := []

/-- A row of tenant 1. -/
def tenantRow : RowFrame Name Int := ⟨"app_order".toList, ["tenant_id".toList], fun _ => some 1⟩

/-- The default settings. -/
def defaultSettings : Settings := ⟨"rls", "int", "tenant", "tenants.Tenant"⟩

def tenantColumn : Operand SqlName := fragmentColumn "tenant_id" none

theorem adminFlag_set (tenant : String) : ∃ flag ∈ ["rls.is_admin"], FlagSet (adminServer tenant) flag :=
  ⟨"rls.is_admin", List.mem_cons_self, rfl⟩

theorem tenantCasts_adminServer (tenant : String) (h : (castDigits tenant).isSome) :
    TenantCasts (adminServer tenant) "rls.current_tenant" "int" := by
  intro t ht _
  obtain rfl : tenant = t := Option.some.inj ht
  exact h

theorem safeTenantSql_mirrors_one : Mirrors (adminServer "1") [tenantRow]
    (safeTenant defaultSettings tenantColumn []) [tenantRow]
    (tenantUsing tenantColumn "rls.current_tenant" "rls.is_admin" "int" []) := by
  have hsql : safeTenantSql defaultSettings "tenant_id" none true [] = .ok _ := rfl
  have hcasts := tenantCasts_adminServer "1" (by decide +kernel)
  exact (safeTenantSql_mirrors_iff "app_order" hsql rfl rfl).2.2.2 (.inl hcasts)

theorem safeTenantSql_not_mirrors : ¬Mirrors (adminServer "abc") [tenantRow]
    (safeTenant defaultSettings tenantColumn []) [tenantRow]
    (tenantUsing tenantColumn "rls.current_tenant" "rls.is_admin" "int" []) := by
  rw [mirrors_iff]
  rintro ⟨-, h⟩
  have hcast : ¬TenantCasts (adminServer "abc") "rls.current_tenant" "int" := by
    intro hc
    have hkey : (castDigits "abc").isSome := hc "abc" rfl (by decide)
    exact absurd hkey (by decide +kernel)
  have hraises := h ((raises_safeTenant rfl).2 hcast)
  exact ((raises_tenantUsing rfl).1 hraises).1 (adminFlag_set "abc")

end Example

end RlsTenants
