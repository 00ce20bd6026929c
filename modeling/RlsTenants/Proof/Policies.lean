import RlsTenants.Spec.Policies
import RlsTenants.Proof.PolicySql

/-!
# The tenant policy filters on the foreign key's column

* A name that is not quoted stands for the column it is folded to (`eval_ownColumn`).
* `filtersOn_iff`: a policy that compares a name filters on the foreign key when the name
  stands for the foreign key's column.
* **`tenant_policies_filter_iff`**: the policy of `AddRLSPolicy` does; that of
  `RLSConstraint` does when `<field>_id`, folded, is the column.
-/

namespace RlsTenants

open RowSql

/-! ## Names -/

theorem asciiLower_eq_map (t : Text) : asciiLower t = t.map Char.toLower := by
  refine List.map_congr_left fun c _ => ?_
  by_cases hc : c.isUpper
  · rw [if_pos hc]
  · rw [if_neg hc]
    simp only [Char.isUpper, decide_eq_true_eq] at hc
    unfold Char.toLower
    simp only [ge_iff_le]
    rw [dif_neg hc]

/-- A name in lower case is not folded. -/
theorem stored_bare_of_lower {name : String} (h : name = name.map Char.toLower) :
    (SqlName.mk false name).stored = clip 63 name.toList := by
  have hl : name.toList.map Char.toLower = name.toList := by
    rw [← String.toList_map, ← h]
  simp only [SqlName.stored, Bool.false_eq_true, if_false, asciiLower_eq_map, hl]

/-- A column that passes the check of its name is created under that name. -/
theorem createdName_of_isFieldName {name : String} (h : isFieldName name) : createdName name = clip 63 name.toList := by
  unfold createdName
  unfold isFieldName at h
  cases hcs : name.toList with
  | nil => rfl
  | cons c cs =>
    rw [hcs] at h
    -- the first character is a letter or an underscore, not a quote
    have hc : c ≠ '"' := by
      intro hq
      simp [hq] at h
    simp [hc]

/-! ## Columns of the table -/

section Table

variable {κ : Type}

theorem Postgres.name_eq (D : Postgres κ) (n : SqlName) : D.1.name n = n.stored := congrFun D.2 n

/-- A row of the model's table. -/
def Model.frame (model : Model) (row : Name → Option κ) : RowFrame Name κ :=
  ⟨createdName model.dbTable, model.columns, row⟩

theorem eval_ownColumn {D : Postgres κ} {model : Model} {row : Name → Option κ} (n : SqlName) :
    (Operand.column none n).eval D.1 [model.frame row] =
      if n.stored ∈ model.columns then some (row n.stored) else none := by
  by_cases h : n.stored ∈ model.columns <;> simp [Operand.eval, find, Model.frame, D.name_eq, h]

theorem names_ownColumn {D : Postgres κ} {model : Model} {row : Name → Option κ} (n : SqlName) :
    Cond.Bound.Names D.1 [model.frame row] (.column none n) ↔ n.stored ∈ model.columns := by
  rw [names_column, eval_ownColumn]
  by_cases hn : n.stored ∈ model.columns <;> simp [hn]

/-- PostgreSQL finds the names of a policy on a column that the table has. -/
theorem bound_tenantUsing {model : Model} (D : Postgres κ) (row : Name → Option κ) {n : SqlName}
    (hn : n.stored ∈ model.columns)
    (gucTenantVar gucAdminVar tenantPkType : String) (flags : List String) :
    (tenantUsing (.column none n) gucTenantVar gucAdminVar tenantPkType flags).Bound D.1 [model.frame row] :=
  ⟨bound_flags _ _, (names_ownColumn n).2 hn, trivial⟩

/-- A session of one tenant, with no flag. -/
def tenantSession (cast : String → String → Option κ) (gucTenantVar text : String) : Postgres κ :=
  ⟨{ name := SqlName.stored
     setting := fun name => if name = gucTenantVar then some text else none
     cast := cast
     columns := fun _ => []
     rows := fun _ => [] }, rfl⟩

variable {cast : String → String → Option κ}

theorem not_flagSet_tenantSession {gucTenantVar text : String} (h : text ≠ "true") (flag : String) :
    ¬FlagSet (tenantSession cast gucTenantVar text).1 flag := by
  by_cases hf : flag = gucTenantVar <;> simp [FlagSet, tenantSession, hf, h]

theorem currentTenant_tenantSession {text type : String} {k : κ} (gucTenantVar : String) (h : text ≠ "")
    (hk : cast type text = some k) :
    currentTenant (tenantSession cast gucTenantVar text).1 gucTenantVar type = some k := by
  simp [currentTenant, tenantSession, h, hk, Option.filter]

variable [DecidableEq κ]

/-- A text of a key, for each type of key. -/
def HasKeys (cast : String → String → Option κ) : Prop :=
  ∀ type ∈ allowedPkTypes, ∃ text key, text ≠ "" ∧ text ≠ "true" ∧ cast type text = some key

/-- PostgreSQL takes the policy, and it filters on the column of `f`: whatever the session
holds, a row passes with a flag or with the current tenant in that column. -/
def FiltersOn (cast : String → String → Option κ) (model : Model) (f : Field)
    (gucTenantVar gucAdminVar tenantPkType : String) (flags : List String)
    (policyUsing policyCheck : Cond SqlName) : Prop :=
  ∀ D : Postgres κ, D.1.cast = cast → ∀ row, let scope := [model.frame row]
    policyUsing.Bound D.1 scope ∧ policyCheck.Bound D.1 scope ∧
    (policyUsing.Passes D.1 scope ↔ (∃ flag ∈ gucAdminVar :: flags, FlagSet D.1 flag) ∨
      ∃ k, row f.stored = some k ∧ currentTenant D.1 gucTenantVar tenantPkType = some k) ∧
    (policyCheck.Passes D.1 scope ↔ FlagSet D.1 gucAdminVar ∨
      ∃ k, row f.stored = some k ∧ currentTenant D.1 gucTenantVar tenantPkType = some k) ∧
    ((D.1.setting gucTenantVar = none ∨ D.1.setting gucTenantVar = some "") →
      (∀ flag ∈ gucAdminVar :: flags, ¬FlagSet D.1 flag) →
        ¬policyUsing.Passes D.1 scope ∧ ¬policyCheck.Passes D.1 scope)

variable {model : Model} {f : Field} {n : SqlName}
  {gucTenantVar gucAdminVar tenantPkType : String} {flags : List String}

/-- A name that stands for the column filters on it. -/
theorem filtersOn_of_stored (hf : f.stored ∈ model.columns) (hn : n.stored = f.stored) :
    FiltersOn cast model f gucTenantVar gucAdminVar tenantPkType flags
      (tenantUsing (.column none n) gucTenantVar gucAdminVar tenantPkType flags)
      (tenantCheck (.column none n) gucTenantVar gucAdminVar tenantPkType) := by
  intro D _ row scope
  have heval : (Operand.column none n).eval D.1 scope = some (row f.stored) := by
    rw [eval_ownColumn, hn, if_pos hf]
  have hmem : n.stored ∈ model.columns := by rwa [hn]
  refine ⟨bound_tenantUsing _ _ hmem _ _ _ _, bound_tenantUsing _ _ hmem _ _ _ _, ?_, ?_, ?_⟩
  · rw [passes_tenantUsing, heval]
    simp
  · rw [tenantCheck, passes_tenantUsing, heval]
    simp
  · intro hunset hnone
    rw [tenantCheck, passes_tenantUsing, passes_tenantUsing, currentTenant_unset _ hunset]
    have hadmin := hnone gucAdminVar List.mem_cons_self
    simpa [hadmin] using fun flag hflag => hnone flag (List.mem_cons_of_mem _ hflag)

/-- A name that stands for another column, or for none, does not. -/
theorem stored_of_filtersOn (hkeys : HasKeys cast) (htype : tenantPkType ∈ allowedPkTypes)
    (h : FiltersOn cast model f gucTenantVar gucAdminVar tenantPkType flags
      (tenantUsing (.column none n) gucTenantVar gucAdminVar tenantPkType flags)
      (tenantCheck (.column none n) gucTenantVar gucAdminVar tenantPkType)) : n.stored = f.stored := by
  obtain ⟨text, k, hempty, htrue, hk⟩ := hkeys tenantPkType htype
  by_contra hne
  -- a row with the key in the named column and NULL in the foreign key's
  obtain ⟨⟨-, hbound, -⟩, -, hpass, -⟩ :=
    h (tenantSession cast gucTenantVar text) rfl fun c => if c = n.stored then some k else none
  have hcol : n.stored ∈ model.columns := (names_ownColumn n).1 hbound
  have hcurrent := currentTenant_tenantSession gucTenantVar hempty hk
  rw [passes_tenantUsing, eval_ownColumn, if_pos hcol, hcurrent] at hpass
  rcases hpass.1 (.inr ⟨k, by simp, rfl⟩) with hflag | hrow
  · obtain ⟨flag, -, hset⟩ := hflag
    exact not_flagSet_tenantSession htrue flag hset
  · obtain ⟨k', hk', -⟩ := hrow
    rw [if_neg (Ne.symm hne)] at hk'
    cases hk'

end Table

/-! ## The statements -/

/-- The statement creates the tenant policy of `table` with these two conditions. -/
def CreatesPolicy (sql table : String) (policyUsing policyCheck : Cond SqlName) : Prop :=
  ∃ rest, sql = createPolicyBlock table s!"{table}_tenant_isolation_policy" (condSql policyGap policyUsing)
    (condSql policyGap policyCheck) ++ rest

theorem createsPolicy_build (table : String) (n : SqlName) (gucTenantVar gucAdminVar tenantPkType : String)
    (flags : List String) (rest : String) :
    CreatesPolicy (buildPolicyCreateSql table n.sql gucTenantVar gucAdminVar tenantPkType flags ++ rest) table
      (tenantUsing (.column none n) gucTenantVar gucAdminVar tenantPkType flags)
      (tenantCheck (.column none n) gucTenantVar gucAdminVar tenantPkType) :=
  ⟨rest, congrArg (· ++ rest) (buildPolicyCreateSql_eq table (.column none n) _ _ _ _)⟩

/-- The conditions of the constraint's policy. -/
def RLSConstraint.policyUsing (c : RLSConstraint) : Cond SqlName :=
  tenantUsing (.column none ⟨false, s!"{c.field}_id"⟩) c.gucTenantVar c.gucAdminVar c.tenantPkType c.extraBypassFlags

def RLSConstraint.policyCheck (c : RLSConstraint) : Cond SqlName :=
  tenantCheck (.column none ⟨false, s!"{c.field}_id"⟩) c.gucTenantVar c.gucAdminVar c.tenantPkType

/-- The conditions of the operation's policy on the column `n`. -/
def AddRLSPolicy.policyUsing (op : AddRLSPolicy) (n : SqlName) : Cond SqlName :=
  tenantUsing (.column none n) op.gucTenantVar op.gucAdminVar op.tenantPkType op.extraBypassFlags

def AddRLSPolicy.policyCheck (op : AddRLSPolicy) (n : SqlName) : Cond SqlName :=
  tenantCheck (.column none n) op.gucTenantVar op.gucAdminVar op.tenantPkType

theorem RLSConstraint.createSql_creates {c : RLSConstraint} {apps : Registry} {model : Model} {sql : String}
    (h : c.createSql apps model = .ok sql) : CreatesPolicy sql model.dbTable c.policyUsing c.policyCheck := by
  have hbuild := createsPolicy_build model.dbTable ⟨false, s!"{c.field}_id"⟩ c.gucTenantVar c.gucAdminVar
    c.tenantPkType c.extraBypassFlags
  unfold RLSConstraint.createSql at h
  by_cases hp : c.extraPredicates.isEmpty
  · rw [if_pos hp] at h
    obtain rfl := Except.ok.inj h
    have hnil := hbuild ""
    rwa [String.append_empty] at hnil
  · rw [if_neg hp] at h
    obtain ⟨predicates, -, h⟩ := bind_ok h
    obtain ⟨sharing, -, h⟩ := bind_ok h
    obtain rfl := Except.ok.inj h
    exact hbuild sharing

theorem AddRLSPolicy.table_eq {model : Model} {t : String} (h : AddRLSPolicy.table model = .ok t) :
    model.dbTable = t := by
  unfold AddRLSPolicy.table at h
  split at h
  · cases h
  · exact Except.ok.inj h

theorem AddRLSPolicy.databaseForwards_creates {op : AddRLSPolicy} {settings : Settings} {allowMigrate : Bool}
    {apps : Registry} {model : Model} {sql : String} (hmodel : op.findModel apps = .ok model)
    (h : op.databaseForwards settings allowMigrate apps = .ok (some sql)) :
    ∃ n, op.column settings model = .ok n ∧
      CreatesPolicy sql model.dbTable (op.policyUsing n) (op.policyCheck n) := by
  unfold AddRLSPolicy.databaseForwards at h
  rw [hmodel] at h
  obtain ⟨_, hm, h⟩ := bind_ok h
  obtain rfl := Except.ok.inj hm
  by_cases happlies : AddRLSPolicy.appliesTo allowMigrate model
  · simp only [happlies, Bool.not_true, Bool.false_eq_true, if_false] at h
    obtain ⟨table, htable, h⟩ := bind_ok h
    obtain ⟨n, hn, h⟩ := bind_ok h
    obtain rfl := AddRLSPolicy.table_eq htable
    have hbuild := createsPolicy_build model.dbTable n op.gucTenantVar op.gucAdminVar op.tenantPkType
      op.extraBypassFlags
    refine ⟨n, hn, ?_⟩
    by_cases hp : op.extraPredicates.isEmpty
    · rw [if_pos hp] at h
      obtain rfl := Option.some.inj (Except.ok.inj h)
      have hnil := hbuild ""
      rwa [String.append_empty] at hnil
    · rw [if_neg hp] at h
      obtain ⟨predicates, -, h⟩ := bind_ok h
      obtain ⟨sharing, -, h⟩ := bind_ok h
      obtain rfl := Option.some.inj (Except.ok.inj h)
      exact hbuild sharing
  · simp [happlies, pure, Except.pure] at h

theorem foreignKeyOf_eq {model : Model} {f : Field} {fk : ForeignKey} (hf : model.getField f.name = some f)
    (hfk : f.foreignKey = some fk) : foreignKeyOf model f.name = .ok (f, fk) := by
  simp [foreignKeyOf, hf, hfk]

/-- The column that `AddRLSPolicy` compares is that of its foreign key. -/
theorem AddRLSPolicy.column_finds {op : AddRLSPolicy} {settings : Settings} {model : Model} {n : SqlName}
    (h : op.column settings model = .ok n) : ∃ f fk, foreignKeyOf model op.field = .ok (f, fk) ∧ n.stored = f.stored := by
  unfold AddRLSPolicy.column at h
  obtain ⟨⟨f, fk⟩, hfield, h⟩ := bind_ok h
  refine ⟨f, fk, hfield, ?_⟩
  obtain ⟨_, -, h⟩ := bind_ok h
  obtain ⟨_, hvalid, h⟩ := bind_ok h
  have hname : isFieldName f.column := by
    unfold validateFieldName at hvalid
    split at hvalid
    · assumption
    · cases hvalid
  rw [Field.stored, createdName_of_isFieldName hname]
  by_cases hbare : f.column = s!"{op.field}_id" ∧ f.column = f.column.map Char.toLower
  · obtain rfl := Except.ok.inj ((if_pos hbare).symm.trans h)
    exact stored_bare_of_lower hbare.2
  · obtain rfl := Except.ok.inj ((if_neg hbare).symm.trans h)
    rfl

theorem AddRLSPolicy.column_stored {op : AddRLSPolicy} {settings : Settings} {model : Model} {f : Field}
    {fk : ForeignKey} {n : SqlName} (hf : model.getField f.name = some f) (hfk : f.foreignKey = some fk)
    (hop : op.field = f.name) (h : op.column settings model = .ok n) : n.stored = f.stored := by
  obtain ⟨g, gk, hfield, hn⟩ := AddRLSPolicy.column_finds h
  rw [hop, foreignKeyOf_eq hf hfk] at hfield
  obtain ⟨rfl, -⟩ := Prod.mk.inj (Except.ok.inj hfield)
  exact hn

/-! ## The two policies -/

theorem stored_mem_columns {model : Model} {f : Field} {name : String} (h : model.getField name = some f) :
    f.stored ∈ model.columns :=
  List.mem_map_of_mem (List.mem_reverse.1 (List.mem_of_find?_eq_some h))

/-- **The policies filter on the foreign key**: that of `RLSConstraint` where PostgreSQL
folds `<field>_id` to the foreign key's column, that of `AddRLSPolicy` always. -/
theorem tenant_policies_filter_iff {κ : Type} [DecidableEq κ] {cast : String → String → Option κ}
    (hkeys : HasKeys cast) {model : Model} {f : Field} {fk : ForeignKey}
    (hf : model.getField f.name = some f) (hfk : f.foreignKey = some fk) :
    (∀ (c : RLSConstraint) (apps : Registry) (sql : String), c.field = f.name → c.createSql apps model = .ok sql →
      CreatesPolicy sql model.dbTable c.policyUsing c.policyCheck ∧
        (FiltersOn cast model f c.gucTenantVar c.gucAdminVar c.tenantPkType c.extraBypassFlags
            c.policyUsing c.policyCheck ↔ (SqlName.mk false s!"{f.name}_id").stored = f.stored)) ∧
    (∀ (op : AddRLSPolicy) (settings : Settings) (allowMigrate : Bool) (apps : Registry) (sql : String),
      op.field = f.name → op.findModel apps = .ok model →
      op.databaseForwards settings allowMigrate apps = .ok (some sql) →
      ∃ n, op.column settings model = .ok n ∧
        CreatesPolicy sql model.dbTable (op.policyUsing n) (op.policyCheck n) ∧
        FiltersOn cast model f op.gucTenantVar op.gucAdminVar op.tenantPkType op.extraBypassFlags
          (op.policyUsing n) (op.policyCheck n)) := by
  have hmem := stored_mem_columns hf
  constructor
  · intro c apps sql hc hsql
    refine ⟨RLSConstraint.createSql_creates hsql, ?_⟩
    rw [RLSConstraint.policyUsing, RLSConstraint.policyCheck, hc]
    exact ⟨stored_of_filtersOn hkeys c.names_ok.pkType_ok, filtersOn_of_stored hmem⟩
  · intro op settings allowMigrate apps sql hop hmodel hsql
    obtain ⟨n, hn, hcreates⟩ := AddRLSPolicy.databaseForwards_creates hmodel hsql
    exact ⟨n, hn, hcreates, filtersOn_of_stored hmem (AddRLSPolicy.column_stored hf hfk hop hn)⟩

/-! ### A column of another name -/

section Example

/-- The keys of the examples are numbers. -/
def castKey (_ text : String) : Option Int := castDigits text

theorem hasKeys_castKey : HasKeys castKey := by
  intro type _
  have hone : castDigits "1" = some 1 := by decide
  exact ⟨"1", 1, by decide, by decide, hone⟩

/-- A foreign key to the tenant model. -/
def tenantKey (name : String) (dbColumn : Option String) : Field :=
  ⟨name, dbColumn, some ⟨⟨"tenants", "tenant"⟩, "id"⟩⟩

/-- A model with a tenant and other fields. -/
def orderModel (fields : List Field) : Model :=
  { path := ⟨"shop", "Order"⟩, concrete := ⟨"shop", "order"⟩, abstract := false, rlsProtected := false,
    constraintFields := [], dbTable := "shop_order", fields := fields, localManyToMany := [] }

theorem isFieldName_tenant : isFieldName "tenant" := by decide

theorem isFieldName_owner : isFieldName "owner" := by decide

/-- The constraint on a field, with the default options. -/
def constraintOn (field : String) (h : isFieldName field) : RLSConstraint :=
  { field := field, gucTenantVar := "rls.current_tenant", gucAdminVar := "rls.is_admin", tenantPkType := "int",
    extraBypassFlags := [], extraPredicates := [],
    names_ok := ⟨h, by decide +kernel, by decide⟩ }

theorem tenant_policies_filter_tenant : FiltersOn castKey (orderModel [tenantKey "tenant" none])
    (tenantKey "tenant" none) "rls.current_tenant" "rls.is_admin" "int" []
    (constraintOn "tenant" isFieldName_tenant).policyUsing
    (constraintOn "tenant" isFieldName_tenant).policyCheck := by
  have hf : (orderModel [tenantKey "tenant" none]).getField (tenantKey "tenant" none).name =
      some (tenantKey "tenant" none) := by
    decide +kernel
  have h := (tenant_policies_filter_iff hasKeys_castKey hf rfl).1 (constraintOn "tenant" isFieldName_tenant)
    ⟨[], List.nodup_nil⟩
  exact (h _ rfl rfl).2.2 (by decide +kernel)

/-- The model of the owner's key in `owner_key`, and another column `owner_id`. -/
def ownerModel : Model := orderModel [tenantKey "owner" (some "owner_key"), ⟨"legacy", some "owner_id", none⟩]

theorem tenant_policies_not_owner : ∃ sql,
    (constraintOn "owner" isFieldName_owner).createSql ⟨[], List.nodup_nil⟩ ownerModel = .ok sql ∧
    ownerModel.getField "owner" = some (tenantKey "owner" (some "owner_key")) ∧
    ¬FiltersOn castKey ownerModel (tenantKey "owner" (some "owner_key")) "rls.current_tenant" "rls.is_admin" "int" []
      (constraintOn "owner" isFieldName_owner).policyUsing
      (constraintOn "owner" isFieldName_owner).policyCheck := by
  refine ⟨_, rfl, by decide +kernel, fun h => ?_⟩
  have hstored := stored_of_filtersOn hasKeys_castKey (by decide) h
  exact absurd hstored (by decide +kernel)

end Example

end RlsTenants
