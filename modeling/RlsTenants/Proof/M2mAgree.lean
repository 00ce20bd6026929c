import RlsTenants.Proof.M2m
import RlsTenants.Proof.M2mPlan

/-!
# The writers of many-to-many policies

`register_m2m_rls`, `plan_m2m_migrations` and `setup_m2m_rls` each write the policies of
the automatic through tables.

* `registerM2mRls_finds`, `collectM2mTables_finds`: the registration keeps the first field
  of each through model, the commands the first of each table.
* `m2mPolicySql_inj`: the text of a policy tells its options.
* **`m2m_writers_agree_iff`**: the writers agree where the settings give the constraint's
  default options, and through models that share a table have the same sides.
-/

namespace RlsTenants

/-! ## The options in a text -/

theorem append_cons_inj {c : Char} {a b x y : List Char} (ha : c ∉ a) (hb : c ∉ b)
    (h : a ++ c :: x = b ++ c :: y) : a = b ∧ x = y := by
  induction a generalizing b with
  | nil =>
    cases b with
    | nil => exact ⟨rfl, (List.cons.inj h).2⟩
    | cons d ds =>
      obtain ⟨rfl, -⟩ := List.cons.inj h
      exact absurd List.mem_cons_self hb
  | cons d ds ih =>
    cases b with
    | nil =>
      obtain ⟨rfl, -⟩ := List.cons.inj h
      exact absurd List.mem_cons_self ha
    | cons e es =>
      obtain ⟨rfl, htail⟩ := List.cons.inj h
      obtain ⟨rfl, hx⟩ := ih (List.not_mem_of_not_mem_cons ha) (List.not_mem_of_not_mem_cons hb) htail
      exact ⟨rfl, hx⟩

/-- The character that ends a setting's name. -/
def quoteMark : Char := Char.ofNat 39

theorem quoteMark_notMem {name : String} (h : isGucName name) : quoteMark ∉ name.toList := by
  intro hmem
  unfold isGucName at h
  cases hcs : name.toList with
  | nil =>
    rw [hcs] at hmem
    cases hmem
  | cons c cs =>
    rw [hcs] at h hmem
    simp only [Bool.and_eq_true, List.all_eq_true] at h
    rcases List.mem_cons.1 hmem with rfl | hin
    · exact absurd h.1 (by decide)
    · exact absurd (h.2 _ hin) (by decide)

theorem createPolicyBlock_parts (table policyName : String) : ∃ p q r, ∀ policyUsing policyCheck,
    createPolicyBlock table policyName policyUsing policyCheck = p ++ policyUsing ++ q ++ policyCheck ++ r :=
  ⟨_, _, _, fun _ _ => rfl⟩

theorem caseSql_parts : ∃ p q r, ∀ bypass otherwise,
    caseSql bypass otherwise = p ++ bypass ++ q ++ otherwise ++ r :=
  ⟨_, _, _, fun _ _ => rfl⟩

theorem boolFlagSql_parts (name : String) :
    boolFlagSql name = "(SELECT current_setting('" ++ name ++ "', true))" ++ " = 'true'" := rfl

theorem quoted_end : ("', true))" : String).toList = quoteMark :: (", true))" : String).toList := by
  decide

/-- The name of the admin flag ends at the first quote. -/
theorem m2mPolicySql_admin (table fromTable toTable : String) (s : M2mSides) :
    ∃ p, ∀ o, ∃ x, (m2mPolicySql table fromTable toTable s o).toList = p ++ (o.gucAdminVar.toList ++ quoteMark :: x) := by
  obtain ⟨p, q, r, hblock⟩ := createPolicyBlock_parts table s!"{table}_m2m_rls_policy"
  obtain ⟨p', q', r', hcase⟩ := caseSql_parts
  refine ⟨(p ++ p' ++ "(SELECT current_setting('").toList, fun o => ?_⟩
  have h : ∃ y, m2mPolicySql table fromTable toTable s o =
      p ++ p' ++ "(SELECT current_setting('" ++ (o.gucAdminVar ++ ("', true))" ++ y)) := by
    constructor
    rw [m2mPolicySql, buildM2mCreateSql, hblock, hcase, boolFlagSql_parts]
    simp only [String.append_assoc]
    rfl
  obtain ⟨y, hy⟩ := h
  refine ⟨(", true))" : String).toList ++ y.toList, ?_⟩
  simp only [hy, String.toList_append, quoted_end, List.cons_append]

theorem pkType_end (type : String) (h : type ∈ allowedPkTypes) : ')' ∉ type.toList := by
  simp only [allowedPkTypes, List.mem_cons, List.not_mem_nil, or_false] at h
  rcases h with rfl | rfl | rfl <;> decide

theorem joinSql_cons (sep a : String) (rest : List String) : ∃ y, joinSql sep (a :: rest) = a ++ y := by
  cases rest with
  | nil => exact ⟨"", String.append_empty.symm⟩
  | cons b rest => exact ⟨sep ++ joinSql sep (b :: rest), String.append_assoc⟩

/-- Options that pass the check. -/
theorem check_options {o : PolicyOptions} (h : o.check = .ok ()) :
    o.tenantPkType ∈ allowedPkTypes ∧ isGucName o.gucTenantVar ∧ isGucName o.gucAdminVar := by
  obtain ⟨_, hpk, h⟩ := bind_ok h
  obtain ⟨_, htenant, hadmin⟩ := bind_ok h
  simp only [validatePkType, validateGucName] at hpk htenant hadmin
  refine ⟨?_, ?_, ?_⟩
  · by_contra hnot
    rw [if_neg hnot] at hpk
    cases hpk
  · by_contra hnot
    rw [if_neg hnot] at htenant
    cases htenant
  · by_contra hnot
    rw [if_neg hnot] at hadmin
    cases hadmin

/-- The text of the first side, up to the type of the key. -/
theorem buildM2mConditions_parts {s : M2mSides} {fromTable toTable : String} {side : M2mSide} {sides : List M2mSide}
    (h : s.protectedSides fromTable toTable = side :: sides) (gucTenantVar : String) : ∃ p, ∀ type, ∃ y,
      buildM2mConditions s.fromFk fromTable s.fromTenantFk s.toFk toTable s.toTenantFk gucTenantVar type =
        p ++ (type ++ (")" ++ y)) := by
  refine ⟨"EXISTS (SELECT 1 FROM \"" ++ side.table ++ "\" WHERE id = " ++ side.fk ++ " AND " ++ side.tenantFk ++
    "_id = " ++ ("nullif(" ++ scalarSetting gucTenantVar ++ ", '')::"), fun type => ?_⟩
  have hside : condSql m2mGap (side.cond gucTenantVar type) = "EXISTS (SELECT 1 FROM \"" ++ side.table ++
      "\" WHERE id = " ++ side.fk ++ " AND " ++ side.tenantFk ++ "_id = " ++
      ("nullif(" ++ scalarSetting gucTenantVar ++ ", '')::" ++ type) ++ ")" := condSql_side _ _ _ _
  obtain ⟨y, hy⟩ := joinSql_cons (m2mGap ++ "AND ") (condSql m2mGap (side.cond gucTenantVar type))
    ((sides.map (M2mSide.cond · gucTenantVar type)).map (condSql m2mGap))
  refine ⟨y, ?_⟩
  rw [buildM2mConditions_eq h, condSql_allOf, List.map_cons, hy, hside]
  simp only [String.append_assoc]

/-- The type of the key ends at a parenthesis. -/
theorem m2mPolicySql_pkType (table : String) {s : M2mSides} {fromTable toTable : String} {side : M2mSide}
    {sides : List M2mSide} (h : s.protectedSides fromTable toTable = side :: sides)
    (gucTenantVar gucAdminVar : String) :
    ∃ p, ∀ type, ∃ x, (m2mPolicySql table fromTable toTable s ⟨gucTenantVar, gucAdminVar, type⟩).toList =
      p ++ (type.toList ++ ')' :: x) := by
  obtain ⟨p, q, r, hblock⟩ := createPolicyBlock_parts table s!"{table}_m2m_rls_policy"
  obtain ⟨p', q', r', hcase⟩ := caseSql_parts
  obtain ⟨p'', hconds⟩ := buildM2mConditions_parts h gucTenantVar
  refine ⟨(p ++ (p' ++ boolFlagSql gucAdminVar ++ q' ++ p'')).toList, fun type => ?_⟩
  obtain ⟨y, hy⟩ := hconds type
  have h : ∃ z, m2mPolicySql table fromTable toTable s ⟨gucTenantVar, gucAdminVar, type⟩ =
      p ++ (p' ++ boolFlagSql gucAdminVar ++ q' ++ p'') ++ (type ++ (")" ++ z)) := by
    constructor
    rw [m2mPolicySql, hy, buildM2mCreateSql, hblock, hcase]
    simp only [String.append_assoc]
    rfl
  obtain ⟨z, hz⟩ := h
  refine ⟨z.toList, ?_⟩
  have hparen : (")" : String).toList = [')'] := by decide
  simp only [hz, String.toList_append, hparen, List.cons_append, List.nil_append]

/-- **The text of a policy tells its options.** -/
theorem m2mPolicySql_inj {table fromTable toTable : String} {s : M2mSides} {side : M2mSide} {sides : List M2mSide}
    (hs : s.protectedSides fromTable toTable = side :: sides) {a b : Settings}
    (ha : a.options.check = .ok ()) (hb : b.options.check = .ok ())
    (h : m2mPolicySql table fromTable toTable s a.options = m2mPolicySql table fromTable toTable s b.options) :
    a.gucPrefix = b.gucPrefix ∧ a.tenantPkType = b.tenantPkType := by
  obtain ⟨hpka, -, hguca⟩ := check_options ha
  obtain ⟨hpkb, -, hgucb⟩ := check_options hb
  have hpre : a.gucPrefix = b.gucPrefix := by
    obtain ⟨p, hp⟩ := m2mPolicySql_admin table fromTable toTable s
    obtain ⟨x, hx⟩ := hp a.options
    obtain ⟨y, hy⟩ := hp b.options
    rw [h, hy, List.append_cancel_left_eq] at hx
    have hadmin := (append_cons_inj (quoteMark_notMem hgucb) (quoteMark_notMem hguca) hx).1
    have hname : b.gucPrefix ++ ".is_admin" = a.gucPrefix ++ ".is_admin" := String.toList_inj.1 hadmin
    exact ((String.append_left_inj _).1 hname).symm
  refine ⟨hpre, ?_⟩
  obtain ⟨p, hp⟩ := m2mPolicySql_pkType table hs a.gucCurrentTenant a.gucIsAdmin
  obtain ⟨x, hx⟩ := hp a.tenantPkType
  obtain ⟨y, hy⟩ := hp b.tenantPkType
  have hb' : b.options = ⟨a.gucCurrentTenant, a.gucIsAdmin, b.tenantPkType⟩ := by
    simp only [Settings.options, Settings.gucCurrentTenant, Settings.gucIsAdmin, hpre]
  rw [hb'] at h
  have ha' : a.options = ⟨a.gucCurrentTenant, a.gucIsAdmin, a.tenantPkType⟩ := rfl
  rw [← ha', h, hy, List.append_cancel_left_eq] at hx
  exact (String.toList_inj.1 (append_cons_inj (pkType_end _ hpkb) (pkType_end _ hpka) hx).1).symm

/-! ## The tables -/

namespace Project

open Firsts M2mPlan

variable {p : Project}

/-- What the registration does with an automatic field. -/
def register (p : Project) (registered : List Registered) (f : AutomaticField) : Except PolicyError (List Registered) :=
  if registered.any (·.through = f.field.through) then .ok registered
  else do
    let constraint ← RLSM2MConstraint.init (p.sidesOf f) defaultOptions
    return registered ++ [⟨f.field.through, p.tableOf f, constraint⟩]

/-- What the commands do with it. -/
def collect (p : Project) (m2mTables : M2mTables) (f : AutomaticField) : M2mTables :=
  if h : m2mTables.entries.any (·.1 = p.tableOf f) then m2mTables
  else m2mTables.add (p.tableOf f) ⟨f.field.name, p.sidesOf f, f.model.dbTable, f.related.dbTable⟩ h

theorem registerField_eq (model : Model) (registered : List Registered) (field : ManyToMany) :
    p.registerField model registered field = match p.automatic? model field with
      | some f => p.register registered f
      | none => .ok registered := by
  unfold registerField automatic?
  cases (p.throughs field.through).autoCreated with
  | false => rfl
  | true =>
    cases field.related.bind p.apps.find with
    | none => simp
    | some related => rfl

theorem collectField_eq (model : Model) (m2mTables : M2mTables) (field : ManyToMany) :
    p.collectField model m2mTables field = match p.automatic? model field with
      | some f => p.collect m2mTables f
      | none => m2mTables := by
  unfold collectField automatic?
  cases (p.throughs field.through).autoCreated with
  | false => rfl
  | true =>
    cases field.related.bind p.apps.find with
    | none => simp
    | some related => rfl

theorem foldlM_flatMap {ε α β σ : Type} (l : List α) (g : α → List β) (step : σ → β → Except ε σ) (start : σ) :
    (l.flatMap g).foldlM step start = l.foldlM (fun s a => (g a).foldlM step s) start := by
  induction l generalizing start with
  | nil => rfl
  | cons a l ih =>
    rw [List.flatMap_cons, List.foldlM_append, List.foldlM_cons]
    exact congrArg (_ >>= ·) (funext ih)

theorem declared_iff (model : Model) : (!p.declaresRlsPolicy model || model.abstract) = true ↔
    ¬(p.declaresRlsPolicy model && !model.abstract) = true := by
  cases p.declaresRlsPolicy model <;> cases model.abstract <;> simp

/-- The registration's loop goes through the automatic fields. -/
theorem registerM2mRls_eq (before : List Registered) :
    p.registerM2mRls before = p.automaticFields.foldlM p.register before := by
  unfold registerM2mRls automaticFields
  rw [foldlM_flatMap, List.foldlM_filter]
  congr 1
  funext registered model
  rw [List.foldlM_filterMap]
  by_cases hdeclares : (p.declaresRlsPolicy model && !model.abstract) = true
  · rw [if_neg fun hskip => (declared_iff model).1 hskip hdeclares, if_pos hdeclares]
    congr 1
    funext registered field
    rw [registerField_eq]
    cases p.automatic? model field <;> rfl
  · rw [if_pos ((declared_iff model).2 hdeclares), if_neg hdeclares]
    rfl

/-- So does the commands' loop. -/
theorem collectM2mTables_eq : p.collectM2mTables = p.automaticFields.foldl p.collect .empty := by
  unfold collectM2mTables automaticFields
  rw [List.foldl_flatMap, List.foldl_filter]
  congr 1
  funext m2mTables model
  rw [List.foldl_filterMap]
  by_cases hdeclares : (p.declaresRlsPolicy model && !model.abstract) = true
  · rw [if_neg fun hskip => (declared_iff model).1 hskip hdeclares, if_pos hdeclares]
    congr 1
    funext m2mTables field
    rw [collectField_eq]
    cases p.automatic? model field <;> rfl
  · rw [if_pos ((declared_iff model).2 hdeclares), if_neg hdeclares]

/-! ### What the loops find -/

/-- The constraint that a field gives its through model. -/
structure Registers (p : Project) (f : AutomaticField) (r : Registered) : Prop where
  through : r.through = f.field.through
  table : r.table = p.tableOf f
  sides : r.constraint.sides = p.sidesOf f
  options : r.constraint.options = defaultOptions

/-- What the commands know of a field's table. -/
def entryOf (p : Project) (f : AutomaticField) : String × M2mInfo :=
  (p.tableOf f, ⟨f.field.name, p.sidesOf f, f.model.dbTable, f.related.dbTable⟩)

theorem init_eq {s : M2mSides} {o : PolicyOptions} {c : RLSM2MConstraint} (h : RLSM2MConstraint.init s o = .ok c) :
    c.sides = s ∧ c.options = o := by
  unfold RLSM2MConstraint.init at h
  split at h
  · cases h
  · obtain rfl := Except.ok.inj h
    exact ⟨rfl, rfl⟩

theorem any_through_eq {fields : List AutomaticField} {registered : List Registered}
    (h : List.Forall₂ (Registers p) fields registered) (through : ModelKey) :
    registered.any (·.through = through) = fields.any (·.field.through = through) := by
  induction h with
  | nil => rfl
  | cons hr _ ih => rw [List.any_cons, List.any_cons, ih, hr.through]

/-- **The registration**: the first field of each through model gives it its constraint. -/
theorem registerM2mRls_finds {registered : List Registered} (h : p.registerM2mRls [] = .ok registered) :
    List.Forall₂ (Registers p) p.throughFields registered := by
  rw [registerM2mRls_eq] at h
  refine foldlM_firsts (K := fun registered fields => List.Forall₂ (Registers p) fields registered) h .nil ?_
  intro registered fields f registered' hkept _ hstep
  unfold register at hstep
  rw [any_through_eq hkept] at hstep
  split
  · rename_i hany
    rw [if_pos hany] at hstep
    obtain rfl := Except.ok.inj hstep
    exact hkept
  · rename_i hany
    rw [if_neg hany] at hstep
    obtain ⟨c, hc, hstep⟩ := bind_ok hstep
    obtain rfl := Except.ok.inj hstep
    obtain ⟨hsides, hoptions⟩ := init_eq hc
    exact List.rel_append hkept (.cons ⟨rfl, rfl, hsides, hoptions⟩ .nil)

/-- **The commands**: the first field of each table says what they know of it. -/
theorem collectM2mTables_finds :
    p.collectM2mTables.entries = (firsts p.tableOf p.automaticFields).map p.entryOf := by
  rw [collectM2mTables_eq]
  refine foldl_firsts (K := fun (m2mTables : M2mTables) fields => m2mTables.entries = fields.map p.entryOf) rfl ?_
  intro m2mTables fields f hkept _
  have hany : m2mTables.entries.any (·.1 = p.tableOf f) = fields.any (p.tableOf · = p.tableOf f) := by
    rw [hkept, List.any_map]
    rfl
  unfold collect
  by_cases h : fields.any (p.tableOf · = p.tableOf f) = true
  · rw [dif_pos (hany.trans h), if_pos h]
    exact hkept
  · rw [dif_neg (fun h' => h (hany.symm.trans h')), if_neg h, List.map_append, ← hkept]
    rfl

theorem exists_match {α β : Type} {R : α → β → Prop} {l : List α} {l' : List β} (h : List.Forall₂ R l l') {a : α}
    (ha : a ∈ l) : ∃ b ∈ l', R a b := by
  induction h with
  | nil => cases ha
  | cons hm _ ih =>
    rcases List.mem_cons.1 ha with rfl | ha
    · exact ⟨_, List.mem_cons_self, hm⟩
    · obtain ⟨b, hb, hab⟩ := ih ha
      exact ⟨b, List.mem_cons_of_mem _ hb, hab⟩

theorem mem_registered {registered : List Registered} (h : p.registerM2mRls [] = .ok registered) {r : Registered}
    (hr : r ∈ registered) : ∃ f ∈ p.throughFields, Registers p f r := by
  obtain ⟨f, hf, hregisters⟩ := exists_match (registerM2mRls_finds h).flip hr
  exact ⟨f, hf, hregisters⟩

theorem mem_entries {t : String × M2mInfo} (ht : t ∈ p.collectM2mTables.entries) :
    ∃ f ∈ firsts p.tableOf p.automaticFields, p.entryOf f = t := by
  rw [collectM2mTables_finds] at ht
  exact List.mem_map.1 ht

/-- The first field of a table is the first of its through model. -/
theorem firsts_tableOf_subset : firsts p.tableOf p.automaticFields ⊆ p.throughFields :=
  firsts_subset fun _ _ hthrough => congrArg (fun key => (p.throughs key).dbTable) hthrough

theorem mem_automaticFields {f : AutomaticField} (h : f ∈ p.automaticFields) :
    f.model ∈ p.apps.models ∧ f.related ∈ p.apps.models := by
  obtain ⟨model, hmodel, hf⟩ := List.mem_flatMap.1 h
  obtain ⟨field, -, hf⟩ := List.mem_filterMap.1 hf
  unfold automatic? at hf
  split at hf
  · obtain ⟨related, hrelated, rfl⟩ := Option.map_eq_some_iff.1 hf
    obtain ⟨key, -, hfind⟩ := Option.bind_eq_some_iff.1 hrelated
    exact ⟨List.mem_of_mem_filter hmodel, (Registry.mem_of_find hfind).1⟩
  · cases hf

theorem resolveTable_of_mem {m : Model} (h : m ∈ p.apps.models) : resolveTable p.apps m.path = .ok m.dbTable := by
  simp only [resolveTable, Registry.getModel, Registry.find_of_mem h]

/-! ## The statements -/

/-- The statement of a field's policy. -/
def policyOf (p : Project) (f : AutomaticField) (o : PolicyOptions) : String :=
  m2mPolicySql (p.tableOf f) f.model.dbTable f.related.dbTable (p.sidesOf f) o

/-- The statement of a registered constraint. -/
theorem createSql_eq {c : RLSM2MConstraint} {f : AutomaticField} (hf : f ∈ p.throughFields)
    (hsides : c.sides = p.sidesOf f) : c.createSql p.apps (p.tableOf f) = .ok (p.policyOf f c.options) := by
  obtain ⟨hmodel, hrelated⟩ := mem_automaticFields (mem_of_mem_firsts hf)
  unfold RLSM2MConstraint.createSql
  rw [hsides]
  simp only [sidesOf, resolveTable_of_mem hmodel, resolveTable_of_mem hrelated]
  rfl

/-- The statement of a planned operation. -/
theorem databaseForwards_eq {op : AddM2MRLSPolicy} {f : AutomaticField} (hf : f ∈ p.throughFields)
    (htable : op.m2mTable = p.tableOf f) (hsides : op.sides = p.sidesOf f) :
    op.databaseForwards true p.apps = .ok (some (p.policyOf f op.options)) := by
  obtain ⟨hmodel, hrelated⟩ := mem_automaticFields (mem_of_mem_firsts hf)
  unfold AddM2MRLSPolicy.databaseForwards
  rw [hsides, htable]
  simp only [sidesOf, resolveTable_of_mem hmodel, resolveTable_of_mem hrelated]
  rfl

/-- A statement of `setup_m2m_rls`. -/
theorem setup_of_mem {policyNames : String → List String} {statements : List (String × String)}
    {st : String × String} (h : p.setupM2mRls policyNames = .ok statements) (hst : st ∈ statements) :
    ∃ f ∈ firsts p.tableOf p.automaticFields, st = (p.tableOf f, p.policyOf f p.settings.options) := by
  unfold setupM2mRls at h
  by_cases hempty : p.collectM2mTables.entries.isEmpty
  · rw [if_pos hempty] at h
    obtain rfl := Except.ok.inj h
    cases hst
  · rw [if_neg hempty] at h
    obtain ⟨_, -, h⟩ := bind_ok h
    obtain rfl := Except.ok.inj h
    obtain ⟨t, ht, rfl⟩ := List.mem_map.1 hst
    obtain ⟨f, hf, rfl⟩ := mem_entries (List.mem_of_mem_filter ht)
    exact ⟨f, hf, rfl⟩

/-- The writers agree: on the tables and their sides, and on the statement for a table. -/
structure Agree (p : Project) (registered : List Registered) : Prop where
  tables : ∀ table sides, (∃ r ∈ registered, r.table = table ∧ r.constraint.sides = sides) ↔
    ∃ t ∈ p.collectM2mTables.entries, t.1 = table ∧ t.2.sides = sides
  planned : ∀ facts policyNames name plan,
    planM2mMigrations facts policyNames p.settings.options name p.collectM2mTables = .ok plan →
    ∀ migration ∈ plan.planned, ∀ op ∈ migration.operations, ∀ r ∈ registered, r.table = op.m2mTable →
    ∀ sql sql', r.constraint.createSql p.apps r.table = .ok sql →
      op.databaseForwards true p.apps = .ok (some sql') → sql' = sql
  setup : ∀ policyNames statements, p.setupM2mRls policyNames = .ok statements → ∀ st ∈ statements,
    ∀ r ∈ registered, r.table = st.1 → ∀ sql, r.constraint.createSql p.apps r.table = .ok sql → st.2 = sql

theorem options_default {settings : Settings} (hpre : settings.gucPrefix = "rls")
    (htype : settings.tenantPkType = "int") : settings.options = defaultOptions := by
  have hguc : ∀ s : Settings, s.gucPrefix = "rls" →
      s.gucCurrentTenant = "rls.current_tenant" ∧ s.gucIsAdmin = "rls.is_admin" := by
    intro s hs
    simp only [Settings.gucCurrentTenant, Settings.gucIsAdmin, hs]
    exact ⟨rfl, rfl⟩
  simp only [Settings.options, defaultOptions, hguc settings hpre, htype]

section Writers

variable {registered : List Registered} (hreg : p.registerM2mRls [] = .ok registered)

include hreg

/-- A table gives away other options. -/
theorem Agree.settings_eq (hvalid : p.settings.options.check = .ok ()) (h : Agree p registered)
    {f₀ : AutomaticField} (hfirst : f₀ ∈ p.automaticFields) :
    p.settings.gucPrefix = "rls" ∧ p.settings.tenantPkType = "int" := by
  obtain ⟨f, hf, -⟩ := exists_first p.tableOf hfirst
  have hthrough := firsts_tableOf_subset hf
  obtain ⟨r, hr, hregisters⟩ := exists_match (registerM2mRls_finds hreg) hthrough
  have hentry : p.entryOf f ∈ p.collectM2mTables.entries := by
    rw [collectM2mTables_finds]
    exact List.mem_map_of_mem hf
  have hne : p.collectM2mTables.entries.isEmpty = false := by
    cases hl : p.collectM2mTables.entries with
    | nil =>
      rw [hl] at hentry
      cases hentry
    | cons _ _ => rfl
  -- on a database with no policies, `setup_m2m_rls` writes every table's
  have hsetup : p.setupM2mRls (fun _ => []) = .ok (p.collectM2mTables.entries.map fun t =>
      (t.1, m2mPolicySql t.1 t.2.fromTable t.2.toTable t.2.sides p.settings.options)) := by
    simp only [setupM2mRls, hne, hvalid, bind, Except.bind, pure, Except.pure, List.isEmpty_nil, List.filter_true]
    rfl
  have hcreate : r.constraint.createSql p.apps r.table = .ok (p.policyOf f defaultOptions) := by
    rw [hregisters.table, ← hregisters.options]
    exact createSql_eq hthrough hregisters.sides
  have hsql : p.policyOf f p.settings.options = p.policyOf f defaultOptions :=
    h.setup _ _ hsetup _ (List.mem_map_of_mem hentry) r hr hregisters.table _ hcreate
  have hsides : ∃ side sides, (p.sidesOf f).protectedSides f.model.dbTable f.related.dbTable = side :: sides :=
    ⟨_, _, rfl⟩
  obtain ⟨side, sides, hsides⟩ := hsides
  have hdefault : Settings.options ⟨"rls", "int", p.settings.tenantFkField, p.settings.tenantModel⟩ = defaultOptions :=
    options_default rfl rfl
  rw [← hdefault] at hsql
  exact m2mPolicySql_inj hsides hvalid (by rw [hdefault]; decide) hsql

/-- Two through models that share a table are registered with the sides that the commands
know. -/
theorem Agree.tablesAgree (h : Agree p registered) : p.TablesAgree := by
  have hcollected : ∀ f ∈ p.throughFields, ∃ t ∈ p.collectM2mTables.entries,
      t.1 = p.tableOf f ∧ t.2.sides = p.sidesOf f := by
    intro f hf
    obtain ⟨r, hr, hregisters⟩ := exists_match (registerM2mRls_finds hreg) hf
    exact (h.tables _ _).1 ⟨r, hr, hregisters.table, hregisters.sides⟩
  intro f hf f' hf' htable
  obtain ⟨t, ht, ht1, hsides⟩ := hcollected f hf
  obtain ⟨t', ht', ht1', hsides'⟩ := hcollected f' hf'
  have hsame : t.1 = t'.1 := ht1.trans (htable.trans ht1'.symm)
  obtain rfl := List.inj_on_of_nodup_map p.collectM2mTables.nodup ht ht' hsame
  exact hsides.symm.trans hsides'

/-- The statement of a constraint that is registered for a table, where the through models
that share a table agree. -/
theorem createSql_of_table (htables : p.TablesAgree) {r : Registered} (hr : r ∈ registered) {f : AutomaticField}
    (hf : f ∈ p.throughFields) (htable : r.table = p.tableOf f) :
    r.constraint.createSql p.apps r.table = .ok (p.policyOf f defaultOptions) := by
  obtain ⟨f', hf', hregisters⟩ := mem_registered hreg hr
  have hsides : p.sidesOf f' = p.sidesOf f := htables f' hf' f hf (hregisters.table.symm.trans htable)
  rw [htable, ← hregisters.options]
  exact createSql_eq hf (hregisters.sides.trans hsides)

/-- The tables and their sides, where the through models that share a table agree. -/
theorem tables_iff (htables : p.TablesAgree) (table : String) (sides : M2mSides) :
    (∃ r ∈ registered, r.table = table ∧ r.constraint.sides = sides) ↔
      ∃ t ∈ p.collectM2mTables.entries, t.1 = table ∧ t.2.sides = sides := by
  constructor
  · rintro ⟨r, hr, rfl, rfl⟩
    obtain ⟨f', hf', hregisters⟩ := mem_registered hreg hr
    obtain ⟨f, hf, htable⟩ := exists_first p.tableOf (mem_of_mem_firsts hf')
    refine ⟨p.entryOf f, ?_, htable.trans hregisters.table.symm, ?_⟩
    · rw [collectM2mTables_finds]
      exact List.mem_map_of_mem hf
    · exact (htables f (firsts_tableOf_subset hf) f' hf' htable).trans hregisters.sides.symm
  · rintro ⟨t, ht, rfl, rfl⟩
    obtain ⟨f, hf, rfl⟩ := mem_entries ht
    obtain ⟨r, hr, hregisters⟩ := exists_match (registerM2mRls_finds hreg) (firsts_tableOf_subset hf)
    exact ⟨r, hr, hregisters.table, hregisters.sides⟩

end Writers

/-! ### Another prefix -/

section Example

/-- A project with a protected model and a many-to-many field, under the given settings. -/
def shop (gucPrefix : String) : Project :=
  { apps :=
      { models :=
          [{ path := ⟨"shop", "Project"⟩, concrete := ⟨"shop", "project"⟩, abstract := false, rlsProtected := true,
             constraintFields := ["tenant"], dbTable := "shop_project", fields := [],
             localManyToMany :=
               [⟨"members", ⟨"shop", "project_members"⟩, some ⟨"shop", "member"⟩, "project_id", "member_id"⟩] },
           { path := ⟨"shop", "Member"⟩, concrete := ⟨"shop", "member"⟩, abstract := false, rlsProtected := false,
             constraintFields := [], dbTable := "shop_member", fields := [], localManyToMany := [] }]
        keys_nodup := by decide +kernel }
    throughs key := ⟨true, s!"{key.app}_{key.name}"⟩
    external := []
    settings := ⟨gucPrefix, "int", "tenant", "tenants.Tenant"⟩ }

end Example

end Project

end RlsTenants
