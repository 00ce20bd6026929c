import RlsTenants.Spec.M2m
import RlsTenants.Proof.Policies

/-!
# The rows that a many-to-many policy looks at

* `buildM2mCreateSql_eq`: the text of the policy is the text of `m2mCond`.
* `eval_sideColumn`: in a subquery, a bare name is the inner table's column if the table
  has one of that name, else the through table's.
* **`m2m_checks_referenced`**: the policy checks the referenced rows where the bare names
  stand for the columns they are meant for; with one protected side, only there.
-/

namespace RlsTenants

open RowSql

/-! ## The text -/

/-- What stands before each AND of a many-to-many policy. -/
def m2mGap : String := "\n                                "

theorem condSql_allOf (gap : String) (c : Cond SqlName) (cs : List (Cond SqlName)) :
    condSql gap (c.allOf cs) = joinSql (gap ++ "AND ") ((c :: cs).map (condSql gap)) := by
  induction cs generalizing c with
  | nil => rfl
  | cons d ds ih =>
    have h : condSql gap (c.allOf (d :: ds)) = condSql gap c ++ gap ++ "AND " ++ condSql gap (d.allOf ds) := rfl
    have h' : joinSql (gap ++ "AND ") ((c :: d :: ds).map (condSql gap)) =
      condSql gap c ++ (gap ++ "AND ") ++ joinSql (gap ++ "AND ") ((d :: ds).map (condSql gap)) := rfl
    have hassoc : condSql gap c ++ gap ++ "AND " = condSql gap c ++ (gap ++ "AND ") := append_joined rfl _
    rw [h, h', ih d, hassoc]

theorem condSql_side (gap gucTenantVar tenantPkType : String) (side : M2mSide) :
    condSql gap (side.cond gucTenantVar tenantPkType) =
      s!"EXISTS (SELECT 1 FROM \"{side.table}\" WHERE id = {side.fk} AND {side.tenantFk}_id = {
        tenantValueSql gucTenantVar tenantPkType})" := by
  have h : condSql gap (side.cond gucTenantVar tenantPkType) =
      "EXISTS (SELECT 1 FROM " ++ ("\"" ++ side.table ++ "\"") ++ " WHERE " ++
        ("id" ++ " = " ++ side.fk ++ " " ++ "AND " ++ (side.tenantFk ++ "_id" ++ " = " ++
          operandSql (tenantValue gucTenantVar tenantPkType))) ++ ")" := rfl
  have hgoal : s!"EXISTS (SELECT 1 FROM \"{side.table}\" WHERE id = {side.fk} AND {side.tenantFk}_id = {
      tenantValueSql gucTenantVar tenantPkType})" = "EXISTS (SELECT 1 FROM \"" ++ side.table ++ "\" WHERE id = " ++
        side.fk ++ " AND " ++ side.tenantFk ++ "_id = " ++ tenantValueSql gucTenantVar tenantPkType ++ ")" := rfl
  rw [h, hgoal, operandSql_tenantValue]
  apply String.toList_inj.1
  simp [String.toList_append]

/-- The conditions on the sides are those of the text. -/
theorem buildM2mConditions_eq {s : M2mSides} {fromTable toTable gucTenantVar tenantPkType : String} {side : M2mSide}
    {sides : List M2mSide} (h : s.protectedSides fromTable toTable = side :: sides) :
    buildM2mConditions s.fromFk fromTable s.fromTenantFk s.toFk toTable s.toTenantFk gucTenantVar tenantPkType =
      condSql m2mGap ((side.cond gucTenantVar tenantPkType).allOf
        (sides.map (M2mSide.cond · gucTenantVar tenantPkType))) := by
  have hgap : m2mGap ++ "AND " = "\n                                AND " := by simp [m2mGap]
  rw [condSql_allOf, hgap, ← List.map_cons (f := (M2mSide.cond · gucTenantVar tenantPkType)), ← h, List.map_map]
  have hside : condSql m2mGap ∘ (M2mSide.cond · gucTenantVar tenantPkType) = fun side : M2mSide =>
      s!"EXISTS (SELECT 1 FROM \"{side.table}\" WHERE id = {side.fk} AND {side.tenantFk}_id = {
        tenantValueSql gucTenantVar tenantPkType})" := funext fun side => condSql_side _ _ _ side
  rw [hside]
  cases hf : s.fromTenantFk <;> cases ht : s.toTenantFk <;> simp [M2mSides.protectedSides, buildM2mConditions, hf, ht]

theorem m2mPolicySql_eq {s : M2mSides} {fromTable toTable : String} {side : M2mSide} {sides : List M2mSide}
    (table : String) (o : PolicyOptions) (h : s.protectedSides fromTable toTable = side :: sides) :
    m2mPolicySql table fromTable toTable s o = createPolicyBlock table s!"{table}_m2m_rls_policy"
      (condSql m2mGap (m2mCond side sides o)) (condSql m2mGap (m2mCond side sides o)) := by
  rw [m2mPolicySql, buildM2mCreateSql, buildM2mConditions_eq h, m2mCond, condSql_caseTrue, condSql_boolFlag]

/-! ## The names in a subquery -/

/-- What a name that is not quoted stands for. -/
def bare (name : String) : Name := (SqlName.mk false name).stored

/-- The table of a protected side as the database has it: its primary key and the column
of its tenant foreign key. -/
structure SideTable where
  columns : List Name
  pk : Name
  tenant : Name
  pk_mem : pk ∈ columns
  tenant_mem : tenant ∈ columns

/-- The columns of the through table, which Django names in lower case. -/
def M2mSides.columns (s : M2mSides) : List Name := [bare "id", bare s.fromFk, bare s.toFk]

theorem fk_of_protectedSides {s : M2mSides} {fromTable toTable : String} {side : M2mSide}
    (h : side ∈ s.protectedSides fromTable toTable) : side.fk = s.fromFk ∨ side.fk = s.toFk := by
  rcases List.mem_append.1 h with h | h
  · obtain ⟨fk, -, rfl⟩ := Option.mem_map.1 (Option.mem_toList.1 h)
    exact .inl rfl
  · obtain ⟨fk, -, rfl⟩ := Option.mem_map.1 (Option.mem_toList.1 h)
    exact .inr rfl

section Referenced

variable {κ : Type}

/-- The through row as the policy sees it. -/
def M2mSides.scope (s : M2mSides) (table : String) (row : Name → Option κ) : List (RowFrame Name κ) :=
  [⟨createdName table, s.columns, row⟩]

/-- The row that the side's foreign key references exists, and it is the current tenant's. -/
def SideTable.References (t : SideTable) (side : M2mSide) (D : Postgres κ) (o : PolicyOptions)
    (row : Name → Option κ) : Prop :=
  ∃ r ∈ D.1.rows (SqlName.mk true side.table).stored,
    (∃ k, r t.pk = some k ∧ row (bare side.fk) = some k) ∧
    ∃ k, r t.tenant = some k ∧ currentTenant D.1 o.gucTenantVar o.tenantPkType = some k

/-- The value of a bare name: the inner table's column, else the through table's. -/
theorem eval_sideColumn {D : Postgres κ} {inner outer : RowFrame Name κ} (name : String) :
    (Operand.column none ⟨false, name⟩).eval D.1 [inner, outer] =
      if bare name ∈ inner.columns then some (inner.row (bare name))
      else if bare name ∈ outer.columns then some (outer.row (bare name)) else none := by
  have hname : D.1.name ⟨false, name⟩ = bare name := D.name_eq _
  by_cases hi : bare name ∈ inner.columns
  · simp [Operand.eval, find, hname, hi]
  · by_cases ho : bare name ∈ outer.columns <;> simp [Operand.eval, find, hname, hi, ho]

theorem names_sideColumn {D : Postgres κ} {inner outer : RowFrame Name κ} (name : String) :
    Cond.Bound.Names D.1 [inner, outer] (.column none ⟨false, name⟩) ↔
      bare name ∈ inner.columns ∨ bare name ∈ outer.columns := by
  rw [names_column, eval_sideColumn]
  by_cases hi : bare name ∈ inner.columns
  · simp [hi]
  · by_cases ho : bare name ∈ outer.columns <;> simp [hi, ho]

/-- The bare names in the subquery stand for the columns they are meant for: `id` for the
primary key, the foreign key for the through table's, and `<field>_id` for the tenant
foreign key's column (or for the same value, where that column is `id` itself). -/
def SideTable.StandsFor (t : SideTable) (side : M2mSide) : Prop :=
  t.pk = bare "id" ∧ bare side.fk ∉ t.columns ∧
    (bare s!"{side.tenantFk}_id" = t.tenant ∨
      (t.tenant = bare "id" ∧ bare s!"{side.tenantFk}_id" = bare side.fk))

variable {D : Postgres κ} {s : M2mSides} {table : String} {row : Name → Option κ} {side : M2mSide} {t : SideTable}
  {o : PolicyOptions}

/-- The value of a bare name in the subquery on a side's table, for its row and the through row. -/
def subqueryValue (t : SideTable) (s : M2mSides) (r row : Name → Option κ) (name : String) : Option (Option κ) :=
  if bare name ∈ t.columns then some (r (bare name))
  else if bare name ∈ s.columns then some (row (bare name)) else none

theorem subqueryValue_inner {r : Name → Option κ} {name : String} (h : bare name ∈ t.columns) :
    subqueryValue t s r row name = some (r (bare name)) := if_pos h

theorem subqueryValue_outer {r : Name → Option κ} {name : String} (h : bare name ∉ t.columns)
    (h' : bare name ∈ s.columns) : subqueryValue t s r row name = some (row (bare name)) :=
  (if_neg h).trans (if_pos h')

theorem subqueryValue_cases {r : Name → Option κ} {name : String} {u : Option κ}
    (h : subqueryValue t s r row name = some u) :
    bare name ∈ t.columns ∧ r (bare name) = u ∨ bare name ∉ t.columns ∧ row (bare name) = u := by
  unfold subqueryValue at h
  by_cases hp : bare name ∈ t.columns
  · exact .inl ⟨hp, Option.some.inj ((if_pos hp).symm.trans h)⟩
  · rw [if_neg hp] at h
    by_cases hq : bare name ∈ s.columns
    · exact .inr ⟨hp, Option.some.inj ((if_pos hq).symm.trans h)⟩
    · rw [if_neg hq] at h
      cases h

/-- A name in the subquery on a side's table. -/
theorem eval_name (hcols : D.1.columns (SqlName.mk true side.table).stored = t.columns) (r : Name → Option κ)
    (name : String) : (Operand.column none ⟨false, name⟩).eval D.1
      (D.1.frame ⟨true, side.table⟩ none r :: s.scope table row) = subqueryValue t s r row name := by
  have hframe : (D.1.frame ⟨true, side.table⟩ none r).columns = t.columns :=
    (congrArg D.1.columns (D.name_eq _)).trans hcols
  rw [M2mSides.scope, eval_sideColumn, hframe]
  rfl

theorem bound_side (hcols : D.1.columns (SqlName.mk true side.table).stored = t.columns) :
    (side.cond o.gucTenantVar o.tenantPkType).Bound D.1 (s.scope table row) ↔
      (bare "id" ∈ t.columns ∨ bare "id" ∈ s.columns) ∧ (bare side.fk ∈ t.columns ∨ bare side.fk ∈ s.columns) ∧
      (bare s!"{side.tenantFk}_id" ∈ t.columns ∨ bare s!"{side.tenantFk}_id" ∈ s.columns) := by
  have hframe : (D.1.frame ⟨true, side.table⟩ none fun _ => none).columns = t.columns :=
    (congrArg D.1.columns (D.name_eq _)).trans hcols
  simp only [M2mSide.cond, Cond.Bound, M2mSides.scope, names_sideColumn, hframe]
  simp only [Cond.Bound.Names, tenantValue, and_true, and_assoc]

theorem bound_side_of_standsFor (hcols : D.1.columns (SqlName.mk true side.table).stored = t.columns)
    (hfk : bare side.fk ∈ s.columns) (h : t.StandsFor side) :
    (side.cond o.gucTenantVar o.tenantPkType).Bound D.1 (s.scope table row) := by
  obtain ⟨hpk, -, htenant⟩ := h
  rw [bound_side hcols]
  refine ⟨.inl (hpk ▸ t.pk_mem), .inr hfk, ?_⟩
  rcases htenant with ht | ⟨-, hname⟩
  · exact .inl (ht ▸ t.tenant_mem)
  · exact .inr (hname ▸ hfk)

variable [DecidableEq κ]

/-- PostgreSQL takes the policy, and a through row passes it with the admin flag, or when
every protected side's row exists and is the current tenant's. -/
def ChecksReferenced (cast : String → String → Option κ) (s : M2mSides) (table : String)
    (sides : List (M2mSide × SideTable)) (o : PolicyOptions) (c : Cond SqlName) : Prop :=
  ∀ D : Postgres κ, D.1.cast = cast →
    (∀ x ∈ sides, D.1.columns (SqlName.mk true x.1.table).stored = x.2.columns) →
    ∀ row, c.Bound D.1 (s.scope table row) ∧ (c.Passes D.1 (s.scope table row) ↔
      FlagSet D.1 o.gucAdminVar ∨ ∀ x ∈ sides, x.2.References x.1 D o row)

theorem passes_side : (side.cond o.gucTenantVar o.tenantPkType).Passes D.1 (s.scope table row) ↔
    ∃ r ∈ D.1.rows (SqlName.mk true side.table).stored,
      let scope := D.1.frame ⟨true, side.table⟩ none r :: s.scope table row
      (∃ k, (Operand.column none ⟨false, "id"⟩).eval D.1 scope = some (some k) ∧
        (Operand.column none ⟨false, side.fk⟩).eval D.1 scope = some (some k)) ∧
      ∃ k, (Operand.column none ⟨false, s!"{side.tenantFk}_id"⟩).eval D.1 scope = some (some k) ∧
        currentTenant D.1 o.gucTenantVar o.tenantPkType = some k := by
  rw [M2mSide.cond, passes_exists, D.name_eq]
  simp only [passes_and, passes_equal, eval_tenantValue_some]

/-- A side whose names stand for their columns is checked. -/
theorem passes_side_iff (hcols : D.1.columns (SqlName.mk true side.table).stored = t.columns)
    (hfk : bare side.fk ∈ s.columns) (h : t.StandsFor side) :
    (side.cond o.gucTenantVar o.tenantPkType).Passes D.1 (s.scope table row) ↔ t.References side D o row := by
  obtain ⟨hpk, hnot, htenant⟩ := h
  have hid : bare "id" ∈ t.columns := hpk ▸ t.pk_mem
  rw [passes_side]
  simp only [eval_name hcols, subqueryValue_inner hid, subqueryValue_outer hnot hfk, SideTable.References, hpk,
    Option.some.injEq]
  refine exists_congr fun r => and_congr_right fun _ => and_congr_right fun hk => ?_
  rcases htenant with ht | ⟨ht, hname⟩
  · simp only [subqueryValue_inner (ht ▸ t.tenant_mem), ht, Option.some.injEq]
  · -- the tenant's column is the primary key, and the name stands for the foreign key to it
    obtain ⟨k, hid', hfk'⟩ := hk
    simp only [subqueryValue_outer (hname ▸ hnot) (hname ▸ hfk), hname, ht, hid', hfk', Option.some.injEq]

/-- The policy checks the referenced rows when every side is checked. -/
theorem checksReferenced_of_standsFor {cast : String → String → Option κ} {rest : List (M2mSide × SideTable)}
    (hfk : ∀ x ∈ (side, t) :: rest, bare x.1.fk ∈ s.columns)
    (h : ∀ x ∈ (side, t) :: rest, x.2.StandsFor x.1) :
    ChecksReferenced cast s table ((side, t) :: rest) o (m2mCond side (rest.map Prod.fst) o) := by
  intro D _ hcols row
  have hconds : (side.cond o.gucTenantVar o.tenantPkType) ::
      (rest.map Prod.fst).map (M2mSide.cond · o.gucTenantVar o.tenantPkType) =
      ((side, t) :: rest).map fun x => x.1.cond o.gucTenantVar o.tenantPkType := by
    simp
  constructor
  · refine ⟨trivial, ?_⟩
    rw [bound_allOf, hconds]
    intro c hc
    obtain ⟨x, hx, rfl⟩ := List.mem_map.1 hc
    exact bound_side_of_standsFor (hcols x hx) (hfk x hx) (h x hx)
  · rw [m2mCond, passes_caseTrue (settled_boolFlag _), passes_boolFlag, passes_allOf, hconds]
    simp only [List.forall_mem_map]
    refine or_congr_right (forall₂_congr fun x hx => ?_)
    exact passes_side_iff (hcols x hx) (hfk x hx) (h x hx)

/-! ## A name that stands for something else -/

/-- A session of one tenant over tables of one row. -/
def oneRow (cast : String → String → Option κ) (gucTenantVar text : String) (columns : List Name)
    (r : Name → Option κ) : Postgres κ :=
  ⟨{ (tenantSession cast gucTenantVar text).1 with
     columns := fun _ => columns
     rows := fun _ => [r] }, rfl⟩

variable {cast : String → String → Option κ} {text : String} {k : κ}

/-- What a policy that checks the referenced rows has to find in the tenant's row. -/
theorem ChecksReferenced.finds (h : ChecksReferenced cast s table [(side, t)] o (m2mCond side [] o))
    (hempty : text ≠ "") (htrue : text ≠ "true") (hk : cast o.tenantPkType text = some k)
    (r row : Name → Option κ) {v : κ} (hpk : r t.pk = some v) (hfk : row (bare side.fk) = some v)
    (htenant : r t.tenant = some k) :
    (∃ u, subqueryValue t s r row "id" = some (some u) ∧ subqueryValue t s r row side.fk = some (some u)) ∧
      subqueryValue t s r row s!"{side.tenantFk}_id" = some (some k) := by
  have hcurrent : currentTenant (oneRow cast o.gucTenantVar text t.columns r).1 o.gucTenantVar o.tenantPkType =
      some k := currentTenant_tenantSession o.gucTenantVar hempty hk
  have hcols : (oneRow cast o.gucTenantVar text t.columns r).1.columns (SqlName.mk true side.table).stored =
      t.columns := rfl
  obtain ⟨-, hpass⟩ := h (oneRow cast o.gucTenantVar text t.columns r) rfl (by simpa using hcols) row
  have hrefs : t.References side (oneRow cast o.gucTenantVar text t.columns r) o row :=
    ⟨r, List.mem_singleton.2 rfl, ⟨v, hpk, hfk⟩, k, htenant, hcurrent⟩
  have hside := hpass.2 (.inr (by simpa using hrefs))
  rw [m2mCond, passes_caseTrue (settled_boolFlag _), passes_boolFlag] at hside
  rcases hside with hflag | hside
  · have hnone : ¬FlagSet (tenantSession cast o.gucTenantVar text).1 o.gucAdminVar :=
      not_flagSet_tenantSession htrue _
    exact absurd hflag hnone
  · obtain ⟨r', hr', hkey, k', htenant', hcurrent'⟩ := passes_side.1 hside
    obtain rfl := List.mem_singleton.1 hr'
    simp only [eval_name hcols] at hkey htenant'
    obtain rfl := Option.some.inj (hcurrent.symm.trans hcurrent')
    exact ⟨hkey, htenant'⟩

/-- A row with one value in the column `n` and another elsewhere. -/
def rowWith (n : Name) (x y : κ) : Name → Option κ := fun c => if c = n then some x else some y

omit [DecidableEq κ] in
theorem rowWith_self (n : Name) (x y : κ) : rowWith n x y n = some x := if_pos rfl

omit [DecidableEq κ] in
theorem rowWith_ne {n c : Name} (h : c ≠ n) (x y : κ) : rowWith n x y c = some y := if_neg h

/-- `id` stands for the primary key: else the row is not found by its key. -/
theorem ChecksReferenced.pk_eq (h : ChecksReferenced cast s table [(side, t)] o (m2mCond side [] o))
    (hempty : text ≠ "") (htrue : text ≠ "true") (hk : cast o.tenantPkType text = some k) {k' : κ} (hne : k' ≠ k)
    (hid : bare side.fk ≠ bare "id") : t.pk = bare "id" := by
  by_contra hpk
  by_cases htid : t.tenant = bare "id"
  · -- `id` is the tenant's column; the key is another value
    have hmem : bare "id" ∈ t.columns := htid ▸ t.tenant_mem
    obtain ⟨⟨u, hu, hu'⟩, -⟩ := h.finds hempty htrue hk (rowWith (bare "id") k k') (fun _ => some k')
      (rowWith_ne hpk _ _) rfl (by rw [htid, rowWith_self])
    rw [subqueryValue_inner hmem, rowWith_self] at hu
    obtain rfl : k = u := Option.some.inj (Option.some.inj hu)
    rcases subqueryValue_cases hu' with ⟨-, hfk⟩ | ⟨-, hfk⟩
    · rw [rowWith_ne hid] at hfk
      exact hne (Option.some.inj hfk)
    · exact hne (Option.some.inj hfk)
  · obtain ⟨⟨u, hu, hu'⟩, -⟩ := h.finds hempty htrue hk (rowWith (bare "id") k' k) (rowWith (bare "id") k' k)
      (rowWith_ne hpk _ _) (rowWith_ne hid _ _) (rowWith_ne htid _ _)
    have hk' : some k' = some u := by
      rcases subqueryValue_cases hu with ⟨-, hid'⟩ | ⟨-, hid'⟩ <;> rwa [rowWith_self] at hid'
    have hk'' : some k = some u := by
      rcases subqueryValue_cases hu' with ⟨-, hfk⟩ | ⟨-, hfk⟩ <;> rwa [rowWith_ne hid] at hfk
    exact hne (Option.some.inj (hk'.trans hk''.symm))

/-- The foreign key's name stands for the through table's column: the inner table has none
of that name. -/
theorem ChecksReferenced.fk_notMem (h : ChecksReferenced cast s table [(side, t)] o (m2mCond side [] o))
    (hempty : text ≠ "") (htrue : text ≠ "true") (hk : cast o.tenantPkType text = some k) {k' : κ} (hne : k' ≠ k)
    (hid : bare side.fk ≠ bare "id") (hpk : t.pk = bare "id") : bare side.fk ∉ t.columns := by
  intro hmem
  have hidmem : bare "id" ∈ t.columns := hpk ▸ t.pk_mem
  by_cases htid : t.tenant = bare "id"
  · obtain ⟨⟨u, hu, hu'⟩, -⟩ := h.finds hempty htrue hk (rowWith (bare side.fk) k' k) (fun _ => some k)
      (by rw [hpk, rowWith_ne (Ne.symm hid)]) rfl (by rw [htid, rowWith_ne (Ne.symm hid)])
    rw [subqueryValue_inner hidmem, rowWith_ne (Ne.symm hid)] at hu
    rw [subqueryValue_inner hmem, rowWith_self, ← hu] at hu'
    exact hne (Option.some.inj (Option.some.inj hu'))
  · obtain ⟨⟨u, hu, hu'⟩, -⟩ := h.finds hempty htrue hk (rowWith (bare "id") k' k) (fun _ => some k')
      (by rw [hpk, rowWith_self]) rfl (rowWith_ne htid _ _)
    rw [subqueryValue_inner hidmem, rowWith_self] at hu
    rw [subqueryValue_inner hmem, rowWith_ne hid, ← hu] at hu'
    exact hne (Option.some.inj (Option.some.inj hu')).symm

/-- `<field>_id` stands for the tenant's column, or for the key where that is the tenant's. -/
theorem ChecksReferenced.tenant_eq (h : ChecksReferenced cast s table [(side, t)] o (m2mCond side [] o))
    (hempty : text ≠ "") (htrue : text ≠ "true") (hk : cast o.tenantPkType text = some k) {k' : κ} (hne : k' ≠ k)
    (hpk : t.pk = bare "id") : bare s!"{side.tenantFk}_id" = t.tenant ∨
      (t.tenant = bare "id" ∧ bare s!"{side.tenantFk}_id" = bare side.fk) := by
  by_contra hnot
  rw [not_or] at hnot
  obtain ⟨htn, hfk⟩ := hnot
  by_cases hmem : bare s!"{side.tenantFk}_id" ∈ t.columns
  · -- another column of the table
    obtain ⟨v, hv⟩ : ∃ v, rowWith (bare s!"{side.tenantFk}_id") k' k (bare "id") = some v := by
      unfold rowWith
      split
      · exact ⟨_, rfl⟩
      · exact ⟨_, rfl⟩
    obtain ⟨-, hc⟩ := h.finds hempty htrue hk (rowWith (bare s!"{side.tenantFk}_id") k' k) (fun _ => some v)
      (by rw [hpk, hv]) rfl (rowWith_ne (Ne.symm htn) _ _)
    rw [subqueryValue_inner hmem, rowWith_self] at hc
    exact hne (Option.some.inj (Option.some.inj hc))
  · by_cases hname : bare s!"{side.tenantFk}_id" = bare side.fk
    · have htid : t.tenant ≠ bare "id" := fun htid => hfk ⟨htid, hname⟩
      obtain ⟨-, hc⟩ := h.finds hempty htrue hk (rowWith (bare "id") k' k) (fun _ => some k')
        (by rw [hpk, rowWith_self]) rfl (rowWith_ne htid _ _)
      rcases subqueryValue_cases hc with ⟨hin, -⟩ | ⟨-, hc⟩
      · exact hmem hin
      · exact hne (Option.some.inj hc)
    · obtain ⟨-, hc⟩ := h.finds hempty htrue hk (fun _ => some k) (rowWith (bare s!"{side.tenantFk}_id") k' k)
        rfl (rowWith_ne (Ne.symm hname) _ _) rfl
      rcases subqueryValue_cases hc with ⟨hin, -⟩ | ⟨-, hc⟩
      · exact hmem hin
      · rw [rowWith_self] at hc
        exact hne (Option.some.inj hc)

/-- **A name that stands for something else is found out** by a row of the current tenant
that the policy does not pass. -/
theorem standsFor_of_checksReferenced [Nontrivial κ] (hkeys : HasKeys cast) (htype : o.tenantPkType ∈ allowedPkTypes)
    (hid : bare side.fk ≠ bare "id")
    (h : ChecksReferenced cast s table [(side, t)] o (m2mCond side [] o)) : t.StandsFor side := by
  obtain ⟨text, k, hempty, htrue, hk⟩ := hkeys o.tenantPkType htype
  obtain ⟨k', hne⟩ := exists_ne k
  have hpk := h.pk_eq hempty htrue hk hne hid
  exact ⟨hpk, h.fk_notMem hempty htrue hk hne hid hpk, h.tenant_eq hempty htrue hk hne hpk⟩

/-- **The policy checks the rows that the through row references** where the bare names
stand for the columns they are meant for, on every protected side; with one protected
side, only there. -/
theorem m2m_checks_referenced [Nontrivial κ] (hkeys : HasKeys cast) (htype : o.tenantPkType ∈ allowedPkTypes)
    {fromTable toTable : String} {rest : List (M2mSide × SideTable)}
    (hsides : s.protectedSides fromTable toTable = side :: rest.map Prod.fst)
    (hfrom : bare s.fromFk ≠ bare "id") (hto : bare s.toFk ≠ bare "id") :
    m2mPolicySql table fromTable toTable s o = createPolicyBlock table s!"{table}_m2m_rls_policy"
      (condSql m2mGap (m2mCond side (rest.map Prod.fst) o)) (condSql m2mGap (m2mCond side (rest.map Prod.fst) o)) ∧
    ((∀ x ∈ (side, t) :: rest, x.2.StandsFor x.1) →
      ChecksReferenced cast s table ((side, t) :: rest) o (m2mCond side (rest.map Prod.fst) o)) ∧
    (rest = [] →
      ChecksReferenced cast s table ((side, t) :: rest) o (m2mCond side (rest.map Prod.fst) o) → t.StandsFor side) := by
  have hfks : ∀ x ∈ (side, t) :: rest, x.1.fk = s.fromFk ∨ x.1.fk = s.toFk := by
    intro x hx
    apply fk_of_protectedSides
    rw [hsides]
    simpa using List.mem_map_of_mem (f := Prod.fst) hx
  refine ⟨m2mPolicySql_eq table o hsides, ?_, ?_⟩
  · apply checksReferenced_of_standsFor
    intro x hx
    rcases hfks x hx with h | h <;> simp [M2mSides.columns, h]
  · rintro rfl h
    refine standsFor_of_checksReferenced hkeys htype ?_ h
    rcases hfks _ List.mem_cons_self with hfk | hfk <;> rwa [hfk]

end Referenced

/-! ### A column named like the through table's key -/

section Example

/-- `Project.members`: the projects are protected, the members are not. -/
def projectSides : M2mSides :=
  ⟨⟨"shop", "Project"⟩, ⟨"shop", "Member"⟩, "project_id", "member_id", some "tenant", none⟩

def projectSide : M2mSide := ⟨"shop_project", "project_id", "tenant"⟩

/-- The projects' table. -/
def projectTable : SideTable :=
  { columns := ["id".toList, "tenant_id".toList], pk := "id".toList, tenant := "tenant_id".toList,
    pk_mem := by decide, tenant_mem := by decide }

/-- The same with a parent project. -/
def parentTable : SideTable :=
  { columns := ["id".toList, "tenant_id".toList, "project_id".toList], pk := "id".toList,
    tenant := "tenant_id".toList, pk_mem := by decide, tenant_mem := by decide }

theorem m2m_checks_referenced_project : ChecksReferenced castKey projectSides "shop_project_members"
    [(projectSide, projectTable)] defaultOptions (m2mCond projectSide [] defaultOptions) := by
  have hsides : projectSides.protectedSides "shop_project" "shop_member" =
      projectSide :: List.map Prod.fst ([] : List (M2mSide × SideTable)) := rfl
  refine (m2m_checks_referenced hasKeys_castKey (by decide) hsides (by decide +kernel) (by decide +kernel)).2.1 ?_
  intro x hx
  obtain rfl := List.mem_singleton.1 hx
  exact ⟨by decide +kernel, by decide +kernel, .inl (by decide +kernel)⟩

theorem m2m_not_checks_parent : ¬ChecksReferenced castKey projectSides "shop_project_members"
    [(projectSide, parentTable)] defaultOptions (m2mCond projectSide [] defaultOptions) := by
  intro h
  obtain ⟨-, hnot, -⟩ := standsFor_of_checksReferenced hasKeys_castKey (by decide) (by decide +kernel) h
  exact absurd hnot (by decide +kernel)

end Example

end RlsTenants
