import RlsTenants.Spec.TablePolicy
import RlsTenants.Proof.Policies

/-!
# A sharing policy widens reading

* `predicatesSql_means`: the texts of the predicates are the conditions `Shared.cond` and
  `tenantFieldCond`.
* `passes_shared`: a `SharedWith` lets a row through that a through row references, unless
  the table goes by the alias of the through table.
* `mayTake_sharing` and `mayWrite_sharing`: what may be written is what the tenant policy
  lets through.
* **`sharing_widens_reading`**: PostgreSQL creates both policies, and they do this, on a
  table that has the column of the tenant policy.
-/

namespace RlsTenants

open RowSql

/-! ## The conditions of the predicates -/

/-- The condition that a predicate writes. -/
inductive Predicate.Means (apps : Registry) (model : Model) (tenantValue : Operand SqlName) :
    Predicate → Cond SqlName → Prop
  | sharedWith {through : ModelPath} {fk tenantFk : String} {s : Shared}
      (h : resolveShared apps model through fk tenantFk = .ok s) :
      Means apps model tenantValue (.sharedWith through fk tenantFk) (s.cond tenantValue)
  | tenantField {name : String} {table column : SqlName} (h : resolveTenantField model name = .ok (table, column)) :
      Means apps model tenantValue (.tenantField name) (tenantFieldCond table column tenantValue)

theorem condSql_shared (gap : String) (s : Shared) (tenantValue : Operand SqlName) :
    condSql gap (s.cond tenantValue) = sharedSql s (operandSql tenantValue) := by
  have h : condSql gap (s.cond tenantValue) =
      "EXISTS (SELECT 1 FROM " ++ (s.throughTable.sql ++ " AS " ++ throughAlias.sql) ++ " WHERE " ++
        (throughAlias.sql ++ "." ++ s.fkColumn.sql ++ " = " ++ (s.table.sql ++ "." ++ s.targetColumn.sql) ++ " " ++
          "AND " ++ (throughAlias.sql ++ "." ++ s.tenantColumn.sql ++ " = " ++ operandSql tenantValue)) ++ ")" := rfl
  have hgoal : sharedSql s (operandSql tenantValue) = "EXISTS (SELECT 1 FROM " ++ s.throughTable.sql ++ " AS " ++
      throughAlias.sql ++ " WHERE " ++ throughAlias.sql ++ "." ++ s.fkColumn.sql ++ " = " ++ s.table.sql ++ "." ++
        s.targetColumn.sql ++ " AND " ++ throughAlias.sql ++ "." ++ s.tenantColumn.sql ++ " = " ++
          operandSql tenantValue ++ ")" := rfl
  rw [h, hgoal]
  apply String.toList_inj.1
  simp [String.toList_append]

theorem condSql_tenantField (gap : String) (table column : SqlName) (tenantValue : Operand SqlName) :
    condSql gap (tenantFieldCond table column tenantValue) =
      s!"{table.sql}.{column.sql} = {operandSql tenantValue}" := rfl

/-! ## What the predicates find -/

/-- A name that may be quoted is created as it is. -/
theorem quoted_eq {name what : String} {n : SqlName} (h : quoted name what = .ok n) :
    n = ⟨true, name⟩ ∧ n.stored = createdName name := by
  unfold quoted at h
  by_cases hany : name.toList.any (unsafeIdentifierChars.contains ·)
  · rw [if_pos hany] at h
    cases h
  · rw [if_neg hany] at h
    obtain rfl := Except.ok.inj h
    refine ⟨rfl, ?_⟩
    simp only [SqlName.stored, if_true, createdName]
    cases hcs : name.toList with
    | nil => rfl
    | cons c cs =>
      -- a quote is refused
      have hc : c ≠ '"' := by
        rintro rfl
        apply hany
        rw [hcs, List.any_cons]
        have hquote : unsafeIdentifierChars.contains '"' = true := by decide
        rw [hquote, Bool.true_or]
      simp [hc]

theorem foreignKeyOf_mem {model : Model} {name : String} {f : Field} {fk : ForeignKey}
    (h : foreignKeyOf model name = .ok (f, fk)) : f ∈ model.fields ∧ f.foreignKey = some fk := by
  unfold foreignKeyOf at h
  cases hf : model.getField name with
  | none =>
    rw [hf] at h
    cases h
  | some g =>
    rw [hf] at h
    cases hfk : g.foreignKey with
    | none => simp [hfk] at h
    | some fk' =>
      simp only [hfk, Except.ok.injEq, Prod.mk.injEq] at h
      obtain ⟨rfl, rfl⟩ := h
      exact ⟨List.mem_reverse.1 (List.mem_of_find?_eq_some hf), hfk⟩

theorem foreignKeyOf_stored {model : Model} {name : String} {f : Field} {fk : ForeignKey}
    (h : foreignKeyOf model name = .ok (f, fk)) : f.stored ∈ model.columns :=
  List.mem_map_of_mem (foreignKeyOf_mem h).1

/-- What a `SharedWith` finds: the through model and its two foreign keys. -/
structure Finds (apps : Registry) (model : Model) (through : ModelPath) (fk tenantFk : String) (m : Model)
    (f : Field) (target : ForeignKey) (tenant : Field) : Prop where
  through_eq : apps.getModel through = some m
  fk_eq : foreignKeyOf m fk = .ok (f, target)
  target_eq : (apps.find target.related).map (·.concrete) = some model.path.key
  tenant_eq : ∃ t, foreignKeyOf m tenantFk = .ok (tenant, t)

theorem resolveShared_finds {apps : Registry} {model : Model} {through : ModelPath} {fk tenantFk : String} {s : Shared}
    (h : resolveShared apps model through fk tenantFk = .ok s) :
    ∃ m f target tenant, Finds apps model through fk tenantFk m f target tenant ∧
      s = ⟨⟨true, m.dbTable⟩, ⟨true, model.dbTable⟩, ⟨true, f.column⟩, ⟨true, target.targetColumn⟩,
        ⟨true, tenant.column⟩⟩ ∧
      s.throughTable.stored = createdName m.dbTable ∧ s.table.stored = createdName model.dbTable ∧
      s.fkColumn.stored = f.stored ∧ s.targetColumn.stored = createdName target.targetColumn ∧
      s.tenantColumn.stored = tenant.stored := by
  unfold resolveShared at h
  cases hm : apps.getModel through with
  | none =>
    rw [hm] at h
    cases h
  | some m =>
    simp only [hm] at h
    obtain ⟨⟨f, target⟩, hf, h⟩ := bind_ok h
    by_cases htarget : (apps.find target.related).map (·.concrete) = some model.path.key
    · simp only [htarget, ne_eq, not_true, if_false] at h
      obtain ⟨⟨tenant, t⟩, ht, h⟩ := bind_ok h
      obtain ⟨throughTable, h1, h⟩ := bind_ok h
      obtain ⟨table, h2, h⟩ := bind_ok h
      obtain ⟨fkColumn, h3, h⟩ := bind_ok h
      obtain ⟨targetColumn, h4, h⟩ := bind_ok h
      obtain ⟨tenantColumn, h5, h⟩ := bind_ok h
      obtain rfl := Except.ok.inj h
      obtain ⟨e1, s1⟩ := quoted_eq h1
      obtain ⟨e2, s2⟩ := quoted_eq h2
      obtain ⟨e3, s3⟩ := quoted_eq h3
      obtain ⟨e4, s4⟩ := quoted_eq h4
      obtain ⟨e5, s5⟩ := quoted_eq h5
      refine ⟨m, f, target, tenant, ⟨hm, hf, htarget, t, ht⟩, ?_, s1, s2, s3, s4, s5⟩
      rw [e1, e2, e3, e4, e5]
    · simp only [ne_eq, htarget, not_false_eq_true, if_true] at h
      obtain ⟨_, he, -⟩ := bind_ok h
      cases he

theorem resolveTenantField_finds {model : Model} {name : String} {table column : SqlName}
    (h : resolveTenantField model name = .ok (table, column)) : ∃ f fk, foreignKeyOf model name = .ok (f, fk) ∧
      table.stored = createdName model.dbTable ∧ column.stored = f.stored := by
  obtain ⟨⟨f, fk⟩, hf, h⟩ := bind_ok h
  obtain ⟨t, ht, h⟩ := bind_ok h
  obtain ⟨c, hc, h⟩ := bind_ok h
  obtain ⟨rfl, rfl⟩ := Prod.mk.inj (Except.ok.inj h)
  exact ⟨f, fk, hf, (quoted_eq ht).2, (quoted_eq hc).2⟩

theorem Finds.unique {apps : Registry} {model : Model} {through : ModelPath} {fk tenantFk : String} {m m' : Model}
    {f f' tenant tenant' : Field} {target target' : ForeignKey} (h : Finds apps model through fk tenantFk m f target tenant)
    (h' : Finds apps model through fk tenantFk m' f' target' tenant') :
    m = m' ∧ f = f' ∧ target = target' ∧ tenant = tenant' := by
  obtain rfl := Option.some.inj (h.through_eq.symm.trans h'.through_eq)
  have hfk := Except.ok.inj (h.fk_eq.symm.trans h'.fk_eq)
  obtain ⟨t, ht⟩ := h.tenant_eq
  obtain ⟨t', ht'⟩ := h'.tenant_eq
  have htenant := Except.ok.inj (ht.symm.trans ht')
  exact ⟨rfl, congrArg Prod.fst hfk, congrArg Prod.snd hfk, congrArg Prod.fst htenant⟩

/-! ## What they let through -/

section Rows

variable {κ : Type} {D : Postgres κ} {apps : Registry} {model : Model} {row : Name → Option κ}

/-- The database has the tables of the models. -/
def HoldsTables (D : Postgres κ) (apps : Registry) : Prop :=
  ∀ m ∈ apps.models, D.1.columns (createdName m.dbTable) = m.columns

/-- A foreign key to the model points at a column of its table, as Django's do. -/
def TargetsColumns (apps : Registry) (model : Model) : Prop :=
  ∀ m ∈ apps.models, ∀ f ∈ m.fields, ∀ target ∈ f.foreignKey,
    (apps.find target.related).map (·.concrete) = some model.path.key →
      createdName target.targetColumn ∈ model.columns

/-- The predicate shares the row with the tenant `current`: a row of the through table that
the session sees references both, or the field holds the tenant. -/
def Predicate.Shares (apps : Registry) (model : Model) (D : Postgres κ) (row : Name → Option κ) (current : Option κ) :
    Predicate → Prop
  | .sharedWith through fk tenantFk => ∃ m f target tenant, Finds apps model through fk tenantFk m f target tenant ∧
      ∃ r ∈ D.1.rows (createdName m.dbTable),
        (∃ k, r f.stored = some k ∧ row (createdName target.targetColumn) = some k) ∧
        ∃ k, r tenant.stored = some k ∧ current = some k
  | .tenantField name => ∃ f fk, foreignKeyOf model name = .ok (f, fk) ∧
      ∃ k, row f.stored = some k ∧ current = some k
  | .raw _ => False

theorem not_shares_none {p : Predicate} : ¬p.Shares apps model D row none := by
  cases p with
  | sharedWith through fk tenantFk =>
    rintro ⟨m, f, target, tenant, -, r, -, -, k, -, hk⟩
    cases hk
  | tenantField name =>
    rintro ⟨f, fk, -, k, -, hk⟩
    cases hk
  | raw sql => exact id

/-- A column of the innermost table, by the name the table goes by. -/
theorem eval_inner {table label n : SqlName} {r : Name → Option κ} {scope : List (RowFrame Name κ)} :
    (Operand.column (some label) n).eval D.1 (D.1.frame table (some label) r :: scope) =
      if n.stored ∈ D.1.columns table.stored then some (r n.stored) else none := by
  simp [Operand.eval, find, Server.frame, D.name_eq]

/-- A column of the protected table from a subquery on a table that goes by another name. -/
theorem eval_protected {table label t n : SqlName} {r : Name → Option κ} (ht : t.stored = createdName model.dbTable)
    (hne : createdName model.dbTable ≠ label.stored) :
    (Operand.column (some t) n).eval D.1 [D.1.frame table (some label) r, model.frame row] =
      if n.stored ∈ model.columns then some (row n.stored) else none := by
  simp [Operand.eval, find, Server.frame, Model.frame, D.name_eq, ht, Ne.symm hne]

theorem eval_own {t n : SqlName} (ht : t.stored = createdName model.dbTable) :
    (Operand.column (some t) n).eval D.1 [model.frame row] =
      if n.stored ∈ model.columns then some (row n.stored) else none := by
  simp [Operand.eval, find, Model.frame, D.name_eq, ht]

variable [DecidableEq κ] {gucTenantVar tenantPkType : String}

/-- **A `SharedWith`** lets the rows through that a through row references. -/
theorem passes_shared {s : Shared} {through : ModelPath} {fk tenantFk : String} (hD : HoldsTables D apps)
    (htargets : TargetsColumns apps model) (hne : createdName model.dbTable ≠ throughAlias.stored)
    (h : resolveShared apps model through fk tenantFk = .ok s) :
    ((s.cond (tenantValue gucTenantVar tenantPkType)).Passes D.1 [model.frame row] ↔
      (Predicate.sharedWith through fk tenantFk).Shares apps model D row
        (currentTenant D.1 gucTenantVar tenantPkType)) ∧
    (s.cond (tenantValue gucTenantVar tenantPkType)).Bound D.1 [model.frame row] := by
  obtain ⟨m, f, target, tenant, hfinds, -, hthrough, htable, hfk, htarget, htenant⟩ := resolveShared_finds h
  have hm : m ∈ apps.models := (Registry.mem_of_find hfinds.through_eq).1
  have hcols : D.1.columns s.throughTable.stored = m.columns := by rw [hthrough, hD m hm]
  obtain ⟨t, ht⟩ := hfinds.tenant_eq
  have hin := foreignKeyOf_stored hfinds.fk_eq
  have hin' := foreignKeyOf_stored ht
  obtain ⟨hf, hfkey⟩ := foreignKeyOf_mem hfinds.fk_eq
  have hin'' := htargets m hm f hf target hfkey hfinds.target_eq
  have hpasses : (s.cond (tenantValue gucTenantVar tenantPkType)).Passes D.1 [model.frame row] ↔
      ∃ r ∈ D.1.rows (createdName m.dbTable),
        (∃ k, r f.stored = some k ∧ row (createdName target.targetColumn) = some k) ∧
        ∃ k, r tenant.stored = some k ∧ currentTenant D.1 gucTenantVar tenantPkType = some k := by
    rw [Shared.cond, passes_exists, D.name_eq, hthrough]
    simp only [passes_and, passes_equal, eval_tenantValue_some, eval_inner, eval_protected htable hne, hcols, hfk,
      htarget, htenant, if_pos hin, if_pos hin', if_pos hin'', Option.some.injEq]
  constructor
  · rw [hpasses]
    constructor
    · exact fun hr => ⟨m, f, target, tenant, hfinds, hr⟩
    · rintro ⟨m', f', target', tenant', hfinds', hr⟩
      obtain ⟨rfl, rfl, rfl, rfl⟩ := hfinds.unique hfinds'
      exact hr
  · simp only [Shared.cond, Cond.Bound, names_column, eval_inner, eval_protected htable hne, hcols, hfk, htarget,
      htenant, if_pos hin, if_pos hin', if_pos hin'', Option.isSome_some, true_and]
    trivial

/-- A `TenantField` lets the rows through whose field holds the current tenant. -/
theorem passes_tenantField {name : String} {table column : SqlName}
    (h : resolveTenantField model name = .ok (table, column)) :
    ((tenantFieldCond table column (tenantValue gucTenantVar tenantPkType)).Passes D.1 [model.frame row] ↔
      (Predicate.tenantField name).Shares apps model D row (currentTenant D.1 gucTenantVar tenantPkType)) ∧
    (tenantFieldCond table column (tenantValue gucTenantVar tenantPkType)).Bound D.1 [model.frame row] := by
  obtain ⟨f, fk, hf, htable, hcolumn⟩ := resolveTenantField_finds h
  have hin := foreignKeyOf_stored hf
  have hpasses : (tenantFieldCond table column (tenantValue gucTenantVar tenantPkType)).Passes D.1 [model.frame row] ↔
      ∃ k, row f.stored = some k ∧ currentTenant D.1 gucTenantVar tenantPkType = some k := by
    rw [tenantFieldCond, passes_tenantMatch, eval_own htable, hcolumn, if_pos hin]
    simp
  constructor
  · rw [hpasses]
    constructor
    · exact fun hr => ⟨f, fk, hf, hr⟩
    · rintro ⟨f', fk', hf', hr⟩
      obtain ⟨rfl, -⟩ := Prod.mk.inj (Except.ok.inj (hf.symm.trans hf'))
      exact hr
  · simp only [tenantFieldCond, Cond.Bound, names_column, eval_own htable, hcolumn, if_pos hin, Option.isSome_some,
      true_and]
    trivial

/-- The protected table does not go by the alias of a through table. -/
def Predicate.NoAlias (model : Model) : Predicate → Prop
  | .sharedWith _ _ _ => model.dbTable ≠ "rls_shared"
  | _ => True

/-- What a predicate's condition lets through, and that PostgreSQL takes it. -/
theorem Predicate.Means.passes {p : Predicate} {c : Cond SqlName} (hD : HoldsTables D apps)
    (htargets : TargetsColumns apps model) (hshort : sharingPolicyNameProblem model.dbTable = false)
    (hne : p.NoAlias model) (h : p.Means apps model (tenantValue gucTenantVar tenantPkType) c) :
    (c.Passes D.1 [model.frame row] ↔ p.Shares apps model D row (currentTenant D.1 gucTenantVar tenantPkType)) ∧
      c.Bound D.1 [model.frame row] := by
  cases h with
  | sharedWith h =>
    refine passes_shared hD htargets ?_ h
    obtain ⟨m, f, target, tenant, -, rfl, -, htable, -⟩ := resolveShared_finds h
    -- both names are short enough to be kept whole
    have hbytes : byteLength model.dbTable.toList ≤ 63 := by
      simp only [sharingPolicyNameProblem, String.toList_append, byteLength, List.map_append, List.sum_append,
        decide_eq_false_iff_not, not_le] at hshort
      unfold byteLength
      omega
    have hstored : createdName model.dbTable = model.dbTable.toList := htable.symm.trans (clip_of_short hbytes)
    have halias : throughAlias.stored = ("rls_shared" : String).toList := by decide
    rw [hstored, halias]
    exact fun heq => hne (String.toList_inj.1 heq)
  | tenantField h => exact passes_tenantField h

end Rows

/-! ## The two policies -/

theorem clip_cons {n : ℕ} {c : Char} {cs : Text} (h : c.utf8Size ≤ n) :
    clip n (c :: cs) = c :: clip (n - c.utf8Size) cs := by
  rw [clip.eq_def]
  exact if_pos h

theorem clip_append {n : ℕ} {a : Text} (b : Text) (h : byteLength a ≤ n) :
    clip n (a ++ b) = a ++ clip (n - byteLength a) b := by
  induction a generalizing n with
  | nil => rfl
  | cons c a ih =>
    have hlen : c.utf8Size + byteLength a ≤ n := by simpa [byteLength] using h
    have hsum : byteLength (c :: a) = c.utf8Size + byteLength a := by simp [byteLength]
    rw [List.cons_append, clip_cons (by omega), ih (by omega), hsum, Nat.sub_sub, List.cons_append]

/-- The names of the two policies differ where they are cut. -/
theorem policy_names_ne {table : String} (h : sharingPolicyNameProblem table = false) :
    clip 63 s!"{table}_tenant_isolation_policy".toList ≠ clip 63 s!"{table}_tenant_sharing_policy".toList := by
  have hbytes : byteLength (table ++ policyNameCommonPrefix).toList < 63 := by
    simpa [sharingPolicyNameProblem] using h
  have hsplit : ∀ rest : String, (table ++ ("_tenant_" ++ rest)).toList =
      (table ++ policyNameCommonPrefix).toList ++ rest.toList := by
    intro rest
    simp [policyNameCommonPrefix, String.toList_append]
  have hisolation : s!"{table}_tenant_isolation_policy" = table ++ ("_tenant_" ++ "isolation_policy") := by
    have hlit : ("_tenant_" ++ "isolation_policy" : String) = "_tenant_isolation_policy" := by decide
    rw [hlit]
    rfl
  have hsharing : s!"{table}_tenant_sharing_policy" = table ++ ("_tenant_" ++ "sharing_policy") := by
    have hlit : ("_tenant_" ++ "sharing_policy" : String) = "_tenant_sharing_policy" := by decide
    rw [hlit]
    rfl
  rw [hisolation, hsharing, hsplit, hsplit, clip_append _ (by omega), clip_append _ (by omega)]
  intro heq
  -- at least one byte of the rest is kept
  have hone : 1 ≤ 63 - byteLength (table ++ policyNameCommonPrefix).toList := by omega
  have hrest := List.append_cancel_left heq
  have hi : ("isolation_policy" : String).toList = 'i' :: ("solation_policy" : String).toList := by decide
  have hs : ("sharing_policy" : String).toList = 's' :: ("haring_policy" : String).toList := by decide
  have hisize : ('i' : Char).utf8Size = 1 := by decide
  have hssize : ('s' : Char).utf8Size = 1 := by decide
  rw [hi, hs, clip_cons (hisize ▸ hone), clip_cons (hssize ▸ hone)] at hrest
  exact absurd (List.cons.inj hrest).1 (by decide)

/-- What stands before each OR of a sharing policy. -/
def sharingGap : String := "\n                                "

theorem Predicate.policySql_means {apps : Registry} {model : Model} {tenantValue : Operand SqlName} {p : Predicate}
    {text : String} (hraw : ∀ sql, p ≠ .raw sql) (h : p.policySql apps model (operandSql tenantValue) = .ok text) :
    ∃ c, p.Means apps model tenantValue c ∧ text = condSql sharingGap c := by
  cases p with
  | sharedWith through fk tenantFk =>
    obtain ⟨s, hs, h⟩ := bind_ok h
    obtain rfl := Except.ok.inj h
    exact ⟨_, .sharedWith hs, (condSql_shared _ _ _).symm⟩
  | tenantField name =>
    obtain ⟨⟨table, column⟩, hf, h⟩ := bind_ok h
    obtain rfl := Except.ok.inj h
    exact ⟨_, .tenantField hf, (condSql_tenantField _ _ _ _).symm⟩
  | raw sql => exact absurd rfl (hraw sql)

/-- **The texts of the predicates are the texts of their conditions.** -/
theorem predicatesSql_means {apps : Registry} {model : Model} {tenantValue : Operand SqlName}
    {predicates : List Predicate} {texts : List String} (hraw : ∀ p ∈ predicates, ∀ sql, p ≠ .raw sql)
    (h : predicatesSql apps model predicates (operandSql tenantValue) = .ok texts) :
    ∃ conds, List.Forall₂ (Predicate.Means apps model tenantValue) predicates conds ∧
      texts = conds.map (condSql sharingGap) := by
  unfold predicatesSql at h
  induction predicates generalizing texts with
  | nil =>
    obtain rfl := Except.ok.inj h
    exact ⟨[], .nil, rfl⟩
  | cons p predicates ih =>
    rw [List.mapM_cons] at h
    obtain ⟨text, htext, h⟩ := bind_ok h
    obtain ⟨rest, hrest, h⟩ := bind_ok h
    obtain rfl := Except.ok.inj h
    obtain ⟨c, hc, rfl⟩ := Predicate.policySql_means (hraw p List.mem_cons_self) htext
    obtain ⟨conds, hconds, rfl⟩ := ih (fun q hq => hraw q (List.mem_cons_of_mem _ hq)) hrest
    exact ⟨c :: conds, .cons hc hconds, rfl⟩

/-! ## What may be read and written -/

section Rules

variable {κ : Type} [DecidableEq κ] {D : Server SqlName Name κ} {scope : List (RowFrame Name κ)} {table : String}
  {column : Operand SqlName} {gucTenantVar gucAdminVar tenantPkType : String} {flags : List String}
  {shared : Cond SqlName}

/-- What `WITH CHECK` accepts, `USING` passes. -/
theorem passes_using_of_check (h : (tenantCheck column gucTenantVar gucAdminVar tenantPkType).Passes D scope) :
    (tenantUsing column gucTenantVar gucAdminVar tenantPkType flags).Passes D scope := by
  rw [tenantCheck, passes_tenantUsing] at h
  rw [passes_tenantUsing]
  rcases h with ⟨flag, hflag, hset⟩ | hmatch
  · obtain rfl := List.mem_singleton.1 hflag
    exact .inl ⟨flag, List.mem_cons_self, hset⟩
  · exact .inr hmatch

variable {policyUsing policyCheck : Cond SqlName}

theorem sees_select : Sees [tenantPolicy table policyUsing policyCheck, sharingPolicy table shared] D scope .select ↔
    policyUsing.Passes D scope ∨ shared.Passes D scope := by
  simp [Sees, TablePolicy.applies, tenantPolicy, sharingPolicy]

theorem sees_write {cmd : RowCommand} (h : cmd ≠ .select) :
    Sees [tenantPolicy table policyUsing policyCheck, sharingPolicy table shared] D scope cmd ↔
      policyUsing.Passes D scope := by
  simp [Sees, TablePolicy.applies, tenantPolicy, sharingPolicy, h]

theorem accepts_write {cmd : RowCommand} (h : cmd ≠ .select) :
    Accepts [tenantPolicy table policyUsing policyCheck, sharingPolicy table shared] D scope cmd ↔
      policyCheck.Passes D scope := by
  simp [Accepts, TablePolicy.applies, tenantPolicy, sharingPolicy, h]

theorem sees_tenant {cmd : RowCommand} :
    Sees [tenantPolicy table policyUsing policyCheck] D scope cmd ↔ policyUsing.Passes D scope := by
  simp [Sees, TablePolicy.applies, tenantPolicy]

theorem accepts_tenant {cmd : RowCommand} :
    Accepts [tenantPolicy table policyUsing policyCheck] D scope cmd ↔ policyCheck.Passes D scope := by
  simp [Accepts, TablePolicy.applies, tenantPolicy]

/-- The rows that may be updated, deleted or locked are those without the sharing policy. -/
theorem mayTake_sharing {cmd : RowCommand} {reads : Bool} (h : cmd ≠ .select) :
    MayTake [tenantPolicy table policyUsing policyCheck, sharingPolicy table shared] D scope cmd reads ↔
      MayTake [tenantPolicy table policyUsing policyCheck] D scope cmd reads := by
  simp only [MayTake, sees_write h, sees_select, sees_tenant]
  exact ⟨fun hp => ⟨hp.1, fun _ => hp.1⟩, fun hp => ⟨hp.1, fun _ => .inl hp.1⟩⟩

/-- The rows that may be written are those without the sharing policy. -/
theorem mayWrite_sharing {cmd : RowCommand} {reads : Bool} (h : cmd ≠ .select)
    (hcheck : policyCheck.Passes D scope → policyUsing.Passes D scope) :
    MayWrite [tenantPolicy table policyUsing policyCheck, sharingPolicy table shared] D scope cmd reads ↔
      MayWrite [tenantPolicy table policyUsing policyCheck] D scope cmd reads := by
  simp only [MayWrite, accepts_write h, sees_select, accepts_tenant, sees_tenant]
  exact ⟨fun hp => ⟨hp.1, fun _ => hcheck hp.1⟩, fun hp => ⟨hp.1, fun _ => .inl (hcheck hp.1)⟩⟩

theorem createIfMissing_both (h : sharingPolicyNameProblem table = false) :
    createIfMissing (createIfMissing [] (tenantPolicy table policyUsing policyCheck)) (sharingPolicy table shared) =
      [tenantPolicy table policyUsing policyCheck, sharingPolicy table shared] := by
  have hne := policy_names_ne h
  simp only [createIfMissing, List.any_nil, Bool.false_eq_true, if_false, List.nil_append, List.any_cons,
    Bool.or_false, decide_eq_true_eq]
  exact if_neg hne

end Rules

/-! ## The statements -/

/-- The options of a policy with predicates: those of an `RLSConstraint` or an `AddRLSPolicy`. -/
structure PolicyArgs where
  column : SqlName
  gucTenantVar : String
  gucAdminVar : String
  tenantPkType : String
  flags : List String
  predicates : List Predicate

def PolicyArgs.policyUsing (a : PolicyArgs) : Cond SqlName :=
  tenantUsing (.column none a.column) a.gucTenantVar a.gucAdminVar a.tenantPkType a.flags

def PolicyArgs.policyCheck (a : PolicyArgs) : Cond SqlName :=
  tenantCheck (.column none a.column) a.gucTenantVar a.gucAdminVar a.tenantPkType

def RLSConstraint.args (c : RLSConstraint) : PolicyArgs :=
  ⟨⟨false, s!"{c.field}_id"⟩, c.gucTenantVar, c.gucAdminVar, c.tenantPkType, c.extraBypassFlags, c.extraPredicates⟩

def AddRLSPolicy.args (op : AddRLSPolicy) (n : SqlName) : PolicyArgs :=
  ⟨n, op.gucTenantVar, op.gucAdminVar, op.tenantPkType, op.extraBypassFlags, op.extraPredicates⟩

/-- The statement creates the tenant policy and a sharing policy with these texts. -/
structure Writes (apps : Registry) (model : Model) (a : PolicyArgs) (sql : String) : Prop where
  sql_eq : ∃ texts, predicatesSql apps model a.predicates (tenantValueSql a.gucTenantVar a.tenantPkType) = .ok texts ∧
    sql = buildPolicyCreateSql model.dbTable a.column.sql a.gucTenantVar a.gucAdminVar a.tenantPkType a.flags ++
      createSharingBlock model.dbTable s!"{model.dbTable}_tenant_sharing_policy"
        (joinSql "\n                                OR " texts)
  short : sharingPolicyNameProblem model.dbTable = false

theorem buildSharing_eq {table text : String} {texts : List String} (h : buildSharingPolicyCreateSql table texts = .ok text) :
    sharingPolicyNameProblem table = false ∧
      text = createSharingBlock table s!"{table}_tenant_sharing_policy" (joinSql "\n                                OR " texts) := by
  unfold buildSharingPolicyCreateSql at h
  by_cases hp : sharingPolicyNameProblem table
  · rw [if_pos hp] at h
    cases h
  · rw [if_neg hp] at h
    exact ⟨Bool.eq_false_iff.2 hp, (Except.ok.inj h).symm⟩

theorem RLSConstraint.createSql_writes {c : RLSConstraint} {apps : Registry} {model : Model} {sql : String}
    (hp : c.extraPredicates ≠ []) (h : c.createSql apps model = .ok sql) : Writes apps model c.args sql := by
  unfold RLSConstraint.createSql at h
  rw [if_neg (by simpa using hp)] at h
  obtain ⟨texts, htexts, h⟩ := bind_ok h
  obtain ⟨sharing, hsharing, h⟩ := bind_ok h
  obtain rfl := Except.ok.inj h
  obtain ⟨hshort, rfl⟩ := buildSharing_eq hsharing
  exact ⟨⟨texts, htexts, rfl⟩, hshort⟩

theorem AddRLSPolicy.databaseForwards_writes {op : AddRLSPolicy} {settings : Settings} {allowMigrate : Bool}
    {apps : Registry} {model : Model} {sql : String} (hp : op.extraPredicates ≠ [])
    (hmodel : op.findModel apps = .ok model) (h : op.databaseForwards settings allowMigrate apps = .ok (some sql)) :
    ∃ n, op.column settings model = .ok n ∧ Writes apps model (op.args n) sql := by
  unfold AddRLSPolicy.databaseForwards at h
  rw [hmodel] at h
  obtain ⟨_, hm, h⟩ := bind_ok h
  obtain rfl := Except.ok.inj hm
  by_cases happlies : AddRLSPolicy.appliesTo allowMigrate model
  · simp only [happlies, Bool.not_true, Bool.false_eq_true, if_false] at h
    obtain ⟨table, htable, h⟩ := bind_ok h
    obtain ⟨n, hn, h⟩ := bind_ok h
    obtain rfl := AddRLSPolicy.table_eq htable
    rw [if_neg (by simpa using hp)] at h
    obtain ⟨texts, htexts, h⟩ := bind_ok h
    obtain ⟨sharing, hsharing, h⟩ := bind_ok h
    obtain rfl := Option.some.inj (Except.ok.inj h)
    obtain ⟨hshort, rfl⟩ := buildSharing_eq hsharing
    exact ⟨n, hn, ⟨texts, htexts, rfl⟩, hshort⟩
  · simp [happlies, pure, Except.pure] at h

section Reading

variable {κ : Type} [DecidableEq κ]

/-- PostgreSQL finds the names of both policies. What they do to a row: the predicates widen
what is selected and nothing else, and without a current tenant they match nothing. -/
structure WidensReading (apps : Registry) (model : Model) (a : PolicyArgs) (shared : Cond SqlName) (D : Postgres κ)
    (row : Name → Option κ) : Prop where
  tenantBound : a.policyUsing.Bound D.1 [model.frame row] ∧ a.policyCheck.Bound D.1 [model.frame row]
  sharingBound : shared.Bound D.1 [model.frame row]
  selectable : Sees [tenantPolicy model.dbTable a.policyUsing a.policyCheck, sharingPolicy model.dbTable shared]
      D.1 [model.frame row] .select ↔ a.policyUsing.Passes D.1 [model.frame row] ∨
    ∃ p ∈ a.predicates, p.Shares apps model D row (currentTenant D.1 a.gucTenantVar a.tenantPkType)
  takes : ∀ cmd reads, cmd ≠ .select →
    (MayTake [tenantPolicy model.dbTable a.policyUsing a.policyCheck, sharingPolicy model.dbTable shared]
        D.1 [model.frame row] cmd reads ↔
      MayTake [tenantPolicy model.dbTable a.policyUsing a.policyCheck] D.1 [model.frame row] cmd reads)
  writes : ∀ cmd reads, cmd ≠ .select →
    (MayWrite [tenantPolicy model.dbTable a.policyUsing a.policyCheck, sharingPolicy model.dbTable shared]
        D.1 [model.frame row] cmd reads ↔
      MayWrite [tenantPolicy model.dbTable a.policyUsing a.policyCheck] D.1 [model.frame row] cmd reads)
  noTenant : currentTenant D.1 a.gucTenantVar a.tenantPkType = none → ¬shared.Passes D.1 [model.frame row]

/-- The statement creates both policies, which have different names, on every database with
the models' tables, and they widen reading. -/
def CreatesSharing (κ : Type) [DecidableEq κ] (apps : Registry) (model : Model) (a : PolicyArgs) (sql : String) : Prop :=
  ∃ shared,
    sql = createPolicyBlock model.dbTable s!"{model.dbTable}_tenant_isolation_policy"
        (condSql policyGap a.policyUsing) (condSql policyGap a.policyCheck) ++
      createSharingBlock model.dbTable s!"{model.dbTable}_tenant_sharing_policy" (condSql sharingGap shared) ∧
    createIfMissing (createIfMissing [] (tenantPolicy model.dbTable a.policyUsing a.policyCheck))
        (sharingPolicy model.dbTable shared) =
      [tenantPolicy model.dbTable a.policyUsing a.policyCheck, sharingPolicy model.dbTable shared] ∧
    ∀ D : Postgres κ, HoldsTables D apps → ∀ row, WidensReading apps model a shared D row

variable {apps : Registry} {model : Model} {a : PolicyArgs} {sql : String}

/-- The predicates' conditions let the shared rows through. -/
theorem passes_anyOf_means {tenantValue' : Operand SqlName} {D : Postgres κ} (row : Name → Option κ)
    {predicates : List Predicate} {c : Cond SqlName} {conds : List (Cond SqlName)} {current : Option κ}
    (hmeans : List.Forall₂ (Predicate.Means apps model tenantValue') predicates (c :: conds))
    (hpass : ∀ p ∈ predicates, ∀ d, p.Means apps model tenantValue' d →
      (d.Passes D.1 [model.frame row] ↔ p.Shares apps model D row current) ∧ d.Bound D.1 [model.frame row]) :
    ((c.anyOf conds).Passes D.1 [model.frame row] ↔ ∃ p ∈ predicates, p.Shares apps model D row current) ∧
      (c.anyOf conds).Bound D.1 [model.frame row] := by
  rw [passes_anyOf, bound_anyOf]
  generalize c :: conds = cs at hmeans
  induction hmeans with
  | nil => simp
  | cons hm _ ih =>
    rw [List.exists_mem_cons_iff, List.exists_mem_cons_iff, List.forall_mem_cons]
    obtain ⟨hp, hb⟩ := hpass _ List.mem_cons_self _ hm
    obtain ⟨hrest, hbound⟩ := ih fun p hp d hd => hpass p (List.mem_cons_of_mem _ hp) d hd
    exact ⟨or_congr hp hrest, hb, hbound⟩

theorem Writes.creates (htargets : TargetsColumns apps model) (hcolumn : a.column.stored ∈ model.columns)
    (hne : a.predicates ≠ [])
    (hpreds : ∀ p ∈ a.predicates, (∀ t, p ≠ .raw t) ∧ p.NoAlias model) (h : Writes apps model a sql) :
    CreatesSharing κ apps model a sql := by
  obtain ⟨⟨texts, htexts, rfl⟩, hshort⟩ := h
  rw [← operandSql_tenantValue] at htexts
  obtain ⟨conds, hmeans, rfl⟩ := predicatesSql_means (fun p hp => (hpreds p hp).1) htexts
  cases conds with
  | nil => exact absurd (List.forall₂_nil_right_iff.1 hmeans) hne
  | cons c conds =>
    refine ⟨c.anyOf conds, ?_, createIfMissing_both hshort, fun D hD row => ?_⟩
    · have hgap : sharingGap ++ "OR " = "\n                                OR " := by simp [sharingGap]
      rw [condSql_anyOf, hgap, PolicyArgs.policyUsing, PolicyArgs.policyCheck, ← buildPolicyCreateSql_eq]
      rfl
    · obtain ⟨hpass, hbound⟩ := passes_anyOf_means row hmeans fun p hp d hd =>
        hd.passes hD htargets hshort (hpreds p hp).2
      have htenant := bound_tenantUsing D row hcolumn a.gucTenantVar a.gucAdminVar a.tenantPkType
      refine ⟨⟨htenant a.flags, htenant []⟩, hbound, ?_, ?_, ?_, ?_⟩
      · rw [sees_select, hpass]
      · exact fun cmd reads hcmd => mayTake_sharing hcmd
      · exact fun cmd reads hcmd => mayWrite_sharing hcmd passes_using_of_check
      · intro hnone hshared
        obtain ⟨p, -, hp⟩ := hpass.1 hshared
        rw [hnone] at hp
        exact not_shares_none hp

end Reading

section Example

/-- Notes, and a model that records which tenant a note is shared with. -/
def noteModel : Model :=
  { path := ⟨"notes", "Note"⟩, concrete := ⟨"notes", "note"⟩, abstract := false, rlsProtected := false,
    constraintFields := ["tenant"], dbTable := "notes_note",
    fields := [⟨"id", none, none⟩, tenantKey "tenant" none], localManyToMany := [] }

def shareModel : Model :=
  { path := ⟨"notes", "NoteShare"⟩, concrete := ⟨"notes", "noteshare"⟩, abstract := false, rlsProtected := false,
    constraintFields := ["owner"], dbTable := "notes_noteshare",
    fields := [⟨"id", none, none⟩, tenantKey "owner" none, ⟨"note", none, some ⟨⟨"notes", "note"⟩, "id"⟩⟩,
      tenantKey "shared_with" none],
    localManyToMany := [] }

def notesApps : Registry := ⟨[noteModel, shareModel], by decide +kernel⟩

def sharedNotes : Predicate := .sharedWith ⟨"notes", "NoteShare"⟩ "note" "shared_with"

/-- The constraint on the notes. -/
def noteConstraint : RLSConstraint :=
  { constraintOn "tenant" isFieldName_tenant with extraPredicates := [sharedNotes] }

/-- A session of tenant 2 that sees the given shares. -/
def shareSession (shares : List (Name → Option Int)) : Postgres Int :=
  ⟨{ (tenantSession castKey "rls.current_tenant" "2").1 with
     columns := fun t => if t = "notes_noteshare".toList then shareModel.columns else noteModel.columns
     rows := fun t => if t = "notes_noteshare".toList then shares else [] }, rfl⟩

/-- Tenant 1 shares note 1 with tenant 2. -/
def share : Name → Option Int := fun c => if c = "shared_with_id".toList then some 2 else some 1

def note : Name → Option Int := fun _ => some 1

theorem holdsTables_shareSession (shares : List (Name → Option Int)) : HoldsTables (shareSession shares) notesApps := by
  have hshare : ("notes_noteshare" : String).toList = createdName shareModel.dbTable := by decide
  have hnote : createdName noteModel.dbTable ≠ ("notes_noteshare" : String).toList := by decide
  intro m hm
  rcases List.mem_cons.1 hm with rfl | hm
  · simp only [shareSession, if_neg hnote]
  · obtain rfl := List.mem_singleton.1 hm
    simp only [shareSession, if_pos hshare.symm]

theorem targetsColumns_notes : TargetsColumns notesApps noteModel := by
  unfold TargetsColumns
  decide +kernel

theorem preds_notes : ∀ p ∈ noteConstraint.extraPredicates, (∀ t, p ≠ .raw t) ∧ p.NoAlias noteModel := by
  intro p hp
  obtain rfl := List.mem_singleton.1 hp
  refine ⟨fun t h => ?_, ?_⟩
  · cases h
  · have hne : noteModel.dbTable ≠ "rls_shared" := by decide
    exact hne

theorem column_notes : (SqlName.mk false s!"{noteConstraint.field}_id").stored ∈ noteModel.columns := by
  decide +kernel

theorem rows_shareSession_nil (t : Name) : (shareSession []).1.rows t = [] := ite_self _

theorem currentTenant_shareSession (shares : List (Name → Option Int)) :
    currentTenant (shareSession shares).1 "rls.current_tenant" "int" = some 2 := by
  have htwo : castKey "int" "2" = some 2 := by decide
  exact currentTenant_tenantSession "rls.current_tenant" (by decide) htwo

/-- A row of tenant 1 does not pass a tenant policy. -/
theorem not_passes_shareSession {shares : List (Name → Option Int)} {model : Model} {row : Name → Option Int}
    {n : SqlName} (h : row n.stored = some 1) :
    ¬(tenantUsing (.column none n) "rls.current_tenant" "rls.is_admin" "int" []).Passes (shareSession shares).1
      [model.frame row] := by
  rw [passes_tenantUsing, eval_ownColumn, currentTenant_shareSession]
  rintro (⟨flag, -, hflag⟩ | ⟨k, hk, hcurrent⟩)
  · have hnone : ¬FlagSet (tenantSession castKey "rls.current_tenant" "2").1 flag :=
      not_flagSet_tenantSession (by decide) flag
    exact hnone hflag
  · obtain rfl := Option.some.inj hcurrent
    split at hk
    · rw [h] at hk
      exact absurd (Option.some.inj (Option.some.inj hk)) (by decide)
    · cases hk

end Example

end RlsTenants
