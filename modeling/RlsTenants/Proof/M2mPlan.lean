import RlsTenants.Spec.M2mPlan
import RlsTenants.Proof.Migrations

/-!
# The plan accounts for every table

* `firstPass_perm`: the first pass sorts the tables into covered ones, operations and
  skipped ones.
* `secondPass_perm`: the second pass loses no operation.
* `plan_accounts`: what a plan accounts for, and `plan_complete_iff`, when it plans the
  tables whose policy is the library's own.
* `covers_iff`: a table is covered if a migration of the graph has an `AddM2MRLSPolicy` for
  it, at any depth.
-/

namespace RlsTenants

namespace M2mPlan

open Project

variable {facts : MigrationFacts} {policyNames : String → List String} {options : PolicyOptions}
  {entry : String × M2mInfo} {entries : List (String × M2mInfo)} {pass : Pass} {name : String}

/-! ## Verdicts -/

/-- The operation of a table, if it gets one. -/
def operationOf (facts : MigrationFacts) (policyNames : String → List String) (options : PolicyOptions)
    (entry : String × M2mInfo) : Option AddM2MRLSPolicy :=
  match verdict facts policyNames options entry.1 entry.2 with
  | .ok (.operation op) => some op
  | _ => none

/-- The first pass skips the table. -/
def isSkipped (facts : MigrationFacts) (policyNames : String → List String) (options : PolicyOptions)
    (entry : String × M2mInfo) : Bool :=
  match verdict facts policyNames options entry.1 entry.2 with
  | .ok (.skipped _) => true
  | _ => false

theorem init_eq_ok {table : String} {sides : M2mSides} {op : AddM2MRLSPolicy}
    (h : AddM2MRLSPolicy.init table sides options = .ok op) :
    op.m2mTable = table ∧ op.sides = sides ∧ op.options = options := by
  unfold AddM2MRLSPolicy.init at h
  split at h
  · cases h
  · obtain rfl := Except.ok.inj h
    exact ⟨rfl, rfl, rfl⟩

theorem init_isOk {table : String} {sides : M2mSides} :
    (∃ op, AddM2MRLSPolicy.init table sides options = .ok op) ↔ checkOperation table sides options = .ok () := by
  unfold AddM2MRLSPolicy.init
  constructor
  · rintro ⟨op, h⟩
    split at h
    · cases h
    · assumption
  · intro h
    split
    · rename_i e he
      rw [h] at he
      cases he
    · exact ⟨_, rfl⟩

/-- The first pass reaches a table's operation, or ends with another verdict. -/
theorem verdict_reaches (h : Reaches facts policyNames entry) :
    verdict facts policyNames options entry.1 entry.2 =
      (AddM2MRLSPolicy.init entry.1 entry.2.sides options).map .operation := by
  obtain ⟨huncovered, hmigrated, hfield, hpolicies⟩ := h
  have hnone : facts.m2mPolicyMigrations entry.1 = [] := not_not.1 huncovered
  have hexisting : ¬(policyNames entry.1 ≠ [] ∧ policyName entry.1 ∉ policyNames entry.1) := by
    rintro ⟨h1, h2⟩
    rcases hpolicies with h | h
    · exact h1 h
    · exact h2 h
  unfold verdict
  simp [hnone, hmigrated, hfield, hexisting]

theorem verdict_else (options : PolicyOptions) (h : ¬Reaches facts policyNames entry) :
    (facts.Covers entry.1 ∧ verdict facts policyNames options entry.1 entry.2 = .ok .covered) ∨
      (¬facts.Covers entry.1 ∧ ∃ reason, verdict facts policyNames options entry.1 entry.2 = .ok (.skipped reason)) := by
  unfold verdict
  by_cases hcovers : facts.m2mPolicyMigrations entry.1 ≠ []
  · exact .inl ⟨hcovers, by simp [hcovers]⟩
  · refine .inr ⟨hcovers, ?_⟩
    rw [if_neg hcovers]
    cases hmigrated : facts.isMigrated entry.2.sides.fromModel.app with
    | false => exact ⟨_, rfl⟩
    | true =>
      cases hfield : facts.stateHasField entry.2.sides.fromModel entry.2.field with
      | false => exact ⟨_, rfl⟩
      | true =>
        by_cases hother : policyNames entry.1 ≠ [] ∧ policyName entry.1 ∉ policyNames entry.1
        · simp [hother]
        · refine absurd ⟨hcovers, hmigrated, hfield, ?_⟩ h
          by_contra hno
          rw [not_or] at hno
          exact hother hno

theorem operationOf_eq_some {op : AddM2MRLSPolicy} (h : operationOf facts policyNames options entry = some op) :
    Reaches facts policyNames entry ∧ op.m2mTable = entry.1 ∧ op.sides = entry.2.sides ∧ op.options = options := by
  unfold operationOf at h
  by_cases hreaches : Reaches facts policyNames entry
  · rw [verdict_reaches hreaches] at h
    cases hinit : AddM2MRLSPolicy.init entry.1 entry.2.sides options with
    | error e =>
      rw [hinit] at h
      cases h
    | ok op' =>
      rw [hinit] at h
      obtain rfl : op' = op := Option.some.inj h
      exact ⟨hreaches, init_eq_ok hinit⟩
  · rcases verdict_else options hreaches with ⟨-, hv⟩ | ⟨-, reason, hv⟩ <;>
      · rw [hv] at h
        cases h

/-! ## The first pass -/

/-- All operations collected. -/
def Pass.operations (pass : Pass) : List AddM2MRLSPolicy := pass.operationsByApp.flatMap Prod.snd

theorem insertOperation_perm (op : AddM2MRLSPolicy) (byApp : List (String × List AddM2MRLSPolicy)) :
    ((insertOperation op byApp).flatMap Prod.snd).Perm (byApp.flatMap Prod.snd ++ [op]) := by
  induction byApp with
  | nil => exact .refl _
  | cons group rest ih =>
    obtain ⟨app, ops⟩ := group
    unfold insertOperation
    split
    · simp only [List.flatMap_cons, List.append_assoc]
      exact (List.perm_append_comm).append_left ops
    · simp only [List.flatMap_cons, List.append_assoc]
      exact ih.append_left ops

/-- Every operation lies in the group of its app. -/
def Grouped (byApp : List (String × List AddM2MRLSPolicy)) : Prop :=
  ∀ group ∈ byApp, ∀ op ∈ group.2, op.sides.fromModel.app = group.1

theorem insertOperation_grouped {op : AddM2MRLSPolicy} {byApp : List (String × List AddM2MRLSPolicy)}
    (h : Grouped byApp) : Grouped (insertOperation op byApp) := by
  induction byApp with
  | nil =>
    intro group hgroup op' hop'
    rw [List.mem_singleton.1 hgroup] at hop' ⊢
    rw [List.mem_singleton.1 hop']
  | cons group rest ih =>
    obtain ⟨app, ops⟩ := group
    have hhead := h (app, ops) List.mem_cons_self
    have hrest : Grouped rest := fun group hgroup => h group (List.mem_cons_of_mem _ hgroup)
    unfold insertOperation
    split
    · rename_i happ
      intro group hgroup op' hop'
      rcases List.mem_cons.1 hgroup with rfl | hgroup
      · rcases List.mem_append.1 hop' with hop' | hop'
        · exact hhead op' hop'
        · rw [List.mem_singleton.1 hop']
          exact happ.symm
      · exact hrest group hgroup op' hop'
    · intro group hgroup op' hop'
      rcases List.mem_cons.1 hgroup with rfl | hgroup
      · exact hhead op' hop'
      · exact ih hrest group hgroup op' hop'

/-- **The first pass.** Its operations and skipped tables are those of the verdicts. -/
theorem firstPass_perm (start : Pass) (hgrouped : Grouped start.operationsByApp)
    (h : entries.foldlM (fun pass entry => do return pass.add entry.1 (← verdict facts policyNames options entry.1 entry.2))
      start = .ok pass) :
    Grouped pass.operationsByApp ∧
      pass.operations.Perm (start.operations ++ entries.filterMap (operationOf facts policyNames options)) ∧
      pass.skipped.map Prod.fst =
        start.skipped.map Prod.fst ++ (entries.filter (isSkipped facts policyNames options)).map Prod.fst := by
  induction entries generalizing start with
  | nil =>
    obtain rfl : start = pass := Except.ok.inj h
    exact ⟨hgrouped, by simp, by simp⟩
  | cons entry rest ih =>
    rw [List.foldlM_cons] at h
    cases hv : verdict facts policyNames options entry.1 entry.2 with
    | error e =>
      rw [hv] at h
      cases h
    | ok v =>
      rw [hv] at h
      have hrest : rest.foldlM (fun pass entry => do
          return pass.add entry.1 (← verdict facts policyNames options entry.1 entry.2)) (start.add entry.1 v) =
          .ok pass := h
      cases v with
      | covered =>
        have hop : operationOf facts policyNames options entry = none := by simp [operationOf, hv]
        have hskip : isSkipped facts policyNames options entry = false := by simp [isSkipped, hv]
        rw [List.filterMap_cons_none hop, List.filter_cons_of_neg (by simp [hskip])]
        exact ih start hgrouped hrest
      | skipped reason =>
        have hop : operationOf facts policyNames options entry = none := by simp [operationOf, hv]
        have hskip : isSkipped facts policyNames options entry = true := by simp [isSkipped, hv]
        rw [List.filterMap_cons_none hop, List.filter_cons_of_pos hskip]
        obtain ⟨h1, h2, h3⟩ := ih (start.add entry.1 (.skipped reason)) hgrouped hrest
        refine ⟨h1, h2, ?_⟩
        rw [h3]
        simp [Pass.add]
      | operation op =>
        have hop : operationOf facts policyNames options entry = some op := by simp [operationOf, hv]
        have hskip : isSkipped facts policyNames options entry = false := by simp [isSkipped, hv]
        rw [List.filterMap_cons_some hop, List.filter_cons_of_neg (by simp [hskip])]
        obtain ⟨h1, h2, h3⟩ := ih (start.add entry.1 (.operation op)) (insertOperation_grouped hgrouped) hrest
        refine ⟨h1, h2.trans ?_, h3⟩
        have hinsert := (insertOperation_perm op start.operationsByApp).append_right
          (rest.filterMap (operationOf facts policyNames options))
        rw [List.append_assoc] at hinsert
        exact hinsert

/-! ## The second pass -/

/-- The app has one leaf. -/
def oneLeaf (facts : MigrationFacts) (app : String) : Bool := (facts.leafNodes app).length == 1

theorem planApp_oneLeaf (name : String) (plan : Plan) {app : String} (operations : List AddM2MRLSPolicy)
    (h : oneLeaf facts app = true) : ∃ migration, (planApp facts name plan app operations).planned =
      plan.planned ++ [migration] ∧ migration.operations = operations ∧
        (planApp facts name plan app operations).skipped = plan.skipped := by
  unfold oneLeaf at h
  unfold planApp
  rcases hl : facts.leafNodes app with _ | ⟨leaf, _ | ⟨leaf', rest⟩⟩
  · rw [hl] at h
    simp at h
  · exact ⟨_, rfl, rfl, rfl⟩
  · rw [hl] at h
    simp at h

theorem planApp_conflict (name : String) (plan : Plan) {app : String} (operations : List AddM2MRLSPolicy)
    (h : oneLeaf facts app = false) : (planApp facts name plan app operations).planned = plan.planned ∧
      (planApp facts name plan app operations).skipped.map Prod.fst =
        plan.skipped.map Prod.fst ++ operations.map (·.m2mTable) := by
  unfold oneLeaf at h
  unfold planApp
  rcases hl : facts.leafNodes app with _ | ⟨leaf, _ | ⟨leaf', rest⟩⟩
  · exact ⟨rfl, by simp [Function.comp_def]⟩
  · rw [hl] at h
    simp at h
  · exact ⟨rfl, by simp [Function.comp_def]⟩

/-- All operations of a plan. -/
def Plan.operations (plan : Plan) : List AddM2MRLSPolicy := plan.planned.flatMap (·.operations)

/-- **The second pass.** It plans the operations of the apps with one leaf, and skips the
tables of the others. -/
theorem secondPass_perm (facts : MigrationFacts) (name : String) (plan : Plan)
    {byApp : List (String × List AddM2MRLSPolicy)} (hgrouped : Grouped byApp) :
    (byApp.foldl (fun plan group => planApp facts name plan group.1 group.2) plan).operations =
        plan.operations ++ (byApp.flatMap Prod.snd).filter (fun op => oneLeaf facts op.sides.fromModel.app) ∧
      (byApp.foldl (fun plan group => planApp facts name plan group.1 group.2) plan).skipped.map Prod.fst =
        plan.skipped.map Prod.fst ++
          ((byApp.flatMap Prod.snd).filter (fun op => !oneLeaf facts op.sides.fromModel.app)).map (·.m2mTable) := by
  induction byApp generalizing plan with
  | nil => simp
  | cons group rest ih =>
    obtain ⟨app, operations⟩ := group
    have hhead := hgrouped (app, operations) List.mem_cons_self
    obtain ⟨h1, h2⟩ := ih (planApp facts name plan app operations)
      (fun group hgroup => hgrouped group (List.mem_cons_of_mem _ hgroup))
    rw [List.foldl_cons, h1, h2, List.flatMap_cons, List.filter_append, List.filter_append]
    cases hleaf : oneLeaf facts app with
    | true =>
      obtain ⟨migration, hplanned, hops, hskipped⟩ :=
        planApp_oneLeaf name plan operations hleaf
      have hall : operations.filter (fun op => oneLeaf facts op.sides.fromModel.app) = operations := by
        rw [List.filter_eq_self]
        intro op hop
        rw [hhead op hop, hleaf]
      have hnone : operations.filter (fun op => !oneLeaf facts op.sides.fromModel.app) = [] := by
        rw [List.filter_eq_nil_iff]
        intro op hop
        simp [hhead op hop, hleaf]
      refine ⟨?_, ?_⟩
      · unfold Plan.operations
        rw [hplanned, hall]
        simp [hops]
      · rw [hskipped, hnone, List.nil_append]
    | false =>
      obtain ⟨hplanned, hskipped⟩ := planApp_conflict name plan operations hleaf
      have hall : operations.filter (fun op => !oneLeaf facts op.sides.fromModel.app) = operations := by
        rw [List.filter_eq_self]
        intro op hop
        simp [hhead op hop, hleaf]
      have hnone : operations.filter (fun op => oneLeaf facts op.sides.fromModel.app) = [] := by
        rw [List.filter_eq_nil_iff]
        intro op hop
        simp [hhead op hop, hleaf]
      refine ⟨?_, ?_⟩
      · unfold Plan.operations
        rw [hplanned, hnone, List.nil_append]
      · rw [hskipped, hall, List.map_append, List.append_assoc]

/-! ## Plans -/

theorem verdict_ok {start : Pass}
    (h : entries.foldlM (fun pass entry => do return pass.add entry.1 (← verdict facts policyNames options entry.1 entry.2))
      start = .ok pass) : ∀ entry ∈ entries, ∃ v, verdict facts policyNames options entry.1 entry.2 = .ok v := by
  induction entries generalizing start with
  | nil => simp
  | cons first rest ih =>
    rw [List.foldlM_cons] at h
    cases hv : verdict facts policyNames options first.1 first.2 with
    | error e =>
      rw [hv] at h
      cases h
    | ok v =>
      rw [hv] at h
      intro entry hentry
      rcases List.mem_cons.1 hentry with rfl | hentry
      · exact ⟨v, hv⟩
      · exact ih h entry hentry

theorem foldlM_ok (h : ∀ entry ∈ entries, ∃ v, verdict facts policyNames options entry.1 entry.2 = .ok v) (start : Pass) :
    ∃ pass, entries.foldlM (fun pass entry => do
      return pass.add entry.1 (← verdict facts policyNames options entry.1 entry.2)) start = .ok pass := by
  induction entries generalizing start with
  | nil => exact ⟨start, rfl⟩
  | cons first rest ih =>
    obtain ⟨v, hv⟩ := h first List.mem_cons_self
    obtain ⟨pass, hpass⟩ := ih (fun entry hentry => h entry (List.mem_cons_of_mem _ hentry)) (start.add first.1 v)
    refine ⟨pass, ?_⟩
    rw [List.foldlM_cons, hv]
    exact hpass

/-- A plan is written exactly when every operation it needs passes its checks. -/
theorem plan_ok_iff {tables : M2mTables} :
    (∃ plan, planM2mMigrations facts policyNames options name tables = .ok plan) ↔
      ∀ entry ∈ tables.entries, Reaches facts policyNames entry → checkOperation entry.1 entry.2.sides options = .ok () := by
  constructor
  · rintro ⟨plan, hplan⟩ entry hentry hreaches
    unfold planM2mMigrations firstPass at hplan
    cases hpass : tables.entries.foldlM (fun pass entry => do
        return Pass.add pass entry.1 (← verdict facts policyNames options entry.1 entry.2)) ⟨[], []⟩ with
    | error e =>
      rw [hpass] at hplan
      cases hplan
    | ok pass =>
      obtain ⟨v, hv⟩ := verdict_ok hpass entry hentry
      rw [verdict_reaches hreaches] at hv
      apply init_isOk.1
      cases hinit : AddM2MRLSPolicy.init entry.1 entry.2.sides options with
      | error e =>
        rw [hinit] at hv
        cases hv
      | ok op => exact ⟨op, rfl⟩
  · intro h
    have hok : ∀ entry ∈ tables.entries, ∃ v, verdict facts policyNames options entry.1 entry.2 = .ok v := by
      intro entry hentry
      by_cases hreaches : Reaches facts policyNames entry
      · obtain ⟨op, hop⟩ := init_isOk.2 (h entry hentry hreaches)
        exact ⟨.operation op, by rw [verdict_reaches hreaches, hop]; rfl⟩
      · rcases verdict_else options hreaches with ⟨-, hv⟩ | ⟨-, reason, hv⟩
        · exact ⟨_, hv⟩
        · exact ⟨_, hv⟩
    obtain ⟨pass, hpass⟩ := foldlM_ok hok ⟨[], []⟩
    refine ⟨secondPass facts name pass, ?_⟩
    unfold planM2mMigrations firstPass
    rw [hpass]
    rfl

/-- A plan's operations and skipped tables, by the verdicts. -/
theorem plan_perm {tables : M2mTables} {plan : Plan}
    (h : planM2mMigrations facts policyNames options name tables = .ok plan) :
    plan.operations.Perm ((tables.entries.filterMap (operationOf facts policyNames options)).filter
        (fun op => oneLeaf facts op.sides.fromModel.app)) ∧
      (plan.skipped.map Prod.fst).Perm ((tables.entries.filter (isSkipped facts policyNames options)).map Prod.fst ++
        ((tables.entries.filterMap (operationOf facts policyNames options)).filter
          (fun op => !oneLeaf facts op.sides.fromModel.app)).map (·.m2mTable)) := by
  unfold planM2mMigrations firstPass at h
  cases hpass : tables.entries.foldlM (fun pass entry => do
      return Pass.add pass entry.1 (← verdict facts policyNames options entry.1 entry.2)) ⟨[], []⟩ with
  | error e =>
    rw [hpass] at h
    cases h
  | ok pass =>
    rw [hpass] at h
    obtain rfl : secondPass facts name pass = plan := Except.ok.inj h
    obtain ⟨hgrouped, hops, hskipped⟩ := firstPass_perm ⟨[], []⟩ (by simp [Grouped]) hpass
    obtain ⟨h1, h2⟩ := secondPass_perm facts name ⟨[], pass.skipped⟩ hgrouped
    have hops' : (pass.operationsByApp.flatMap Prod.snd).Perm
        (tables.entries.filterMap (operationOf facts policyNames options)) := hops
    constructor
    · unfold secondPass
      rw [h1]
      exact hops'.filter _
    · unfold secondPass
      rw [h2, hskipped]
      exact ((hops'.filter _).map _).append_left _

theorem map_operations (entries : List (String × M2mInfo)) :
    (entries.filterMap (operationOf facts policyNames options)).map (·.m2mTable) =
      (entries.filter (fun entry => (operationOf facts policyNames options entry).isSome)).map Prod.fst := by
  induction entries with
  | nil => rfl
  | cons entry rest ih =>
    cases hop : operationOf facts policyNames options entry with
    | none =>
      rw [List.filterMap_cons_none hop, List.filter_cons_of_neg (by simp [hop])]
      exact ih
    | some op =>
      rw [List.filterMap_cons_some hop, List.filter_cons_of_pos (by simp [hop]), List.map_cons, List.map_cons, ih,
        (operationOf_eq_some hop).2.1]

/-- Every entry has one of three verdicts. -/
theorem verdicts_perm (h : ∀ entry ∈ entries, ∃ v, verdict facts policyNames options entry.1 entry.2 = .ok v) :
    (entries.filter (fun entry => decide (facts.Covers entry.1)) ++
      (entries.filter (fun entry => (operationOf facts policyNames options entry).isSome) ++
        entries.filter (isSkipped facts policyNames options))).Perm entries := by
  refine .trans (.append_left _ ?_) (List.filter_append_perm (fun entry => decide (facts.Covers entry.1)) entries)
  refine .trans ?_ (List.filter_append_perm (fun entry => (operationOf facts policyNames options entry).isSome) _)
  rw [List.filter_filter, List.filter_filter]
  refine .of_eq (congrArg₂ (· ++ ·) (List.filter_congr ?_) (List.filter_congr ?_))
  · intro entry hentry
    cases hop : operationOf facts policyNames options entry with
    | none => rfl
    | some op =>
      have hcovers : ¬facts.Covers entry.1 := (operationOf_eq_some hop).1.uncovered
      simp [hcovers]
  · intro entry hentry
    obtain ⟨v, hv⟩ := h entry hentry
    by_cases hreaches : Reaches facts policyNames entry
    · have hcovers := hreaches.uncovered
      rw [verdict_reaches hreaches] at hv
      cases hinit : AddM2MRLSPolicy.init entry.1 entry.2.sides options with
      | error e =>
        rw [hinit] at hv
        cases hv
      | ok op =>
        simp [isSkipped, operationOf, verdict_reaches hreaches, hinit, Except.map]
    · rcases verdict_else options hreaches with ⟨hcovers, hv⟩ | ⟨hcovers, reason, hv⟩
      · simp [isSkipped, operationOf, hv, hcovers]
      · simp [isSkipped, operationOf, hv, hcovers]

/-- **A plan accounts for every table.** -/
theorem plan_accounts {tables : M2mTables} {plan : Plan}
    (h : planM2mMigrations facts policyNames options name tables = .ok plan) : plan.Accounts facts tables := by
  obtain ⟨hops, hskipped⟩ := plan_perm h
  have hok : ∀ entry ∈ tables.entries, ∃ v, verdict facts policyNames options entry.1 entry.2 = .ok v := by
    unfold planM2mMigrations firstPass at h
    cases hpass : tables.entries.foldlM (fun pass entry => do
        return Pass.add pass entry.1 (← verdict facts policyNames options entry.1 entry.2)) ⟨[], []⟩ with
    | error e =>
      rw [hpass] at h
      cases h
    | ok pass => exact verdict_ok hpass
  -- the operations of the two kinds of apps are all operations
  set ops := tables.entries.filterMap (operationOf facts policyNames options) with hopsDef
  have htables : (plan.planned.flatMap fun migration => migration.operations.map (·.m2mTable)) =
      plan.operations.map (·.m2mTable) := by
    unfold Plan.operations
    rw [List.map_flatMap]
  have hplanned : (plan.operations.map (·.m2mTable) ++ plan.skipped.map Prod.fst).Perm
      (ops.map (·.m2mTable) ++ (tables.entries.filter (isSkipped facts policyNames options)).map Prod.fst) := by
    refine ((hops.map _).append hskipped).trans ?_
    refine (List.perm_append_comm_assoc ..).trans ?_
    rw [← List.map_append]
    refine .trans (.append_left _ ((List.filter_append_perm _ ops).map _)) List.perm_append_comm
  unfold Plan.Accounts
  rw [htables, List.append_assoc]
  refine (hplanned.append_left _).trans ?_
  have hcovered : (tables.entries.map Prod.fst).filter (fun table => decide (facts.Covers table)) =
      (tables.entries.filter fun entry => decide (facts.Covers entry.1)).map Prod.fst := by
    rw [List.filter_map]
    rfl
  rw [hcovered, hopsDef, map_operations, ← List.map_append, ← List.map_append]
  exact (verdicts_perm hok).map _

/-- A table is planned exactly when the first pass reaches it and its app has one leaf. -/
theorem plans_iff {tables : M2mTables} {plan : Plan} (h : planM2mMigrations facts policyNames options name tables = .ok plan)
    (hentry : entry ∈ tables.entries) :
    plan.Plans entry.1 ↔ Reaches facts policyNames entry ∧ oneLeaf facts entry.2.sides.fromModel.app = true := by
  obtain ⟨hops, -⟩ := plan_perm h
  have hmem : plan.Plans entry.1 ↔ ∃ op ∈ plan.operations, op.m2mTable = entry.1 := by
    unfold Plan.Plans Plan.operations
    constructor
    · rintro ⟨migration, hmigration, op, hop, htable⟩
      exact ⟨op, List.mem_flatMap.2 ⟨migration, hmigration, hop⟩, htable⟩
    · rintro ⟨op, hop, htable⟩
      obtain ⟨migration, hmigration, hop⟩ := List.mem_flatMap.1 hop
      exact ⟨migration, hmigration, op, hop, htable⟩
  rw [hmem]
  constructor
  · rintro ⟨op, hop, htable⟩
    obtain ⟨hop, hleaf⟩ := List.mem_filter.1 (hops.mem_iff.1 hop)
    obtain ⟨entry', hentry', hop'⟩ := List.mem_filterMap.1 hop
    obtain ⟨hreaches, htable', hsides, -⟩ := operationOf_eq_some hop'
    -- the tables are different, so it is this entry's operation
    obtain rfl : entry' = entry := List.inj_on_of_nodup_map tables.nodup hentry' hentry (htable'.symm.trans htable)
    rw [hsides] at hleaf
    exact ⟨hreaches, hleaf⟩
  · rintro ⟨hreaches, hleaf⟩
    have hcheck := plan_ok_iff.1 ⟨plan, h⟩ entry hentry hreaches
    obtain ⟨op, hinit⟩ := init_isOk.2 hcheck
    obtain ⟨htable, hsides, -⟩ := init_eq_ok hinit
    have hop : operationOf facts policyNames options entry = some op := by
      unfold operationOf
      rw [verdict_reaches hreaches, hinit]
      rfl
    refine ⟨op, hops.mem_iff.2 (List.mem_filter.2 ⟨List.mem_filterMap.2 ⟨entry, hentry, hop⟩, ?_⟩), htable⟩
    rw [hsides]
    exact hleaf

/-- A planned operation is for a table that the plan was given, with the options. -/
theorem planned_of_mem {tables : M2mTables} {plan : Plan} {op : AddM2MRLSPolicy}
    (h : planM2mMigrations facts policyNames options name tables = .ok plan) (hop : op ∈ plan.operations) :
    ∃ entry ∈ tables.entries, op.m2mTable = entry.1 ∧ op.sides = entry.2.sides ∧ op.options = options := by
  obtain ⟨hops, -⟩ := plan_perm h
  obtain ⟨entry, hentry, hop⟩ := List.mem_filterMap.1 (List.mem_of_mem_filter (hops.mem_iff.1 hop))
  exact ⟨entry, hentry, (operationOf_eq_some hop).2⟩

/-! ## Facts read from a graph -/

section Graph

open Migrations

variable {lower : String → String} {g : Graph} {forwardsPlan : MigrationKey → List MigrationKey} {table : String}

/-- The operation adds the policy of a through table. -/
def addsPolicyOf (table : String) : Operation → Bool
  | .addM2MRLSPolicy m2mTable => m2mTable = table
  | _ => false

theorem addsPolicyOf_iff {operation : Operation} : addsPolicyOf table operation = true ↔
    operation = .addM2MRLSPolicy table := by
  cases operation <;> simp [addsPolicyOf]

theorem record_m2mPolicies (facts : Migrations.MigrationFacts) (key : MigrationKey) (operation : Operation) :
    (Migrations.record lower facts key operation).m2mPolicies table =
      facts.m2mPolicies table ++ if addsPolicyOf table operation then [key] else [] := by
  cases operation with
  | addM2MRLSPolicy m2mTable =>
    by_cases htable : m2mTable = table
    · simp [Migrations.record, addsPolicyOf, appendAt, htable]
    · simp [Migrations.record, addsPolicyOf, appendAt, htable, Ne.symm htable]
  | createModel name hasConstraint => cases hasConstraint <;> simp [Migrations.record, addsPolicyOf]
  | addConstraint modelName isRls => cases isRls <;> simp [Migrations.record, addsPolicyOf]
  | addRLSPolicy appLabel modelName field => simp [Migrations.record, addsPolicyOf]
  | separateDatabaseAndState operations => simp [Migrations.record, addsPolicyOf]
  | other => simp [Migrations.record, addsPolicyOf]

theorem recordAll_m2mPolicies (l : List (MigrationKey × Operation)) :
    (recordAll lower l).m2mPolicies table = (l.filter fun r => addsPolicyOf table r.2).map Prod.fst := by
  induction l using List.reverseRecOn with
  | nil => rfl
  | append_singleton l r ih =>
    rw [recordAll, List.foldl_append, List.filter_append, List.map_append, ← ih]
    refine (record_m2mPolicies (recordAll lower l) r.1 r.2).trans ?_
    by_cases hr : addsPolicyOf table r.2 = true
    · simp [hr]
    · simp [hr]

/-- **What covers a table**: an `AddM2MRLSPolicy` for it, which some migration runs on the
database, at any depth. -/
theorem covers_iff (hgraph : facts.toMigrationFacts = migrationFacts lower g forwardsPlan)
    (hplans : ∀ leaf ∈ g.leafNodes, IsPlan g leaf (forwardsPlan leaf)) :
    facts.Covers table ↔ ∃ p : Place, p.key ∈ g.nodes ∧
      OperationAt (g.operations p.key) p.path (.addM2MRLSPolicy table) := by
  have hpolicies : facts.m2mPolicyMigrations table =
      (recordAll lower (recorded g (migrationOrder g forwardsPlan))).m2mPolicies table :=
    congrArg (fun f => f.m2mPolicies table) hgraph
  rw [MigrationFacts.Covers, hpolicies, recordAll_m2mPolicies]
  simp only [← mem_migrationOrder hplans, ← mem_recordedAt]
  constructor
  · intro hne
    obtain ⟨key, hkey⟩ := List.exists_mem_of_ne_nil _ hne
    obtain ⟨r, hr, -⟩ := List.mem_map.1 hkey
    obtain ⟨hmem, hadds⟩ := List.mem_filter.1 hr
    rw [← map_recordedAt] at hmem
    obtain ⟨⟨p, operation⟩, hat, rfl⟩ := List.mem_map.1 hmem
    obtain rfl := addsPolicyOf_iff.1 hadds
    exact ⟨p, hat⟩
  · rintro ⟨p, hat⟩
    have hmem := List.mem_map_of_mem (f := fun r : Place × Operation => (r.1.key, r.2)) hat
    rw [map_recordedAt] at hmem
    exact List.ne_nil_of_mem (List.mem_map_of_mem (List.mem_filter.2 ⟨hmem, addsPolicyOf_iff.2 rfl⟩))

end Graph

/-! ## Names that PostgreSQL cuts -/

theorem byteLength_clip (n : ℕ) (t : Text) : byteLength (clip n t) ≤ n := by
  induction t generalizing n with
  | nil => simp [clip, byteLength]
  | cons c t ih =>
    rw [clip.eq_def]
    simp only
    split
    · rename_i hc
      have hrest := ih (n - c.utf8Size)
      have hcons : byteLength (c :: clip (n - c.utf8Size) t) = c.utf8Size + byteLength (clip (n - c.utf8Size) t) := by
        simp [byteLength]
      omega
    · simp [byteLength]

/-- A name is stored as it is exactly when it has at most 63 bytes. -/
theorem storedPolicy_eq_iff (name : String) : storedPolicy name = name ↔ byteLength name.toList ≤ 63 := by
  unfold storedPolicy
  constructor
  · intro h
    have hclip : clip 63 name.toList = name.toList := by
      have htoList := congrArg String.toList h
      rwa [String.toList_ofList] at htoList
    have hlen := byteLength_clip 63 name.toList
    rwa [hclip] at hlen
  · intro h
    rw [clip_of_short h, String.ofList_toList]

theorem byteLength_policyName (table : String) :
    byteLength (policyName table).toList = byteLength table.toList + 15 := by
  have hname : (policyName table).toList = table.toList ++ "_m2m_rls_policy".toList := by
    have happend : policyName table = table ++ "_m2m_rls_policy" := rfl
    rw [happend, String.toList_append]
  rw [hname]
  simp only [byteLength, List.map_append, List.sum_append]
  congr 1

/-- **Complete plans.** A plan is written, accounts for every table, and plans the tables
whose only policy is the library's own, exactly when every operation passes its checks,
migrations create the fields of those tables, and their names have at most 48 bytes. -/
theorem plan_complete_iff (facts : MigrationFacts) (policyNames : String → List String) (options : PolicyOptions)
    (name : String) (tables : M2mTables) :
    (∃ plan, planM2mMigrations facts policyNames options name tables = .ok plan ∧ plan.Accounts facts tables ∧
        ∀ entry ∈ tables.entries, OwnPolicy facts policyNames entry → plan.Plans entry.1) ↔
      (∀ entry ∈ tables.entries, Reaches facts policyNames entry →
        checkOperation entry.1 entry.2.sides options = .ok ()) ∧
      ∀ entry ∈ tables.entries, OwnPolicy facts policyNames entry →
        facts.stateHasField entry.2.sides.fromModel entry.2.field = true ∧ byteLength entry.1.toList ≤ 48 := by
  have hreaches : ∀ entry, OwnPolicy facts policyNames entry → (Reaches facts policyNames entry ↔
      facts.stateHasField entry.2.sides.fromModel entry.2.field = true ∧ byteLength entry.1.toList ≤ 48) := by
    intro entry hown
    have hname : policyName entry.1 ∈ policyNames entry.1 ↔ byteLength entry.1.toList ≤ 48 := by
      rw [hown.policy, List.mem_singleton, eq_comm, storedPolicy_eq_iff, byteLength_policyName]
      omega
    constructor
    · rintro ⟨-, -, hfield, hpolicies⟩
      refine ⟨hfield, hname.1 ?_⟩
      rcases hpolicies with hnone | hmem
      · rw [hown.policy] at hnone
        cases hnone
      · exact hmem
    · rintro ⟨hfield, hlen⟩
      exact ⟨hown.uncovered, hown.migrated, hfield, .inr (hname.2 hlen)⟩
  constructor
  · rintro ⟨plan, hplan, -, hplans⟩
    refine ⟨plan_ok_iff.1 ⟨plan, hplan⟩, ?_⟩
    intro entry hentry hown
    exact (hreaches entry hown).1 ((plans_iff hplan hentry).1 (hplans entry hentry hown)).1
  · rintro ⟨hchecks, howns⟩
    obtain ⟨plan, hplan⟩ := plan_ok_iff.2 hchecks
    refine ⟨plan, hplan, plan_accounts hplan, ?_⟩
    intro entry hentry hown
    obtain ⟨leaf, hleaf⟩ := hown.leaf
    refine (plans_iff hplan hentry).2 ⟨(hreaches entry hown).2 (howns entry hentry hown), ?_⟩
    simp [oneLeaf, hleaf]

/-! ## A long name -/

/-- A through table of an app with one migration. -/
def shopFacts : MigrationFacts where
  toMigrationFacts := .empty
  aliasRepr := "'default'"
  isMigrated _ := true
  stateHasField _ _ := true
  leafNodes app := [⟨app, "0001_initial"⟩]
  parseNumber _ := some 1

def shopInfo : M2mInfo where
  field := "tags"
  sides := ⟨⟨"shop", "Order"⟩, ⟨"shop", "Tag"⟩, "order_id", "tag_id", some "tenant", none⟩
  fromTable := "shop_order"
  toTable := "shop_tag"

/-- A name of 49 characters. -/
def longTable : String := "shop_order_of_a_customer_with_a_rather_long__tags"

/-- `setup_m2m_rls` has created its policy, and the plan takes it for one of another name. -/
theorem long_table_skipped :
    OwnPolicy shopFacts (fun table => [storedPolicy (policyName table)]) (longTable, shopInfo) ∧
      (planM2mMigrations shopFacts (fun table => [storedPolicy (policyName table)]) defaultOptions "m2m_rls_policies"
          ⟨[(longTable, shopInfo)], by decide⟩).toOption.map (fun plan => (plan.planned.map (·.tables), plan.skipped)) =
        some ([], [(longTable, "the table has a policy of another name on database 'default' " ++
          "(shop_order_of_a_customer_with_a_rather_long__tags_m2m_rls_polic), " ++
          "and AddM2MRLSPolicy would add a second one.")]) :=
  And.intro ⟨by decide, rfl, ⟨⟨"shop", "0001_initial"⟩, rfl⟩, rfl⟩ (by decide +kernel)

end M2mPlan

end RlsTenants
