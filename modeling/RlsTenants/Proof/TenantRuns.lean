import Mathlib.Data.List.Nodup
import RlsTenants.Spec.ForAllTenants

/-!
# Tenants that run in turn

* `summarize_isSome`: the command raises exactly if a failure is reported.
* `once_iff`: reports of the listed tenants are one for each if no tenant is listed twice.
* `serialLoop_spec`: what the loop in this process reports, by induction over the tenants.
* `reported_serially_iff`: so it reports every tenant once, unless a command is interrupted.
-/

namespace RlsTenants

namespace ForAllTenants

open Run

variable {c : Command}

/-! ## Reports -/

@[simp] theorem of_runForTenant (t : Tenant) (capture : Bool) (r : CommandRun) : (runForTenant t capture r).of = t := rfl

@[simp] theorem of_brokenRun (t : Tenant) (why : String) : (brokenRun t why).of = t := rfl

@[simp] theorem of_skippedRun (t : Tenant) : (skippedRun t).of = t := rfl

theorem runForTenant_not_skipped (t : Tenant) (capture : Bool) (r : CommandRun) :
    (runForTenant t capture r).status ≠ .skipped := by
  change (if r.ending.error.isNone then Status.ok else Status.failed) ≠ .skipped
  split
  · decide
  · decide

/-- The command raises exactly if a failure is reported. -/
theorem summarize_isSome (name : String) (runs : List TenantRun) :
    (summarize name runs).isSome = true ↔ ∃ run ∈ runs, run.status = .failed := by
  unfold summarize
  split
  · rename_i hnone
    have hno := List.filter_eq_nil_iff.mp hnone
    constructor
    · intro h
      cases h
    · rintro ⟨run, hrun, hfailed⟩
      exact absurd (by simpa using hfailed) (hno run hrun)
  · rename_i hsome
    obtain ⟨run, hrun⟩ := List.exists_mem_of_ne_nil _ hsome
    obtain ⟨hmem, hfailed⟩ := List.mem_filter.mp hrun
    exact ⟨fun _ => ⟨run, hmem, by simpa using hfailed⟩, fun _ => rfl⟩

/-- A tenant that is not listed twice has one position. -/
theorem position_unique (hdistinct : c.Distinct) {i j : ℕ} {t : Tenant} (hi : c.tenants[i]? = some t)
    (hj : c.tenants[j]? = some t) : i = j := by
  obtain ⟨hlt, -⟩ := List.getElem?_eq_some_iff.mp hi
  exact (List.getElem?_inj hlt (List.Nodup.of_map _ hdistinct)).mp (hi.trans hj.symm)

/-- If the reports are of the listed tenants, there is one for each exactly if they are distinct. -/
theorem once_iff {runs : List TenantRun} (h : (runs.map TenantRun.of).Perm c.tenants) :
    (∀ t ∈ c.tenants, (runs.map TenantRun.tenant).count t.pk = 1) ↔ c.Distinct := by
  have hpks : (runs.map TenantRun.tenant).Perm (c.tenants.map Tenant.pk) := by
    have hmap := h.map Tenant.pk
    rwa [List.map_map] at hmap
  unfold Command.Distinct
  rw [List.nodup_iff_count_eq_one, List.forall_mem_map]
  exact forall_congr' fun t => imp_congr_right fun _ => by rw [hpks.count_eq]

theorem listed_of_perm {runs : List TenantRun} (h : (runs.map TenantRun.of).Perm c.tenants) :
    ∀ run ∈ runs, run.of ∈ c.tenants := fun _ hrun => h.mem_iff.mp (List.mem_map_of_mem hrun)

/-! ## In this process -/

theorem failed_iff (t : Tenant) (capture : Bool) (r : CommandRun) :
    (runForTenant t capture r).status = .failed ↔ (Attempt.ran r).failed = true := by
  change (if r.ending.error.isNone then Status.ok else Status.failed) = .failed ↔ r.ending.error.isSome = true
  cases r.ending.error <;> simp

/-- Once it has stopped, the loop skips the tenants that are left. -/
theorem serialLoop_stopped (commands : ℕ → Attempt) (i : ℕ) (ts : List Tenant) :
    serialLoop c commands i true ts = ⟨ts.map skippedRun, [], none⟩ := by
  induction ts generalizing i with
  | nil => rfl
  | cons t ts ih =>
    unfold serialLoop
    rw [ih]
    rfl

section Loop

variable {commands : ℕ → Attempt} {i : ℕ} {t : Tenant} {ts : List Tenant} {r : CommandRun}

/-- After a failure under fail-fast. -/
theorem serialLoop_stop (hran : commands i = .ran r) (hfast : c.failFast = true)
    (hfailed : (runForTenant t c.json r).status = .failed) :
    serialLoop c commands i false (t :: ts) = ⟨runForTenant t c.json r :: ts.map skippedRun, [i], none⟩ := by
  unfold serialLoop
  simp only [hran]
  rw [hfailed, hfast]
  exact congrArg (fun rest : Serial => (⟨_ :: rest.runs, i :: rest.started, rest.interrupted⟩ : Serial))
    (serialLoop_stopped commands (i + 1) ts)

/-- After another run. -/
theorem serialLoop_go (hran : commands i = .ran r)
    (hgo : c.failFast = true → (runForTenant t c.json r).status ≠ .failed) :
    serialLoop c commands i false (t :: ts) = ⟨runForTenant t c.json r :: (serialLoop c commands (i + 1) false ts).runs,
      i :: (serialLoop c commands (i + 1) false ts).started, (serialLoop c commands (i + 1) false ts).interrupted⟩ := by
  have hstop : (decide ((runForTenant t c.json r).status = .failed) && c.failFast) = false := by
    rw [Bool.and_eq_false_iff, decide_eq_false_iff_not]
    by_cases hfast : c.failFast = true
    · exact .inl (hgo hfast)
    · exact .inr (Bool.not_eq_true _ ▸ hfast)
  rw [serialLoop]
  simp only [hran, hstop]

/-- The attempts at `i` and after it are interrupted only behind a failure that stops the run. -/
def UninterruptedFrom (c : Command) (commands : ℕ → Attempt) (i n : ℕ) : Prop :=
  ∀ k < n, ∀ exception, commands (i + k) = .interrupted exception →
    c.failFast = true ∧ ∃ j < k, (commands (i + j)).failed = true

theorem uninterruptedFrom_succ {n : ℕ} (hran : commands i = .ran r)
    (hgo : c.failFast = true → (commands i).failed ≠ true) :
    UninterruptedFrom c commands i (n + 1) ↔ UninterruptedFrom c commands (i + 1) n := by
  have hshift : ∀ k, i + 1 + k = i + (k + 1) := by omega
  constructor
  · intro h k hk exception hat
    obtain ⟨hfast, j, hj, hfailed⟩ := h (k + 1) (by omega) exception (hshift k ▸ hat)
    cases j with
    | zero => exact absurd hfailed (hgo hfast)
    | succ j => exact ⟨hfast, j, by omega, hshift j ▸ hfailed⟩
  · intro h k hk exception hat
    cases k with
    | zero =>
      rw [Nat.add_zero, hran] at hat
      cases hat
    | succ k =>
      obtain ⟨hfast, j, hj, hfailed⟩ := h k (by omega) exception (hshift k ▸ hat)
      exact ⟨hfast, j + 1, by omega, hshift j ▸ hfailed⟩

/-- **When the loop comes to its end.** -/
theorem interrupted_eq_none_iff (commands : ℕ → Attempt) (i : ℕ) (ts : List Tenant) :
    (serialLoop c commands i false ts).interrupted = none ↔ UninterruptedFrom c commands i ts.length := by
  induction ts generalizing i with
  | nil =>
    constructor
    · intro _ k hk
      exact absurd hk (Nat.not_lt_zero k)
    · intro _
      rfl
  | cons t ts ih =>
    cases hat : commands i with
    | interrupted exception =>
      have hsome : (serialLoop c commands i false (t :: ts)).interrupted = some exception := by
        unfold serialLoop
        simp only [hat]
      rw [hsome]
      constructor
      · intro h
        cases h
      · intro h
        obtain ⟨-, j, hj, -⟩ := h 0 (Nat.succ_pos _) exception hat
        exact absurd hj (Nat.not_lt_zero j)
    | ran r =>
      by_cases hstop : c.failFast = true ∧ (runForTenant t c.json r).status = .failed
      · obtain ⟨hfast, hfailed⟩ := hstop
        rw [serialLoop_stop hat hfast hfailed]
        refine ⟨fun _ k _ exception hk => ?_, fun _ => rfl⟩
        cases k with
        | zero =>
          rw [Nat.add_zero, hat] at hk
          cases hk
        | succ k => exact ⟨hfast, 0, Nat.succ_pos k, hat ▸ (failed_iff t c.json r).mp hfailed⟩
      · have hgo : c.failFast = true → (runForTenant t c.json r).status ≠ .failed := fun hfast hfailed =>
          hstop ⟨hfast, hfailed⟩
        rw [serialLoop_go hat hgo, List.length_cons, uninterruptedFrom_succ hat ?_]
        · exact ih (i + 1)
        · intro hfast hfailed
          rw [hat] at hfailed
          exact hgo hfast ((failed_iff t c.json r).mpr hfailed)

/-- An interrupted command has started. -/
theorem started_of_interrupted {exception : String}
    (h : (serialLoop c commands i false ts).interrupted = some exception) :
    ∃ j ∈ (serialLoop c commands i false ts).started, commands j = .interrupted exception := by
  induction ts generalizing i with
  | nil => cases h
  | cons t ts ih =>
    cases hat : commands i with
    | interrupted exception' =>
      unfold serialLoop at h ⊢
      simp only [hat] at h ⊢
      obtain rfl := Option.some.inj h
      exact ⟨i, List.mem_singleton_self i, hat⟩
    | ran r =>
      by_cases hstop : c.failFast = true ∧ (runForTenant t c.json r).status = .failed
      · rw [serialLoop_stop hat hstop.1 hstop.2] at h
        cases h
      · rw [serialLoop_go hat fun hfast hfailed => hstop ⟨hfast, hfailed⟩] at h ⊢
        obtain ⟨j, hj, hcommand⟩ := ih h
        exact ⟨j, List.mem_cons_of_mem _ hj, hcommand⟩

/-- What the loop reports, from the tenant at `i`, when it comes to its end. -/
structure SerialSpec (c : Command) (commands : ℕ → Attempt) (i : ℕ) (ts : List Tenant) (result : Serial) : Prop where
  of : result.runs.map TenantRun.of = ts
  started : ∀ j ∈ result.started, i ≤ j ∧ ∃ t r, ts[j - i]? = some t ∧ commands j = .ran r ∧
    runForTenant t c.json r ∈ result.runs
  skipped : ∀ x run y, result.runs = x ++ run :: y → run.status = .skipped →
    c.failFast = true ∧ (∃ run' ∈ x, run'.status = .failed) ∧ i + x.length ∉ result.started
  first : c.failFast = true → ∀ j ∈ result.started, ∀ k ∈ result.started, k < j → (commands k).failed ≠ true

theorem serialSpec_stop (hran : commands i = .ran r) (hfast : c.failFast = true)
    (hfailed : (runForTenant t c.json r).status = .failed) :
    SerialSpec c commands i (t :: ts) ⟨runForTenant t c.json r :: ts.map skippedRun, [i], none⟩ where
  of := by
    have hmap : (ts.map skippedRun).map TenantRun.of = ts := by
      rw [List.map_map]
      exact List.map_id' ts
    rw [List.map_cons, hmap]
    rfl
  started := by
    intro j hj
    obtain rfl := List.mem_singleton.mp hj
    exact ⟨Nat.le_refl _, t, r, by simp, hran, List.mem_cons_self⟩
  skipped := by
    intro x run y hsplit hskipped
    cases x with
    | nil =>
      obtain ⟨rfl, -⟩ := List.cons.inj hsplit
      exact absurd hskipped (runForTenant_not_skipped _ _ _)
    | cons run' x =>
      obtain ⟨rfl, -⟩ := List.cons.inj hsplit
      refine ⟨hfast, ⟨_, List.mem_cons_self, hfailed⟩, ?_⟩
      intro hmem
      have heq := List.mem_singleton.mp hmem
      rw [List.length_cons] at heq
      omega
  first := by
    intro _ j hj k hk hlt
    obtain rfl := List.mem_singleton.mp hj
    obtain rfl := List.mem_singleton.mp hk
    exact absurd hlt (Nat.lt_irrefl _)

theorem serialSpec_go {rest : Serial} (hran : commands i = .ran r) (h : SerialSpec c commands (i + 1) ts rest)
    (hgo : c.failFast = true → (runForTenant t c.json r).status ≠ .failed) :
    SerialSpec c commands i (t :: ts) ⟨runForTenant t c.json r :: rest.runs, i :: rest.started, rest.interrupted⟩ where
  of := by
    rw [List.map_cons, h.of]
    rfl
  started := by
    intro j hj
    rcases List.mem_cons.mp hj with rfl | hj
    · exact ⟨Nat.le_refl _, t, r, by simp, hran, List.mem_cons_self⟩
    · obtain ⟨hle, t', r', ht', hran', hmem⟩ := h.started j hj
      refine ⟨by omega, t', r', ?_, hran', List.mem_cons_of_mem _ hmem⟩
      have hsub : j - i = (j - (i + 1)) + 1 := by omega
      rw [hsub, List.getElem?_cons_succ]
      exact ht'
  skipped := by
    intro x run y hsplit hskipped
    cases x with
    | nil =>
      obtain ⟨rfl, -⟩ := List.cons.inj hsplit
      exact absurd hskipped (runForTenant_not_skipped _ _ _)
    | cons run' x =>
      obtain ⟨rfl, hrest⟩ := List.cons.inj hsplit
      obtain ⟨hfast, ⟨run'', hmem, hfailed⟩, hnot⟩ := h.skipped x run y hrest hskipped
      refine ⟨hfast, ⟨run'', List.mem_cons_of_mem _ hmem, hfailed⟩, ?_⟩
      intro hstarted
      rw [List.length_cons] at hstarted
      rcases List.mem_cons.mp hstarted with heq | hlater
      · omega
      · apply hnot
        have heq : i + 1 + x.length = i + (x.length + 1) := by omega
        rw [heq]
        exact hlater
  first := by
    intro hfast j hj k hk hlt hfailed
    rcases List.mem_cons.mp hk with rfl | hk
    · rw [hran] at hfailed
      exact hgo hfast ((failed_iff t c.json r).mpr hfailed)
    · have hle := (h.started k hk).1
      rcases List.mem_cons.mp hj with rfl | hj
      · omega
      · exact h.first hfast j hj k hk hlt hfailed

/-- **The loop in this process** stops at the first failure, and only then skips. -/
theorem serialLoop_spec (commands : ℕ → Attempt) (i : ℕ) (ts : List Tenant)
    (hend : (serialLoop c commands i false ts).interrupted = none) :
    SerialSpec c commands i ts (serialLoop c commands i false ts) := by
  induction ts generalizing i with
  | nil => exact ⟨rfl, by simp [serialLoop], by simp [serialLoop], by simp [serialLoop]⟩
  | cons t ts ih =>
    cases hat : commands i with
    | interrupted exception =>
      unfold serialLoop at hend
      simp only [hat] at hend
      cases hend
    | ran r =>
      by_cases hstop : c.failFast = true ∧ (runForTenant t c.json r).status = .failed
      · rw [serialLoop_stop hat hstop.1 hstop.2]
        exact serialSpec_stop hat hstop.1 hstop.2
      · have hgo : c.failFast = true → (runForTenant t c.json r).status ≠ .failed := fun hfast hfailed =>
          hstop ⟨hfast, hfailed⟩
        rw [serialLoop_go hat hgo] at hend ⊢
        exact serialSpec_go hat (ih (i + 1) hend) hgo

end Loop

theorem uninterrupted_iff (commands : ℕ → Attempt) :
    Uninterrupted c commands ↔ UninterruptedFrom c commands 0 c.tenants.length := by
  unfold Uninterrupted UninterruptedFrom
  simp only [Nat.zero_add]

section Handle

variable {commands : ℕ → Attempt}

theorem own_serially {j : ℕ} {t : Tenant} (hj : j ∈ (handleSerially c commands).started) (ht : c.tenants[j]? = some t) :
    (handleSerially c commands).own j = (commands j).report t c.json := by
  change (if j ∈ (handleSerially c commands).started then c.tenants[j]?.bind _ else none) = _
  rw [if_pos hj, ht]
  rfl

/-- A run that comes to its end reports every tenant once. -/
theorem reported_serially (hdistinct : c.Distinct)
    (hend : (serialLoop c commands 0 false c.tenants).interrupted = none) : Reported c (handleSerially c commands) := by
  have hspec : SerialSpec c commands 0 c.tenants (serialLoop c commands 0 false c.tenants) := serialLoop_spec commands 0 _ hend
  have hown : ∀ j ∈ (handleSerially c commands).started, ∃ t r, c.tenants[j]? = some t ∧ commands j = .ran r ∧
      (handleSerially c commands).own j = some (runForTenant t c.json r) ∧
      runForTenant t c.json r ∈ (handleSerially c commands).runs := by
    intro j hj
    obtain ⟨-, t, r, ht, hran, hmem⟩ := hspec.started j hj
    exact ⟨t, r, ht, hran, (own_serially hj ht).trans (by rw [hran]; rfl), hmem⟩
  have hperm : ((handleSerially c commands).runs.map TenantRun.of).Perm c.tenants := .of_eq hspec.of
  have hraised : (handleSerially c commands).raised = summarize c.name (handleSerially c commands).runs := by
    unfold handleSerially
    simp only [hend]
  refine ⟨listed_of_perm hperm, (once_iff hperm).mpr hdistinct, ?_, ?_, ?_, hraised ▸ summarize_isSome c.name _⟩
  · intro x run y hsplit hskipped
    obtain ⟨hfast, hfailed, hnot⟩ := hspec.skipped x run y hsplit hskipped
    refine ⟨hfast, hfailed, ?_⟩
    intro j hj ht
    -- a tenant that was run stands elsewhere
    have hat : c.tenants[x.length]? = some run.of := by
      rw [← hspec.of]
      change ((handleSerially c commands).runs.map TenantRun.of)[x.length]? = _
      rw [hsplit]
      simp
    apply hnot
    rw [Nat.zero_add, position_unique hdistinct hat ht]
    exact hj
  · intro j hj
    obtain ⟨t, r, ht, -, hrun, hmem⟩ := hown j hj
    exact ⟨_, hmem, hrun, ht⟩
  · intro _ hfast j hj k hk hlt run hrun
    obtain ⟨t, r, -, hran, hrun', -⟩ := hown k hk
    rw [hrun'] at hrun
    obtain rfl := Option.some.inj hrun
    intro hfailed
    exact hspec.first hfast j hj k hk hlt (hran ▸ (failed_iff t c.json r).mp hfailed)

/-- **In this process** every tenant is reported once exactly if none is listed twice and no
command is interrupted. -/
theorem reported_serially_iff (commands : ℕ → Attempt) :
    Reported c (handleSerially c commands) ↔ c.Distinct ∧ Uninterrupted c commands := by
  rw [uninterrupted_iff, ← interrupted_eq_none_iff]
  constructor
  · intro h
    have hend : (serialLoop c commands 0 false c.tenants).interrupted = none := by
      rw [Option.eq_none_iff_forall_ne_some]
      intro exception hsome
      -- the interrupted command has started, and has no report
      obtain ⟨j, hj, hat⟩ := started_of_interrupted hsome
      obtain ⟨run, -, hown, ht⟩ := h.own j hj
      rw [own_serially hj ht, hat] at hown
      cases hown
    exact ⟨(once_iff (.of_eq (serialLoop_spec commands 0 _ hend).of)).mp h.once, hend⟩
  · rintro ⟨hdistinct, hend⟩
    exact reported_serially hdistinct hend

end Handle

end ForAllTenants

end RlsTenants
