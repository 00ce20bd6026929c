import RlsTenants.Proof.Workers

/-!
# A command in workers comes to an end

* `step_weight`: a step that changes anything makes the `weight` smaller.
* `exists_step`: until the command has ended, some step changes something.
* **`settles`**: every run comes to an end, and the command reports every tenant once
  exactly if none is listed twice and the pool was whole at each submission.
* `broken_pool_reports_none`: a pool that breaks between two submissions.
-/

namespace RlsTenants

namespace ForAllTenants

open Run

variable {c : Command} {s : State}

/-! ## The weight of what is left to do -/

def Future.weight : Future → ℕ
  | .pending => 2
  | .running => 1
  | _ => 0

def slotsWeight : List Slot → ℕ
  | [] => 0
  | slot :: slots => slot.future.weight + slotsWeight slots

def mainWeight (n : ℕ) (s : State) : ℕ :=
  match s.main with
  | .submitting => 4 * n + 8
  | .waiting => (n - s.yielded.length) + (if s.stopped then 0 else n + 2) + n + 3
  | .cancelling i => (n - s.yielded.length) + (n - i) + n + 4
  | .sweeping i => n - i + 1
  | _ => 0

/-- What is left to do: submissions, futures, the pool, and the main process. -/
def weight (c : Command) (s : State) : ℕ :=
  3 * (c.tenants.length - s.slots.length) + slotsWeight s.slots + (if s.pool = none then 1 else 0) +
    mainWeight c.tenants.length s

theorem slotsWeight_append (l : List Slot) (slot : Slot) :
    slotsWeight (l ++ [slot]) = slotsWeight l + slot.future.weight := by
  induction l with
  | nil => simp [slotsWeight]
  | cons slot' l ih =>
    change slot'.future.weight + slotsWeight (l ++ [slot]) = _
    rw [ih, slotsWeight, Nat.add_assoc]

theorem slotsWeight_set {l : List Slot} {i : ℕ} {slot : Slot} (slot' : Slot) (h : l[i]? = some slot) :
    slotsWeight (l.set i slot') + slot.future.weight = slotsWeight l + slot'.future.weight := by
  induction l generalizing i with
  | nil => simp at h
  | cons a l ih =>
    cases i with
    | zero =>
      rw [List.getElem?_cons_zero] at h
      obtain rfl := Option.some.inj h
      change slot'.future.weight + slotsWeight l + a.future.weight = a.future.weight + slotsWeight l + slot'.future.weight
      omega
    | succ i =>
      rw [List.getElem?_cons_succ] at h
      have hrest := ih h
      change a.future.weight + slotsWeight (l.set i slot') + slot.future.weight =
        a.future.weight + slotsWeight l + slot'.future.weight
      omega

theorem weight_cancel (f : Future) : f.cancel.weight ≤ f.weight := by
  cases f with
  | pending => exact Nat.zero_le _
  | _ => exact Nat.le_refl _

/-- A future that goes on makes the weight smaller, whatever else is known of it. -/
theorem weight_setFuture {i : ℕ} {slot : Slot} {f : Future} (hslot : s.slots[i]? = some slot)
    (hlt : f.weight < slot.future.weight) : weight c (s.setFuture i slot f) < weight c s := by
  have hset := slotsWeight_set { slot with future := f } hslot
  have hlength := setFuture_length s i slot f
  have hmain : mainWeight c.tenants.length (s.setFuture i slot f) = mainWeight c.tenants.length s := rfl
  have hpool : (s.setFuture i slot f).pool = s.pool := rfl
  change slotsWeight (s.setFuture i slot f).slots + _ = slotsWeight s.slots + f.weight at hset
  unfold weight
  rw [hlength, hmain, hpool]
  omega

theorem weight_done {f : Future} (h : f.done = false) : 0 < f.weight := by
  cases f with
  | pending => exact Nat.two_pos
  | running => exact Nat.one_pos
  | _ => cases h

/-- A step of the main process alone. -/
theorem weight_main {s' : State} (hslots : s'.slots = s.slots) (hpool : s'.pool = s.pool)
    (hmain : mainWeight c.tenants.length s' < mainWeight c.tenants.length s) : weight c s' < weight c s := by
  unfold weight
  rw [hslots, hpool]
  omega

/-! ## Every step makes it smaller -/

theorem submit_weight (h : Inv c s) (hmain : s.main = .submitting) : weight c (submit c s) < weight c s := by
  have hbegun := h.begun (by rw [hmain]; rfl)
  have hbefore : mainWeight c.tenants.length s = 4 * c.tenants.length + 8 := by
    unfold mainWeight
    rw [hmain]
  unfold submit
  split
  · refine weight_main rfl rfl ?_
    rw [hbefore]
    change (c.tenants.length - s.yielded.length) + (if s.stopped then 0 else c.tenants.length + 2) +
      c.tenants.length + 3 < 4 * c.tenants.length + 8
    split
    · omega
    · omega
  · rename_i t ht
    have hlt := (List.getElem?_eq_some_iff.mp ht).1
    split
    · have hslots := slotsWeight_append s.slots ⟨t, .pending⟩
      have hlength : (s.slots ++ [(⟨t, .pending⟩ : Slot)]).length = s.slots.length + 1 := List.length_append
      have hweight : (⟨t, .pending⟩ : Slot).future.weight = 2 := rfl
      have hsame : mainWeight c.tenants.length { s with slots := s.slots ++ [⟨t, .pending⟩] } =
          mainWeight c.tenants.length s := rfl
      unfold weight
      rw [hsame]
      simp only
      rw [hslots, hlength, hweight]
      omega
    · refine weight_main rfl rfl ?_
      rw [hbefore]
      exact Nat.succ_pos _

theorem onYield_weight (h : Inv c s) {i : ℕ} {slot : Slot} (hslot : s.slots[i]? = some slot) (hmain : s.main = .waiting)
    (hnot : i ∉ s.yielded) : weight c (onYield c i slot s) < weight c s := by
  have hroom : s.yielded.length < c.tenants.length :=
    Nat.lt_of_lt_of_le (h.yielded_length_lt (List.getElem?_eq_some_iff.mp hslot).1 hnot) h.length_le
  have hlength : (s.yielded ++ [i]).length = s.yielded.length + 1 := List.length_append
  have hbefore : mainWeight c.tenants.length s = (c.tenants.length - s.yielded.length) +
      (if s.stopped then 0 else c.tenants.length + 2) + c.tenants.length + 3 := by
    unfold mainWeight
    rw [hmain]
  -- to go on waiting takes one future off those that are left
  have hwaiting : ∀ runs, weight c { s with yielded := s.yielded ++ [i], runs := runs } < weight c s := by
    intro runs
    refine weight_main rfl rfl ?_
    have hafter : mainWeight c.tenants.length { s with yielded := s.yielded ++ [i], runs := runs } =
        (c.tenants.length - (s.yielded ++ [i]).length) +
          (if s.stopped then 0 else c.tenants.length + 2) + c.tenants.length + 3 := by
      unfold mainWeight
      simp only [hmain]
    rw [hbefore, hafter, hlength]
    omega
  unfold onYield
  split
  · exact hwaiting s.runs
  · rename_i run hrun
    split
    · rename_i hstop
      simp only [Bool.and_eq_true, Bool.not_eq_true'] at hstop
      refine weight_main rfl rfl ?_
      rw [hbefore, hstop.2]
      change (c.tenants.length - (s.yielded ++ [i]).length) + (c.tenants.length - 0) + c.tenants.length + 4 < _
      rw [hlength]
      simp only [Bool.false_eq_true, if_false]
      omega
    · exact hwaiting (s.runs ++ [run])

theorem cancel_weight (h : Inv c s) {i : ℕ} {slot : Slot} (hslot : s.slots[i]? = some slot)
    (hmain : s.main = .cancelling i) :
    weight c { s.setFuture i slot slot.future.cancel with main := .cancelling (i + 1) } < weight c s := by
  have hlt : i < c.tenants.length := Nat.lt_of_lt_of_le (List.getElem?_eq_some_iff.mp hslot).1 h.length_le
  have hset := slotsWeight_set { slot with future := slot.future.cancel } hslot
  change slotsWeight (s.setFuture i slot slot.future.cancel).slots + _ =
    slotsWeight s.slots + slot.future.cancel.weight at hset
  have hcancel := weight_cancel slot.future
  have hlength := setFuture_length s i slot slot.future.cancel
  have hbefore : mainWeight c.tenants.length s =
      (c.tenants.length - s.yielded.length) + (c.tenants.length - i) + c.tenants.length + 4 := by
    unfold mainWeight
    rw [hmain]
  have hafter : mainWeight c.tenants.length { s.setFuture i slot slot.future.cancel with main := .cancelling (i + 1) } =
      (c.tenants.length - s.yielded.length) + (c.tenants.length - (i + 1)) + c.tenants.length + 4 := rfl
  have hpool : (s.setFuture i slot slot.future.cancel).pool = s.pool := rfl
  unfold weight
  simp only
  rw [hlength, hafter, hbefore, hpool]
  omega

/-- **A step that changes anything makes the weight smaller.** -/
theorem step_weight (h : Inv c s) (e : Event) : step c s e = s ∨ weight c (step c s e) < weight c s := by
  cases e with
  | submit =>
    unfold step
    simp only
    split
    · rename_i hmain
      exact .inr (submit_weight h hmain)
    · exact .inl rfl
  | yield i =>
    unfold step
    simp only
    split
    · rename_i slot hslot
      split
      · rename_i hyield
        exact .inr (onYield_weight h hslot hyield.1 hyield.2.1)
      · exact .inl rfl
    · exact .inl rfl
  | exhaust =>
    unfold step
    simp only
    split
    · rename_i hexhaust
      right
      refine weight_main rfl rfl ?_
      have hbefore : c.tenants.length + 3 ≤ mainWeight c.tenants.length s := by
        unfold mainWeight
        rw [hexhaust.1]
        simp only
        omega
      change c.tenants.length - 0 + 1 < _
      omega
    · exact .inl rfl
  | cancel =>
    unfold step
    simp only
    split
    · rename_i i hmain
      right
      split
      · rename_i slot hslot
        exact cancel_weight h hslot hmain
      · refine weight_main rfl rfl ?_
        have hbefore : mainWeight c.tenants.length s =
            (c.tenants.length - s.yielded.length) + (c.tenants.length - i) + c.tenants.length + 4 := by
          unfold mainWeight
          rw [hmain]
        rw [hbefore]
        change (c.tenants.length - s.yielded.length) + (if s.stopped then 0 else c.tenants.length + 2) +
          c.tenants.length + 3 < _
        rw [if_pos (h.cancelling i hmain)]
        omega
    · exact .inl rfl
  | sweep =>
    unfold step
    simp only
    split
    · rename_i i hmain
      right
      have hbefore : mainWeight c.tenants.length s = c.tenants.length - i + 1 := by
        unfold mainWeight
        rw [hmain]
      split
      · rename_i slot hslot
        have hlt : i < c.tenants.length := Nat.lt_of_lt_of_le (List.getElem?_eq_some_iff.mp hslot).1 h.length_le
        refine weight_main rfl rfl ?_
        rw [hbefore]
        change c.tenants.length - (i + 1) + 1 < _
        omega
      · refine weight_main rfl rfl ?_
        rw [hbefore]
        exact Nat.succ_pos _
    · exact .inl rfl
  | start i =>
    unfold step
    simp only
    split
    · rename_i slot hslot
      split
      · rename_i hstart
        right
        have hset : weight c (s.setFuture i slot .running) < weight c s := by
          apply weight_setFuture hslot
          rw [hstart.2]
          exact Nat.one_lt_two
        exact hset
      · exact .inl rfl
    · exact .inl rfl
  | finish i r =>
    unfold step
    simp only
    split
    · rename_i slot hslot
      split
      · rename_i hfinish
        right
        apply weight_setFuture hslot
        rw [hfinish.2]
        exact Nat.one_pos
      · exact .inl rfl
    · exact .inl rfl
  | «break» why =>
    unfold step
    simp only
    split
    · rename_i hpool
      right
      have hmain : mainWeight c.tenants.length { s with pool := some why } = mainWeight c.tenants.length s := rfl
      unfold weight
      rw [hmain, if_pos hpool]
      simp only [reduceCtorEq, if_false]
      omega
    · exact .inl rfl
  | fail i =>
    unfold step
    simp only
    split
    · rename_i slot why hslot _
      split
      · rename_i hnot
        right
        apply weight_setFuture hslot
        exact weight_done hnot
      · exact .inl rfl
    · exact .inl rfl

/-- A run in which every step changes something is no longer than the weight at its start. -/
theorem length_le_weight (es : List Event) (s : State) (h : Inv c s)
    (hsteps : Along (step c) (fun s e => step c s e ≠ s) s es) : es.length ≤ weight c s := by
  induction es generalizing s with
  | nil => exact Nat.zero_le _
  | cons e es ih =>
    have hless : weight c (step c s e) < weight c s := (step_weight h e).resolve_left hsteps.1
    have hrest := ih (step c s e) (inv_step c s e h) hsteps.2
    rw [List.length_cons]
    omega

/-! ## Some step changes something -/

/-- A future that is not done goes on: the command of a worker ends, or the pool gives up. -/
theorem exists_future_step {i : ℕ} {slot : Slot} (hslot : s.slots[i]? = some slot) (hnot : slot.future.done = false) :
    ∃ e, step c s e ≠ s := by
  have hlt := (List.getElem?_eq_some_iff.mp hslot).1
  have hchanged : ∀ f, f ≠ slot.future → s.setFuture i slot f ≠ s := by
    intro f hf heq
    have hat := setFuture_at s i i slot f hlt
    rw [heq, if_pos rfl, hslot] at hat
    exact hf (congrArg Slot.future (Option.some.inj hat)).symm
  cases hpool : s.pool with
  | some why =>
    refine ⟨.fail i, ?_⟩
    have hstep : step c s (.fail i) = s.setFuture i slot (.broken why) := by
      unfold step
      simp only [hslot, hpool, hnot, if_true]
    rw [hstep]
    apply hchanged
    intro heq
    rw [← heq] at hnot
    cases hnot
  | none =>
    cases hfuture : slot.future with
    | pending =>
      refine ⟨.start i, ?_⟩
      have hstep : step c s (.start i) = { s.setFuture i slot .running with started := s.started ++ [i] } := by
        unfold step
        simp only [hslot, hpool, hfuture, and_self, if_true]
      rw [hstep]
      intro heq
      have hlength : (s.started ++ [i]).length = s.started.length := congrArg (fun t : State => t.started.length) heq
      rw [List.length_append, List.length_singleton] at hlength
      omega
    | running =>
      refine ⟨.finish i ⟨.returned, 0, "", ""⟩, ?_⟩
      have hstep : step c s (.finish i ⟨.returned, 0, "", ""⟩) = s.setFuture i slot (.finished ⟨.returned, 0, "", ""⟩) := by
        unfold step
        simp only [hslot, hpool, hfuture, and_self, if_true]
      rw [hstep]
      apply hchanged
      rw [hfuture]
      nofun
    | finished r =>
      rw [hfuture] at hnot
      cases hnot
    | broken why =>
      rw [hfuture] at hnot
      cases hnot
    | cancelled =>
      rw [hfuture] at hnot
      cases hnot

/-- **Until the command has ended, some step changes something.** -/
theorem exists_step (h : Inv c s) (hgoing : ¬ s.Ended) : ∃ e, step c s e ≠ s := by
  have hmoved : ∀ {t : State}, t.main ≠ s.main → t ≠ s := fun hne heq => hne (congrArg State.main heq)
  cases hmain : s.main with
  | submitting =>
    refine ⟨.submit, ?_⟩
    have hstep : step c s .submit = submit c s := if_pos hmain
    rw [hstep]
    unfold submit
    split
    · exact hmoved (by rw [hmain]; nofun)
    · rename_i t ht
      split
      · intro heq
        have hlength : (s.slots ++ [(⟨t, .pending⟩ : Slot)]).length = s.slots.length :=
          congrArg (fun t : State => t.slots.length) heq
        rw [List.length_append, List.length_singleton] at hlength
        omega
      · exact hmoved (by rw [hmain]; nofun)
  | waiting =>
    by_cases hall : s.yielded.length = s.slots.length
    · refine ⟨.exhaust, ?_⟩
      have hstep : step c s .exhaust = { s with main := .sweeping 0 } := if_pos ⟨hmain, hall⟩
      rw [hstep]
      exact hmoved (by rw [hmain]; nofun)
    · -- some future was not given yet
      have hleft : ∃ i, i < s.slots.length ∧ i ∉ s.yielded := by
        by_contra hno
        push Not at hno
        have hsub : (List.range s.slots.length).Subperm s.yielded :=
          List.subperm_of_subset List.nodup_range fun i hi => hno i (List.mem_range.mp hi)
        have hle := hsub.length_le
        have hle' := h.yielded_length_le
        rw [List.length_range] at hle
        omega
      obtain ⟨i, hlt, hfresh⟩ := hleft
      have hslot := List.getElem?_eq_getElem hlt
      cases hdone : (s.slots[i]).future.done with
      | false => exact exists_future_step hslot hdone
      | true =>
        refine ⟨.yield i, ?_⟩
        have hstep : step c s (.yield i) = onYield c i s.slots[i] s := by
          unfold step
          simp only [hslot]
          exact if_pos ⟨hmain, hfresh, hdone⟩
        rw [hstep]
        intro heq
        have hlonger : (onYield c i s.slots[i] s).yielded.length = s.yielded.length + 1 := by
          unfold onYield
          split
          · exact List.length_append
          · split
            · exact List.length_append
            · exact List.length_append
        rw [heq] at hlonger
        omega
  | cancelling i =>
    refine ⟨.cancel, ?_⟩
    unfold step
    simp only [hmain]
    split
    · apply hmoved
      rw [hmain]
      intro heq
      have hnext : i + 1 = i := Main.cancelling.inj heq
      omega
    · exact hmoved (by rw [hmain]; nofun)
  | sweeping i =>
    refine ⟨.sweep, ?_⟩
    unfold step
    simp only [hmain]
    split
    · apply hmoved
      rw [hmain]
      intro heq
      have hnext : i + 1 = i := Main.sweeping.inj heq
      omega
    · exact hmoved (by rw [hmain]; nofun)
  | finished => exact absurd (.inl hmain) hgoing
  | crashed why => exact absurd (.inr ⟨why, hmain⟩) hgoing

theorem exists_end (s : State) (h : Inv c s) : ∃ es, (run (step c) s es).Ended := by
  induction hweight : weight c s using Nat.strong_induction_on generalizing s with
  | _ n ih =>
    by_cases hended : s.Ended
    · exact ⟨[], hended⟩
    · obtain ⟨e, he⟩ := exists_step h hended
      have hless : weight c (step c s e) < n := by
        rw [← hweight]
        exact (step_weight h e).resolve_left he
      obtain ⟨es, hes⟩ := ih _ hless (step c s e) (inv_step c s e h) rfl
      exact ⟨e :: es, hes⟩

/-! ## The command -/

/-- **`run_for_all_tenants` reports every tenant once** exactly if none is listed twice and,
in this process, no command is interrupted, in workers, the pool was whole at each
submission. -/
theorem settles (c : Command) : Settles c where
  serially _ commands := reported_serially_iff commands
  ends := by
    intro _ es
    obtain ⟨es', hended⟩ := exists_end _ (inv_run c es)
    refine ⟨es', ?_⟩
    rw [run_append]
    exact hended
  bounded _ := ⟨weight c (.initial c), fun es hsteps => length_le_weight es _ (inv_initial c) hsteps⟩
  exactly hparallel _ hended := reported_iff hparallel hended

/-- Two tenants, and two workers. -/
def twoTenants : Command where
  name := "my_report"
  tenants := [⟨.number 1, "Acme"⟩, ⟨.number 2, "Globex"⟩]
  parallel := 2
  failFast := false
  json := false

/-- The worker of the first tenant fails to start before the second one is submitted: the
command ends, and no tenant is reported. -/
theorem broken_pool_reports_none :
    (run (step twoTenants) (.initial twoTenants) [.submit, .break "a child process terminated abruptly", .submit]).Ended ∧
      ¬ Reported twoTenants ((run (step twoTenants) (.initial twoTenants)
        [.submit, .break "a child process terminated abruptly", .submit]).outcome twoTenants) := by
  refine ⟨.inr ⟨_, rfl⟩, ?_⟩
  intro hreported
  have honce := hreported.once ⟨.number 1, "Acme"⟩ List.mem_cons_self
  exact absurd honce (by decide)

end ForAllTenants

end RlsTenants
