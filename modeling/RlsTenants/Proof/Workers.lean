import Mathlib.Data.List.Perm.Subperm
import Mathlib.Data.List.Range
import RlsTenants.Proof.TenantRuns

/-!
# Tenants that run in workers

* `Inv`: what every step keeps; the reports are those of the futures that `as_completed`
  gave, and then those of the last sweep.
* `uncrashed_step_iff`: a submission fails exactly if the pool is broken.
* **`reported_iff`**: at its end the command has reported every tenant once exactly if the
  pool was whole at each submission.
-/

namespace RlsTenants

namespace ForAllTenants

open Run

variable {c : Command} {s : State}

/-! ## Futures -/

/-- A worker took the future. -/
def Future.taken : Future → Bool
  | .pending => false
  | .cancelled => false
  | _ => true

/-- A future that is done is reported by the loop or by the sweep. -/
theorem Slot.once {slot : Slot} (h : slot.future.done = true) :
    (slot.report.toList ++ slot.sweep.toList).map TenantRun.of = [slot.tenant] := by
  rcases slot with ⟨t, f⟩
  cases f with
  | pending => cases h
  | running => cases h
  | finished r => rfl
  | broken why => rfl
  | cancelled => rfl

theorem Slot.report_of {slot : Slot} {run : TenantRun} (h : slot.report = some run) :
    run.of = slot.tenant ∧ run.status ≠ .skipped := by
  rcases slot with ⟨t, f⟩
  cases f with
  | pending => cases h
  | running => cases h
  | cancelled => cases h
  | finished r =>
    obtain rfl := Option.some.inj h
    exact ⟨rfl, runForTenant_not_skipped t true r⟩
  | broken why =>
    obtain rfl := Option.some.inj h
    exact ⟨rfl, nofun⟩

theorem Slot.sweep_eq {slot : Slot} {run : TenantRun} (h : slot.sweep = some run) :
    slot.future = .cancelled ∧ run = skippedRun slot.tenant := by
  unfold Slot.sweep at h
  split at h
  · rename_i hcancelled
    exact ⟨hcancelled, (Option.some.inj h).symm⟩
  · cases h

theorem Slot.report_isSome {slot : Slot} (h : slot.future.taken = true) (hdone : slot.future.done = true) :
    ∃ run, slot.report = some run := by
  rcases slot with ⟨t, f⟩
  cases f with
  | pending => cases h
  | running => cases hdone
  | cancelled => cases h
  | finished r => exact ⟨_, rfl⟩
  | broken why => exact ⟨_, rfl⟩

theorem Future.cancel_eq {f : Future} (h : f ≠ .pending) : f.cancel = f := by
  cases f with
  | pending => exact absurd rfl h
  | _ => rfl

/-! ## The invariant -/

/-- What the loop over the futures has reported. -/
def State.looped (s : State) : List TenantRun := s.yielded.filterMap fun i => s.slots[i]?.bind Slot.report

/-- How far the last sweep has come. -/
def State.sweptTo (s : State) : ℕ :=
  match s.main with
  | .sweeping i => i
  | .finished => s.slots.length
  | _ => 0

def State.swept (s : State) : List TenantRun := (s.slots.take s.sweptTo).filterMap Slot.sweep

/-- The last sweep has begun. -/
def Main.last : Main → Bool
  | .sweeping _ => true
  | .finished => true
  | _ => false

/-- Tenants are being submitted, or a submission has failed. -/
def Main.first : Main → Bool
  | .submitting => true
  | .crashed _ => true
  | _ => false

/-- **What every step keeps.** -/
structure Inv (c : Command) (s : State) : Prop where
  tenants : s.slots.map Slot.tenant = c.tenants.take s.slots.length
  full : s.main.first = false → s.slots.length = c.tenants.length
  begun : s.main.first = true → s.yielded = [] ∧ s.stopped = false
  started : ∀ i ∈ s.started, ∃ slot, s.slots[i]? = some slot ∧ slot.future.taken = true
  nodup : s.yielded.Nodup
  yielded : ∀ i ∈ s.yielded, ∃ slot, s.slots[i]? = some slot ∧ slot.future.done = true
  runs : s.runs = s.looped ++ s.swept
  last : s.main.last = true → s.yielded.length = s.slots.length
  cancelled : ∀ slot ∈ s.slots, slot.future = .cancelled → s.stopped = true
  cancelling : ∀ i, s.main = .cancelling i → s.stopped = true
  stopped : s.stopped = true → c.failFast = true ∧ ∃ run ∈ s.looped, run.status = .failed

theorem inv_initial (c : Command) : Inv c (.initial c) := by
  have hlooped : (State.initial c).looped = [] := rfl
  have hswept : (State.initial c).swept = [] := by
    change List.filterMap Slot.sweep (List.take _ []) = []
    rw [List.take_nil]
    rfl
  refine ⟨rfl, ?_, fun _ => ⟨rfl, rfl⟩, by simp [State.initial], List.nodup_nil, by simp [State.initial], ?_, ?_, ?_, ?_, ?_⟩
  · intro hfirst
    change 0 = c.tenants.length
    by_cases hnone : c.tenants = []
    · rw [hnone]
      rfl
    · change (if c.tenants = [] then Main.finished else Main.submitting).first = false at hfirst
      rw [if_neg hnone] at hfirst
      cases hfirst
  · rw [hlooped, hswept]
    rfl
  · exact fun _ => rfl
  · intro slot hslot
    cases hslot
  · intro i hmain
    change (if c.tenants = [] then Main.finished else Main.submitting) = .cancelling i at hmain
    split at hmain
    · cases hmain
    · cases hmain
  · intro hstopped
    cases hstopped

namespace Inv

variable (h : Inv c s)

include h

theorem length_le : s.slots.length ≤ c.tenants.length := by
  have hlength := congrArg List.length h.tenants
  rw [List.length_map, List.length_take] at hlength
  omega

theorem yielded_lt {i : ℕ} (hi : i ∈ s.yielded) : i < s.slots.length := by
  obtain ⟨slot, hslot, -⟩ := h.yielded i hi
  exact (List.getElem?_eq_some_iff.mp hslot).1

theorem tenant_at {i : ℕ} {slot : Slot} (hslot : s.slots[i]? = some slot) : c.tenants[i]? = some slot.tenant := by
  have hlt := (List.getElem?_eq_some_iff.mp hslot).1
  have hmap : (s.slots.map Slot.tenant)[i]? = some slot.tenant := by
    rw [List.getElem?_map, hslot]
    rfl
  rw [h.tenants, List.getElem?_take_of_lt hlt] at hmap
  exact hmap

/-- `as_completed` gives each future once. -/
theorem yielded_subperm : s.yielded.Subperm (List.range s.slots.length) := by
  apply List.subperm_of_subset h.nodup
  intro i hi
  exact List.mem_range.mpr (h.yielded_lt hi)

theorem yielded_length_le : s.yielded.length ≤ s.slots.length := by
  have hle := h.yielded_subperm.length_le
  rwa [List.length_range] at hle

/-- A future that was not given yet leaves room. -/
theorem yielded_length_lt {i : ℕ} (hi : i < s.slots.length) (hnot : i ∉ s.yielded) :
    s.yielded.length < s.slots.length := by
  have hsub : (i :: s.yielded).Subperm (List.range s.slots.length) := by
    apply List.subperm_of_subset (List.nodup_cons.mpr ⟨hnot, h.nodup⟩)
    intro j hj
    rcases List.mem_cons.mp hj with rfl | hj
    · exact List.mem_range.mpr hi
    · exact List.mem_range.mpr (h.yielded_lt hj)
  have hle := hsub.length_le
  rw [List.length_range, List.length_cons] at hle
  omega

/-- In the last sweep, all futures were given. -/
theorem yielded_perm (hlast : s.main.last = true) : s.yielded.Perm (List.range s.slots.length) := by
  apply h.yielded_subperm.perm_of_length_le
  rw [List.length_range, h.last hlast]

theorem all_done (hlast : s.main.last = true) {i : ℕ} {slot : Slot} (hslot : s.slots[i]? = some slot) :
    slot.future.done = true := by
  have hlt := (List.getElem?_eq_some_iff.mp hslot).1
  have hmem : i ∈ s.yielded := (h.yielded_perm hlast).mem_iff.mpr (List.mem_range.mpr hlt)
  obtain ⟨slot', hslot', hdone⟩ := h.yielded i hmem
  rw [hslot] at hslot'
  obtain rfl := Option.some.inj hslot'
  exact hdone

end Inv

/-! ## Steps of the futures -/

@[simp] theorem setFuture_main (s : State) (i : ℕ) (slot : Slot) (f : Future) : (s.setFuture i slot f).main = s.main := rfl

@[simp] theorem setFuture_yielded (s : State) (i : ℕ) (slot : Slot) (f : Future) :
    (s.setFuture i slot f).yielded = s.yielded := rfl

theorem setFuture_length (s : State) (i : ℕ) (slot : Slot) (f : Future) :
    (s.setFuture i slot f).slots.length = s.slots.length := List.length_set

theorem setFuture_at (s : State) (i j : ℕ) (slot : Slot) (f : Future) (hlt : i < s.slots.length) :
    (s.setFuture i slot f).slots[j]? = if i = j then some { slot with future := f } else s.slots[j]? := by
  change (s.slots.set i _)[j]? = _
  by_cases hij : i = j
  · subst hij
    rw [if_pos rfl, List.getElem?_set_self hlt]
  · rw [if_neg hij, List.getElem?_set_ne hij]

/-- A future that is not done changes; no report changes. -/
theorem Inv.setFuture (h : Inv c s) {i : ℕ} {slot : Slot} {f : Future} (hslot : s.slots[i]? = some slot)
    (hnot : slot.future.done = false) (htaken : slot.future.taken = true → f.taken = true)
    (hcancelled : f = .cancelled → s.stopped = true) : Inv c (s.setFuture i slot f) := by
  have hlt := (List.getElem?_eq_some_iff.mp hslot).1
  have hlast : s.main.last = false := by
    by_contra hlast
    rw [h.all_done (by simpa using hlast) hslot] at hnot
    cases hnot
  have hfresh : i ∉ s.yielded := by
    intro hi
    obtain ⟨slot', hslot', hdone⟩ := h.yielded i hi
    rw [hslot] at hslot'
    obtain rfl := Option.some.inj hslot'
    rw [hdone] at hnot
    cases hnot
  have hlooped : (s.setFuture i slot f).looped = s.looped := by
    apply List.filterMap_congr
    intro j hj
    have hne : i ≠ j := fun heq => hfresh (heq ▸ hj)
    rw [setFuture_at s i j slot f hlt, if_neg hne]
  have hsweptTo : s.sweptTo = 0 ∧ (s.setFuture i slot f).sweptTo = 0 := by
    unfold State.sweptTo
    rw [setFuture_main]
    cases hmain : s.main with
    | sweeping j =>
      rw [hmain] at hlast
      cases hlast
    | finished =>
      rw [hmain] at hlast
      cases hlast
    | _ => exact ⟨rfl, rfl⟩
  have hswept : (s.setFuture i slot f).swept = s.swept := by
    unfold State.swept
    rw [hsweptTo.1, hsweptTo.2]
    rfl
  refine ⟨?_, ?_, h.begun, ?_, h.nodup, ?_, ?_, ?_, ?_, h.cancelling, ?_⟩
  · rw [setFuture_length, ← h.tenants]
    apply List.ext_getElem?
    intro j
    rw [List.getElem?_map, List.getElem?_map, setFuture_at s i j slot f hlt]
    by_cases hij : i = j
    · subst hij
      rw [if_pos rfl, hslot]
      rfl
    · rw [if_neg hij]
  · intro hfirst
    rw [setFuture_length]
    exact h.full hfirst
  · intro j hj
    obtain ⟨slot', hslot', htaken'⟩ := h.started j hj
    rw [setFuture_at s i j slot f hlt]
    by_cases hij : i = j
    · subst hij
      rw [hslot] at hslot'
      obtain rfl := Option.some.inj hslot'
      rw [if_pos rfl]
      exact ⟨_, rfl, htaken htaken'⟩
    · rw [if_neg hij]
      exact ⟨slot', hslot', htaken'⟩
  · intro j hj
    have hne : i ≠ j := fun heq => hfresh (heq ▸ hj)
    rw [setFuture_at s i j slot f hlt, if_neg hne]
    exact h.yielded j hj
  · rw [hlooped, hswept]
    exact h.runs
  · intro hlast'
    rw [setFuture_main, hlast] at hlast'
    cases hlast'
  · intro slot' hslot' hcancel
    rcases List.mem_or_eq_of_mem_set hslot' with hmem | rfl
    · exact h.cancelled slot' hmem hcancel
    · exact hcancelled hcancel
  · intro hstopped
    rw [hlooped]
    exact h.stopped hstopped

/-! ## Steps of the main process -/

theorem swept_eq_nil (h : s.main.last = false) : s.swept = [] := by
  unfold State.swept State.sweptTo
  cases hmain : s.main with
  | sweeping i =>
    rw [hmain] at h
    cases h
  | finished =>
    rw [hmain] at h
    cases h
  | _ => rfl

/-- The main process goes on to something else, and reports nothing. -/
theorem Inv.moved (h : Inv c s) (m : Main) (hfull : m.first = false → s.slots.length = c.tenants.length)
    (hbegun : m.first = true → s.yielded = [] ∧ s.stopped = false)
    (hswept : ({ s with main := m } : State).swept = s.swept)
    (hlast : m.last = true → s.yielded.length = s.slots.length) (hcancelling : ∀ i, m = .cancelling i → s.stopped = true) :
    Inv c { s with main := m } := by
  refine ⟨h.tenants, hfull, hbegun, h.started, h.nodup, h.yielded, ?_, hlast, h.cancelled, hcancelling, h.stopped⟩
  rw [hswept]
  exact h.runs

theorem Inv.submit (h : Inv c s) (hmain : s.main = .submitting) : Inv c (submit c s) := by
  have hfirst : s.main.first = true := by
    rw [hmain]
    rfl
  have hbegun := h.begun hfirst
  have hswept : s.swept = [] := by
    apply swept_eq_nil
    rw [hmain]
    rfl
  unfold ForAllTenants.submit
  split
  · rename_i ht
    have hle : c.tenants.length ≤ s.slots.length := List.getElem?_eq_none_iff.mp ht
    exact h.moved .waiting (fun _ => Nat.le_antisymm h.length_le hle) nofun (by rw [hswept]; rfl) nofun nofun
  · rename_i t ht
    split
    · have hlt := (List.getElem?_eq_some_iff.mp ht).1
      have hlooped : s.looped = [] := by
        unfold State.looped
        rw [hbegun.1]
        rfl
      refine ⟨?_, ?_, fun _ => hbegun, ?_, h.nodup, ?_, ?_, ?_, ?_, ?_, ?_⟩
      · have hlength : ∀ slot : Slot, (s.slots ++ [slot]).length = s.slots.length + 1 := fun _ => List.length_append
        simp only
        rw [hlength, List.map_append, h.tenants, List.take_add_one, ht]
        rfl
      · intro hnot
        change s.main.first = false at hnot
        rw [hfirst] at hnot
        cases hnot
      · intro i hi
        obtain ⟨slot, hslot, htaken⟩ := h.started i hi
        refine ⟨slot, ?_, htaken⟩
        exact (List.getElem?_append_left (List.getElem?_eq_some_iff.mp hslot).1).trans hslot
      · intro i hi
        change i ∈ s.yielded at hi
        rw [hbegun.1] at hi
        cases hi
      · change s.runs = List.filterMap _ s.yielded ++ State.swept _
        rw [h.runs, hlooped, hswept, hbegun.1, swept_eq_nil]
        · rfl
        · change s.main.last = false
          rw [hmain]
          rfl
      · intro hlast
        change s.main.last = true at hlast
        rw [hmain] at hlast
        cases hlast
      · intro slot hslot hcancelled
        rcases List.mem_append.mp hslot with hslot | hslot
        · exact h.cancelled slot hslot hcancelled
        · obtain rfl := List.mem_singleton.mp hslot
          cases hcancelled
      · exact h.cancelling
      · intro hstopped
        change s.stopped = true at hstopped
        rw [hbegun.2] at hstopped
        cases hstopped
    · exact h.moved (.crashed _) nofun (fun _ => hbegun) (by rw [hswept]; rfl) nofun nofun

/-- The reports of the loop, with one future more. -/
theorem looped_append (s : State) (l : List ℕ) (i : ℕ) :
    (l ++ [i]).filterMap (fun j => s.slots[j]?.bind Slot.report) =
      l.filterMap (fun j => s.slots[j]?.bind Slot.report) ++ (s.slots[i]?.bind Slot.report).toList := by
  rw [List.filterMap_append]
  congr 1

theorem Inv.onYield (h : Inv c s) {i : ℕ} {slot : Slot} (hslot : s.slots[i]? = some slot) (hmain : s.main = .waiting)
    (hnot : i ∉ s.yielded) (hdone : slot.future.done = true) : Inv c (onYield c i slot s) := by
  have hlast : s.main.last = false := by
    rw [hmain]
    rfl
  have hfull : s.slots.length = c.tenants.length := by
    apply h.full
    rw [hmain]
    rfl
  have hnodup : (s.yielded ++ [i]).Nodup := by
    rw [List.nodup_append_comm]
    exact List.nodup_cons.mpr ⟨hnot, h.nodup⟩
  have hyielded : ∀ j ∈ s.yielded ++ [i], ∃ slot, s.slots[j]? = some slot ∧ slot.future.done = true := by
    intro j hj
    rcases List.mem_append.mp hj with hj | hj
    · exact h.yielded j hj
    · obtain rfl := List.mem_singleton.mp hj
      exact ⟨slot, hslot, hdone⟩
  have hlooped : (s.yielded ++ [i]).filterMap (fun j => s.slots[j]?.bind Slot.report) = s.looped ++ slot.report.toList := by
    rw [looped_append, hslot]
    rfl
  have hruns : s.runs = s.looped := by
    rw [h.runs, swept_eq_nil hlast, List.append_nil]
  -- whatever the main process does next, the reports are those of the futures it was given
  have hstate : ∀ (m : Main) (stopped : Bool), (m = .waiting ∨ m = .cancelling 0) → (m = .cancelling 0 → stopped = true) →
      (s.stopped = true → stopped = true) →
      (stopped = true → c.failFast = true ∧ ∃ run ∈ s.looped ++ slot.report.toList, run.status = .failed) →
      Inv c { s with yielded := s.yielded ++ [i], runs := s.runs ++ slot.report.toList, stopped := stopped, main := m } := by
    intro m stopped hm hcancelling hkeeps hstopped
    have hfirst : m.first = false ∧ m.last = false := by
      rcases hm with rfl | rfl
      · exact ⟨rfl, rfl⟩
      · exact ⟨rfl, rfl⟩
    refine ⟨h.tenants, fun _ => hfull, ?_, h.started, hnodup, hyielded, ?_, ?_, ?_, ?_, ?_⟩
    · intro hno
      change m.first = true at hno
      rw [hfirst.1] at hno
      cases hno
    · rw [swept_eq_nil hfirst.2, List.append_nil, hruns]
      exact hlooped.symm
    · intro hno
      change m.last = true at hno
      rw [hfirst.2] at hno
      cases hno
    · exact fun slot' hslot' hcancelled => hkeeps (h.cancelled slot' hslot' hcancelled)
    · intro j hj
      change m = .cancelling j at hj
      rcases hm with rfl | rfl
      · cases hj
      · exact hcancelling rfl
    · intro hyes
      have hlooped' := hstopped hyes
      rwa [← hlooped] at hlooped'
  have hbefore : s.stopped = true → c.failFast = true ∧ ∃ run ∈ s.looped ++ slot.report.toList, run.status = .failed := by
    intro hstopped
    obtain ⟨hfast, run, hrun, hfailed⟩ := h.stopped hstopped
    exact ⟨hfast, run, List.mem_append_left _ hrun, hfailed⟩
  have hgo := hstate s.main s.stopped (.inl hmain) (by rw [hmain]; nofun) id hbefore
  unfold ForAllTenants.onYield
  cases hreport : slot.report with
  | none =>
    rw [hreport] at hgo
    simpa using hgo
  | some run =>
    rw [hreport] at hgo
    simp only
    split
    · rename_i hstop
      simp only [Bool.and_eq_true, decide_eq_true_eq] at hstop
      obtain ⟨⟨hfailed, hfast⟩, -⟩ := hstop
      have hmem : run ∈ s.looped ++ slot.report.toList := by
        rw [hreport]
        exact List.mem_append_right _ (List.mem_singleton.mpr rfl)
      have hnext := hstate (.cancelling 0) true (.inr rfl) (fun _ => rfl) (fun _ => rfl)
        fun _ => ⟨hfast, run, hmem, hfailed⟩
      rw [hreport] at hnext
      exact hnext
    · exact hgo

theorem Inv.cancel (h : Inv c s) {i : ℕ} {slot : Slot} (hslot : s.slots[i]? = some slot) (hmain : s.main = .cancelling i) :
    Inv c { s.setFuture i slot slot.future.cancel with main := .cancelling (i + 1) } := by
  have hstopped := h.cancelling i hmain
  have hlast : s.main.last = false := by
    rw [hmain]
    rfl
  have hfull : s.slots.length = c.tenants.length := by
    apply h.full
    rw [hmain]
    rfl
  have hset : Inv c (s.setFuture i slot slot.future.cancel) := by
    by_cases hpending : slot.future = .pending
    · apply h.setFuture hslot
      · rw [hpending]
        rfl
      · rw [hpending]
        nofun
      · exact fun _ => hstopped
    · -- a future that runs or is done stays as it is
      rw [Future.cancel_eq hpending]
      have hsame : s.setFuture i slot slot.future = s := by
        unfold State.setFuture
        obtain ⟨hlt, hat⟩ := List.getElem?_eq_some_iff.mp hslot
        have hslots : s.slots.set i slot = s.slots := by
          rw [← hat]
          exact List.set_getElem_self hlt
        exact congrArg (fun slots => { s with slots := slots }) hslots
      rw [hsame]
      exact h
  apply hset.moved (.cancelling (i + 1))
  · intro _
    rw [setFuture_length]
    exact hfull
  · nofun
  · rw [swept_eq_nil (s := s.setFuture i slot slot.future.cancel) hlast]
    rfl
  · nofun
  · exact fun _ _ => hstopped

theorem Inv.sweep (h : Inv c s) {i : ℕ} {slot : Slot} (hslot : s.slots[i]? = some slot) (hmain : s.main = .sweeping i) :
    Inv c { s with runs := s.runs ++ slot.sweep.toList, main := .sweeping (i + 1) } := by
  have hlast : s.main.last = true := by
    rw [hmain]
    rfl
  have hfull : s.slots.length = c.tenants.length := by
    apply h.full
    rw [hmain]
    rfl
  refine ⟨h.tenants, fun _ => hfull, nofun, h.started, h.nodup, h.yielded, ?_, fun _ => h.last hlast, h.cancelled, nofun,
    h.stopped⟩
  have hswept : s.swept = (s.slots.take i).filterMap Slot.sweep := by
    unfold State.swept State.sweptTo
    rw [hmain]
  have hnext : (s.slots.take (i + 1)).filterMap Slot.sweep = s.swept ++ slot.sweep.toList := by
    rw [hswept, List.take_add_one, hslot, List.filterMap_append]
    congr 1
  change s.runs ++ slot.sweep.toList = s.looped ++ (s.slots.take (i + 1)).filterMap Slot.sweep
  rw [hnext, h.runs, List.append_assoc]

/-- **Every step keeps the invariant.** -/
theorem inv_step (c : Command) (s : State) (e : Event) (h : Inv c s) : Inv c (step c s e) := by
  cases e with
  | submit =>
    unfold step
    simp only
    split
    · rename_i hmain
      exact h.submit hmain
    · exact h
  | yield i =>
    unfold step
    simp only
    split
    · rename_i slot hslot
      split
      · rename_i hyield
        exact h.onYield hslot hyield.1 hyield.2.1 hyield.2.2
      · exact h
    · exact h
  | exhaust =>
    unfold step
    simp only
    split
    · rename_i hexhaust
      have hfull : s.slots.length = c.tenants.length := by
        apply h.full
        rw [hexhaust.1]
        rfl
      have hswept : s.swept = [] := by
        apply swept_eq_nil
        rw [hexhaust.1]
        rfl
      apply h.moved (.sweeping 0) (fun _ => hfull) nofun _ (fun _ => hexhaust.2) nofun
      rw [hswept]
      rfl
    · exact h
  | cancel =>
    unfold step
    simp only
    split
    · rename_i i hmain
      split
      · rename_i slot hslot
        exact h.cancel hslot hmain
      · have hfull : s.slots.length = c.tenants.length := by
          apply h.full
          rw [hmain]
          rfl
        apply h.moved .waiting (fun _ => hfull) nofun _ nofun nofun
        rw [swept_eq_nil (s := s)]
        · rfl
        · rw [hmain]
          rfl
    · exact h
  | sweep =>
    unfold step
    simp only
    split
    · rename_i i hmain
      split
      · rename_i slot hslot
        exact h.sweep hslot hmain
      · rename_i hend
        have hlast : s.main.last = true := by
          rw [hmain]
          rfl
        have hfull : s.slots.length = c.tenants.length := by
          apply h.full
          rw [hmain]
          rfl
        apply h.moved .finished (fun _ => hfull) nofun _ (fun _ => h.last hlast) nofun
        have hle : s.slots.length ≤ i := List.getElem?_eq_none_iff.mp hend
        have hswept : s.swept = (s.slots.take i).filterMap Slot.sweep := by
          unfold State.swept State.sweptTo
          rw [hmain]
        rw [hswept, List.take_of_length_le hle]
        change (s.slots.take s.slots.length).filterMap Slot.sweep = _
        rw [List.take_length]
    · exact h
  | start i =>
    unfold step
    simp only
    split
    · rename_i slot hslot
      split
      · rename_i hstart
        have hset : Inv c (s.setFuture i slot .running) :=
          h.setFuture hslot (by rw [hstart.2]; rfl) (fun _ => rfl) nofun
        have hlt := (List.getElem?_eq_some_iff.mp hslot).1
        refine ⟨hset.tenants, hset.full, hset.begun, ?_, hset.nodup, hset.yielded, hset.runs, hset.last, hset.cancelled,
          hset.cancelling, hset.stopped⟩
        intro j hj
        rcases List.mem_append.mp hj with hj | hj
        · exact hset.started j hj
        · obtain rfl := List.mem_singleton.mp hj
          refine ⟨{ slot with future := .running }, ?_, rfl⟩
          have hat := setFuture_at s j j slot .running hlt
          rwa [if_pos rfl] at hat
      · exact h
    · exact h
  | finish i r =>
    unfold step
    simp only
    split
    · rename_i slot hslot
      split
      · rename_i hfinish
        exact h.setFuture hslot (by rw [hfinish.2]; rfl) (fun _ => rfl) nofun
      · exact h
    · exact h
  | «break» why =>
    unfold step
    simp only
    split
    · exact ⟨h.tenants, h.full, h.begun, h.started, h.nodup, h.yielded, h.runs, h.last, h.cancelled, h.cancelling, h.stopped⟩
    · exact h
  | fail i =>
    unfold step
    simp only
    split
    · rename_i slot why hslot hpool
      split
      · rename_i hnot
        exact h.setFuture hslot hnot (fun _ => rfl) nofun
      · exact h
    · exact h

theorem inv_run (c : Command) (es : List Event) : Inv c (run (step c) (.initial c) es) :=
  run_keeps (inv_step c) (inv_initial c) es

/-! ## Submissions -/

/-- Nothing but a submission leaves the first phase. -/
theorem step_first (c : Command) (s : State) {e : Event} (he : e ≠ .submit) :
    (step c s e).main = s.main ∨ ((step c s e).main.first = false ∧ s.main.first = false) := by
  cases e with
  | submit => exact absurd rfl he
  | yield i =>
    unfold step
    simp only
    split
    · split
      · rename_i hyield
        right
        unfold onYield
        rw [hyield.1]
        split
        · exact ⟨rfl, rfl⟩
        · split
          · exact ⟨rfl, rfl⟩
          · exact ⟨rfl, rfl⟩
      · exact .inl rfl
    · exact .inl rfl
  | exhaust =>
    unfold step
    simp only
    split
    · rename_i hexhaust
      right
      rw [hexhaust.1]
      exact ⟨rfl, rfl⟩
    · exact .inl rfl
  | cancel =>
    unfold step
    simp only
    split
    · rename_i hmain
      right
      rw [hmain]
      split
      · exact ⟨rfl, rfl⟩
      · exact ⟨rfl, rfl⟩
    · exact .inl rfl
  | sweep =>
    unfold step
    simp only
    split
    · rename_i hmain
      right
      rw [hmain]
      split
      · exact ⟨rfl, rfl⟩
      · exact ⟨rfl, rfl⟩
    · exact .inl rfl
  | start i =>
    left
    unfold step
    simp only
    split
    · split
      · rfl
      · rfl
    · rfl
  | finish i r =>
    left
    unfold step
    simp only
    split
    · split
      · rfl
      · rfl
    · rfl
  | «break» why =>
    left
    unfold step
    simp only
    split
    · rfl
    · rfl
  | fail i =>
    left
    unfold step
    simp only
    split
    · split
      · rfl
      · rfl
    · rfl

/-- No submission has failed. -/
def State.Uncrashed (s : State) : Prop := ∀ why, s.main ≠ .crashed why

theorem step_submit (c : Command) (s : State) (hmain : s.main ≠ .submitting) : step c s .submit = s := if_neg hmain

/-- A failed submission is the end. -/
theorem crashed_step (c : Command) (s : State) (e : Event) (h : ¬ s.Uncrashed) : ¬ (step c s e).Uncrashed := by
  have hcrashed : ∃ why, s.main = .crashed why := by
    unfold State.Uncrashed at h
    push Not at h
    exact h
  obtain ⟨why, hmain⟩ := hcrashed
  intro huncrashed
  by_cases he : e = .submit
  · have hsame := step_submit c s (by rw [hmain]; nofun)
    rw [he, hsame] at huncrashed
    exact huncrashed why hmain
  · rcases step_first c s he with hsame | ⟨-, hfirst⟩
    · exact huncrashed why (hsame.trans hmain)
    · rw [hmain] at hfirst
      cases hfirst

/-- **A submission fails exactly if the pool is broken.** -/
theorem uncrashed_step_iff (s : State) (e : Event) (hs : s.Uncrashed) : (step c s e).Uncrashed ↔ PoolWhole c s e := by
  by_cases he : e = .submit
  · subst he
    by_cases hmain : s.main = .submitting
    · have hstep : step c s .submit = submit c s := if_pos hmain
      rw [hstep]
      unfold submit PoolWhole
      cases ht : c.tenants[s.slots.length]? with
      | none =>
        have hle := List.getElem?_eq_none_iff.mp ht
        constructor
        · intro _ _ _ hlt
          omega
        · intro _
          nofun
      | some t =>
        have hlt := (List.getElem?_eq_some_iff.mp ht).1
        cases hpool : s.pool with
        | none =>
          constructor
          · exact fun _ _ _ _ => rfl
          · exact fun _ => hs
        | some why =>
          constructor
          · exact fun h => absurd rfl (h why)
          · intro h
            cases h rfl hmain hlt
    · rw [step_submit c s hmain]
      exact ⟨fun _ _ h => absurd h hmain, fun _ => hs⟩
  · constructor
    · exact fun _ h => absurd h he
    · intro _ why hwhy
      rcases step_first c s he with hsame | ⟨hfirst, -⟩
      · exact hs why (hsame.symm.trans hwhy)
      · rw [hwhy] at hfirst
        cases hfirst

/-- If no submission has failed at the end, none has failed before. -/
theorem always_uncrashed (es : List Event) (s : State) (h : (run (step c) s es).Uncrashed) :
    Always (step c) State.Uncrashed s es := by
  have hbefore : ∀ (es : List Event) (s : State), (run (step c) s es).Uncrashed → s.Uncrashed := by
    intro es s h
    by_contra hcrashed
    exact run_keeps (crashed_step c) hcrashed es h
  induction es generalizing s with
  | nil => exact h
  | cons e es ih => exact ⟨hbefore (e :: es) s h, ih (step c s e) h⟩

theorem uncrashed_iff_along (es : List Event) :
    (run (step c) (.initial c) es).Uncrashed ↔ Along (step c) (PoolWhole c) (.initial c) es := by
  have hstart : (State.initial c).Uncrashed := by
    intro why
    change (if c.tenants = [] then Main.finished else Main.submitting) ≠ .crashed why
    split
    · nofun
    · nofun
  have hexact : Always (step c) State.Uncrashed (.initial c) es ↔ Along (step c) (PoolWhole c) (.initial c) es :=
    always_iff_along (I := fun _ => True) (fun _ _ _ => trivial) (fun s e _ hs => uncrashed_step_iff s e hs) trivial hstart
  rw [← hexact]
  exact ⟨always_uncrashed es _, Always.last⟩

/-! ## The reports at the end -/

theorem range_filterMap {α β : Type} (f : α → Option β) (l : List α) :
    (List.range l.length).filterMap (fun i => l[i]?.bind f) = l.filterMap f := by
  induction l using List.reverseRecOn with
  | nil => rfl
  | append_singleton l a ih =>
    have hlength : (l ++ [a]).length = l.length + 1 := List.length_append
    have hbefore : (List.range l.length).filterMap (fun i => (l ++ [a])[i]?.bind f) =
        (List.range l.length).filterMap (fun i => l[i]?.bind f) := by
      apply List.filterMap_congr
      intro i hi
      rw [List.getElem?_append_left (List.mem_range.mp hi)]
    rw [hlength, List.range_succ, List.filterMap_append, List.filterMap_append, hbefore, ih]
    congr 1
    have hat : (l ++ [a])[l.length]? = some a := by simp
    rw [List.filterMap_cons, hat]
    rfl

/-- Each future that is done is reported once, by the loop or by the sweep. -/
theorem reports_perm (l : List Slot) (h : ∀ slot ∈ l, slot.future.done = true) :
    ((l.filterMap Slot.report).map TenantRun.of ++ (l.filterMap Slot.sweep).map TenantRun.of).Perm (l.map Slot.tenant) := by
  induction l with
  | nil => exact .refl _
  | cons slot l ih =>
    have hrest := ih fun slot' hslot' => h slot' (List.mem_cons_of_mem _ hslot')
    have honce := Slot.once (h slot List.mem_cons_self)
    rw [List.map_cons]
    cases hreport : slot.report with
    | none =>
      rw [hreport] at honce
      cases hsweep : slot.sweep with
      | none =>
        rw [hsweep] at honce
        cases honce
      | some run =>
        rw [hsweep] at honce
        have hof : run.of = slot.tenant := (List.cons.inj honce).1
        rw [List.filterMap_cons, hreport, List.filterMap_cons, hsweep]
        simp only [List.map_cons, hof]
        exact List.perm_middle.trans (hrest.cons _)
    | some run =>
      rw [hreport] at honce
      cases hsweep : slot.sweep with
      | none =>
        rw [hsweep] at honce
        have hof : run.of = slot.tenant := (List.cons.inj honce).1
        rw [List.filterMap_cons, hreport, List.filterMap_cons, hsweep]
        simp only [List.map_cons, hof, List.cons_append]
        exact hrest.cons _
      | some run' =>
        rw [hsweep] at honce
        cases (List.cons.inj honce).2

/-- What is not in the first of two lists comes after it. -/
theorem after_of_not_mem {α : Type} {a b x y : List α} {r : α} (h : a ++ b = x ++ r :: y) (hr : r ∉ a) :
    (∃ z, x = a ++ z) ∧ r ∈ b := by
  rcases List.append_eq_append_iff.mp h with ⟨z, rfl, hb⟩ | ⟨z, rfl, hz⟩
  · refine ⟨⟨z, rfl⟩, ?_⟩
    rw [hb]
    exact List.mem_append_right _ List.mem_cons_self
  · cases z with
    | nil =>
      refine ⟨⟨[], by simp⟩, ?_⟩
      rw [List.nil_append] at hz
      rw [← hz]
      exact List.mem_cons_self
    | cons r' z =>
      obtain ⟨rfl, -⟩ := List.cons.inj hz
      exact absurd (List.mem_append_right _ List.mem_cons_self) hr

theorem last_of_finished (hmain : s.main = .finished) : s.main.last = true := by
  rw [hmain]
  rfl

theorem swept_of_finished (hmain : s.main = .finished) : s.swept = s.slots.filterMap Slot.sweep := by
  unfold State.swept State.sweptTo
  rw [hmain]
  exact congrArg _ (List.take_length ..)

section Finished

variable (h : Inv c s) (hmain : s.main = .finished)

include h hmain

theorem Inv.looped_perm : s.looped.Perm (s.slots.filterMap Slot.report) := by
  rw [← range_filterMap]
  exact (h.yielded_perm (last_of_finished hmain)).filterMap _

/-- A command that finishes has one report for each future. -/
theorem Inv.runs_perm : (s.runs.map TenantRun.of).Perm c.tenants := by
  have hfull : s.slots.length = c.tenants.length := by
    apply h.full
    rw [hmain]
    rfl
  have htenants : s.slots.map Slot.tenant = c.tenants := by
    rw [h.tenants, hfull, List.take_length]
  have hdone : ∀ slot ∈ s.slots, slot.future.done = true := by
    intro slot hslot
    obtain ⟨i, hi⟩ := List.mem_iff_getElem?.mp hslot
    exact h.all_done (last_of_finished hmain) hi
  rw [h.runs, swept_of_finished hmain, List.map_append, ← htenants]
  exact (((h.looped_perm hmain).map _).append_right _).trans (reports_perm s.slots hdone)

/-- **A command that finishes reports every tenant once**, if none is listed twice. -/
theorem Inv.reported (hdistinct : c.Distinct) (hparallel : c.parallel ≠ 1) : Reported c (s.outcome c) := by
  have hlast := last_of_finished hmain
  have hswept := swept_of_finished hmain
  have hlooped := h.looped_perm hmain
  have hperm := h.runs_perm hmain
  have hreport : ∀ run ∈ s.looped, run.status ≠ .skipped := by
    intro run hrun
    obtain ⟨slot, -, hslot⟩ := List.mem_filterMap.mp (hlooped.mem_iff.mp hrun)
    exact (Slot.report_of hslot).2
  refine ⟨listed_of_perm hperm, (once_iff hperm).mpr hdistinct, ?_, ?_, fun hone => absurd hone hparallel, ?_⟩
  · intro x run y hsplit hskipped
    have hsplit : s.runs = x ++ run :: y := hsplit
    rw [h.runs] at hsplit
    obtain ⟨⟨z, rfl⟩, hmem⟩ := after_of_not_mem hsplit fun hrun => hreport run hrun hskipped
    rw [hswept] at hmem
    obtain ⟨slot, hslot, hsweep⟩ := List.mem_filterMap.mp hmem
    obtain ⟨hcancelled, rfl⟩ := Slot.sweep_eq hsweep
    obtain ⟨hfast, run', hrun', hfailed⟩ := h.stopped (h.cancelled slot hslot hcancelled)
    refine ⟨hfast, ⟨run', List.mem_append_left _ hrun', hfailed⟩, ?_⟩
    -- the tenant's own future is cancelled, so no worker took it
    intro i hi ht
    obtain ⟨slot', hslot', htaken⟩ := h.started i hi
    obtain ⟨j, hj⟩ := List.mem_iff_getElem?.mp hslot
    have hij : i = j := position_unique hdistinct ht (h.tenant_at hj)
    rw [hij, hj] at hslot'
    obtain rfl := Option.some.inj hslot'
    rw [hcancelled] at htaken
    cases htaken
  · intro i hi
    obtain ⟨slot, hslot, htaken⟩ := h.started i hi
    obtain ⟨run, hrun⟩ := Slot.report_isSome htaken (h.all_done hlast hslot)
    have hown : s.slots[i]?.bind Slot.report = some run := by
      rw [hslot]
      exact hrun
    refine ⟨run, ?_, hown, ?_⟩
    · change run ∈ s.runs
      rw [h.runs]
      apply List.mem_append_left
      exact hlooped.mem_iff.mpr (List.mem_filterMap.mpr ⟨slot, List.mem_of_getElem? hslot, hrun⟩)
    · rw [(Slot.report_of hrun).1]
      exact h.tenant_at hslot
  · have hraised : (s.outcome c).raised = summarize c.name s.runs := by
      unfold State.outcome
      rw [hmain]
    rw [hraised]
    exact summarize_isSome c.name s.runs

end Finished

/-- A command whose submission failed raises, and reports nothing. -/
theorem Inv.not_reported (h : Inv c s) {why : String} (hmain : s.main = .crashed why) : ¬ Reported c (s.outcome c) := by
  intro hreported
  have hfirst : s.main.first = true := by
    rw [hmain]
    rfl
  have hruns : s.runs = [] := by
    have hlast : s.main.last = false := by
      rw [hmain]
      rfl
    rw [h.runs, swept_eq_nil hlast, State.looped, (h.begun hfirst).1]
    rfl
  have hraised : (s.outcome c).raised.isSome = true := by
    unfold State.outcome
    rw [hmain]
    rfl
  obtain ⟨run, hrun, -⟩ := hreported.raises.mp hraised
  change run ∈ s.runs at hrun
  rw [hruns] at hrun
  cases hrun

/-- **The condition is exact.** -/
theorem reported_iff (hparallel : c.parallel ≠ 1) {es : List Event} (hended : (run (step c) (.initial c) es).Ended) :
    Reported c ((run (step c) (.initial c) es).outcome c) ↔
      c.Distinct ∧ Along (step c) (PoolWhole c) (.initial c) es := by
  have hinv := inv_run c es
  rw [← uncrashed_iff_along]
  rcases hended with hmain | ⟨why, hmain⟩
  · constructor
    · intro hreported
      refine ⟨(once_iff (hinv.runs_perm hmain)).mp hreported.once, fun why hcrashed => ?_⟩
      rw [hmain] at hcrashed
      cases hcrashed
    · exact fun h => hinv.reported hmain h.1 hparallel
  · constructor
    · exact fun hreported => absurd hreported (hinv.not_reported hmain)
    · exact fun h => absurd hmain (h.2 why)

end ForAllTenants

end RlsTenants
