import RlsTenants.Spec.Signals

/-!
# Paired signals

* `taskPrerun_cases`, `taskPostrun_cases`: what the handlers do, once for all.
* `exec_aligned`: aligned runs are paired, and leave the thread as they found it.
* `paired_aligned`: paired runs are aligned.
* `signals_paired_iff`: the two together, from a thread without contexts.
-/

namespace RlsTenants

namespace Signals

variable {r : SignalledTask} {s : Thread} {inner next runs : Runs} {within : List String}

/-! ## The handlers -/

/-- A prerun that enters a context pushes it on its task id's stack. -/
theorem taskPrerun_enters (s : Thread) (h : r.enters = true) : ∃ id values, r.taskId = some id ∧
    taskPrerun r s =
      ((SignalContext.enter ⟨s.entered, values, s.current⟩ s).setStack id
        (some (⟨s.entered, values, s.current⟩ :: (s.signalContexts id).getD [])),
        some ⟨s.entered, values, s.current⟩) := by
  unfold SignalledTask.enters at h
  simp only [Bool.and_eq_true, Bool.not_eq_true', Option.isSome_iff_exists] at h
  obtain ⟨⟨⟨⟨id, hid⟩, htask⟩, values, hvalues⟩, hfails⟩ := h
  refine ⟨id, values, hid, ?_⟩
  unfold taskPrerun
  simp [hid, htask, hvalues, hfails]

/-- Any other prerun does nothing. -/
theorem taskPrerun_skips (s : Thread) (h : r.enters = false) : taskPrerun r s = (s, none) := by
  unfold taskPrerun
  cases hid : r.taskId with
  | none => rfl
  | some id =>
    cases htask : r.isRLSTask with
    | true => rfl
    | false =>
      cases hvalues : contextGucs r.request with
      | none => rfl
      | some values =>
        -- its headers give a context, so entering it fails
        have hfails : r.entryFails = true := by simpa [SignalledTask.enters, hid, htask, hvalues] using h
        simp [hfails]

/-- A postrun takes the newest context off its task id's stack. -/
theorem taskPostrun_pops {id : String} {context : SignalContext} {stack : List SignalContext}
    (h : s.signalContexts id = some (context :: stack)) :
    taskPostrun (some id) s =
      (context.safeExit (s.setStack id (if stack = [] then none else some stack)), some context) := by
  unfold taskPostrun
  simp only [h]

theorem taskPostrun_empty {id : String} (h : s.signalContexts id = none) :
    taskPostrun (some id) s = (s, none) := by
  unfold taskPostrun
  simp only [h]

/-! ## Stacks -/

/-- The stacks are those of the task ids in `within`, and none is empty. -/
def Thread.Holds (s : Thread) (within : List String) : Prop :=
  ∀ id, (id ∈ within ↔ s.signalContexts id ≠ none) ∧ s.signalContexts id ≠ some []

/-- Without a stack there is none to pop. -/
theorem Thread.Holds.popped {id : String} (h : s.Holds within) (hid : id ∉ within) :
    taskPostrun (some id) s = (s, none) := by
  apply taskPostrun_empty
  by_contra hne
  exact hid ((h id).1.2 hne)

theorem Thread.Holds.pops {id : String} (h : s.Holds within) (hid : id ∈ within) :
    ∃ context stack, s.signalContexts id = some (context :: stack) := by
  have hne := (h id).1.1 hid
  cases hs : s.signalContexts id with
  | none => exact absurd hs hne
  | some stack =>
    cases stack with
    | nil => exact absurd hs (h id).2
    | cons context stack => exact ⟨context, stack, rfl⟩

/-- What a run without a context of its own exits: nothing, unless a run of its task id
holds one. -/
theorem taskPostrun_skips (h : s.Holds within) (hr : ∀ id, r.taskId = some id → id ∉ within) :
    taskPostrun r.taskId s = (s, none) := by
  cases hid : r.taskId with
  | none => rfl
  | some id => exact h.popped (hr id hid)

/-- A thread is as it was, up to the number of contexts it has entered. -/
def Thread.Same (s s' : Thread) : Prop := s'.current = s.current ∧ s'.signalContexts = s.signalContexts

theorem Thread.Same.holds {s' : Thread} (h : s.Same s') (hs : s.Holds within) : s'.Holds within := by
  unfold Thread.Holds
  rw [h.2]
  exact hs

section Enters

variable {id : String} {values : ContextGucs}

/-- The thread once a prerun has entered a context. -/
def Thread.pushed (s : Thread) (id : String) (values : ContextGucs) : Thread :=
  (SignalContext.enter ⟨s.entered, values, s.current⟩ s).setStack id
    (some (⟨s.entered, values, s.current⟩ :: (s.signalContexts id).getD []))

theorem pushed_holds (h : s.Holds within) : (s.pushed id values).Holds (id :: within) := by
  intro id'
  show (_ ↔ Function.update s.signalContexts id _ id' ≠ none) ∧ Function.update s.signalContexts id _ id' ≠ some []
  by_cases hid : id' = id
  · subst hid
    simp
  · rw [Function.update_of_ne hid, List.mem_cons]
    simpa [hid] using h id'

/-- Popping takes exactly the context off that was pushed. -/
theorem pushed_popped {s' : Thread} (hs : s.Holds within) (h : (s.pushed id values).Same s') :
    (taskPostrun (some id) s').2 = some ⟨s.entered, values, s.current⟩ ∧ s.Same (taskPostrun (some id) s').1 := by
  obtain ⟨hcurrent, hcontexts⟩ := h
  have htop : s'.signalContexts id =
      some (⟨s.entered, values, s.current⟩ :: (s.signalContexts id).getD []) := by
    rw [hcontexts]
    exact Function.update_self ..
  rw [taskPostrun_pops htop]
  refine ⟨rfl, rfl, ?_⟩
  show Function.update s'.signalContexts id _ = s.signalContexts
  rw [hcontexts]
  show Function.update (Function.update s.signalContexts id _) id _ = s.signalContexts
  rw [Function.update_idem]
  -- an empty stack is deleted, and was missing before
  have hstack : (if (s.signalContexts id).getD [] = [] then none else some ((s.signalContexts id).getD [])) =
      s.signalContexts id := by
    have hne := (hs id).2
    cases hc : s.signalContexts id with
    | none => rfl
    | some stack =>
      rw [hc] at hne
      rw [Option.getD_some, if_neg (fun he => hne (congrArg some he))]
  rw [hstack, Function.update_eq_self]

end Enters

/-! ## Runs -/

theorem exec_run (r : SignalledTask) (inner next : Runs) (s : Thread) :
    (Runs.run r inner next).exec s =
      ((next.exec (taskPostrun r.taskId (inner.exec (taskPrerun r s).1).1).1).1,
        (inner.exec (taskPrerun r s).1).2.1 ++
          ⟨r, (taskPrerun r s).2, (taskPostrun r.taskId (inner.exec (taskPrerun r s).1).1).2, s.current,
            (taskPrerun r s).1.current :: (inner.exec (taskPrerun r s).1).2.2⟩ ::
          (next.exec (taskPostrun r.taskId (inner.exec (taskPrerun r s).1).1).1).2.1,
        (taskPostrun r.taskId (inner.exec (taskPrerun r s).1).1).1.current ::
          (next.exec (taskPostrun r.taskId (inner.exec (taskPrerun r s).1).1).1).2.2) := rfl

/-- **Aligned runs.** Each is paired, each leaves the context that it began in, and the
stacks are what they were. -/
theorem exec_aligned (hs : s.Holds within) (h : runs.Aligned within) :
    (∀ report ∈ (runs.exec s).2.1, report.Paired) ∧ (∀ c ∈ (runs.exec s).2.2, c = s.current) ∧
      s.Same (runs.exec s).1 := by
  induction runs generalizing s within with
  | nil => exact ⟨by simp [Runs.exec], by simp [Runs.exec], rfl, rfl⟩
  | run r inner next ihInner ihNext =>
    obtain ⟨hskip, hinner, hnext⟩ := h
    -- what remains once the run itself is known to be paired and to restore the thread
    have hrun : ∀ entered exited s₁ s₃, taskPrerun r s = (s₁, entered) →
        taskPostrun r.taskId (inner.exec s₁).1 = (s₃, exited) → s.Same s₃ →
        (∀ report ∈ (inner.exec s₁).2.1, report.Paired) →
        (⟨r, entered, exited, s.current, s₁.current :: (inner.exec s₁).2.2⟩ : Report).Paired →
        (∀ report ∈ ((Runs.run r inner next).exec s).2.1, report.Paired) ∧
          (∀ c ∈ ((Runs.run r inner next).exec s).2.2, c = s.current) ∧
          s.Same ((Runs.run r inner next).exec s).1 := by
      intro entered exited s₁ s₃ hpre hpost hsame hreports hreport
      obtain ⟨hn1, hn2, hn3⟩ := ihNext (hsame.holds hs) hnext
      rw [exec_run]
      simp only [hpre, hpost]
      refine ⟨?_, ?_, hn3.1.trans hsame.1, hn3.2.trans hsame.2⟩
      · intro report hmem
        rcases List.mem_append.1 hmem with hmem | hmem
        · exact hreports report hmem
        · rcases List.mem_cons.1 hmem with rfl | hmem
          · exact hreport
          · exact hn1 report hmem
      · intro c hc
        rcases List.mem_cons.1 hc with rfl | hc
        · exact hsame.1
        · exact (hn2 c hc).trans hsame.1
    cases hent : r.enters with
    | false =>
      rw [hent] at hinner
      obtain ⟨h1, h2, h3⟩ := ihInner hs hinner
      refine hrun none none s _ (taskPrerun_skips s hent)
        (taskPostrun_skips (h3.holds hs) (hskip hent)) h3 h1 ⟨rfl, ?_⟩
      intro c hc
      rcases List.mem_cons.1 hc with rfl | hc
      · rfl
      · exact h2 c hc
    | true =>
      obtain ⟨id, values, hid, hpre⟩ := taskPrerun_enters s hent
      rw [hent, hid] at hinner
      obtain ⟨h1, h2, h3⟩ := ihInner (pushed_holds hs) hinner
      obtain ⟨hexit, hsame⟩ := pushed_popped hs h3
      refine hrun _ _ (s.pushed id values) _ hpre (by rw [hid]) (hid ▸ hsame) h1 ⟨hid ▸ hexit, ?_⟩
      intro c hc
      rcases List.mem_cons.1 hc with rfl | hc
      · rfl
      · exact h2 c hc

/-- **Paired runs** are aligned: a run that enters nothing would exit the context of a run
of its task id around it. -/
theorem paired_aligned (hs : s.Holds within) (h : ∀ report ∈ (runs.exec s).2.1, report.Paired) :
    runs.Aligned within := by
  induction runs generalizing s within with
  | nil => trivial
  | run r inner next ihInner ihNext =>
    rw [exec_run] at h
    have hinner : ∀ report ∈ (inner.exec (taskPrerun r s).1).2.1, report.Paired := fun report hmem =>
      h report (List.mem_append_left _ hmem)
    have hself := h _ (List.mem_append_right _ List.mem_cons_self)
    have hnext : ∀ report ∈ (next.exec (taskPostrun r.taskId (inner.exec (taskPrerun r s).1).1).1).2.1,
        report.Paired := fun report hmem =>
      h report (List.mem_append_right _ (List.mem_cons_of_mem _ hmem))
    cases hent : r.enters with
    | false =>
      rw [taskPrerun_skips s hent] at hinner hself hnext
      have haligned := ihInner hs hinner
      have hsame := (exec_aligned hs haligned).2.2
      have hskip : ∀ id, r.taskId = some id → id ∉ within := by
        intro id hid hmem
        obtain ⟨context, stack, htop⟩ := (hsame.holds hs).pops hmem
        have hexits := hself.exits
        rw [hid, taskPostrun_pops htop] at hexits
        cases hexits
      refine ⟨fun _ => hskip, by rw [hent]; exact haligned, ?_⟩
      rw [taskPostrun_skips (hsame.holds hs) hskip] at hnext
      exact ihNext (hsame.holds hs) hnext
    | true =>
      obtain ⟨id, values, hid, hpre⟩ := taskPrerun_enters s hent
      have hpushed : (taskPrerun r s).1 = s.pushed id values := congrArg Prod.fst hpre
      rw [hpushed] at hinner hnext
      have haligned := ihInner (pushed_holds hs) hinner
      obtain ⟨-, -, hinside⟩ := exec_aligned (pushed_holds hs) haligned
      have hsame : s.Same (taskPostrun (some id) (inner.exec (s.pushed id values)).1).1 :=
        (pushed_popped hs hinside).2
      rw [hid] at hnext
      refine ⟨fun hfalse => ?_, ?_, ihNext (hsame.holds hs) hnext⟩
      · rw [hent] at hfalse
        cases hfalse
      · rw [hent, hid]
        exact haligned

/-- **Paired signals.** From a thread without contexts, exactly the aligned runs are paired. -/
theorem signals_paired_iff (runs : Runs) (current : Option ContextGucs) (entered : ℕ) :
    runs.Paired ⟨current, fun _ => none, entered⟩ ↔ runs.Aligned [] := by
  have hs : Thread.Holds ⟨current, fun _ => none, entered⟩ [] := fun id => by simp
  constructor
  · intro h
    exact paired_aligned hs h.1
  · intro h
    obtain ⟨h1, -, h3⟩ := exec_aligned hs h
    exact ⟨h1, h3.2⟩

/-- A task that runs again before its first run has ended, and cannot enter its context the
second time. -/
def reentry : Runs :=
  .run ⟨some "id", false, ⟨some ⟨some (some (.int 7)), none⟩, none, false⟩, false⟩
    (.run ⟨some "id", false, ⟨some ⟨some (some (.int 7)), none⟩, none, false⟩, true⟩ .nil .nil) .nil

/-- Its end exits the context of the first run, whose body goes on in none. -/
theorem reentry_not_paired :
    ((reentry.exec ⟨none, fun _ => none, 0⟩).2.1.map fun report => (report.entered, report.exited, report.body)) =
        [(none, some ⟨0, .forTenant "7", none⟩, [some (.forTenant "7")]),
          (some ⟨0, .forTenant "7", none⟩, none, [some (.forTenant "7"), none])] ∧
      ¬reentry.Paired ⟨none, fun _ => none, 0⟩ := by
  refine And.intro (by decide) ?_
  intro h
  have hreport := h.1 ⟨_, none, some ⟨0, .forTenant "7", none⟩, some (.forTenant "7"), [some (.forTenant "7")]⟩
    (List.mem_cons_self ..)
  cases hreport.exits

end Signals

end RlsTenants
