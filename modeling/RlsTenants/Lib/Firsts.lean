import Mathlib.Data.List.Induction

/-!
# The first of each key

What is kept by a loop that skips a member if one of its key has been kept.

* `firsts_concat`: one step of the loop; `foldl_firsts` and `foldlM_firsts` are the rules for
  loops whose state says what has been kept.
* `firsts_subset`: a coarser key keeps fewer members.
-/

namespace Firsts

variable {α κ ι : Type} [DecidableEq κ] [DecidableEq ι]

/-- The members that are the first of their key. -/
def firsts (key : α → κ) : List α → List α
  | [] => []
  | a :: l => a :: (firsts key l).filter fun b => key b ≠ key a

variable {key : α → κ} {l : List α} {a : α}

theorem mem_of_mem_firsts (h : a ∈ firsts key l) : a ∈ l := by
  induction l with
  | nil => cases h
  | cons b l ih =>
    rcases List.mem_cons.mp h with rfl | h
    · exact List.mem_cons_self
    · exact List.mem_cons_of_mem _ (ih (List.mem_filter.mp h).1)

/-- Every member has a first of its key. -/
theorem exists_first (key : α → κ) (h : a ∈ l) : ∃ b ∈ firsts key l, key b = key a := by
  induction l with
  | nil => cases h
  | cons c l ih =>
    by_cases hkey : key a = key c
    · exact ⟨c, List.mem_cons_self, hkey.symm⟩
    · obtain ⟨b, hb, hba⟩ := ih ((List.mem_cons.mp h).resolve_left fun hac => hkey (congrArg key hac))
      have hne : key b ≠ key c := fun hbc => hkey (hba.symm.trans hbc)
      exact ⟨b, List.mem_cons_of_mem _ (List.mem_filter.mpr ⟨hb, by simpa using hne⟩), hba⟩

/-- **One more member** is kept unless one of its key has been. -/
theorem firsts_concat (key : α → κ) (l : List α) (a : α) : firsts key (l ++ [a]) =
    if (firsts key l).any (key · = key a) then firsts key l else firsts key l ++ [a] := by
  induction l with
  | nil => simp [firsts]
  | cons b l ih =>
    rw [List.cons_append, firsts, ih, firsts, List.any_cons]
    by_cases hba : key b = key a
    · by_cases hany : (firsts key l).any (key · = key a) = true
      · simp [hba, hany]
      · simp [hba, hany]
    · have hfilter : ((firsts key l).filter fun c => key c ≠ key b).any (key · = key a) =
          (firsts key l).any (key · = key a) := by
        rw [List.any_filter]
        congr 1
        funext c
        by_cases hca : key c = key a
        · simp [hca, Ne.symm hba]
        · simp [hca]
      rw [hfilter]
      by_cases hany : (firsts key l).any (key · = key a) = true
      · simp [hba, hany]
      · simp [hba, hany, List.filter_append, Ne.symm hba]

/-- A coarser key keeps fewer members. -/
theorem firsts_subset {coarse : α → ι} (hcoarse : ∀ a b, key a = key b → coarse a = coarse b) :
    firsts coarse l ⊆ firsts key l := by
  induction l with
  | nil => exact List.Subset.refl _
  | cons b l ih =>
    intro a ha
    rcases List.mem_cons.mp ha with rfl | ha
    · exact List.mem_cons_self
    · obtain ⟨hmem, hne⟩ := List.mem_filter.mp ha
      have hne : coarse a ≠ coarse b := by simpa using hne
      refine List.mem_cons_of_mem _ (List.mem_filter.mpr ⟨ih hmem, ?_⟩)
      simpa using fun hkey => hne (hcoarse a b hkey)

section Loops

variable {σ ε : Type} {K : σ → List α → Prop}

/-- **A loop keeps the firsts**, if its step keeps a member of a new key and no other. `K` says
what a state has kept. -/
theorem foldl_firsts {step : σ → α → σ} {start : σ} (hstart : K start [])
    (hstep : ∀ s done a, K s done → a ∈ l →
      K (step s a) (if done.any (key · = key a) then done else done ++ [a])) :
    K (l.foldl step start) (firsts key l) := by
  induction l using List.reverseRecOn with
  | nil => exact hstart
  | append_singleton l a ih =>
    rw [List.foldl_append, firsts_concat]
    apply hstep _ _ a ?_ (by simp)
    exact ih fun s done b hs hb => hstep s done b hs (by simp [hb])

/-- The same for a loop that may fail. -/
theorem foldlM_firsts {step : σ → α → Except ε σ} {start s : σ} (hrun : l.foldlM step start = .ok s)
    (hstart : K start []) (hstep : ∀ s done a s', K s done → a ∈ l → step s a = .ok s' →
      K s' (if done.any (key · = key a) then done else done ++ [a])) :
    K s (firsts key l) := by
  induction l using List.reverseRecOn generalizing s with
  | nil =>
    obtain rfl := Except.ok.inj hrun
    exact hstart
  | append_singleton l a ih =>
    rw [List.foldlM_append] at hrun
    cases hmid : l.foldlM step start with
    | error e =>
      rw [hmid] at hrun
      cases hrun
    | ok mid =>
      rw [hmid] at hrun
      have hlast : step mid a = .ok s := by
        have hone : [a].foldlM step mid = .ok s := hrun
        simpa using hone
      rw [firsts_concat]
      apply hstep mid _ a s ?_ (by simp) hlast
      exact ih hmid fun s done b s' hs hb => hstep s done b s' hs (by simp [hb])

end Loops

end Firsts
