import RlsTenants.Spec.Iteration

/-!
# Scoped iteration

* `scopedChunks_views`, `aiterator_views`: which rows the generators give.
* `scopedChunks_inScope`, `aiterator_inScope`: where they pull them, and what they leave
  alone.
* `scoped_iteration`: the two, for every consumer.
-/

namespace RlsTenants

namespace Iteration

open Generator

variable {κ α ε : Type} {user : κ} {using_ : String}

/-! ## Rows -/

theorem source_views : (source : Gen (Rest α ε) (Thread κ) α ε).Views id := fun _ _ => ⟨rfl, rfl⟩

theorem chunkScope_transparent {σ : Type} : Transparent (τ := Thread κ) (σ := σ)
    (chunkScope (α := α) (ε := ε) user using_) := by
  intro body t
  exact ⟨{ t with here := ⟨user, some using_⟩ }, rfl, rfl⟩

theorem syncToAsync_transparent {σ : Type} : Transparent (τ := Thread κ) (σ := σ)
    (syncToAsync (α := α) (ε := ε)) := fun _ t => ⟨t, rfl, rfl⟩

theorem sizeOf_pos {chunkSize : Option ℕ} : 0 < sizeOf chunkSize := by
  unfold sizeOf iteratorChunkSize
  rcases chunkSize with _ | _ | size <;> simp

theorem sizeOf_some {size : ℕ} (h : 0 < size) : sizeOf (some size) = size := by
  obtain ⟨n, rfl⟩ := Nat.exists_eq_succ_of_ne_zero (Nat.pos_iff_ne_zero.1 h)
  rfl

theorem scopedChunks_views (user : κ) (using_ : String) (chunkSize : Option ℕ) :
    (scopedChunks user using_ chunkSize : Gen (ScopedRows α ε) (Thread κ) α ε).Views
      (Chunked.view id (sizeOf chunkSize)) :=
  source_views.chunked sizeOf_pos chunkScope_transparent

theorem aiterator_views (user : κ) (using_ : String) {size : ℕ} (hsize : 0 < size) :
    (aiterator user using_ size : Gen (Chunked (ScopedRows α ε) α) (Thread κ) α ε).Views
      (Chunked.view (Chunked.view id (sizeOf (some size))) size) :=
  (scopedChunks_views user using_ (some size)).chunked hsize syncToAsync_transparent

/-! ## Surroundings -/

/-- A pull on the source happens where the thread is. -/
def PullsHere (before after : Thread κ) : Prop :=
  after.here = before.here ∧ ∃ new, after.pulls = new ++ before.pulls ∧ ∀ p ∈ new, p = before.here

theorem source_pullsHere : (source : Gen (Rest α ε) (Thread κ) α ε).Keeps PullsHere := by
  intro rest t
  exact ⟨rfl, [t.here], rfl, by simp⟩

theorem pullsHere_refl (t : Thread κ) : PullsHere t t := ⟨rfl, [], rfl, by simp⟩

theorem pullsHere_trans {t t' t'' : Thread κ} (h : PullsHere t t') (h' : PullsHere t' t'') : PullsHere t t'' := by
  obtain ⟨hhere, new, hnew, hin⟩ := h
  obtain ⟨hhere', new', hnew', hin'⟩ := h'
  refine ⟨hhere'.trans hhere, new' ++ new, by rw [hnew', hnew, List.append_assoc], ?_⟩
  intro p hp
  rcases List.mem_append.1 hp with hp | hp
  · exact (hin' p hp).trans hhere
  · exact hin p hp

theorem inScope_refl (t : Thread κ) : InScope user using_ t t := ⟨rfl, [], rfl, by simp⟩

theorem inScope_trans {t t' t'' : Thread κ} (h : InScope user using_ t t') (h' : InScope user using_ t' t'') :
    InScope user using_ t t'' := by
  obtain ⟨new, hnew, hin⟩ := h.pulls
  obtain ⟨new', hnew', hin'⟩ := h'.pulls
  refine ⟨h'.here.trans h.here, new' ++ new, by rw [hnew', hnew, List.append_assoc], ?_⟩
  intro p hp
  rcases List.mem_append.1 hp with hp | hp
  · exact hin' p hp
  · exact hin p hp

/-- **The scope.** What is pulled in the block is pulled in the scope, which is undone. -/
theorem chunkScope_inScope {σ : Type} (body : Thread κ → Except ε (List α) × σ × Thread κ)
    (h : ∀ t, PullsHere t (body t).2.2) (t : Thread κ) : InScope user using_ t (chunkScope user using_ body t).2.2 := by
  obtain ⟨hhere, new, hnew, hin⟩ := h { t with here := ⟨user, some using_⟩ }
  exact ⟨rfl, new, hnew, hin⟩

theorem scopedChunks_inScope (user : κ) (using_ : String) (chunkSize : Option ℕ) :
    (scopedChunks user using_ chunkSize : Gen (ScopedRows α ε) (Thread κ) α ε).Keeps (InScope user using_) :=
  source_pullsHere.chunked pullsHere_refl pullsHere_trans inScope_refl chunkScope_inScope

theorem aiterator_inScope (user : κ) (using_ : String) (size : ℕ) :
    (aiterator user using_ size : Gen (Chunked (ScopedRows α ε) α) (Thread κ) α ε).Keeps (InScope user using_) :=
  (scopedChunks_inScope user using_ (some size)).chunked inScope_refl inScope_trans inScope_refl fun _ h => h

/-! ## Consumers -/

theorem aiterate_pulls (user : κ) (router : String) {size : ℕ} (hsize : 0 < size) (rows : Rest α ε)
    (consumer : List (Thread κ → Thread κ)) (t : Thread κ) :
    (aiterate user router size rows consumer t).map Prod.fst = (rows.cut size).pulls consumer.length := by
  cases consumer with
  | nil => rfl
  | cons consume rest =>
    have hcalls := (aiterator_views (α := α) (ε := ε) user (readAlias router (consume t)) hsize).calls
      (consume :: rest) (.fetch (.fetch rows)) t
    have hcut : Chunked.view (Chunked.view id (sizeOf (some size))) size (.fetch (.fetch rows)) = rows.cut size := by
      show ((rows.cut (sizeOf (some size))).cut size) = rows.cut size
      rw [sizeOf_some hsize, Rest.cut_cut]
    rw [hcut] at hcalls
    exact hcalls

/-- **Scoped iteration.** A consumer, whatever it does between its calls, gets the rows of
the plain iteration: all of them, or the whole chunks before an error and then the error.
They are pulled in the user's scope, and its own surroundings stay. -/
theorem scoped_iteration (user : κ) (router : String) (rows : Rest α ε) (consumer : List (Thread κ → Thread κ))
    (t : Thread κ) :
    (∀ chunkSize, chunkSize ≠ some 0 →
      ((iterate user router chunkSize rows consumer t).map Prod.fst =
          (rows.cut (sizeOf chunkSize)).pulls consumer.length) ∧
        ∀ call ∈ iterate user router chunkSize rows consumer t,
          InScope user (readAlias router t) call.2.1 call.2.2) ∧
    (∀ size, 0 < size →
      ((aiterate user router size rows consumer t).map Prod.fst = (rows.cut size).pulls consumer.length) ∧
        ∀ consume ∈ consumer.head?, ∀ call ∈ aiterate user router size rows consumer t,
          InScope user (readAlias router (consume t)) call.2.1 call.2.2) ∧
    (rows.error = none → ∀ size, rows.cut size = rows) := by
  refine ⟨?_, ?_, fun herror size => Rest.cut_none herror⟩
  · intro chunkSize _
    exact ⟨(scopedChunks_views user _ chunkSize).calls consumer (.fetch rows) t,
      (scopedChunks_inScope user _ chunkSize).calls consumer (.fetch rows) t⟩
  · intro size hsize
    refine ⟨aiterate_pulls user router hsize rows consumer t, ?_⟩
    intro consume hconsume
    cases consumer with
    | nil => cases hconsume
    | cons first rest =>
      obtain rfl : first = consume := Option.some.inj hconsume
      exact (aiterator_inScope user _ size).calls (first :: rest) (.fetch (.fetch rows)) t

/-- Two chunks of two rows, the second one short: three rows, and the end. -/
theorem scoped_iteration_short :
    (iterate (α := ℕ) (ε := String) (κ := Option ℕ) (some 1) "default" (some 2) ⟨[10, 11, 12], none⟩ [id, id, id, id]
        ⟨⟨none, none⟩, []⟩).map Prod.fst = [.row 10, .row 11, .row 12, .stop] ∧
      (aiterate (α := ℕ) (ε := String) (κ := Option ℕ) (some 1) "default" 2 ⟨[10, 11, 12], none⟩ [id, id, id, id]
        ⟨⟨none, none⟩, []⟩).map Prod.fst = [.row 10, .row 11, .row 12, .stop] := by
  obtain ⟨hiterate, haiterate, hcut⟩ := scoped_iteration (α := ℕ) (ε := String) (κ := Option ℕ) (some 1) "default"
    ⟨[10, 11, 12], none⟩ [id, id, id, id] ⟨⟨none, none⟩, []⟩
  refine And.intro ((hiterate (some 2) (by decide)).1.trans ?_) ((haiterate 2 (by decide)).1.trans ?_)
  · rw [hcut rfl]
    decide
  · rw [hcut rfl]
    decide

/-- A row source that raises after its first row, in chunks of two: the plain iteration
gives the row, and the scoped one only raises. -/
theorem scoped_iteration_loses_row :
    Rest.pulls 1 ⟨[10], some "e"⟩ = [.row 10] ∧
      (iterate (α := ℕ) (ε := String) (κ := Option ℕ) (some 1) "default" (some 2) ⟨[10], some "e"⟩ [id]
        ⟨⟨none, none⟩, []⟩).map Prod.fst = [.raised "e"] := And.intro (by decide) (by decide)

end Iteration

end RlsTenants
