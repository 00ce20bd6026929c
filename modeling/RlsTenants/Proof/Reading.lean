import RlsTenants.Spec.Grammar
import Mathlib.Data.List.Infix

/-!
# How the reader splits a text

`split` cuts a text into its words (`split_words`), and a text that is cut short into
the same words up to the last, of which a part is left (`IsCut`, `split_take`). A text
that starts with a letter has no comment to skip.
-/

namespace RlsTenants

/-! ## Words -/

/-- A text that is one word. -/
def IsWord (w : Text) : Prop := w ≠ [] ∧ ∀ c ∈ w, isSpace c = false

@[simp] theorem split_nil : split [] = [] := rfl

theorem split_space {c : Char} (hc : isSpace c = true) (t : Text) : split (c :: t) = split t := by
  rw [split.eq_def]
  simp [hc]

theorem split_last {c : Char} (hc : isSpace c = false) : split [c] = [[c]] := by
  rw [split.eq_def]
  simp [hc]

theorem split_gap {c d : Char} (hc : isSpace c = false) (hd : isSpace d = true) (t : Text) :
    split (c :: d :: t) = [c] :: split (d :: t) := by
  rw [split.eq_def]
  simp [hc, hd]

/-- A word starts at a character that is no space. -/
theorem split_starts {c : Char} (hc : isSpace c = false) (t : Text) :
    ∃ w ws, split (c :: t) = (c :: w) :: ws := by
  cases t with
  | nil => exact ⟨[], [], split_last hc⟩
  | cons d t =>
    cases hd : isSpace d with
    | true => exact ⟨[], _, split_gap hc hd t⟩
    | false =>
      rw [split.eq_def]
      simp only [hc, hd, Bool.false_eq_true, if_false]
      cases split (d :: t) with
      | nil => exact ⟨[], [], rfl⟩
      | cons w ws => exact ⟨w, ws, rfl⟩

/-- A character that is no space joins the word after it. -/
theorem split_join {c d : Char} (hc : isSpace c = false) (hd : isSpace d = false) {t w : Text} {ws : List Text}
    (h : split (d :: t) = w :: ws) : split (c :: d :: t) = (c :: w) :: ws := by
  rw [split.eq_def]
  simp [hc, hd, h]

/-- **Words end at a space.** -/
theorem split_append_space {d : Char} (hd : isSpace d = true) (x y : Text) :
    split (x ++ d :: y) = split x ++ split y := by
  induction x with
  | nil => simp [split_space hd]
  | cons c x ih =>
    cases hc : isSpace c with
    | true => rw [List.cons_append, split_space hc, split_space hc, ih]
    | false =>
      cases x with
      | nil => simp [split_gap hc hd, split_last hc, split_space hd]
      | cons e x =>
        cases he : isSpace e with
        | true =>
          rw [List.cons_append, List.cons_append, split_gap hc he, split_gap hc he]
          simpa using ih
        | false =>
          obtain ⟨w, ws, hw⟩ := split_starts he x
          rw [hw] at ih
          rw [split_join hc he hw]
          exact split_join hc he ih

theorem split_spaces {b : Text} (hb : ∀ c ∈ b, isSpace c = true) (t : Text) : split (b ++ t) = split t := by
  induction b with
  | nil => rfl
  | cons c b ih =>
    rw [List.cons_append, split_space (hb c List.mem_cons_self)]
    exact ih fun c' h => hb c' (List.mem_cons_of_mem _ h)

theorem split_word {w : Text} (hw : IsWord w) : split w = [w] := by
  obtain ⟨hne, hs⟩ := hw
  induction w with
  | nil => exact absurd rfl hne
  | cons c w ih =>
    have hc := hs c List.mem_cons_self
    cases w with
    | nil => exact split_last hc
    | cons d w =>
      refine split_join hc (hs d (by simp)) (ih (by simp) fun c' h => hs c' (List.mem_cons_of_mem _ h))

/-- **The words of a text** whose words stand apart by spaces. -/
theorem split_words {w : Text} {rest : List (Text × Text)} (hw : IsWord w)
    (hrest : ∀ p ∈ rest, (p.1 ≠ [] ∧ ∀ c ∈ p.1, isSpace c = true) ∧ IsWord p.2) :
    split (w ++ rest.flatMap fun (b, v) => b ++ v) = w :: rest.map Prod.snd := by
  induction rest generalizing w with
  | nil => simpa using split_word hw
  | cons p rest ih =>
    obtain ⟨⟨hne, hb⟩, hv⟩ := hrest p List.mem_cons_self
    obtain ⟨b, v⟩ := p
    have ih := ih (w := v) hv fun q hq => hrest q (List.mem_cons_of_mem _ hq)
    cases b with
    | nil => exact absurd rfl hne
    | cons d b =>
      have hd := hb d List.mem_cons_self
      simp only [List.flatMap_cons, List.cons_append, List.append_assoc, List.map_cons]
      rw [split_append_space hd, split_word hw, split_spaces (fun c h => hb c (List.mem_cons_of_mem _ h)), ih]
      rfl

/-! ## A text that is cut -/

/-- The words of a text that is cut: the first ones, and a part of the next. -/
inductive IsCut : List Text → List Text → Prop
  | none (ws : List Text) : IsCut [] ws
  | part {w w' : Text} (ws : List Text) : w <+: w' → IsCut [w] (w' :: ws)
  | word (w : Text) {vs ws : List Text} : IsCut vs ws → IsCut (w :: vs) (w :: ws)

theorem IsCut.refl : ∀ ws : List Text, IsCut ws ws
  | [] => .none _
  | w :: ws => .word w (IsCut.refl ws)

theorem IsCut.mem {vs ws : List Text} (h : IsCut vs ws) {v : Text} (hv : v ∈ vs) : ∃ w ∈ ws, v <+: w := by
  induction h with
  | none => simp at hv
  | part ws hp =>
    rw [List.mem_singleton] at hv
    exact ⟨_, List.mem_cons_self, hv ▸ hp⟩
  | word w _ ih =>
    rcases List.mem_cons.1 hv with rfl | hv
    · exact ⟨v, List.mem_cons_self, List.prefix_rfl⟩
    · obtain ⟨w', hw', hp⟩ := ih hv
      exact ⟨w', List.mem_cons_of_mem _ hw', hp⟩

theorem split_take (t : Text) (n : ℕ) : IsCut (split (t.take n)) (split t) := by
  induction t generalizing n with
  | nil => simpa using IsCut.none []
  | cons c t ih =>
    cases n with
    | zero => exact .none _
    | succ n =>
      rw [List.take_succ_cons]
      cases hc : isSpace c with
      | true =>
        rw [split_space hc, split_space hc]
        exact ih n
      | false =>
        have ih := ih n
        cases t with
        | nil => simpa [split_last hc] using IsCut.part [] List.prefix_rfl
        | cons d t =>
          cases n with
          | zero =>
            obtain ⟨w, ws, hw⟩ := split_starts hc (d :: t)
            rw [hw, List.take_zero, split_last hc]
            exact .part ws ⟨w, rfl⟩
          | succ n =>
            rw [List.take_succ_cons] at ih ⊢
            cases hd : isSpace d with
            | true =>
              rw [split_gap hc hd, split_gap hc hd]
              exact .word _ ih
            | false =>
              obtain ⟨w, ws, hw⟩ := split_starts hd t
              obtain ⟨v, vs, hv⟩ := split_starts hd (t.take n)
              rw [hw, hv] at ih
              rw [split_join hc hd hw, split_join hc hd hv]
              cases ih with
              | part _ hp => exact .part _ (by simpa using hp)
              | word _ h => exact .word _ h

/-! ## Where a statement starts -/

theorem skipLeadingComments_letter {c : Char} (hs : isSpace c = false) (hd : c ≠ '-') (hl : c ≠ '/') (t : Text) :
    skipLeadingComments (c :: t) = c :: t := by
  have hstrip : lstrip (c :: t) = c :: t := by simp [lstrip, hs]
  rw [skipLeadingComments, hstrip, List.length_cons]
  rw [skipLeadingCommentsFrom.eq_def]
  split
  · simp at *
  · rename_i h
    simp only [List.cons.injEq] at h
    exact absurd h.1 hd
  · rename_i h
    simp only [List.cons.injEq] at h
    exact absurd h.1 hl
  · rfl

/-- The text that is read of a statement that starts with a letter. -/
theorem head_letter {c : Char} (hs : isSpace c = false) (hd : c ≠ '-') (hl : c ≠ '/') (t : Text) :
    head (c :: t) = (c :: t).take sqlHead := by
  have htake : (c :: t).take sqlHead = c :: t.take 255 := rfl
  simp only [head]
  rw [htake, skipLeadingComments_letter hs hd hl]
  simp

theorem isCompound_false {t : Text} (h : ';' ∉ t) : isCompound t = false := by
  have : t.dropWhile (· != ';') = [] := by
    rw [List.dropWhile_eq_nil_iff]
    intro c hc
    simp only [bne_iff_ne, ne_eq]
    rintro rfl
    exact h hc
  simp [isCompound, this]

end RlsTenants
