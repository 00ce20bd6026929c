import Mathlib.Tactic.IntervalCases
import RlsTenants.Proof.Reading
import RlsTenants.Proof.Follow

/-!
# Plain statements the reader understands

`Form.Clear` says which plain statements the reader takes for what they are; all but the
ones about savepoints, and of these all but the ones whose text is longer than what is
read, whose name has a space or a semicolon in it, is `prepared` where the reader looks
for `COMMIT PREPARED`, or is the word `SAVEPOINT` (`Plain.legible`).
-/

namespace RlsTenants

/-! ## Keywords -/

section Keywords

theorem toUpper_of_not_lower {c : Char} (h : c.isLower = false) : c.toUpper = c := by
  unfold Char.toUpper
  rw [dif_neg]
  simpa [Char.isLower] using h

theorem letter_range {c : Char} (h : c.toUpper.isUpper = true) :
    (65 ≤ c.toNat ∧ c.toNat ≤ 90 ∧ c.isLower = false) ∨ (97 ≤ c.toNat ∧ c.toNat ≤ 122 ∧ c.isLower = true) := by
  cases hl : c.isLower with
  | true =>
    simp only [Char.isLower, Bool.and_eq_true, decide_eq_true_eq] at hl
    exact .inr ⟨hl.1, hl.2, rfl⟩
  | false =>
    rw [toUpper_of_not_lower hl] at h
    simp only [Char.isUpper, decide_eq_true_eq] at h
    exact .inl ⟨h.1, h.2, rfl⟩

theorem letter_not_space {c : Char} (h : c.toUpper.isUpper = true) : isSpace c = false := by
  have := letter_range h
  simp only [isSpace, Bool.or_eq_false_iff, Bool.and_eq_false_iff, decide_eq_false_iff_not, beq_eq_false_iff_ne]
  omega

theorem letter_ne {c d : Char} (h : c.toUpper.isUpper = true) (hd : d.toNat < 65) : c ≠ d := by
  rintro rfl
  have := letter_range h
  omega

theorem upperChar_letter {c : Char} (h : c.toUpper.isUpper = true) : upperChar c = [c.toUpper] := by
  unfold upperChar
  rcases letter_range h with ⟨h1, h2, hl⟩ | ⟨h1, h2, hl⟩
  · rw [if_neg (by simp [hl]), toUpper_of_not_lower hl]
    split <;> first | (exfalso; omega) | rfl
  · rw [if_pos hl]

/-- A text of ASCII letters. -/
def Letters (w : Text) : Prop := ∀ c ∈ w, c.toUpper.isUpper = true

theorem letters_of_upper {w k : Text} (h : w.map Char.toUpper = k) (hk : k.all Char.isUpper = true) : Letters w := by
  intro c hc
  rw [List.all_eq_true] at hk
  exact hk _ (h ▸ List.mem_map_of_mem hc)

theorem Letters.upper {w : Text} (h : Letters w) : upper w = w.map Char.toUpper := by
  induction w with
  | nil => rfl
  | cons c w ih =>
    rw [RlsTenants.upper, List.flatMap_cons, upperChar_letter (h c List.mem_cons_self)]
    exact congrArg _ (ih fun c' h' => h c' (List.mem_cons_of_mem _ h'))

theorem Letters.of_isPrefix {v w : Text} (h : Letters w) (hv : v <+: w) : Letters v := fun c hc => h c (hv.subset hc)

theorem Letters.not_mem {w : Text} (h : Letters w) {d : Char} (hd : d.toNat < 65) : d ∉ w :=
  fun hm => letter_ne (h d hm) hd rfl

theorem rstripSemicolons_of_not_mem {w : Text} (h : ';' ∉ w) : rstripSemicolons w = w := by
  rw [rstripSemicolons, List.rdropWhile_eq_self_iff]
  intro hne hc
  have : w.getLast hne = ';' := by simpa using hc
  exact h (this ▸ List.getLast_mem hne)

theorem toUpper_toLower {c : Char} (h : c.isUpper = true) : c.toLower.toUpper = c := by
  have hr : 65 ≤ c.toNat ∧ c.toNat ≤ 90 := by
    simp only [Char.isUpper, decide_eq_true_eq] at h
    exact ⟨h.1, h.2⟩
  obtain ⟨n, hn⟩ : ∃ n, c.toNat = n := ⟨_, rfl⟩
  rw [hn] at hr
  have hc : c = Char.ofNat n := by rw [← hn, Char.ofNat_toNat]
  obtain ⟨h1, h2⟩ := hr
  subst hc
  interval_cases n <;> rfl

/-- Lower case and back. -/
theorem toUpper_asciiLower (w : Text) : (asciiLower w).map Char.toUpper = w.map Char.toUpper := by
  rw [asciiLower, List.map_map]
  refine List.map_congr_left fun c _ => ?_
  simp only [Function.comp]
  split
  · rename_i h
    rw [toUpper_toLower h, toUpper_of_not_lower]
    simp only [Char.isUpper, Char.isLower, decide_eq_true_eq, Bool.and_eq_false_iff, decide_eq_false_iff_not] at h ⊢
    have h1 : c.toNat ≤ 90 := h.2
    refine .inl fun h2 => ?_
    have h2 : 97 ≤ c.toNat := h2
    omega
  · rfl

/-- What is left of a keyword that is cut, in upper case. -/
theorem keyword_upper {v w k : Text} (hw : w.map Char.toUpper = k) (hk : k.all Char.isUpper = true) (hv : v <+: w) :
    upper v <+: k ∧ upper (identifier v) <+: k := by
  have hl := (letters_of_upper hw hk).of_isPrefix hv
  have hmap : v.map Char.toUpper <+: k := hw ▸ hv.map _
  have hid : identifier v = asciiLower v := by
    rw [identifier, rstripSemicolons_of_not_mem (hl.not_mem (by decide))]
    rw [if_neg]
    rintro ⟨-, hq, -⟩
    exact hl.not_mem (d := '"') (by decide) (List.mem_of_mem_head? hq)
  refine ⟨by rw [hl.upper]; exact hmap, ?_⟩
  have hl' : Letters (asciiLower v) := letters_of_upper (toUpper_asciiLower v) (by
    rw [List.all_eq_true]
    intro c hc
    obtain ⟨d, hd, rfl⟩ := List.mem_map.1 hc
    exact hl d hd)
  rw [hid, hl'.upper, toUpper_asciiLower]
  exact hmap

end Keywords

/-! ## Names -/

section Names

theorem undouble_double (t : Text) : undouble (double t) = t := by
  induction t with
  | nil => rfl
  | cons c t ih =>
    by_cases hc : c = '"'
    · subst hc
      show undouble ('"' :: '"' :: double t) = _
      rw [undouble, ih]
    · have : double (c :: t) = c :: double t := by simp [double, hc]
      rw [this, undouble.eq_def]
      split
      · rename_i h
        simp only [List.cons.injEq] at h
        exact absurd h.1 hc
      · rename_i h
        simp only [List.cons.injEq] at h
        obtain ⟨rfl, rfl⟩ := h
        rw [ih]
      · rename_i h
        simp at h

/-- The name holds no space and no semicolon, as the reader sees them. -/
def Ident.Clear (i : Ident) : Prop := ∀ c ∈ i.written, isSpace c = false ∧ c ≠ ';'

theorem Ident.Clear.isWord {i : Ident} (h : i.Clear) : IsWord i.written :=
  ⟨by cases i <;> simp [Ident.written], fun c hc => (h c hc).1⟩

/-- **A clear name is read as PostgreSQL reads it.** -/
theorem Ident.Clear.identifier {i : Ident} (h : i.Clear) (hs : byteLength i.full ≤ 63) :
    identifier i.written = i.name := by
  rw [Ident.name, clip_of_short hs, RlsTenants.identifier,
    rstripSemicolons_of_not_mem fun hm => (h _ hm).2 rfl]
  cases i with
  | unquoted start rest ok =>
    rw [if_neg]
    · rfl
    · rintro ⟨-, hq, -⟩
      simp only [Ident.written, List.head?_cons, Option.some.injEq] at hq
      rw [hq] at ok
      exact absurd ok.1 (by decide)
  | quoted chars ok =>
    rw [if_pos]
    · show undouble ((double chars ++ ['"']).dropLast) = chars
      rw [List.dropLast_concat, undouble_double]
    · refine ⟨by simp [Ident.written], rfl, ?_⟩
      show ('"' :: (double chars ++ ['"'])).getLast? = _
      rw [← List.cons_append, List.getLast?_concat]

end Names

/-! ## Plain statements -/

/-- The reader takes the statement for what it is. -/
def Form.Clear (text : Text) : Form → Prop
  | .savepoint i => text.length ≤ sqlHead ∧ i.Clear ∧ upper i.name ≠ "PREPARED".toList
  | .release keyword i => text.length ≤ sqlHead ∧ i.Clear ∧ (keyword = false →
      upper i.name ≠ "PREPARED".toList ∧ upper i.written ≠ "SAVEPOINT".toList)
  | .rollbackTo _ keyword i => text.length ≤ sqlHead ∧ i.Clear ∧ (keyword = false →
      upper i.written ≠ "SAVEPOINT".toList)
  | _ => True

/-- A word that is a keyword or a clear name. -/
def Word.Clear : Word → Prop
  | .keyword k => k ≠ [] ∧ k.all Char.isUpper = true
  | .listed k => k ≠ [] ∧ k.all Char.isUpper = true
  | .name i => i.Clear

theorem keyword_isWord {k w : Text} (hk : k ≠ [] ∧ k.all Char.isUpper = true) (hs : w.map Char.toUpper = k) :
    IsWord w ∧ ';' ∉ w := by
  have hl := letters_of_upper hs hk.2
  refine ⟨⟨?_, fun c hc => letter_not_space (hl c hc)⟩, hl.not_mem (by decide)⟩
  rintro rfl
  exact hk.1 hs.symm

theorem Word.Clear.spelled {word : Word} {w : Text} (h : word.Clear) (hs : word.Spelled w) :
    IsWord w ∧ ';' ∉ w := by
  cases word with
  | keyword k => exact keyword_isWord h hs
  | listed k =>
    rcases hs with hs | ⟨w', rfl, hs⟩
    · exact keyword_isWord h hs
    · obtain ⟨hword, hnot⟩ := keyword_isWord h hs
      refine ⟨⟨by simp, fun c hc => ?_⟩, by simp [hnot]⟩
      rcases List.mem_append.1 hc with hc | hc
      · exact hword.2 c hc
      · obtain rfl := List.mem_singleton.1 hc
        decide
  | name i =>
    obtain rfl : w = i.written := hs
    exact ⟨h.isWord, fun hm => (h _ hm).2 rfl⟩

theorem noise_clear (noise : Option Noise) : ∀ w ∈ Noise.words noise, w.Clear := by
  rcases noise with _ | _ | _ <;> simp [Noise.words, Word.Clear]

theorem chain_clear (chain : Option Bool) : ∀ w ∈ chainWords chain, w.Clear := by
  rcases chain with _ | _ | _ <;> simp [chainWords, Word.Clear]

/-- What holds of the words of each mode holds of the words of a list of modes. -/
theorem forall_modeWords {P : Word → Prop} (h : ∀ m : TransactionMode, (∀ k ∈ m.words.1, P (.keyword k)) ∧
    P (.keyword m.words.2) ∧ P (.listed m.words.2)) (modes : List TransactionMode) :
    ∀ w ∈ modeWords modes, P w := by
  have hkeywords : ∀ m : TransactionMode, ∀ w ∈ m.words.1.map Word.keyword, P w := by
    intro m w hw
    obtain ⟨k, hk, rfl⟩ := List.mem_map.1 hw
    exact (h m).1 k hk
  induction modes with
  | nil => simp [modeWords]
  | cons m ms ih =>
    intro w hw
    cases ms with
    | nil =>
      rcases List.mem_append.1 hw with hw | hw
      · exact hkeywords m w hw
      · obtain rfl := List.mem_singleton.1 hw
        exact (h m).2.1
    | cons m' ms =>
      rcases List.mem_append.1 hw with hw | hw
      · exact hkeywords m w hw
      rcases List.mem_cons.1 hw with rfl | hw
      · exact (h m).2.2
      · exact ih w hw

/-- A keyword that is no part of `PREPARED`. -/
def Unprepared (k : Text) : Prop := (k ≠ [] ∧ k.all Char.isUpper = true) ∧ ¬"PREPARED".toList <+: k

instance (k : Text) : Decidable (Unprepared k) := inferInstanceAs (Decidable (_ ∧ _))

theorem TransactionMode.unprepared (m : TransactionMode) :
    (∀ k ∈ m.words.1, Unprepared k) ∧ Unprepared m.words.2 := by
  cases m <;> decide

theorem modeWords_clear (modes : List TransactionMode) : ∀ w ∈ modeWords modes, w.Clear :=
  forall_modeWords (fun m => ⟨fun k hk => (m.unprepared.1 k hk).1, m.unprepared.2.1, m.unprepared.2.1⟩) modes

theorem keywordSavepoint_clear (keyword : Bool) : ∀ w ∈ keywordSavepoint keyword, w.Clear := by
  cases keyword <;> simp [keywordSavepoint, Word.Clear]

theorem Form.Clear.arguments {f : Form} {text : Text} (h : f.Clear text) : ∀ w ∈ f.arguments, w.Clear := by
  intro w hw
  cases f with
  | begin noise modes => exact (List.mem_append.1 hw).elim (noise_clear noise w) (modeWords_clear modes w)
  | start modes =>
    rcases List.mem_cons.1 hw with rfl | hw
    · exact ⟨by simp, by decide⟩
    · exact modeWords_clear modes w hw
  | commit verb ok noise chain => exact (List.mem_append.1 hw).elim (noise_clear noise w) (chain_clear chain w)
  | rollback verb ok noise chain => exact (List.mem_append.1 hw).elim (noise_clear noise w) (chain_clear chain w)
  | savepoint i => simp only [Form.arguments, List.mem_singleton] at hw; subst hw; exact h.2.1
  | release keyword i =>
    rcases List.mem_append.1 hw with hw | hw
    · exact keywordSavepoint_clear keyword w hw
    · simp only [List.mem_singleton] at hw; subst hw; exact h.2.1
  | rollbackTo noise keyword i =>
    rcases List.mem_append.1 hw with hw | hw
    · exact noise_clear noise w hw
    rcases List.mem_cons.1 hw with rfl | hw
    · exact ⟨by simp, by decide⟩
    rcases List.mem_append.1 hw with hw | hw
    · exact keywordSavepoint_clear keyword w hw
    · simp only [List.mem_singleton] at hw; subst hw; exact h.2.1

theorem Form.verb_upper (f : Form) : f.verb ≠ [] ∧ f.verb.all Char.isUpper = true ∧ f.verb.length ≤ 9 := by
  have hverbs : ∀ v ∈ ["BEGIN", "START", "COMMIT", "END", "ROLLBACK", "ABORT", "SAVEPOINT", "RELEASE"].map
      String.toList, v ≠ [] ∧ v.all Char.isUpper = true ∧ v.length ≤ 9 := by decide
  refine hverbs _ ?_
  cases f with
  | commit verb ok _ _ => rcases ok with rfl | rfl <;> exact List.mem_map_of_mem (by simp)
  | rollback verb ok _ _ => rcases ok with rfl | rfl <;> exact List.mem_map_of_mem (by simp)
  | _ => exact List.mem_map_of_mem (by simp)

namespace Plain

variable {p : Plain}

/-- The text after the first word. -/
def tail (p : Plain) : Text := p.rest.flatMap fun (blanks, word) => blanks ++ word

theorem isBlank_isSpace {c : Char} (h : isBlank c = true) : isSpace c = true := by
  simp only [isBlank, Bool.or_eq_true, beq_iff_eq, Bool.and_eq_true, decide_eq_true_eq] at h
  simp only [isSpace, Bool.or_eq_true, Bool.and_eq_true, decide_eq_true_eq, beq_iff_eq]
  rcases h with rfl | h
  · decide
  · omega

theorem first_letters (p : Plain) : Letters p.first := letters_of_upper p.spelledFirst p.form.verb_upper.2.1

theorem first_ne_nil (p : Plain) : p.first ≠ [] := by
  intro h
  have := p.spelledFirst
  rw [h] at this
  exact p.form.verb_upper.1 this.symm

theorem first_isWord (p : Plain) : IsWord p.first :=
  ⟨p.first_ne_nil, fun c hc => letter_not_space (p.first_letters c hc)⟩

theorem exists_spelled {ws : List Word} {ts : List Text} (h : List.Forall₂ Word.Spelled ws ts) {t : Text}
    (ht : t ∈ ts) : ∃ w ∈ ws, w.Spelled t := by
  induction h with
  | nil => simp at ht
  | cons hw _ ih =>
    rcases List.mem_cons.1 ht with rfl | ht
    · exact ⟨_, List.mem_cons_self, hw⟩
    · obtain ⟨w, hmem, hs⟩ := ih ht
      exact ⟨w, List.mem_cons_of_mem _ hmem, hs⟩

theorem rest_words (h : ∀ w ∈ p.form.arguments, w.Clear) : ∀ q ∈ p.rest, IsWord q.2 ∧ ';' ∉ q.2 := by
  intro q hq
  obtain ⟨word, hw, hs⟩ := exists_spelled p.spelled (List.mem_map_of_mem hq)
  exact (h word hw).spelled hs

/-- The rest starts with a blank. -/
theorem split_first (y : Text) (hy : y <+: p.tail) : split (p.first ++ y) = p.first :: split y := by
  cases y with
  | nil => simp [split_word p.first_isWord]
  | cons d y =>
    have hd : isSpace d = true := by
      obtain ⟨z, hz⟩ := hy
      unfold tail at hz
      cases hr : p.rest with
      | nil => rw [hr] at hz; simp at hz
      | cons q rest =>
        obtain ⟨hne, hb⟩ := p.blanks q (by rw [hr]; exact List.mem_cons_self)
        rw [hr] at hz
        obtain ⟨b, w⟩ := q
        cases b with
        | nil => exact absurd rfl hne
        | cons e b =>
          simp only [List.flatMap_cons, List.cons_append, List.cons.injEq] at hz
          rw [hz.1]
          exact isBlank_isSpace (hb e List.mem_cons_self)
    rw [split_append_space hd, split_word p.first_isWord, split_space hd]
    rfl

/-- How the reader parses a plain statement: it may lose the words past its head. -/
theorem parse (h : ∀ w ∈ p.form.arguments, w.Clear) : ∃ ws,
    RlsTenants.parse (.str p.text) = some ⟨p.form.verb, p.first :: ws, false⟩ ∧
      IsCut ws (p.rest.map Prod.snd) ∧ (p.text.length ≤ sqlHead → ws = p.rest.map Prod.snd) := by
  have hwords := rest_words h
  have htext : p.text = p.first ++ p.tail := rfl
  have hall : split p.text = p.first :: p.rest.map Prod.snd := split_words p.first_isWord fun q hq =>
    ⟨⟨(p.blanks q hq).1, fun c hc => isBlank_isSpace ((p.blanks q hq).2 c hc)⟩, (hwords q hq).1⟩
  have htail : split p.tail = p.rest.map Prod.snd := by
    rw [htext, split_first p.tail List.prefix_rfl] at hall
    exact (List.cons.inj hall).2
  have hlen : p.first.length ≤ sqlHead := by
    have := p.form.verb_upper.2.2
    rw [← p.spelledFirst, List.length_map] at this
    exact this.trans (by decide)
  have hhead : head p.text = p.first ++ p.tail.take (sqlHead - p.first.length) := by
    obtain ⟨c, t, hc⟩ := List.exists_cons_of_ne_nil p.first_ne_nil
    have hcl : c.toUpper.isUpper = true := p.first_letters c (by rw [hc]; exact List.mem_cons_self)
    have hh := head_letter (letter_not_space hcl) (letter_ne hcl (by decide)) (letter_ne hcl (by decide))
      (t ++ p.tail)
    rw [← List.cons_append, ← hc, List.take_append, List.take_of_length_le hlen] at hh
    exact hh
  have hcomp : isCompound p.text = false := by
    refine isCompound_false fun hm => ?_
    rcases List.mem_append.1 hm with hm | hm
    · exact p.first_letters.not_mem (by decide) hm
    · obtain ⟨q, hq, hm⟩ := List.mem_flatMap.1 hm
      rcases List.mem_append.1 hm with hm | hm
      · exact absurd ((p.blanks q hq).2 _ hm) (by decide)
      · exact (hwords q hq).2 hm
  refine ⟨split (p.tail.take (sqlHead - p.first.length)), ?_, htail ▸ split_take _ _, fun hle => ?_⟩
  · simp only [RlsTenants.parse, SqlObject.text?, Option.bind_some, parseText, hhead,
      split_first _ (List.take_prefix _ _), hcomp]
    rw [rstripSemicolons_of_not_mem (p.first_letters.not_mem (by decide)), p.first_letters.upper, p.spelledFirst]
  · rw [List.take_of_length_le, htail]
    rw [htext, List.length_append] at hle
    omega

/-! ### What the words say -/

/-- The words that may follow the verb of a statement without a savepoint. -/
def trailing : List Text := ["WORK", "TRANSACTION", "AND", "NO", "CHAIN"].map String.toList

theorem trailing_spec : ∀ k ∈ trailing, k.all Char.isUpper = true ∧ ¬"PREPARED".toList <+: k ∧ ¬"TO".toList <+: k := by
  decide

theorem noise_trailing (noise : Option Noise) : ∀ w ∈ Noise.words noise, ∃ k ∈ trailing, w = .keyword k := by
  rcases noise with _ | _ | _ <;> simp [Noise.words, trailing]

theorem chain_trailing (chain : Option Bool) : ∀ w ∈ chainWords chain, ∃ k ∈ trailing, w = .keyword k := by
  rcases chain with _ | _ | _ <;> simp [chainWords, trailing]

theorem ends_trailing (noise : Option Noise) (chain : Option Bool) :
    ∀ w ∈ Noise.words noise ++ chainWords chain, ∃ k ∈ trailing, w = .keyword k := fun w hw =>
  (List.mem_append.1 hw).elim (noise_trailing noise w) (chain_trailing chain w)

/-- A word of a statement without a savepoint, as far as it is read. -/
theorem cut_trailing {args : List Word} {ts vs : List Text} (hs : List.Forall₂ Word.Spelled args ts)
    (hargs : ∀ w ∈ args, ∃ k ∈ trailing, w = .keyword k) (hcut : IsCut vs ts) :
    ∀ v ∈ vs, upper (identifier v) ≠ "PREPARED".toList ∧ upper v ≠ "TO".toList := by
  intro v hv
  obtain ⟨t, ht, hp⟩ := hcut.mem hv
  obtain ⟨w, hw, hsp⟩ := exists_spelled hs ht
  obtain ⟨k, hk, rfl⟩ := hargs w hw
  obtain ⟨hup, hprep, hto⟩ := trailing_spec k hk
  obtain ⟨h1, h2⟩ := keyword_upper hsp hup hp
  exact ⟨fun h => hprep (h ▸ h2), fun h => hto (h ▸ h1)⟩

/-- A word that may be a mode's, or stand before one. -/
def IsModeWord (w : Word) : Prop := ∃ k, (w = .keyword k ∨ w = .listed k) ∧ Unprepared k

theorem modeWords_isModeWord (modes : List TransactionMode) : ∀ w ∈ modeWords modes, IsModeWord w :=
  forall_modeWords (fun m => ⟨fun k hk => ⟨k, .inl rfl, m.unprepared.1 k hk⟩,
    ⟨_, .inl rfl, m.unprepared.2⟩, ⟨_, .inr rfl, m.unprepared.2⟩⟩) modes

theorem noise_isModeWord (noise : Option Noise) : ∀ w ∈ Noise.words noise, IsModeWord w := by
  intro w hw
  obtain ⟨k, hk, rfl⟩ := noise_trailing noise w hw
  have hne : k ≠ [] := by
    rintro rfl
    exact absurd hk (by decide)
  exact ⟨k, .inl rfl, ⟨hne, (trailing_spec k hk).1⟩, (trailing_spec k hk).2.1⟩

/-- The reader keeps the comma after a word. -/
theorem comma_mem (u : Text) : ',' ∈ upper (identifier (u ++ [','])) := by
  have hstrip : rstripSemicolons (u ++ [',']) = u ++ [','] := by
    rw [rstripSemicolons, List.rdropWhile_concat]
    rfl
  rw [identifier, hstrip, if_neg (by simp), asciiLower, List.map_append, upper, List.flatMap_append]
  exact List.mem_append_right _ (by decide)

/-- A word of a mode, as far as it is read. -/
theorem cut_mode {args : List Word} {ts vs : List Text} (hs : List.Forall₂ Word.Spelled args ts)
    (hargs : ∀ w ∈ args, IsModeWord w) (hcut : IsCut vs ts) :
    ∀ v ∈ vs, upper (identifier v) ≠ "PREPARED".toList := by
  intro v hv h
  obtain ⟨t, ht, hp⟩ := hcut.mem hv
  obtain ⟨w, hw, hsp⟩ := exists_spelled hs ht
  obtain ⟨k, hk, ⟨-, hup⟩, hprep⟩ := hargs w hw
  have hkeyword : ∀ t' : Text, t'.map Char.toUpper = k → ¬v <+: t' := fun t' ht' hv' =>
    hprep (h ▸ (keyword_upper ht' hup hv').2)
  rcases hk with rfl | rfl
  · exact hkeyword t hsp hp
  · rcases hsp with hsp | ⟨t', rfl, hsp⟩
    · exact hkeyword t hsp hp
    · rcases List.prefix_concat_iff.1 hp with rfl | hp
      · exact absurd (h ▸ comma_mem t') (by decide)
      · exact hkeyword t' hsp hp

/-- The first argument of a statement is not `PREPARED`. -/
theorem argument_ne {command first : Text} {vs : List Text} {b : Bool}
    (h : ∀ v, vs.head? = some v → upper (identifier v) ≠ "PREPARED".toList) :
    (⟨command, first :: vs, b⟩ : Statement).argument ≠ "PREPARED".toList := by
  cases vs with
  | nil => simp [Statement.argument]
  | cons v vs => exact h v rfl

theorem argument_keyword {w k : Text} (hw : w.map Char.toUpper = k)
    (hk : k.all Char.isUpper = true ∧ ¬"PREPARED".toList <+: k) : upper (identifier w) ≠ "PREPARED".toList :=
  fun h => hk.2 (h ▸ (keyword_upper hw hk.1 List.prefix_rfl).2)

theorem upper_keyword {w k : Text} (hw : w.map Char.toUpper = k) (hk : k.all Char.isUpper = true) : upper w = k := by
  rw [(letters_of_upper hw hk).upper, hw]

end Plain

namespace Plain

section Savepoints

variable {i : Ident} {first : Text} {ws : List Text}

theorem upper_first {k : Text} (h : first.map Char.toUpper = k) (hk : k.all Char.isUpper = true) :
    (first :: ws).map upper = k :: ws.map upper := by
  rw [List.map_cons, upper_keyword h hk]

theorem idxOf_first (k : Text) (ts : List Text) : (k :: ts).idxOf k = 0 := by simp

/-- The name that stands last, where the reader looks for it. -/
theorem savepointName_at {ws : List Text} {after : Text} {n : ℕ} {v : Text}
    (hn : (ws.map upper).idxOf after + 1 = n) (hlast : ws[n]? = some v) (hlen : n + 1 = ws.length)
    (hv : after ≠ "SAVEPOINT".toList → upper v ≠ "SAVEPOINT".toList) :
    savepointName ws after = some (identifier v) := by
  have hc : ¬(after ≠ "SAVEPOINT".toList ∧ (ws[n]?).map upper = some "SAVEPOINT".toList) := by
    rintro ⟨h1, h2⟩
    rw [hlast] at h2
    exact hv h1 (Option.some.inj h2)
  simp only [savepointName, hn]
  rw [if_neg hc, if_pos hlen, hlast, Option.map_some]

/-- The name after the word `SAVEPOINT`. -/
theorem savepointName_after {ws : List Text} {after : Text} {n : ℕ} {k v : Text}
    (hn : (ws.map upper).idxOf after + 1 = n) (ha : after ≠ "SAVEPOINT".toList)
    (hk : ws[n]? = some k) (hk' : upper k = "SAVEPOINT".toList) (hlast : ws[n + 1]? = some v)
    (hlen : n + 1 + 1 = ws.length) : savepointName ws after = some (identifier v) := by
  have hc : after ≠ "SAVEPOINT".toList ∧ (ws[n]?).map upper = some "SAVEPOINT".toList :=
    ⟨ha, by rw [hk]; exact congrArg some hk'⟩
  simp only [savepointName, hn]
  rw [if_pos hc, if_pos hlen, hlast, Option.map_some]

end Savepoints

theorem forall₂_append {α β : Type} {R : α → β → Prop} {as as' : List α} {bs : List β}
    (h : List.Forall₂ R (as ++ as') bs) :
    ∃ cs cs', bs = cs ++ cs' ∧ List.Forall₂ R as cs ∧ List.Forall₂ R as' cs' := by
  induction as generalizing bs with
  | nil => exact ⟨[], bs, rfl, .nil, h⟩
  | cons a as ih =>
    cases h with
    | cons hab h =>
      obtain ⟨cs, cs', rfl, h1, h2⟩ := ih h
      exact ⟨_ :: cs, cs', rfl, .cons hab h1, h2⟩

/-- **Clear plain statements are legible.** -/
theorem legible (p : Plain) (h : p.form.Clear p.text) :
    ∃ st, RlsTenants.parse (.str p.text) = some st ∧ Legible st p.form.command := by
  obtain ⟨ws, hp, hcut, hfull⟩ := Plain.parse h.arguments
  refine ⟨_, hp, ?_⟩
  clear hp
  obtain ⟨form, first, rest, hfirst, hspelled, hblanks, hshort⟩ := p
  generalize Plain.text _ = text at h hfull
  dsimp only at hcut hfull hfirst hspelled h ⊢
  cases form with
  | begin noise modes =>
    have hargs : ∀ w ∈ Noise.words noise ++ modeWords modes, IsModeWord w := fun w hw =>
      (List.mem_append.1 hw).elim (noise_isModeWord noise w) (modeWords_isModeWord modes w)
    exact ⟨rfl, argument_ne fun v hv => cut_mode hspelled hargs hcut v (List.mem_of_mem_head? hv), .inl rfl⟩
  | start modes =>
    have hargs : ∀ w ∈ .keyword "TRANSACTION".toList :: modeWords modes, IsModeWord w := by
      intro w hw
      rcases List.mem_cons.1 hw with rfl | hw
      · exact noise_isModeWord (some .transaction) _ (by simp [Noise.words])
      · exact modeWords_isModeWord modes w hw
    exact ⟨rfl, argument_ne fun v hv => cut_mode hspelled hargs hcut v (List.mem_of_mem_head? hv), .inr rfl⟩
  | commit verb ok noise chain =>
    exact ⟨rfl, argument_ne fun v hv => (cut_trailing hspelled (ends_trailing noise chain) hcut v
      (List.mem_of_mem_head? hv)).1, ok⟩
  | rollback verb ok noise chain =>
    have hw := cut_trailing hspelled (ends_trailing noise chain) hcut
    refine ⟨rfl, argument_ne fun v hv => (hw v (List.mem_of_mem_head? hv)).1, ok, ?_⟩
    have hup : (first :: ws).map upper = verb :: ws.map upper := by
      refine upper_first hfirst ?_
      rcases ok with rfl | rfl <;> decide
    have hto : "TO".toList ∉ (first :: ws).map upper := by
      rw [hup]
      intro hm
      rcases List.mem_cons.1 hm with hm | hm
      · rcases ok with rfl | rfl <;> revert hm <;> decide
      · obtain ⟨v, hv, he⟩ := List.mem_map.1 hm
        exact (hw v hv).2 he
    simp only [Statement.rollsBackTo, Bool.and_eq_false_iff, List.contains_eq_mem, decide_eq_false_iff_not]
    exact .inr hto
  | savepoint i =>
    obtain rfl := hfull h.1
    have hid := h.2.1.identifier (hshort i rfl)
    generalize rest.map Prod.snd = ws at hspelled ⊢
    cases hspelled with
    | cons hw hnil =>
      cases hnil
      obtain rfl : _ = i.written := hw
      refine ⟨rfl, argument_ne fun v hv => ?_, rfl, ?_⟩
      · obtain rfl := Option.some.inj hv
        rw [hid]
        exact h.2.2
      · rw [savepointName_at (n := 1) (v := i.written) ?_ rfl rfl (fun h => absurd rfl h), hid]
        rw [upper_first (k := "SAVEPOINT".toList) hfirst (by decide)]
        exact congrArg (· + 1) (idxOf_first _ _)
  | release keyword i =>
    obtain rfl := hfull h.1
    have hid := h.2.1.identifier (hshort i rfl)
    have hidx : ∀ ws : List Text, ((first :: ws).map upper).idxOf "RELEASE".toList + 1 = 1 := fun ws => by
      rw [upper_first (k := "RELEASE".toList) hfirst (by decide)]
      exact congrArg (· + 1) (idxOf_first _ _)
    generalize rest.map Prod.snd = ws at hspelled ⊢
    cases keyword with
    | false =>
      cases hspelled with
      | cons hw hnil =>
        cases hnil
        obtain rfl : _ = i.written := hw
        refine ⟨rfl, argument_ne fun v hv => ?_, rfl, ?_⟩
        · obtain rfl := Option.some.inj hv
          rw [hid]
          exact (h.2.2 rfl).1
        · rw [savepointName_at (hidx _) (v := i.written) rfl rfl fun _ => (h.2.2 rfl).2, hid]
    | true =>
      cases hspelled with
      | cons hk hrest =>
        cases hrest with
        | cons hw hnil =>
          cases hnil
          obtain rfl : _ = i.written := hw
          refine ⟨rfl, argument_ne fun v hv => ?_, rfl, ?_⟩
          · obtain rfl := Option.some.inj hv
            exact argument_keyword hk (by decide)
          · rw [savepointName_after (hidx _) (by decide) rfl (upper_keyword hk (by decide)) rfl rfl,
              hid]
  | rollbackTo noise keyword i =>
    obtain rfl := hfull h.1
    have hid := h.2.1.identifier (hshort i rfl)
    generalize rest.map Prod.snd = ws at hspelled ⊢
    obtain ⟨ns, rest, rfl, hns, hrest⟩ := forall₂_append hspelled
    have hn := cut_trailing hns (noise_trailing noise) (IsCut.refl ns)
    cases hrest with
    | @cons _ w0 _ rest hto hrest =>
      have hup : upper w0 = "TO".toList := upper_keyword hto (by decide)
      have hmap : (first :: (ns ++ w0 :: rest)).map upper =
          ("ROLLBACK".toList :: ns.map upper) ++ "TO".toList :: rest.map upper := by
        rw [upper_first (k := "ROLLBACK".toList) hfirst (by decide), List.map_append, List.map_cons, hup,
          List.cons_append]
      have hnot : "TO".toList ∉ "ROLLBACK".toList :: ns.map upper := by
        intro hm
        rcases List.mem_cons.1 hm with hm | hm
        · revert hm; decide
        · obtain ⟨v, hv, he⟩ := List.mem_map.1 hm
          exact (hn v hv).2 he
      have hidx : ((first :: (ns ++ w0 :: rest)).map upper).idxOf "TO".toList + 1 = ns.length + 2 := by
        rw [hmap, List.idxOf_append_of_notMem hnot]
        simp
      have hget : ∀ m, (first :: (ns ++ w0 :: rest))[ns.length + 2 + m]? = rest[m]? := by
        intro m
        rw [show ns.length + 2 + m = (ns.length + 1 + m) + 1 by omega, List.getElem?_cons_succ,
          List.getElem?_append_right (by omega), show ns.length + 1 + m - ns.length = m + 1 by omega,
          List.getElem?_cons_succ]
      have hlen : (first :: (ns ++ w0 :: rest)).length = ns.length + 2 + rest.length := by simp; omega
      have hback : (⟨"ROLLBACK".toList, first :: (ns ++ w0 :: rest), false⟩ : Statement).rollsBackTo = true := by
        simp only [Statement.rollsBackTo, hmap, Bool.and_eq_true, decide_eq_true_eq, List.contains_eq_mem]
        exact ⟨trivial, by simp⟩
      have harg : (⟨"ROLLBACK".toList, first :: (ns ++ w0 :: rest), false⟩ : Statement).argument ≠
          "PREPARED".toList := by
        refine argument_ne fun v hv => ?_
        cases ns with
        | nil =>
          obtain rfl := Option.some.inj hv
          exact argument_keyword hto (by decide)
        | cons u us =>
          obtain rfl := Option.some.inj hv
          exact (hn u List.mem_cons_self).1
      refine ⟨rfl, harg, hback, ?_⟩
      show savepointName (first :: (ns ++ w0 :: rest)) "TO".toList = some i.name
      cases keyword with
      | false =>
        cases hrest with
        | cons hw hnil =>
          cases hnil
          obtain rfl : _ = i.written := hw
          rw [savepointName_at hidx (v := i.written) (hget 0) (by rw [hlen]; rfl) fun _ => h.2.2 rfl, hid]
      | true =>
        cases hrest with
        | cons hk hrest =>
          cases hrest with
          | cons hw hnil =>
            cases hnil
            obtain rfl : _ = i.written := hw
            rw [savepointName_after hidx (v := i.written) (by decide) (hget 0)
              (upper_keyword hk (by decide)) (hget 1) (by rw [hlen]; rfl), hid]

end Plain

end RlsTenants
