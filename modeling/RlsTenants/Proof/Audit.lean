import RlsTenants.Spec.Audit

/-!
# Audit messages read back

* `readValue_plain`: a value reads back, unless it is a bare string that starts with a
  quote; such a string never does (`readValue_bare`).
* **`faithful_iff`**: a message says what its record says exactly when no bare string in it
  starts with a quote.
-/

namespace RlsTenants

namespace Audit

open PyText

variable {U : Unicode}

/-! ## Values -/

/-- What follows a value: nothing, or a blank and the next field. -/
def Follows (t : Str) : Prop :=
  t = [] ∨ ∃ name w, t = ch ' ' :: (name ++ ch '=' :: w) ∧ ch '}' ∉ name

theorem Follows.head {t : Str} (h : Follows t) : ∀ c ∈ t.head?, c = ch ' ' := by
  rcases h with rfl | ⟨name, w, rfl, -⟩
  · intro c hc
    cases hc
  · intro c hc
    exact (Option.some.inj hc).symm

theorem Follows.no_quote {t : Str} (h : Follows t) : ∀ c ∈ t.head?, isQuote c = false := by
  intro c hc
  rw [h.head c hc]
  decide

/-- The texts that are not quoted: neither blanks nor line breaks are in them. -/
theorem not_space_of_bare {s : Str} (h : needsQuotes U s = false) : ∀ c ∈ s, isSpace c = false := by
  simp only [needsQuotes, Bool.or_eq_false_iff, List.any_eq_false] at h
  intro c hc
  exact Bool.eq_false_iff.mpr (h.2 c hc)

theorem isSpace_blank : isSpace (ch ' ') = true := by decide

theorem takeWhile_bare {s t : Str} (hs : ch ' ' ∉ s) (ht : ∀ c ∈ t.head?, c = ch ' ') :
    (s ++ t).takeWhile (· ≠ ch ' ') = s ∧ (s ++ t).dropWhile (· ≠ ch ' ') = t := by
  have hall : ∀ c ∈ s, decide (c ≠ ch ' ') = true := by
    intro c hc
    rw [decide_eq_true_eq]
    rintro rfl
    exact hs hc
  rw [List.takeWhile_append_of_pos hall, List.dropWhile_append_of_pos hall]
  cases t with
  | nil => simp
  | cons c t =>
    obtain rfl := ht c rfl
    simp

theorem head_append {s t : Str} (ht : ∀ c ∈ t.head?, isQuote c = false) (h : (s ++ t).head?.any isQuote = true) :
    s.head?.any isQuote = true := by
  cases s with
  | nil =>
    cases t with
    | nil => cases h
    | cons c t =>
      have hquote : isQuote c = true := h
      rw [ht c rfl] at hquote
      cases hquote
  | cons c s => exact h

/-- A text without blanks and quotes reads as itself. -/
theorem readValue_word {s t : Str} (hs : ch ' ' ∉ s) (hquote : s.head?.any isQuote = false) (ht : Follows t) :
    readValue U (s ++ t) = some (s, t) := by
  have hhead : ¬ (s ++ t).head?.any isQuote = true := by
    intro h
    rw [head_append ht.no_quote h] at hquote
    cases hquote
  obtain ⟨htake, hdrop⟩ := takeWhile_bare hs ht.head
  rw [readValue, if_neg hhead, htake, hdrop]

/-- A character that is visible in ASCII is no space. -/
theorem not_space_of_visible {c : CodePoint} (hlow : 33 ≤ c.val) (hhigh : c.val ≤ 126) : isSpace c = false := by
  simp only [isSpace, Bool.or_eq_false_iff, Bool.and_eq_false_iff, decide_eq_false_iff_not, beq_eq_false_iff_ne]
  omega

theorem word_of_isDigit {d : Char} (hd : d.isDigit) : isSpace (ch d) = false ∧ isQuote (ch d) = false := by
  have hrange : 48 ≤ (ch d).val ∧ (ch d).val ≤ 57 := by
    simp only [Char.isDigit, Bool.and_eq_true, decide_eq_true_eq] at hd
    exact hd
  refine ⟨not_space_of_visible (by omega) (by omega), ?_⟩
  have hquote : ch d ≠ ch '\'' ∧ ch d ≠ ch '"' := by
    constructor
    · intro h
      rw [h] at hrange
      revert hrange
      decide
    · intro h
      rw [h] at hrange
      revert hrange
      decide
  simp [isQuote, hquote]

theorem digits_of_repr (n : ℕ) : ∀ d ∈ n.repr.toList, d.isDigit := by
  intro d hd
  rw [Nat.repr, String.toList_ofList] at hd
  exact Nat.isDigit_of_mem_toDigits (by decide) (by decide) hd

/-- The texts of numbers, truth values and `None`: letters, digits and signs. -/
theorem text_chars {v : Value} (hv : ∀ s, v ≠ .str s) :
    ∀ c ∈ v.text, isSpace c = false ∧ isQuote c = false := by
  have hmap : ∀ s : String, (∀ d ∈ s.toList, isSpace (ch d) = false ∧ isQuote (ch d) = false) →
      ∀ c ∈ ofString s, isSpace c = false ∧ isQuote c = false := by
    intro s h c hc
    obtain ⟨d, hd, rfl⟩ := List.mem_map.mp hc
    exact h d hd
  have hall : ∀ s : String, (s.toList.all fun d => !isSpace (ch d) && !isQuote (ch d)) = true →
      ∀ d ∈ s.toList, isSpace (ch d) = false ∧ isQuote (ch d) = false := by
    intro s h d hd
    have hchar := List.all_eq_true.mp h d hd
    simpa using hchar
  cases v with
  | str s => exact absurd rfl (hv s)
  | int n =>
    apply hmap
    intro d hd
    rw [Int.toString_eq_repr, Int.repr_eq_if] at hd
    split at hd
    · exact word_of_isDigit (digits_of_repr _ d hd)
    · rw [String.toList_append, List.mem_append] at hd
      rcases hd with hd | hd
      · obtain rfl : d = '-' := by simpa using hd
        decide
      · exact word_of_isDigit (digits_of_repr _ d hd)
  | bool b =>
    apply hmap
    apply hall
    cases b <;> decide
  | none =>
    apply hmap
    apply hall
    decide

/-- **A value reads back**, unless it is a bare string that starts with a quote. -/
theorem readValue_plain {v : Value} (hv : v.Clear U) {t : Str} (ht : Follows t) :
    readValue U (plain U v ++ t) = some (v.text, t) := by
  have hword : (∀ s, v ≠ .str s) → readValue U (v.text ++ t) = some (v.text, t) := by
    intro hne
    have hchars := text_chars hne
    apply readValue_word _ _ ht
    · intro hmem
      have hspace := (hchars _ hmem).1
      rw [isSpace_blank] at hspace
      cases hspace
    · cases htext : v.text with
      | nil => rfl
      | cons c cs => exact (hchars c (by simp [htext])).2
  cases v with
  | str s =>
    by_cases hquotes : needsQuotes U s = true
    · have hhead : (repr U s ++ t).head?.any isQuote = true := isQuote_quoteOf s
      rw [plain, if_pos hquotes, readValue, if_pos hhead, readLiteral_repr ht.no_quote]
      rfl
    · rw [Bool.not_eq_true] at hquotes
      rw [plain, if_neg (by simp [hquotes])]
      apply readValue_word _ (hv hquotes) ht
      intro hmem
      have hspace := not_space_of_bare hquotes _ hmem
      rw [isSpace_blank] at hspace
      cases hspace
  | int n => exact hword (by simp)
  | bool b => exact hword (by simp)
  | none => exact hword (by simp)

/-- A literal does not read as a string that is longer than what stands between its quotes
and the blank. -/
theorem run_ne {long : Bool} {q : CodePoint} (hq : isQuote q) {s u t : Str} (hs : ch ' ' ∉ s) (hlonger : u.length < s.length)
    (ht : Follows t) {r : Str × Str} (h : run U long q .plain (u ++ t) = some r) : r.1 ≠ s := by
  intro heq
  have hlength := run_length h
  rw [heq, List.length_append] at hlength
  simp only [Mode.pending] at hlength
  rcases ht with rfl | ⟨name, w, rfl, hname⟩
  · rw [List.length_nil] at hlength
    omega
  · have hne : q ≠ ch ' ' := by
      rintro rfl
      revert hq
      decide
    rcases run_blank hne hname h with hblank | hrest
    · rw [heq] at hblank
      exact hs hblank
    · rw [List.length_cons] at hlength
      omega

/-- **A bare string that starts with a quote never reads back**: the literal that it starts
is shorter than itself, or runs over the blank after it. -/
theorem readValue_bare {v : Value} (hv : ¬ v.Clear U) {t : Str} (ht : Follows t) {r : Str × Str}
    (h : readValue U (plain U v ++ t) = some r) : r.1 ≠ v.text := by
  cases v with
  | str s =>
    obtain ⟨hbare, hquote⟩ := Classical.not_imp.mp hv
    rw [Bool.not_eq_false] at hquote
    have hblank : ch ' ' ∉ s := by
      intro hmem
      have hspace := not_space_of_bare hbare _ hmem
      rw [isSpace_blank] at hspace
      cases hspace
    rw [plain, if_neg (by simp [hbare])] at h
    cases s with
    | nil => cases hquote
    | cons q u =>
      have hq : isQuote q = true := hquote
      have hhead : (q :: u ++ t).head?.any isQuote = true := hquote
      rw [readValue, if_pos hhead, List.cons_append, readLiteral, hq] at h
      simp only [Bool.not_true, Bool.false_eq_true, if_false] at h
      by_cases hlong : (u ++ t).take 2 = [q, q]
      · rw [if_pos hlong] at h
        -- the two other quotes are in the string, for a blank follows it
        have hblankHead : ∀ c ∈ t.head?, c ≠ q := by
          rintro c hc rfl
          rw [ht.no_quote c hc] at hq
          cases hq
        have htwo : 2 ≤ u.length := by
          cases u with
          | nil =>
            cases t with
            | nil => simp at hlong
            | cons c t =>
              simp only [List.nil_append, List.take_succ_cons, List.cons.injEq] at hlong
              exact absurd hlong.1 (hblankHead c rfl)
          | cons d u =>
            cases u with
            | nil =>
              cases t with
              | nil => simp at hlong
              | cons c t =>
                simp only [List.cons_append, List.nil_append, List.take_succ_cons, List.cons.injEq] at hlong
                exact absurd hlong.2.1 (hblankHead c rfl)
            | cons e u =>
              simp only [List.length_cons]
              omega
        rw [List.drop_append_of_le_length htwo] at h
        apply run_ne hq hblank _ ht h
        rw [List.length_drop, List.length_cons]
        omega
      · rw [if_neg hlong] at h
        exact run_ne hq hblank (by simp) ht h
  | int n => exact absurd trivial hv
  | bool b => exact absurd trivial hv
  | none => exact absurd trivial hv

/-! ## Messages -/

theorem name_chars (name : FieldName) : ch '=' ∉ name.text ∧ ch '}' ∉ name.text ∧ ∀ c ∈ name.text, isSpace c = false := by
  have hok := name.ok
  rw [List.all_eq_true] at hok
  refine ⟨fun h => ?_, fun h => ?_, fun c hc => ?_⟩
  · exact absurd (hok _ h) (by decide)
  · exact absurd (hok _ h) (by decide)
  · have hchar := hok c hc
    unfold isIdentifierChar at hchar
    split at hchar
    · simp only [Bool.or_eq_true, Bool.and_eq_true, decide_eq_true_eq] at hchar
      rcases hchar with ((h | h) | h) | rfl
      · exact not_space_of_visible (by omega) (by omega)
      · exact not_space_of_visible (by omega) (by omega)
      · exact not_space_of_visible (by omega) (by omega)
      · decide
    · simpa using hchar

/-- The text of fields that are not `None`. -/
def fieldsText (U : Unicode) : Fields → Str
  | [] => []
  | [f] => f.1.text ++ ch '=' :: plain U f.2
  | f :: g :: fs => f.1.text ++ ch '=' :: (plain U f.2 ++ ch ' ' :: fieldsText U (g :: fs))

theorem message_eq (fields : Fields) : message U fields = fieldsText U (present fields) := by
  unfold message
  induction present fields with
  | nil => rfl
  | cons f fs ih =>
    cases fs with
    | nil => simp [fieldsText]
    | cons g fs =>
      rw [List.map_cons] at ih
      rw [List.map_cons, List.map_cons, List.intercalate_cons_cons, ih]
      simp [fieldsText]

/-- What follows the first of the fields. -/
def afterFirst (U : Unicode) (fs : Fields) : Str := if fs.isEmpty then [] else ch ' ' :: fieldsText U fs

theorem fieldsText_cons (f : FieldName × Value) (fs : Fields) :
    fieldsText U (f :: fs) = f.1.text ++ ch '=' :: (plain U f.2 ++ afterFirst U fs) := by
  cases fs with
  | nil => simp [fieldsText, afterFirst]
  | cons g fs => rfl

theorem follows_afterFirst (fs : Fields) : Follows (afterFirst U fs) := by
  cases fs with
  | nil => exact .inl rfl
  | cons g fs =>
    right
    refine ⟨g.1.text, plain U g.2 ++ afterFirst U fs, ?_, (name_chars g.1).2.1⟩
    rw [← fieldsText_cons]
    rfl

theorem read_name (name : FieldName) (t : Str) : (name.text ++ ch '=' :: t).takeWhile (· ≠ ch '=') = name.text ∧
    (name.text ++ ch '=' :: t).dropWhile (· ≠ ch '=') = ch '=' :: t := by
  have hall : ∀ c ∈ name.text, decide (c ≠ ch '=') = true := by
    intro c hc
    rw [decide_eq_true_eq]
    rintro rfl
    exact (name_chars name).1 hc
  rw [List.takeWhile_append_of_pos hall, List.dropWhile_append_of_pos hall]
  simp

section Step

variable {n : ℕ} {f : FieldName × Value} {fs : Fields} {text : Str}

/-- A field whose value does not read. -/
theorem readFields_none (h : readValue U (plain U f.2 ++ afterFirst U fs) = none) :
    readFields U (n + 1) (fieldsText U (f :: fs)) = none := by
  obtain ⟨-, hdrop⟩ := read_name f.1 (plain U f.2 ++ afterFirst U fs)
  rw [fieldsText_cons, readFields, hdrop]
  simp only [h]

/-- The last field. -/
theorem readFields_last (h : readValue U (plain U f.2 ++ afterFirst U fs) = some (text, [])) :
    readFields U (n + 1) (fieldsText U (f :: fs)) = some [(f.1.text, text)] := by
  obtain ⟨htake, hdrop⟩ := read_name f.1 (plain U f.2 ++ afterFirst U fs)
  rw [fieldsText_cons, readFields, htake, hdrop]
  simp only [h]

/-- A field that others follow. -/
theorem readFields_more {c : CodePoint} {more : Str}
    (h : readValue U (plain U f.2 ++ afterFirst U fs) = some (text, c :: more)) :
    readFields U (n + 1) (fieldsText U (f :: fs)) =
      if c = ch ' ' then (readFields U n more).map ((f.1.text, text) :: ·) else none := by
  obtain ⟨htake, hdrop⟩ := read_name f.1 (plain U f.2 ++ afterFirst U fs)
  rw [fieldsText_cons, readFields, htake, hdrop]
  simp only [h]

/-- A bare string that starts with a quote is not read as itself. -/
theorem readFields_bare (hclear : ¬ f.2.Clear U) {others : List (Str × Str)} :
    readFields U (n + 1) (fieldsText U (f :: fs)) ≠ some ((f.1.text, f.2.text) :: others) := by
  intro h
  cases hread : readValue U (plain U f.2 ++ afterFirst U fs) with
  | none =>
    rw [readFields_none hread] at h
    cases h
  | some r =>
    have htext := readValue_bare hclear (follows_afterFirst fs) hread
    obtain ⟨text, rest⟩ := r
    cases rest with
    | nil =>
      rw [readFields_last hread] at h
      have hfirst := (List.cons.inj (Option.some.inj h)).1
      exact htext (Prod.mk.inj hfirst).2
    | cons c more =>
      rw [readFields_more hread] at h
      split at h
      · obtain ⟨others', -, hcons⟩ := Option.map_eq_some_iff.mp h
        have hfirst := (List.cons.inj hcons).1
        exact htext (Prod.mk.inj hfirst).2
      · cases h

end Step

/-- **The fields read back** exactly when no bare string starts with a quote. -/
theorem readFields_iff {n : ℕ} {f : FieldName × Value} {fs : Fields} (hn : fs.length < n) :
    readFields U n (fieldsText U (f :: fs)) = some ((f :: fs).map fun f => (f.1.text, f.2.text)) ↔
      ∀ g ∈ f :: fs, g.2.Clear U := by
  induction fs generalizing n f with
  | nil =>
    obtain ⟨n, rfl⟩ : ∃ m, n = m + 1 := ⟨n - 1, by omega⟩
    by_cases hclear : f.2.Clear U
    · have hread : readValue U (plain U f.2 ++ afterFirst U []) = some (f.2.text, []) := readValue_plain hclear (.inl rfl)
      rw [readFields_last hread]
      simp [hclear]
    · simp only [List.map_cons, List.forall_mem_cons, hclear, false_and, iff_false]
      exact readFields_bare hclear
  | cons g fs ih =>
    obtain ⟨n, rfl⟩ : ∃ m, n = m + 1 := ⟨n - 1, by omega⟩
    have hrest : fs.length < n := by
      rw [List.length_cons] at hn
      omega
    rw [List.forall_mem_cons, ← ih hrest]
    by_cases hclear : f.2.Clear U
    · have hread : readValue U (plain U f.2 ++ afterFirst U (g :: fs)) =
          some (f.2.text, ch ' ' :: fieldsText U (g :: fs)) := readValue_plain hclear (follows_afterFirst (g :: fs))
      rw [readFields_more hread, if_pos rfl]
      simp [hclear]
    · simp only [List.map_cons, hclear, false_and, iff_false]
      exact readFields_bare hclear

/-! ## One line -/

theorem space_of_lineBreak {c : CodePoint} (h : isLineBreak c = true) : isSpace c = true := by
  simp only [isLineBreak, isSpace, Bool.or_eq_true, Bool.and_eq_true, decide_eq_true_eq, beq_iff_eq] at h ⊢
  omega

theorem not_lineBreak_of_visible {c : CodePoint} (hlow : 32 ≤ c.val) (hhigh : c.val ≤ 126) : isLineBreak c = false := by
  simp only [isLineBreak, Bool.or_eq_false_iff, Bool.and_eq_false_iff, decide_eq_false_iff_not, beq_eq_false_iff_ne]
  omega

theorem hexDigits_line (k n : ℕ) : ∀ c ∈ hexDigits k n, isLineBreak c = false := by
  have hall : ∀ m : Fin 16, isLineBreak (hexDigit m.val) = false := by decide
  induction k with
  | zero => simp [hexDigits]
  | succ k ih =>
    intro c hc
    rcases List.mem_cons.mp hc with rfl | hc
    · exact hall ⟨n / 16 ^ k % 16, Nat.mod_lt _ (by decide)⟩
    · exact ih c hc

theorem escape_line {u : CodePoint} {ds : Str} (hu : isLineBreak u = false) (hds : ∀ c ∈ ds, isLineBreak c = false) :
    ∀ c ∈ ch '\\' :: u :: ds, isLineBreak c = false := by
  intro c hc
  rcases List.mem_cons.mp hc with rfl | hc
  · decide
  rcases List.mem_cons.mp hc with rfl | hc
  · exact hu
  · exact hds c hc

theorem reprChar_line {q c : CodePoint} (hq : isQuote q) : ∀ d ∈ reprChar U q c, isLineBreak d = false := by
  have hquote : isLineBreak q = false := by
    simp only [isQuote, Bool.or_eq_true, decide_eq_true_eq] at hq
    rcases hq with rfl | rfl <;> decide
  have hnil : ∀ d ∈ ([] : Str), isLineBreak d = false := by simp
  unfold reprChar
  split_ifs with h1 h2 h3 h4 h5 h6 h7 h8
  · rcases h1 with rfl | rfl
    · exact escape_line hquote hnil
    · exact escape_line (by decide) hnil
  · exact escape_line (by decide) hnil
  · exact escape_line (by decide) hnil
  · exact escape_line (by decide) hnil
  · exact escape_line (by decide) (hexDigits_line _ _)
  · intro d hd
    obtain rfl := List.mem_singleton.mp hd
    rcases h6 with h6 | h6
    · exact not_lineBreak_of_visible (by omega) (by omega)
    · -- a line break is no printable character
      by_contra hbreak
      rw [Bool.not_eq_false] at hbreak
      have hblank : d ≠ ch ' ' := by
        rintro rfl
        revert hbreak
        decide
      have hprintable := U.space_not_printable d (space_of_lineBreak hbreak) hblank
      rw [h6] at hprintable
      cases hprintable
  · exact escape_line (by decide) (hexDigits_line _ _)
  · exact escape_line (by decide) (hexDigits_line _ _)
  · exact escape_line (by decide) (hexDigits_line _ _)

theorem not_lineBreak_of_not_space {c : CodePoint} (h : isSpace c = false) : isLineBreak c = false := by
  by_contra hbreak
  rw [Bool.not_eq_false] at hbreak
  rw [space_of_lineBreak hbreak] at h
  cases h

theorem plain_line (v : Value) : ∀ c ∈ plain U v, isLineBreak c = false := by
  have htext : (∀ s, v ≠ .str s) → ∀ c ∈ v.text, isLineBreak c = false := fun hne c hc =>
    not_lineBreak_of_not_space (text_chars hne c hc).1
  cases v with
  | str s =>
    by_cases hquotes : needsQuotes U s = true
    · rw [plain, if_pos hquotes]
      have hq := isQuote_quoteOf s
      have hquote : isLineBreak (quoteOf s) = false := by
        simp only [isQuote, Bool.or_eq_true, decide_eq_true_eq] at hq
        rcases hq with h | h <;> rw [h] <;> decide
      intro c hc
      simp only [PyText.repr, List.cons_append, List.mem_cons, List.mem_append, List.mem_flatMap, List.not_mem_nil,
        or_false] at hc
      rcases hc with rfl | ⟨d, -, hd⟩ | rfl
      · exact hquote
      · exact reprChar_line hq c hd
      · exact hquote
    · rw [Bool.not_eq_true] at hquotes
      rw [plain, if_neg (by simp [hquotes])]
      exact fun c hc => not_lineBreak_of_not_space (not_space_of_bare hquotes c hc)
  | int n => exact htext (by simp)
  | bool b => exact htext (by simp)
  | none => exact htext (by simp)

theorem fieldsText_line (fields : Fields) : ∀ c ∈ fieldsText U fields, isLineBreak c = false := by
  induction fields with
  | nil => simp [fieldsText]
  | cons f fs ih =>
    intro c hc
    rw [fieldsText_cons] at hc
    rcases List.mem_append.mp hc with hc | hc
    · exact not_lineBreak_of_not_space ((name_chars f.1).2.2 c hc)
    rcases List.mem_cons.mp hc with rfl | hc
    · decide
    rcases List.mem_append.mp hc with hc | hc
    · exact plain_line f.2 c hc
    · cases fs with
      | nil => cases hc
      | cons g fs =>
        rcases List.mem_cons.mp hc with rfl | hc
        · decide
        · exact ih c hc

theorem message_line (fields : Fields) : ∀ c ∈ message U fields, isLineBreak c = false := by
  rw [message_eq]
  exact fieldsText_line _

/-! ## Messages that say what their records say -/

theorem length_le_fieldsText (fields : Fields) : fields.length ≤ (fieldsText U fields).length := by
  induction fields with
  | nil => simp
  | cons f fs ih =>
    rw [fieldsText_cons]
    cases fs with
    | nil =>
      simp only [List.length_append, List.length_cons, List.length_nil]
      omega
    | cons g fs =>
      have hafter : afterFirst U (g :: fs) = ch ' ' :: fieldsText U (g :: fs) := rfl
      simp only [hafter, List.length_append, List.length_cons] at ih ⊢
      omega

theorem clear_present {fields : Fields} : (∀ f ∈ present fields, f.2.Clear U) ↔ ∀ f ∈ fields, f.2.Clear U := by
  constructor
  · intro h f hf
    by_cases hnone : f.2 = .none
    · rw [hnone]
      trivial
    · exact h f (List.mem_filter.mpr ⟨hf, by simpa using hnone⟩)
  · exact fun h f hf => h f (List.mem_of_mem_filter hf)

/-- The message reads back exactly when no bare string starts with a quote. -/
theorem decode_message_iff {fields : Fields} :
    decode U (message U fields) = some (written fields) ↔ ∀ f ∈ fields, f.2.Clear U := by
  rw [← clear_present, message_eq, written]
  cases hpresent : present fields with
  | nil => simp [decode, fieldsText]
  | cons f fs =>
    have hne : (fieldsText U (f :: fs)).isEmpty = false := by
      rw [fieldsText_cons]
      simp
    have hfuel : fs.length < (fieldsText U (f :: fs)).length + 1 := by
      have hle := length_le_fieldsText (U := U) (f :: fs)
      rw [List.length_cons] at hle
      omega
    rw [decode, hne, if_neg (by decide)]
    exact readFields_iff hfuel

/-- **A message says what its record says** exactly when no bare string in the record starts
with a quote: otherwise that string reads as a literal that it is not. -/
theorem faithful_iff (U : Unicode) (fields : Fields) : Faithful U fields ↔ ∀ f ∈ fields, f.2.Clear U := by
  constructor
  · exact fun h => decode_message_iff.mp h.reads
  · exact fun h => ⟨decode_message_iff.mpr h, message_line fields⟩

/-- Tables that know the characters of ASCII, and no names. -/
def asciiTables : Unicode where
  printable c := c = ch ' ' || (33 ≤ c.val && c.val ≤ 126)
  named _ := none
  space_not_printable := by
    intro c hspace hblank
    by_contra hprintable
    simp only [hblank, decide_false, Bool.false_or, Bool.not_eq_false, Bool.and_eq_true, decide_eq_true_eq] at hprintable
    rw [not_space_of_visible hprintable.1 hprintable.2] at hspace
    cases hspace
  named_chars := by
    intro name c h
    cases h

/-- A client sends the header `'x`: the literal that it starts never ends. -/
theorem quote_in_header_forges : ¬ Faithful asciiTables (refuse (.int 7) (.str (ofString "'x")) .middleware .header).fields := by
  intro h
  have hnone : decode asciiTables (message asciiTables
      (refuse (.int 7) (.str (ofString "'x")) .middleware .header).fields) = none := by decide +kernel
  have hreads := h.reads
  rw [hnone] at hreads
  cases hreads

/-! ## Refused selections -/

theorem clear_of_head {s : Str} (h : s.head?.any isQuote = false) : (Value.str s).Clear U := fun _ => h

/-- The record of a refusal reads back as what the client sent allows. -/
theorem decode_refuse_iff {userId raw : Value} {source : Source} {via : Via} (huser : userId.Clear U) :
    decode U (message U (refuse userId raw source via).fields) = some (written (refuse userId raw source via).fields) ↔
      (shown raw).Clear U := by
  have hsource : (Value.str (ofString source.text)).Clear U := clear_of_head (by cases source <;> decide)
  have hvia : (Value.str (ofString via.text)).Clear U := clear_of_head (by cases via <;> decide)
  have hreason : (Value.str (ofString Reason.tenantNotSelectable.text)).Clear U := clear_of_head (by decide)
  rw [decode_message_iff]
  simp only [Record.fields, refuse, denied, List.cons_append, List.nil_append, List.forall_mem_cons, List.not_mem_nil,
    false_implies, implies_true, and_true, hsource, huser, hreason, hvia, true_and]
  exact ⟨fun h => h.2.2, fun h => ⟨trivial, trivial, h⟩⟩

end Audit

end RlsTenants
