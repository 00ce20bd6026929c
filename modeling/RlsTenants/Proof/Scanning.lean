import RlsTenants.Spec.Exempt
import RlsTenants.Proof.Reading

/-!
# The reader and the scanner

The reader and PostgreSQL's scanner go over the same text.

* `tokens_skip`: the comments that the reader skips are comments for the scanner, unless a
  carriage return ends one of them earlier, and what follows them is the same text, or one
  that starts at a character that only Python takes for a space (`Odd`).
* `tokens_head`: so the part of the text whose words are read starts where the first token
  does, also where the reader sees the start of the text only.
* `tokens_keyword`: a word that Python's upper case makes a keyword of starts a word of the
  scanner's, and `keyword_notMem` says which keywords that one is not.
-/

namespace RlsTenants.Exempt

open SqlLexer

/-! ## Comments -/

theorem tokens_settled {a : Text} (h : Settled a) (hc : ∀ t ∈ (run .plain a).2, isComment t = true) (b : Text) :
    tokens (a ++ b) = tokens b := by
  have hnone : (run .plain a).2.filter (fun t => !isComment t) = [] := by
    rw [List.filter_eq_nil_iff]
    intro t ht
    simp [hc t ht]
  rw [tokens, tokens, lex_settled h, Option.map_map]
  congr 1
  funext ts
  rw [Function.comp_apply, List.filter_append, hnone, List.nil_append]

theorem tokens_blank {c : Char} (hc : SqlLexer.isBlank c = true) (t : Text) : tokens (c :: t) = tokens t := by
  have hrun : run .plain [c] = (.plain, []) := by simp [run, step, stepPlain, hc]
  have hset : Settled [c] := by rw [Settled, hrun]
  exact tokens_settled hset (by simp [hrun]) t

theorem run_lineComment {body : Text} (h : ∀ c ∈ body, c ≠ '\n' ∧ c ≠ '\r') (read : List Char) :
    run (.lineComment read) body = (.lineComment (body.reverse ++ read), []) := by
  induction body generalizing read with
  | nil => rfl
  | cons c body ih =>
    obtain ⟨hn, hr⟩ := h c List.mem_cons_self
    have hstep : step (.lineComment read) c = (.lineComment (c :: read), []) := by simp [step, hn, hr]
    rw [run, hstep, ih fun d hd => h d (List.mem_cons_of_mem _ hd)]
    simp

/-- A line comment, with the newline that ends it. -/
theorem tokens_line {body : Text} (h : ∀ c ∈ body, c ≠ '\n' ∧ c ≠ '\r') (t : Text) :
    tokens ('-' :: '-' :: body ++ '\n' :: t) = tokens t := by
  have hopen : run .plain ['-', '-'] = (.lineComment [], []) := by decide
  have hrun : run .plain ('-' :: '-' :: body ++ ['\n']) = (.plain, [.comment body.reverse.reverse]) := by
    rw [show '-' :: '-' :: body ++ ['\n'] = ['-', '-'] ++ (body ++ ['\n']) from rfl, run_append, hopen, run_append,
      run_lineComment h]
    simp [run, step]
  have hset : Settled ('-' :: '-' :: body ++ ['\n']) := by rw [Settled, hrun]
  have heq : '-' :: '-' :: body ++ '\n' :: t = ('-' :: '-' :: body ++ ['\n']) ++ t := by simp
  rw [heq]
  exact tokens_settled hset (by rw [hrun]; simp [isComment]) t

/-- The scanner, in a block comment, ends it where the reader does. `pending` is the last
character read, if it may be half of a delimiter. -/
theorem run_block (cs : Text) : ∀ (depth : ℕ) (read : List Char),
    (skipBlock (depth + 1) cs = [] ∨ ∃ a text, cs = a ++ skipBlock (depth + 1) cs ∧
      run (.blockComment (depth + 1) true read) a = (.plain, [.comment text])) ∧
    ∀ pending : Char, skipBlock (depth + 1) (pending :: cs) = [] ∨ ∃ a text,
      cs = a ++ skipBlock (depth + 1) (pending :: cs) ∧
      run (.blockComment (depth + 1) false (pending :: read)) a = (.plain, [.comment text]) := by
  induction cs with
  | nil =>
    intro depth read
    refine ⟨.inl (by simp [skipBlock]), fun pending => .inl ?_⟩
    rw [skipBlock.eq_def]
    split <;> simp_all [skipBlock]
  | cons c cs ih =>
    intro depth read
    constructor
    · rcases (ih depth read).2 c with h | ⟨a, text, ha, hrun⟩
      · exact .inl h
      · refine .inr ⟨c :: a, text, by rw [List.cons_append, ← ha], ?_⟩
        rw [run, step]
        simpa using hrun
    · intro pending
      by_cases hopen : pending = '/' ∧ c = '*'
      · obtain ⟨rfl, rfl⟩ := hopen
        have hskip : skipBlock (depth + 1) ('/' :: '*' :: cs) = skipBlock (depth + 2) cs := by rw [skipBlock]
        rw [hskip]
        rcases (ih (depth + 1) ('*' :: '/' :: read)).1 with h | ⟨a, text, ha, hrun⟩
        · exact .inl h
        · refine .inr ⟨'*' :: a, text, by rw [List.cons_append, ← ha], ?_⟩
          rw [run, step]
          simpa using hrun
      · by_cases hclose : pending = '*' ∧ c = '/'
        · obtain ⟨rfl, rfl⟩ := hclose
          have hskip : skipBlock (depth + 1) ('*' :: '/' :: cs) = skipBlock depth cs := by rw [skipBlock]
          rw [hskip]
          cases depth with
          | zero =>
            refine .inr ⟨['/'], ('/' :: '*' :: read).reverse, by simp [skipBlock], ?_⟩
            simp [run, step]
          | succ depth =>
            rcases (ih depth ('/' :: '*' :: read)).1 with h | ⟨a, text, ha, hrun⟩
            · exact .inl h
            · refine .inr ⟨'/' :: a, text, by rw [List.cons_append, ← ha], ?_⟩
              rw [run, step]
              simpa using hrun
        · have hskip : skipBlock (depth + 1) (pending :: c :: cs) = skipBlock (depth + 1) (c :: cs) := by
            rw [skipBlock.eq_def]
            split <;> simp_all
          rw [hskip]
          rcases (ih depth (pending :: read)).2 c with h | ⟨a, text, ha, hrun⟩
          · exact .inl h
          · refine .inr ⟨c :: a, text, by rw [List.cons_append, ← ha], ?_⟩
            have hstep : step (.blockComment (depth + 1) false (pending :: read)) c
                = (.blockComment (depth + 1) false (c :: pending :: read), []) := by
              have h1 : ¬(c = '/' ∧ pending = '*') := fun h => hclose ⟨h.2, h.1⟩
              have h2 : ¬(c = '*' ∧ pending = '/') := fun h => hopen ⟨h.2, h.1⟩
              simp [step, h1, h2]
            rw [run, hstep]
            simpa using hrun

/-- A block comment. -/
theorem tokens_block {cs : Text} (h : skipBlock 1 cs ≠ []) (r : Text) :
    tokens ('/' :: '*' :: cs ++ r) = tokens (skipBlock 1 cs ++ r) := by
  rcases (run_block cs 0 []).1 with h' | ⟨a, text, ha, hrun⟩
  · exact absurd h' h
  · have hopen : run .plain ['/', '*'] = (.blockComment 1 true [], []) := by decide
    have hcomment : run .plain ('/' :: '*' :: a) = (.plain, [.comment text]) := by
      rw [show '/' :: '*' :: a = ['/', '*'] ++ a from rfl, run_append, hopen, hrun]
      simp
    have hset : Settled ('/' :: '*' :: a) := by rw [Settled, hcomment]
    have heq : '/' :: '*' :: cs ++ r = ('/' :: '*' :: a) ++ (skipBlock 1 cs ++ r) := by
      conv_lhs => rw [ha]
      simp
    rw [heq]
    exact tokens_settled hset (by simp [hcomment, isComment]) _

/-- A comment that ends does so whatever follows. -/
theorem skipBlock_append (cs r : Text) : ∀ depth, skipBlock depth cs ≠ [] →
    skipBlock depth (cs ++ r) = skipBlock depth cs ++ r := by
  intro depth
  fun_induction skipBlock depth cs with
  | case1 cs => intro _; rw [skipBlock]
  | case2 cs depth ih => intro h; rw [List.cons_append, List.cons_append, skipBlock]; exact ih h
  | case3 cs depth ih => intro h; rw [List.cons_append, List.cons_append, skipBlock]; exact ih h
  | case4 depth c cs h1 h2 ih =>
    intro h
    rw [List.cons_append, ← ih h]
    cases cs with
    | nil => simp [skipBlock] at h
    | cons d cs =>
      rw [skipBlock.eq_def]
      split <;> simp_all
  | case5 depth => intro h; exact absurd rfl h

/-! ## What the reader skips -/

/-- The text goes on, for the scanner, at a character that only Python takes for a space. -/
def Odd (text : Text) : Prop :=
  ∃ c rest, isSpace c = true ∧ SqlLexer.isBlank c = false ∧ tokens text = tokens (c :: rest)

theorem Odd.of_tokens {s t : Text} (h : tokens s = tokens t) (ht : Odd t) : Odd s := by
  obtain ⟨c, rest, hc, hb, hr⟩ := ht
  exact ⟨c, rest, hc, hb, h.trans hr⟩

theorem tokens_lstrip (h r : Text) : tokens (h ++ r) = tokens (lstrip h ++ r) ∨ Odd (h ++ r) := by
  induction h with
  | nil => exact .inl rfl
  | cons c h ih =>
    by_cases hc : isSpace c = true
    · have hstrip : lstrip (c :: h) = lstrip h := by simp [lstrip, hc]
      cases hb : SqlLexer.isBlank c with
      | true =>
        have hblank : tokens (c :: h ++ r) = tokens (h ++ r) := tokens_blank hb _
        rw [hstrip, hblank]
        exact ih.imp id fun ho => ho.of_tokens hblank
      | false => exact .inr ⟨c, h ++ r, hc, hb, rfl⟩
    · have hstrip : lstrip (c :: h) = c :: h := by simp [lstrip, hc]
      exact .inl (by rw [hstrip])

theorem lstrip_append {h : Text} (hne : lstrip h ≠ []) (r : Text) : lstrip (h ++ r) = lstrip h ++ r := by
  induction h with
  | nil => exact absurd rfl hne
  | cons c h ih =>
    by_cases hc : isSpace c = true
    · have hstrip : ∀ t, lstrip (c :: t) = lstrip t := fun t => by simp [lstrip, hc]
      rw [hstrip] at hne
      rw [List.cons_append, hstrip, hstrip, ih hne]
    · have hstrip : ∀ t, lstrip (c :: t) = c :: t := fun t => by simp [lstrip, hc]
      rw [List.cons_append, hstrip, hstrip, List.cons_append]

/-- A text in which the reader finds the end of a line. -/
theorem skipLine_split {cs : Text} (h : skipLine cs ≠ []) :
    cs = cs.takeWhile (· != '\n') ++ '\n' :: skipLine cs := by
  have hsplit := (List.takeWhile_append_dropWhile (p := (· != '\n')) (l := cs)).symm
  rw [skipLine] at h ⊢
  cases hd : cs.dropWhile (· != '\n') with
  | nil => simp [hd] at h
  | cons d ds =>
    have hn : d = '\n' := by
      have := List.head?_dropWhile_not (p := (· != '\n')) cs
      simpa [hd] using this
    rw [hd, hn] at hsplit
    simpa using hsplit

theorem skip_nil (n : ℕ) : skipLeadingCommentsFrom n [] = [] := by cases n <;> rfl

/-- **What the reader skips is skipped by the scanner**, whatever follows in the text: the
reader may see only the start `h` of a text `h ++ r`. -/
theorem tokens_skip (r : Text) : ∀ (n m : ℕ) (h : Text), n ≤ m → hidesReturnFrom m (h ++ r) = false →
    skipLeadingCommentsFrom n h ≠ [] →
    tokens (h ++ r) = tokens (skipLeadingCommentsFrom n h ++ r) ∨ Odd (h ++ r) := by
  intro n
  induction n with
  | zero => intro m h _ _ _; exact .inl rfl
  | succ n ih =>
    intro m h hm hret hne
    obtain ⟨m, rfl⟩ : ∃ m', m = m' + 1 := ⟨m - 1, by omega⟩
    rw [skipLeadingCommentsFrom.eq_def] at hne ⊢
    split at hne
    · omega
    · -- a line comment, which has its newline in `h`
      rename_i n' cs heq
      obtain rfl : n' = n := by omega
      have hline : skipLine cs ≠ [] := by
        intro h0
        rw [h0] at hne
        exact hne (skip_nil _)
      have hstrip : lstrip (skipLine cs) ≠ [] := by
        intro h0
        rw [h0] at hne
        exact hne (skip_nil _)
      have hcs := skipLine_split hline
      set body := cs.takeWhile (· != '\n') with hbody
      have hnl : ∀ c ∈ body, (c != '\n') = true := fun c hc => List.mem_takeWhile_imp (p := (· != '\n')) hc
      have htake : (cs ++ r).takeWhile (· != '\n') = body := by
        rw [hcs, List.append_assoc, List.takeWhile_append_of_pos hnl]
        simp
      have hskip : skipLine (cs ++ r) = skipLine cs ++ r := by
        conv_lhs => rw [hcs]
        rw [skipLine, List.append_assoc, List.dropWhile_append_of_pos hnl]
        simp
      rw [List.cons_append, List.cons_append, hidesReturnFrom, htake, hskip, lstrip_append hstrip,
        Bool.or_eq_false_iff] at hret
      have hstart : tokens ('-' :: '-' :: cs ++ r) = tokens (skipLine cs ++ r) := by
        have hret' : '\r' ∉ body := by simpa using hret.1
        have hchars : ∀ c ∈ body, c ≠ '\n' ∧ c ≠ '\r' :=
          fun c hc => ⟨by simpa using hnl c hc, fun h0 => hret' (h0 ▸ hc)⟩
        have := tokens_line hchars (skipLine cs ++ r)
        rw [← this]
        conv_lhs => rw [hcs]
        simp
      rcases tokens_lstrip (skipLine cs) r with h1 | h1
      · rcases ih m (lstrip (skipLine cs)) (by omega) hret.2 hne with h2 | h2
        · exact .inl ((hstart.trans h1).trans h2)
        · exact .inr (h2.of_tokens (hstart.trans h1))
      · exact .inr (h1.of_tokens hstart)
    · -- a block comment, which ends in `h`
      rename_i n' cs heq
      obtain rfl : n' = n := by omega
      have hblock : skipBlock 1 cs ≠ [] := by
        intro h0
        rw [h0] at hne
        exact hne (skip_nil _)
      have hstrip : lstrip (skipBlock 1 cs) ≠ [] := by
        intro h0
        rw [h0] at hne
        exact hne (skip_nil _)
      rw [List.cons_append, List.cons_append, hidesReturnFrom, skipBlock_append cs r 1 hblock,
        lstrip_append hstrip] at hret
      have hstart := tokens_block hblock r
      rcases tokens_lstrip (skipBlock 1 cs) r with h1 | h1
      · rcases ih m (lstrip (skipBlock 1 cs)) (by omega) hret hne with h2 | h2
        · exact .inl ((hstart.trans h1).trans h2)
        · exact .inr (h2.of_tokens (hstart.trans h1))
      · exact .inr (h1.of_tokens hstart)
    · exact .inl rfl

theorem tokens_leading {h r : Text} {m : ℕ} (hm : h.length ≤ m) (hret : hidesReturnFrom m (lstrip (h ++ r)) = false)
    (hne : skipLeadingComments h ≠ []) : tokens (h ++ r) = tokens (skipLeadingComments h ++ r) ∨ Odd (h ++ r) := by
  have hstrip : lstrip h ≠ [] := by
    intro h0
    rw [skipLeadingComments, h0] at hne
    exact hne (skip_nil _)
  rw [lstrip_append hstrip] at hret
  rcases tokens_lstrip h r with h1 | h1
  · rcases tokens_skip r h.length m (lstrip h) hm hret hne with h2 | h2
    · exact .inl (h1.trans h2)
    · exact .inr (h2.of_tokens h1)
  · exact .inr h1

/-- **The part of the text whose words are read** starts where the scanner starts. -/
theorem tokens_head {sql : Text} (hne : head sql ≠ []) (hret : hidesReturn sql = false) :
    ∃ r, tokens sql = tokens (head sql ++ r) ∨ Odd sql := by
  unfold head at hne ⊢
  by_cases hlong : skipLeadingComments (sql.take sqlHead) = [] ∧ sqlHead < sql.length
  · simp only [if_pos hlong] at hne ⊢
    have hskip : skipLeadingComments sql ≠ [] := by
      intro h0
      simp [h0] at hne
    refine ⟨(skipLeadingComments sql).drop sqlHead, ?_⟩
    rw [List.take_append_drop]
    have := tokens_leading (h := sql) (r := []) le_rfl (by rw [List.append_nil]; exact hret) hskip
    simpa using this
  · simp only [if_neg hlong] at hne ⊢
    refine ⟨sql.drop sqlHead, ?_⟩
    have := tokens_leading (h := sql.take sqlHead) (r := sql.drop sqlHead) (m := sql.length) (by simp)
      (by rw [List.take_append_drop]; exact hret) hne
    rwa [List.take_append_drop] at this

/-! ## Words -/

/-- The first word of a text, and what follows it. -/
theorem split_eq_cons {t w : Text} {ws : List Text} (h : split t = w :: ws) :
    ∃ rest, lstrip t = w ++ rest ∧ ws = split rest ∧ ∀ c, rest.head? = some c → isSpace c = true := by
  induction t generalizing w ws with
  | nil => simp at h
  | cons c t ih =>
    cases hc : isSpace c with
    | true =>
      rw [split_space hc] at h
      obtain ⟨rest, h1, h2, h3⟩ := ih h
      exact ⟨rest, by simpa [lstrip, hc] using h1, h2, h3⟩
    | false =>
      have hstrip : ∀ t, lstrip (c :: t) = c :: t := fun t => by simp [lstrip, hc]
      cases t with
      | nil =>
        rw [split_last hc, List.cons.injEq] at h
        obtain ⟨rfl, rfl⟩ := h
        exact ⟨[], by rw [hstrip]; rfl, by simp, by simp⟩
      | cons d t =>
        cases hd : isSpace d with
        | true =>
          rw [split_gap hc hd, List.cons.injEq] at h
          obtain ⟨rfl, rfl⟩ := h
          exact ⟨d :: t, by rw [hstrip]; rfl, rfl, by simpa using hd⟩
        | false =>
          obtain ⟨v, vs, hv⟩ := split_starts hd t
          rw [split_join hc hd hv, List.cons.injEq] at h
          obtain ⟨rfl, rfl⟩ := h
          obtain ⟨rest, h1, h2, h3⟩ := ih hv
          have hd' : lstrip (d :: t) = d :: t := by simp [lstrip, hd]
          exact ⟨rest, by rw [hstrip, ← hd', h1]; rfl, h2, h3⟩

/-- A word's first token: the word's letters are read on to the end of the token. -/
theorem tokens_word {c : Char} {p : Text} (hc : isWordStart c = true) (hp : ∀ d ∈ p, isWordChar d = true) (s : Text)
    (he : c :: p ++ s.takeWhile isWordChar ≠ ['e'] ∧ c :: p ++ s.takeWhile isWordChar ≠ ['E']) :
    tokens (c :: p ++ s) =
      (tokens (s.dropWhile isWordChar)).map (.word (c :: p ++ s.takeWhile isWordChar) :: ·) := by
  have hchars : ∀ d ∈ p ++ s.takeWhile isWordChar, isWordChar d = true := by
    intro d hd
    rcases List.mem_append.1 hd with h | h
    · exact hp d h
    · exact List.mem_takeWhile_imp h
  set x := c :: p ++ s.takeWhile isWordChar with hx
  have hrun : run .plain x = (.word x.reverse, []) := run_end_word hc hchars
  have heq : c :: p ++ s = x ++ s.dropWhile isWordChar := by
    conv_lhs => rw [← List.takeWhile_append_dropWhile (p := isWordChar) (l := s)]
    simp [hx]
  have hlex : lex (c :: p ++ s) = (lex (s.dropWhile isWordChar)).map (.word x :: ·) := by
    rw [heq, lex, run_append, hrun]
    cases hd : s.dropWhile isWordChar with
    | nil => simp [run, finish, lex]
    | cons d ds =>
      have hnot : isWordChar d = false := by
        have := List.head?_dropWhile_not isWordChar s
        simpa [hd] using this
      have hquote : ¬(d = '\'' ∧ (x.reverse = ['e'] ∨ x.reverse = ['E'])) := by
        rintro ⟨-, h | h⟩
        · exact he.1 (by simpa using congrArg List.reverse h)
        · exact he.2 (by simpa using congrArg List.reverse h)
      have hstep : step (.word x.reverse) d = ((stepPlain d).1, .word x :: (stepPlain d).2) := by
        simp only [step, stepWord, hnot, Bool.false_eq_true, if_false, if_neg hquote, emit, List.reverse_reverse]
      have hword : run (.word x.reverse) (d :: ds) =
          ((run .plain (d :: ds)).1, .word x :: (run .plain (d :: ds)).2) := by
        rw [run, hstep]
        rfl
      simp only [hword, lex, Option.map_map, List.nil_append]
      rfl
  rw [tokens, hlex, tokens, Option.map_map, Option.map_map]
  congr 1

theorem tokens_symbol {c : Char} (hc : stepPlain c = (.plain, [.symbol c])) (t : Text) :
    tokens (c :: t) = (tokens t).map (.symbol c :: ·) := by
  have hlex : lex (c :: t) = (lex t).map (.symbol c :: ·) := by
    simp only [lex, run, step, hc, Option.map_map]
    rfl
  rw [tokens, hlex, tokens, Option.map_map, Option.map_map]
  congr 1

/-! ## Keywords -/

theorem upperChar_upper {c : Char} (h : c.toUpper.isUpper = true) : upperChar c = [c.toUpper] := by
  unfold upperChar
  by_cases hl : c.isLower = true
  · rw [if_pos hl]
  · have hu : c.toUpper = c := by
      have hval : ¬('a'.val ≤ c.val ∧ c.val ≤ 'z'.val) := by
        intro hval
        exact hl (by simpa [Char.isLower] using hval)
      rw [Char.toUpper, dif_neg hval]
    rw [hu] at h
    have hrange : 65 ≤ c.toNat ∧ c.toNat ≤ 90 := by
      simp only [Char.isUpper, decide_eq_true_eq, UInt32.le_iff_toNat_le] at h
      exact h
    rw [if_neg hl, hu]
    split <;> first | omega | rfl

theorem toNat_of_toUpper {c : Char} (h : c.toUpper.isUpper = true) : c.toNat ≤ 127 := by
  by_cases hl : 'a'.val ≤ c.val ∧ c.val ≤ 'z'.val
  · have : c.val.toNat ≤ 122 := UInt32.le_iff_toNat_le.1 hl.2
    exact le_trans this (by omega)
  · rw [Char.toUpper, dif_neg hl] at h
    simp only [Char.isUpper, decide_eq_true_eq, UInt32.le_iff_toNat_le] at h
    have : c.toNat ≤ 90 := h.2
    omega

/-- What Python's upper case makes of the start of a keyword. -/
theorem upper_eq_keyword {p x q : Text} (hx : keyword x = q) (hq : q.all Char.isUpper = true) (hp : p <+: x) :
    upper p = keyword p := by
  have hall : ∀ c ∈ p, upperChar c = [c.toUpper] := by
    intro c hc
    have hmem : c.toUpper ∈ q := by
      rw [← hx]
      exact List.mem_map_of_mem (hp.subset hc)
    exact upperChar_upper (List.all_eq_true.1 hq _ hmem)
  rw [upper, keyword, List.flatMap_congr hall, List.map_eq_flatMap]

theorem upper_of_keyword {p x q : Text} (hx : keyword x = q) (hq : q.all Char.isUpper = true) (hp : p <+: x) :
    upper p <+: q := by
  rw [upper_eq_keyword hx hq hp, ← hx]
  exact hp.map _

/-- A character of which Python's upper case is in ASCII letters is part of a word. -/
theorem wordStart_of_upper {c : Char} (h : (upperChar c).all Char.isUpper = true) : isWordStart c = true := by
  unfold upperChar at h
  by_cases hl : c.isLower = true
  · simp [isWordStart, Char.isAlpha, hl]
  · rw [if_neg hl] at h
    have hbig : ∀ n : ℕ, c.toNat = n → 127 < n → isWordStart c = true := by
      intro n hn hlt
      have : '\x7f' < c := by
        show (127 : ℕ) < c.toNat
        omega
      simp [isWordStart, this]
    split at h
    all_goals first | exact hbig _ (by assumption) (by omega) | skip
    simp only [List.all_cons, List.all_nil, Bool.and_true] at h
    simp [isWordStart, Char.isAlpha, h]

/-- No keyword of the list goes on from `K`. -/
def Apart (keywords : List Text) (K : Text) : Bool :=
  K.all Char.isUpper && 1 < K.length && keywords.all fun q => q.all Char.isUpper && !K.isPrefixOf q

section Apart

variable {keywords : List Text} {K p x : Text}

theorem keyword_notMem (ha : Apart keywords K = true) (hK : upper p = K) (hp : p <+: x) : keyword x ∉ keywords := by
  intro hmem
  simp only [Apart, Bool.and_eq_true] at ha
  have hq := List.all_eq_true.1 ha.2 _ hmem
  simp only [Bool.and_eq_true, Bool.not_eq_true'] at hq
  have := upper_of_keyword rfl hq.1 hp
  rw [hK, ← List.isPrefixOf_iff_prefix, hq.2] at this
  cases this

/-- What the reader takes for a keyword starts a word of the scanner's. -/
theorem tokens_keyword (ha : Apart keywords K = true) (hK : upper p = K) (s : Text) :
    tokens (p ++ s) = (tokens (s.dropWhile isWordChar)).map (.word (p ++ s.takeWhile isWordChar) :: ·) := by
  simp only [Apart, Bool.and_eq_true, decide_eq_true_eq] at ha
  obtain ⟨⟨hup, hlen⟩, -⟩ := ha
  have hstart : ∀ c ∈ p, isWordStart c = true := by
    intro c hc
    refine wordStart_of_upper (List.all_eq_true.2 fun d hd => ?_)
    refine List.all_eq_true.1 hup d ?_
    rw [← hK]
    exact List.mem_flatMap.2 ⟨c, hc, hd⟩
  cases p with
  | nil =>
    rw [← hK] at hlen
    simp [upper] at hlen
  | cons c p =>
    have hsmall : upper ['e'] = ['E'] ∧ upper ['E'] = ['E'] := by decide
    have hone : ∀ e, c :: p ++ s.takeWhile isWordChar = [e] → c :: p = [e] := by
      intro e he
      rw [List.cons_append, List.cons.injEq] at he
      rw [he.1, (List.append_eq_nil_iff.1 he.2).1]
    refine tokens_word (hstart c List.mem_cons_self) (fun d hd => ?_) s ⟨fun he => ?_, fun he => ?_⟩
    · simp [isWordChar, hstart d (List.mem_cons_of_mem _ hd)]
    · rw [← hK, hone _ he, hsmall.1] at hlen
      simp at hlen
    · rw [← hK, hone _ he, hsmall.2] at hlen
      simp at hlen

end Apart

/-- The statement starts with no query, and with nothing that `CREATE` computes from one. -/
def Unqueried (ts : List Token) : Prop := Queries ts = false ∧ ts.head?.any isQueried = false

theorem unqueried_symbol {c : Char} (hc : c ≠ '(') (ts : List Token) : Unqueried (.symbol c :: ts) := by
  constructor
  · simp [Queries, hc]
  · simp [isQueried]

theorem queryCommands_upper : (queryCommands ++ ["CREATE".toList] ++ queriedObjects).all
    (fun q => q.all Char.isUpper) = true := by decide

theorem unqueried_word {x : Text} (h : ∀ q ∈ queryCommands ++ ["CREATE".toList] ++ queriedObjects, keyword x ≠ q)
    (ts : List Token) : Unqueried (.word x :: ts) := by
  have h1 : keyword x ∉ queryCommands := fun hq => h _ (List.mem_append_left _ (List.mem_append_left _ hq)) rfl
  have h2 : keyword x ≠ "CREATE".toList := h _ (List.mem_append_left _ (List.mem_append_right _ (by simp)))
  have h3 : keyword x ∉ queriedObjects := fun hq => h _ (List.mem_append_right _ hq) rfl
  constructor
  · rw [Queries, List.contains_eq_mem, decide_eq_false h1, decide_eq_false h2]
    rfl
  · simp [isQueried, h3]

/-- What only Python takes for a space: a control character, or one that is not in ASCII. -/
theorem stepPlain_odd {c : Char} (hc : isSpace c = true) (hb : SqlLexer.isBlank c = false) :
    127 < c.toNat ∨ stepPlain c = (.plain, [.symbol c]) := by
  by_cases hbig : 127 < c.toNat
  · exact .inl hbig
  · right
    have hofNat := Char.ofNat_toNat c
    revert hc hb
    rw [← hofNat]
    have hlt : c.toNat < 128 := by omega
    generalize c.toNat = n at hlt
    interval_cases n <;> decide

/-- **A character that only Python takes for a space** starts no keyword. -/
theorem Odd.unqueried {t : Text} (h : Odd t) {ts : List Token} (hts : tokens t = some ts) : Unqueried ts := by
  obtain ⟨c, rest, hc, hb, ht⟩ := h
  rw [ht] at hts
  rcases stepPlain_odd hc hb with hbig | hstep
  · have hlt : '\x7f' < c := hbig
    have hstart : isWordStart c = true := by simp [isWordStart, hlt]
    have hne : ∀ e : Char, e ≤ '\x7f' → c :: [] ++ rest.takeWhile isWordChar ≠ [e] := by
      intro e he h0
      rw [List.cons_append, List.cons.injEq] at h0
      exact absurd (h0.1 ▸ hlt) (not_lt.2 he)
    rw [show c :: rest = c :: [] ++ rest from rfl,
      tokens_word hstart (by simp) rest ⟨hne _ (by decide), hne _ (by decide)⟩] at hts
    obtain ⟨ts', -, rfl⟩ := Option.map_eq_some_iff.1 hts
    refine unqueried_word (fun q hq heq => ?_) ts'
    have hup := List.all_eq_true.1 queryCommands_upper q hq
    rw [← heq, keyword, List.cons_append, List.map_cons, List.all_cons, Bool.and_eq_true] at hup
    have hone := toNat_of_toUpper hup.1
    omega
  · rw [tokens_symbol hstep] at hts
    obtain ⟨ts', -, rfl⟩ := Option.map_eq_some_iff.1 hts
    refine unqueried_symbol ?_ ts'
    rintro rfl
    simp [isSpace] at hc

end RlsTenants.Exempt
