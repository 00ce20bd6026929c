import Mathlib.Data.List.TakeWhile
import RlsTenants.Lib.Lexer

/-!
# Texts with names in them

A text is written from `Piece`s: fixed pieces, and names and literals that are put between
them. `tokens` are the tokens that the writer has in mind.

* `Fits`: every piece is complete, and what follows a name does not join it.
* `lex_text_iff`: the text has its tokens exactly when every part is `Good`: no name and no
  literal holds the quote it stands in, and no dollar-quoted text its delimiter.
* `compose`: the text as a driver sends it when it has placeholders and no parameters.
* **`scan_composed_iff`**: after the composition too, if no part holds a percent sign or
  the character that ends a text.
-/

namespace SqlLexer

/-! ## Parts -/

/-- A piece of a text. -/
inductive Piece
  | fixed (text : List Char)
  | expression (text : List Char)
  | word (text : List Char)
  | quoted (name : List Char)
  | literal (text : List Char)
  | block (tag text : List Char)

namespace Piece

def text : Piece → List Char
  | .fixed t => t
  | .expression t => t
  | .word t => t
  | .quoted name => '"' :: name ++ ['"']
  | .literal t => '\'' :: t ++ ['\'']
  | .block tag t => delimiter tag ++ (t ++ delimiter tag)

@[simp] theorem text_fixed (t : List Char) : (Piece.fixed t).text = t := rfl

@[simp] theorem text_expression (t : List Char) : (Piece.expression t).text = t := rfl

@[simp] theorem text_word (t : List Char) : (Piece.word t).text = t := rfl

@[simp] theorem text_quoted (name : List Char) : (Piece.quoted name).text = '"' :: name ++ ['"'] := rfl

@[simp] theorem text_literal (t : List Char) : (Piece.literal t).text = '\'' :: t ++ ['\''] := rfl

@[simp] theorem text_block (tag t : List Char) : (Piece.block tag t).text = delimiter tag ++ (t ++ delimiter tag) := rfl

/-- The tokens that the piece stands for. -/
def tokens : Piece → List Token
  | .fixed t => (lex t).getD []
  | .expression t => (lex t).getD []
  | .word t => [.word t]
  | .quoted name => [.quoted name]
  | .literal t => [.literal false t]
  | .block tag t => [.dollar tag t]

/-- The piece is complete, and what follows does not join it. -/
def Fits (next : List Char) : Piece → Prop
  | .fixed t => Settled t
  | .expression t => lex t ≠ none ∧ Open t ∧ Stops next
  | .word t => (∃ c cs, t = c :: cs ∧ isWordStart c ∧ ∀ d ∈ cs, isWordChar d) ∧ Stops next
  | .quoted _ => Stops next
  | .literal _ => Stops next
  | .block tag _ => run .plain (delimiter tag) = (.dollar tag [], [])

/-- What is put in does not end where it stands. -/
def Good : Piece → Prop
  | .quoted name => '"' ∉ name
  | .literal t => '\'' ∉ t
  | .block tag t => Clear tag t
  | _ => True

end Piece

/-- The text of the parts. -/
def text (parts : List Piece) : List Char := parts.flatMap Piece.text

/-- The tokens of the parts. -/
def tokens (parts : List Piece) : List Token := parts.flatMap Piece.tokens

/-- Every part fits, before the text `next`. -/
def Fits (next : List Char) : List Piece → Prop
  | [] => True
  | p :: ps => p.Fits (text ps ++ next) ∧ Fits next ps

@[simp] theorem text_nil : text [] = [] := rfl

@[simp] theorem text_cons (p : Piece) (ps : List Piece) : text (p :: ps) = p.text ++ text ps := rfl

@[simp] theorem text_append (ps qs : List Piece) : text (ps ++ qs) = text ps ++ text qs := by
  simp [text]

@[simp] theorem tokens_nil : tokens [] = [] := rfl

@[simp] theorem tokens_cons (p : Piece) (ps : List Piece) : tokens (p :: ps) = p.tokens ++ tokens ps := rfl

@[simp] theorem tokens_append (ps qs : List Piece) : tokens (ps ++ qs) = tokens ps ++ tokens qs := by
  simp [tokens]

theorem fits_append {next : List Char} {ps qs : List Piece} (hps : Fits (text qs ++ next) ps) (hqs : Fits next qs) :
    Fits next (ps ++ qs) := by
  induction ps with
  | nil => exact hqs
  | cons p ps ih =>
    obtain ⟨hp, hrest⟩ := hps
    refine ⟨?_, ih hrest⟩
    have hnext : text (ps ++ qs) ++ next = text ps ++ (text qs ++ next) := by simp
    change p.Fits (text (ps ++ qs) ++ next)
    rw [hnext]
    exact hp

/-! ## Reading the parts -/

/-- A text that ends where the scanner may stop. -/
theorem lex_ended {a b : List Char} {mode : Mode} {token : Token} (hrun : run .plain a = (mode, []))
    (hfinish : finish mode = some [token]) (hcomment : ∀ read, mode ≠ .lineComment read) (hb : Stops b) :
    lex (a ++ b) = (lex b).map ([token] ++ ·) := by
  apply lex_append _ _ hb
  · rw [lex, hrun]
    simp [hfinish]
  · intro read
    rw [hrun]
    exact hcomment read

/-- **A good part is read as its tokens**, and the rest as it is. -/
theorem Piece.lex_append {p : Piece} {next : List Char} (hfits : p.Fits next) (hgood : p.Good) :
    lex (p.text ++ next) = (lex next).map (p.tokens ++ ·) := by
  cases p with
  | fixed t =>
    have htokens : (Piece.fixed t).tokens = (run .plain t).2 := by simp [Piece.tokens, lex_of_settled hfits]
    rw [htokens]
    exact lex_settled hfits next
  | expression t =>
    obtain ⟨hlex, hopen, hstops⟩ := hfits
    obtain ⟨ts, hts⟩ := Option.ne_none_iff_exists'.mp hlex
    have htokens : (Piece.expression t).tokens = ts := by simp [Piece.tokens, hts]
    rw [htokens]
    exact SqlLexer.lex_append hts hopen hstops
  | word t =>
    obtain ⟨⟨c, cs, rfl, hc, hcs⟩, hstops⟩ := hfits
    apply lex_ended (run_end_word hc hcs) _ (by simp) hstops
    simp [finish]
  | quoted name =>
    apply lex_ended (run_end_quoted hgood) _ (by simp) hfits
    simp [finish]
  | literal t =>
    apply lex_ended (run_end_literal hgood) _ (by simp) hfits
    simp [finish]
  | block tag t =>
    have hrun : run .plain (Piece.block tag t).text = (.plain, [.dollar tag t]) := by
      have hopen : run .plain (delimiter tag) = (.dollar tag [], []) := hfits
      rw [Piece.text, run_append, hopen, run_block hgood]
      rfl
    have hsettled : Settled (Piece.block tag t).text := by rw [Settled, hrun]
    rw [lex_settled hsettled, hrun]
    rfl

/-- **The parts are read as their tokens.** -/
theorem lex_text {parts : List Piece} (hfits : Fits [] parts) (hgood : ∀ p ∈ parts, p.Good) :
    lex (text parts) = some (tokens parts) := by
  induction parts with
  | nil => rfl
  | cons p ps ih =>
    obtain ⟨hp, hps⟩ := hfits
    rw [List.append_nil] at hp
    rw [text_cons, Piece.lex_append hp (hgood p List.mem_cons_self),
      ih hps fun q hq => hgood q (List.mem_cons_of_mem _ hq)]
    rfl

/-! ## Quotes in names -/

/-- The quotes of kind `c` that a part holds and that would end it. -/
def Piece.extra (c : Char) : Piece → ℕ
  | .quoted name => if c = '"' then name.count c else 0
  | .literal t => if c = '\'' then t.count c else 0
  | _ => 0

theorem Piece.weight_tokens {c : Char} (hc : isKept c) {p : Piece} {next : List Char} (hfits : p.Fits next) :
    weight c p.tokens = p.text.count c + p.extra c := by
  have hdollar : '$' ≠ c := by
    rintro rfl
    simp [isKept] at hc
  cases p with
  | fixed t =>
    have hlex := lex_of_settled hfits
    simp [Piece.tokens, Piece.text, Piece.extra, hlex, weight_lex hc hlex]
  | expression t =>
    obtain ⟨ts, hts⟩ := Option.ne_none_iff_exists'.mp hfits.1
    simp [Piece.tokens, Piece.text, Piece.extra, hts, weight_lex hc hts]
  | word t => simp [Piece.tokens, Piece.text, Piece.extra, Token.weight]
  | quoted name =>
    by_cases hq : c = '"'
    · subst hq
      simp [Piece.tokens, Piece.text, Piece.extra, Token.weight]
      omega
    · simp [Piece.tokens, Piece.text, Piece.extra, Token.weight, hq, Ne.symm hq]
  | literal t =>
    by_cases hq : c = '\''
    · subst hq
      simp [Piece.tokens, Piece.text, Piece.extra, Token.weight]
      omega
    · simp [Piece.tokens, Piece.text, Piece.extra, Token.weight, hq, Ne.symm hq]
  | block tag t =>
    simp [Piece.tokens, Piece.text, Piece.extra, Token.weight, delimiter, hdollar]
    omega

theorem weight_tokens {c : Char} (hc : isKept c) {next : List Char} {parts : List Piece} (hfits : Fits next parts) :
    weight c (tokens parts) = (text parts).count c + (parts.map (Piece.extra c)).sum := by
  induction parts with
  | nil => rfl
  | cons p ps ih =>
    obtain ⟨hp, hps⟩ := hfits
    have hrest := ih hps
    have hfirst := Piece.weight_tokens hc hp
    simp only [tokens_cons, text_cons, weight_append, List.count_append, List.map_cons, List.sum_cons]
    omega

/-- A text with its tokens has no quotes in its names. -/
theorem extra_eq_zero {c : Char} (hc : isKept c) {parts : List Piece} (hfits : Fits [] parts)
    (hlex : lex (text parts) = some (tokens parts)) {p : Piece} (hp : p ∈ parts) : p.extra c = 0 := by
  have hweight := weight_lex hc hlex
  have htokens := weight_tokens hc hfits
  have hsum : (parts.map (Piece.extra c)).sum = 0 := by omega
  exact List.sum_eq_zero_iff_forall_eq_nat.mp hsum _ (List.mem_map_of_mem hp)

/-! ## Delimiters in dollar-quoted texts -/

/-- A text with its tokens has no delimiter in its dollar-quoted texts. -/
theorem clear_of_lex {parts : List Piece} (hfits : Fits [] parts) (hlex : lex (text parts) = some (tokens parts))
    (hquotes : ∀ p ∈ parts, (∀ tag t, p ≠ .block tag t) → p.Good) : ∀ p ∈ parts, p.Good := by
  induction parts with
  | nil => simp
  | cons p ps ih =>
    obtain ⟨hp, hps⟩ := hfits
    rw [List.append_nil] at hp
    have hgood : p.Good := by
      by_cases hblock : ∃ tag t, p = .block tag t
      · obtain ⟨tag, t, rfl⟩ := hblock
        -- A delimiter inside would end the token early, and the first token would be another.
        by_contra hclear
        obtain ⟨shorter, rest, htokens, hne⟩ := run_block_cut hclear (text ps)
        have hopen : run .plain (delimiter tag) = (.dollar tag [], []) := hp
        have hrun : (run .plain (text (Piece.block tag t :: ps))).2 = .dollar tag shorter :: rest := by
          rw [text_cons, Piece.text, List.append_assoc, run_append, hopen]
          exact htokens
        rw [lex, hrun] at hlex
        obtain ⟨more, -, hmore⟩ := Option.map_eq_some_iff.mp hlex
        simp only [tokens_cons, Piece.tokens, List.cons_append, List.cons.injEq, Token.dollar.injEq, true_and] at hmore
        exact hne hmore.1
      · exact hquotes p List.mem_cons_self fun tag t h => hblock ⟨tag, t, h⟩
    have hrest : lex (text ps) = some (tokens ps) := by
      rw [text_cons, Piece.lex_append hp hgood] at hlex
      obtain ⟨ts, hts, happend⟩ := Option.map_eq_some_iff.mp hlex
      have hsame : ts = tokens ps := List.append_cancel_left happend
      rw [hts, hsame]
    intro q hq
    rcases List.mem_cons.mp hq with rfl | hq
    · exact hgood
    · exact ih hps hrest (fun r hr => hquotes r (List.mem_cons_of_mem _ hr)) q hq

/-- **A text has the tokens that its writer has in mind** exactly when its parts are good. -/
theorem lex_text_iff {parts : List Piece} (hfits : Fits [] parts) :
    lex (text parts) = some (tokens parts) ↔ ∀ p ∈ parts, p.Good := by
  constructor
  · intro hlex
    apply clear_of_lex hfits hlex
    intro p hp hblock
    cases p with
    | quoted name =>
      have hzero := extra_eq_zero (by decide : isKept '"') hfits hlex hp
      simpa [Piece.extra, Piece.Good, List.count_eq_zero] using hzero
    | literal t =>
      have hzero := extra_eq_zero (by decide : isKept '\'') hfits hlex hp
      simpa [Piece.extra, Piece.Good, List.count_eq_zero] using hzero
    | block tag t => exact absurd rfl (hblock tag t)
    | fixed t => trivial
    | expression t => trivial
    | word t => trivial
  · exact lex_text hfits

/-! ## Composition -/

/-- A text with placeholders and no parameters as a driver composes it: a doubled percent
sign is one, and any other is a placeholder that has no parameter. -/
def compose : List Char → Option (List Char)
  | [] => some []
  | '%' :: '%' :: cs => (compose cs).map ('%' :: ·)
  | '%' :: _ => none
  | c :: cs => (compose cs).map (c :: ·)

/-- The text with its percent signs doubled. -/
def double (t : List Char) : List Char := t.flatMap fun c => if c = '%' then [c, c] else [c]

theorem compose_cons {c : Char} (hc : c ≠ '%') (cs : List Char) :
    compose (c :: cs) = (compose cs).map (c :: ·) := by
  rw [compose]
  · intro _ h _
    exact hc h
  · intro h
    exact hc h

theorem compose_append {a : List Char} (h : '%' ∉ a) (b : List Char) :
    compose (a ++ b) = (compose b).map (a ++ ·) := by
  induction a with
  | nil => simp
  | cons c a ih =>
    have hc : c ≠ '%' := Ne.symm (List.ne_of_not_mem_cons h)
    rw [List.cons_append, compose_cons hc, ih (List.not_mem_of_not_mem_cons h), Option.map_map]
    rfl

theorem compose_double (a b : List Char) : compose (double a ++ b) = (compose b).map (a ++ ·) := by
  induction a with
  | nil => simp [double]
  | cons c a ih =>
    by_cases hc : c = '%'
    · subst hc
      have hsplit : double ('%' :: a) ++ b = '%' :: '%' :: (double a ++ b) := rfl
      rw [hsplit, compose, ih, Option.map_map]
      rfl
    · have hsplit : double (c :: a) ++ b = c :: (double a ++ b) := by simp [double, hc]
      rw [hsplit, compose_cons hc, ih, Option.map_map]
      rfl

/-- The composition halves the percent signs. -/
theorem count_compose {handed composed : List Char} (h : compose handed = some composed) :
    handed.count '%' = 2 * composed.count '%' := by
  fun_induction compose handed generalizing composed with
  | case1 =>
    obtain rfl := Option.some.inj h
    rfl
  | case2 cs ih =>
    obtain ⟨rest, hrest, rfl⟩ := Option.map_eq_some_iff.mp h
    have hcount := ih hrest
    simp only [List.count_cons_self]
    omega
  | case3 => cases h
  | case4 c cs hdouble hsingle ih =>
    obtain ⟨rest, hrest, rfl⟩ := Option.map_eq_some_iff.mp h
    have hcount := ih hrest
    have hc : c ≠ '%' := by
      rintro rfl
      exact hsingle rfl
    simp only [List.count_cons, beq_iff_eq, hc, if_false]
    omega

/-- The tokens of a text as a server gets it: the text ends at the first NUL. -/
def scan (t : List Char) : Option (List Token) := lex (t.takeWhile (· ≠ '\x00'))

theorem scan_eq {t : List Char} (h : '\x00' ∉ t) : scan t = lex t := by
  have hall : t.takeWhile (· ≠ '\x00') = t := by
    rw [List.takeWhile_eq_self_iff]
    intro c hc
    simp only [ne_eq, decide_not, Bool.not_eq_eq_eq_not, Bool.not_true, decide_eq_false_iff_not]
    rintro rfl
    exact h hc
  rw [scan, hall]

theorem notMem_of_scan {t : List Char} {parts : List Piece} (hfits : Fits [] parts)
    (hscan : scan t = some (tokens parts)) : '\x00' ∉ text parts := by
  have hweight := weight_lex (by decide : isKept '\x00') hscan
  have htokens := weight_tokens (by decide : isKept '\x00') hfits
  have hzero : (t.takeWhile (· ≠ '\x00')).count '\x00' = 0 := by
    rw [List.count_eq_zero]
    intro hmem
    have hne := List.mem_takeWhile_imp hmem
    simp at hne
  rw [← List.count_eq_zero]
  omega

theorem count_of_scan {t : List Char} {parts : List Piece} (hfits : Fits [] parts)
    (hscan : scan t = some (tokens parts)) : (text parts).count '%' ≤ t.count '%' := by
  have hweight := weight_lex (by decide : isKept '%') hscan
  have htokens := weight_tokens (by decide : isKept '%') hfits
  have hle : (t.takeWhile (· ≠ '\x00')).count '%' ≤ t.count '%' :=
    List.Sublist.count_le _ (List.takeWhile_sublist _)
  omega

/-- **A composed text has the tokens that its writer has in mind** exactly when its parts
are good, no name holds a percent sign, and nothing ends the text. `inNames` counts the
percent signs that the writer has not doubled. -/
theorem scan_composed_iff {parts : List Piece} {handed : List Char} {inNames : ℕ} (hfits : Fits [] parts)
    (hcount : 2 * (text parts).count '%' = handed.count '%' + inNames)
    (hfree : inNames = 0 → compose handed = some (text parts)) :
    (∃ composed, compose handed = some composed ∧ scan composed = some (tokens parts)) ↔
      inNames = 0 ∧ '\x00' ∉ text parts ∧ ∀ p ∈ parts, p.Good := by
  constructor
  · rintro ⟨composed, hcompose, hscan⟩
    have hhalf := count_compose hcompose
    have hle := count_of_scan hfits hscan
    have hnone : inNames = 0 := by omega
    have hend := notMem_of_scan hfits hscan
    rw [hfree hnone] at hcompose
    obtain rfl := Option.some.inj hcompose
    rw [scan_eq hend] at hscan
    exact ⟨hnone, hend, (lex_text_iff hfits).mp hscan⟩
  · rintro ⟨hnone, hend, hgood⟩
    refine ⟨text parts, hfree hnone, ?_⟩
    rw [scan_eq hend]
    exact lex_text hfits hgood

/-! ## What the parts hold -/

namespace Piece

/-- The part as the writer hands it over. -/
def handed : Piece → List Char
  | .expression t => double t
  | p => p.text

/-- The name or literal that is put in. -/
def inserted : Piece → List (List Char)
  | .quoted name => [name]
  | .literal t => [t]
  | _ => []

/-- What is not put in is tame: it has no dollar sign and does not end the text, and if the
writer does not double its percent signs it has none. -/
def Tame : Piece → Prop
  | .quoted _ => True
  | .literal _ => True
  | .expression t => '$' ∉ t ∧ '\x00' ∉ t
  | .fixed t => '$' ∉ t ∧ '%' ∉ t ∧ '\x00' ∉ t
  | .word t => '$' ∉ t ∧ '%' ∉ t ∧ '\x00' ∉ t
  | .block _ _ => False

end Piece

def handed (parts : List Piece) : List Char := parts.flatMap Piece.handed

def inserted (parts : List Piece) : List (List Char) := parts.flatMap Piece.inserted

/-- The percent signs in what is put in. -/
def percent (parts : List Piece) : ℕ := ((inserted parts).map (List.count '%')).sum

@[simp] theorem handed_nil : handed [] = [] := rfl

@[simp] theorem handed_cons (p : Piece) (ps : List Piece) : handed (p :: ps) = p.handed ++ handed ps := rfl

@[simp] theorem handed_append (ps qs : List Piece) : handed (ps ++ qs) = handed ps ++ handed qs := by
  simp [handed]

@[simp] theorem inserted_nil : inserted [] = [] := rfl

@[simp] theorem inserted_cons (p : Piece) (ps : List Piece) : inserted (p :: ps) = p.inserted ++ inserted ps := rfl

@[simp] theorem inserted_append (ps qs : List Piece) : inserted (ps ++ qs) = inserted ps ++ inserted qs := by
  simp [inserted]

theorem count_double (t : List Char) : (double t).count '%' = 2 * t.count '%' := by
  induction t with
  | nil => rfl
  | cons c t ih =>
    have hsplit : double (c :: t) = (if c = '%' then [c, c] else [c]) ++ double t := rfl
    by_cases hc : c = '%'
    · subst hc
      rw [hsplit, if_pos rfl, List.count_append, ih]
      simp
      omega
    · rw [hsplit, if_neg hc, List.count_append, ih]
      simp [hc]

theorem percent_cons (p : Piece) (ps : List Piece) :
    percent (p :: ps) = (p.inserted.map (List.count '%')).sum + percent ps := by
  simp [percent]

theorem percent_eq_zero {parts : List Piece} : percent parts = 0 ↔ ∀ t ∈ inserted parts, '%' ∉ t := by
  rw [percent, List.sum_eq_zero_iff_forall_eq_nat]
  simp [List.count_eq_zero]

/-- The percent signs of the text handed over: those put in stand once, the others twice. -/
theorem count_handed {parts : List Piece} (h : ∀ p ∈ parts, p.Tame) :
    2 * (text parts).count '%' = (handed parts).count '%' + percent parts := by
  induction parts with
  | nil => rfl
  | cons p ps ih =>
    have hrest := ih fun q hq => h q (List.mem_cons_of_mem _ hq)
    have hp : 2 * p.text.count '%' = p.handed.count '%' + (p.inserted.map (List.count '%')).sum := by
      have htame := h p List.mem_cons_self
      cases p with
      | fixed t => simp [Piece.handed, Piece.inserted, List.count_eq_zero.mpr htame.2.1]
      | word t => simp [Piece.handed, Piece.inserted, List.count_eq_zero.mpr htame.2.1]
      | expression t => simp [Piece.handed, Piece.inserted, count_double]
      | quoted name =>
        simp [Piece.handed, Piece.inserted]
        omega
      | literal t =>
        simp [Piece.handed, Piece.inserted]
        omega
      | block tag t => exact htame.elim
    rw [text_cons, handed_cons, percent_cons, List.count_append, List.count_append]
    omega

/-- With no percent sign put in, the composition gives the text. -/
theorem compose_handed {parts : List Piece} (h : ∀ p ∈ parts, p.Tame) (hzero : percent parts = 0) (rest : List Char) :
    compose (handed parts ++ rest) = (compose rest).map (text parts ++ ·) := by
  induction parts with
  | nil => simp
  | cons p ps ih =>
    rw [percent_cons, Nat.add_eq_zero_iff] at hzero
    have hrest := ih (fun q hq => h q (List.mem_cons_of_mem _ hq)) hzero.2
    have hp : ∀ more, compose (p.handed ++ more) = (compose more).map (p.text ++ ·) := by
      intro more
      have htame := h p List.mem_cons_self
      have hcount := hzero.1
      cases p with
      | fixed t => exact compose_append htame.2.1 more
      | word t => exact compose_append htame.2.1 more
      | expression t => exact compose_double t more
      | quoted name =>
        have hname : '%' ∉ name := by simpa [Piece.inserted, List.count_eq_zero] using hcount
        exact compose_append (by simpa [Piece.handed] using hname) more
      | literal t =>
        have ht : '%' ∉ t := by simpa [Piece.inserted, List.count_eq_zero] using hcount
        exact compose_append (by simpa [Piece.handed] using ht) more
      | block tag t => exact htame.elim
    rw [handed_cons, List.append_assoc, hp, hrest, Option.map_map, text_cons]
    simp [Function.comp_def, List.append_assoc]

theorem nul_mem_text {parts : List Piece} (h : ∀ p ∈ parts, p.Tame) :
    '\x00' ∈ text parts ↔ ∃ t ∈ inserted parts, '\x00' ∈ t := by
  induction parts with
  | nil => simp
  | cons p ps ih =>
    have hrest := ih fun q hq => h q (List.mem_cons_of_mem _ hq)
    have hp : '\x00' ∈ p.text ↔ ∃ t ∈ p.inserted, '\x00' ∈ t := by
      have htame := h p List.mem_cons_self
      cases p with
      | fixed t => simp [Piece.inserted, htame.2.2]
      | word t => simp [Piece.inserted, htame.2.2]
      | expression t => simp [Piece.inserted, htame.2]
      | quoted name => simp [Piece.inserted]
      | literal t => simp [Piece.inserted]
      | block tag t => exact htame.elim
    rw [text_cons, inserted_cons, List.mem_append, hp, hrest]
    simp only [List.mem_append, or_and_right, exists_or]

/-! ## Delimiters in what the parts hold -/

theorem infix_append_of_notMem {c : Char} {d a : List Char} (h : c ∉ a) (b : List Char) :
    c :: d <:+: a ++ b ↔ c :: d <:+: b := by
  induction a with
  | nil => rfl
  | cons x a ih =>
    rw [List.cons_append, List.infix_cons_iff, ih (List.not_mem_of_not_mem_cons h)]
    constructor
    · rintro (hstart | hinside)
      · exact absurd (List.cons_prefix_cons.mp hstart).1 (List.ne_of_not_mem_cons h)
      · exact hinside
    · exact .inr

/-- A character that is not in `d` keeps two texts apart. -/
theorem infix_separated {c : Char} {d : List Char} (hc : c ∉ d) (hd : d ≠ []) (a b : List Char) :
    d <:+: a ++ c :: b ↔ d <:+: a ∨ d <:+: b := by
  constructor
  · rintro ⟨before, after, hsplit⟩
    rw [List.append_assoc, List.append_eq_append_iff] at hsplit
    rcases hsplit with ⟨more, ha, hmore⟩ | ⟨more, -, hmore⟩
    · rw [List.append_eq_append_iff] at hmore
      rcases hmore with ⟨tail, htail, -⟩ | ⟨tail, htail, hrest⟩
      · exact .inl ⟨before, tail, by rw [ha, htail, List.append_assoc]⟩
      · cases tail with
        | nil => exact .inl ⟨before, [], by simp [ha, htail]⟩
        | cons x tail =>
          obtain ⟨rfl, -⟩ := List.cons.inj hrest
          exact absurd (by simp [htail]) hc
    · cases more with
      | nil =>
        cases d with
        | nil => exact absurd rfl hd
        | cons x d =>
          obtain ⟨rfl, -⟩ := List.cons.inj hmore
          exact absurd List.mem_cons_self hc
      | cons x more =>
        obtain ⟨-, hb⟩ := List.cons.inj hmore
        exact .inr ⟨more, after, (List.append_assoc _ _ _).trans hb.symm⟩
  · rintro (h | h)
    · exact h.trans (List.prefix_append _ _).isInfix
    · exact h.trans ((List.suffix_cons c b).trans (List.suffix_append _ _)).isInfix

/-- **A delimiter in a text** is in something that is put in, or in what follows. -/
theorem infix_text {parts : List Piece} (h : ∀ p ∈ parts, p.Tame) {d : List Char} (hquote : '"' ∉ '$' :: d)
    (hapostrophe : '\'' ∉ '$' :: d) (next : List Char) :
    '$' :: d <:+: text parts ++ next ↔ (∃ t ∈ inserted parts, '$' :: d <:+: t) ∨ '$' :: d <:+: next := by
  induction parts with
  | nil => simp
  | cons p ps ih =>
    have hrest := ih fun q hq => h q (List.mem_cons_of_mem _ hq)
    have hp : ∀ more, '$' :: d <:+: p.text ++ more ↔ (∃ t ∈ p.inserted, '$' :: d <:+: t) ∨ '$' :: d <:+: more := by
      intro more
      have htame := h p List.mem_cons_self
      cases p with
      | fixed t => simp [Piece.inserted, infix_append_of_notMem htame.1]
      | word t => simp [Piece.inserted, infix_append_of_notMem htame.1]
      | expression t => simp [Piece.inserted, infix_append_of_notMem htame.1]
      | quoted name =>
        have hsplit : (Piece.quoted name).text ++ more = ['"'] ++ (name ++ '"' :: more) := by simp
        rw [hsplit, infix_append_of_notMem (by simp), infix_separated hquote (by simp)]
        simp [Piece.inserted]
      | literal t =>
        have hsplit : (Piece.literal t).text ++ more = ['\''] ++ (t ++ '\'' :: more) := by simp
        rw [hsplit, infix_append_of_notMem (by simp), infix_separated hapostrophe (by simp)]
        simp [Piece.inserted]
      | block tag t => exact htame.elim
    rw [text_cons, List.append_assoc, hp, hrest, inserted_cons, ← or_assoc]
    simp only [List.mem_append, or_and_right, exists_or]

/-- A text that ends in a character of no delimiter is clear if the delimiter is not in it. -/
theorem clear_iff {tag t : List Char} {c : Char} (hlast : t.getLast? = some c) (hc : c ∉ delimiter tag) :
    Clear tag t ↔ ¬ delimiter tag <:+: t := by
  obtain ⟨front, rfl⟩ : ∃ front, t = front ++ [c] := by
    obtain ⟨front, hfront⟩ := List.getLast?_eq_some_iff.mp hlast
    exact ⟨front, hfront⟩
  have hne : delimiter tag ≠ [] := by simp [delimiter]
  have hself : ¬ delimiter tag <:+: (delimiter tag).dropLast := by
    intro hinside
    have hlength := hinside.length_le
    rw [List.length_dropLast] at hlength
    have hpos : 0 < (delimiter tag).length := by simp [delimiter]
    omega
  have hempty : ¬ delimiter tag <:+: [] := by
    rw [List.infix_nil]
    exact hne
  rw [Clear, List.append_assoc, List.singleton_append, infix_separated hc hne, infix_separated hc hne]
  simp [hself, hempty]

end SqlLexer
