import Mathlib.Algebra.GroupWithZero.Nat
import Mathlib.Data.List.Basic

/-!
# Tokens of SQL texts

PostgreSQL's scanner, as a machine that reads a text character by character.

* A `Mode` is what the scanner is in the middle of, with the characters of it that it has
  read, the last one first.
* `step` reads a character, `lex` a text: its tokens, or nothing when the text ends inside
  a literal, a quoted name or a comment.
* A literal that goes on over a line break is two tokens here, and an operator is the
  symbols it is written with.
* `weight`: no character is lost on the way from the text to its tokens.
-/

namespace SqlLexer

/-- A token. A literal with escapes (`E'..'`) keeps them, and its doubled quotes. -/
inductive Token
  | word (text : List Char)
  | quoted (name : List Char)
  | literal (escapes : Bool) (text : List Char)
  | dollar (tag text : List Char)
  | comment (text : List Char)
  | symbol (c : Char)
deriving DecidableEq

/-- What the scanner is in the middle of. `quotedEnd` and `literalEnd` have seen the quote
that ends the token, unless another one follows; `fresh` is a comment right after one of its
delimiters. -/
inductive Mode
  | plain
  | word (read : List Char)
  | quoted (read : List Char)
  | quotedEnd (read : List Char)
  | literal (escapes : Bool) (read : List Char)
  | literalEnd (escapes : Bool) (read : List Char)
  | escape (read : List Char)
  | tag (read : List Char)
  | dollar (tag read : List Char)
  | dash
  | lineComment (read : List Char)
  | slash
  | blockComment (depth : ℕ) (fresh : Bool) (read : List Char)
deriving DecidableEq

/-! ## Characters -/

def isBlank (c : Char) : Bool := c = ' ' || c = '\n' || c = '\t' || c = '\r' || c = '\x0b' || c = '\x0c'

/-- A character that starts a word, or a number. -/
def isWordStart (c : Char) : Bool := c.isAlpha || c.isDigit || c = '_' || '\x7f' < c

def isWordChar (c : Char) : Bool := isWordStart c || c = '$'

/-- The dollar signs around a text, and the tag between them. -/
def delimiter (tag : List Char) : List Char := '$' :: tag ++ ['$']

/-! ## Reading -/

/-- A character between tokens. -/
def stepPlain (c : Char) : Mode × List Token :=
  if isBlank c then (.plain, [])
  else if isWordStart c then (.word [c], [])
  else if c = '"' then (.quoted [], [])
  else if c = '\'' then (.literal false [], [])
  else if c = '$' then (.tag [], [])
  else if c = '-' then (.dash, [])
  else if c = '/' then (.slash, [])
  else (.plain, [.symbol c])

/-- A token ends before the character. -/
def emit (token : Token) (next : Mode × List Token) : Mode × List Token := (next.1, token :: next.2)

def stepWord (read : List Char) (c : Char) : Mode × List Token :=
  if isWordChar c then (.word (c :: read), [])
  else if c = '\'' ∧ (read = ['e'] ∨ read = ['E']) then (.literal true [], [])
  else emit (.word read.reverse) (stepPlain c)

/-- The next mode, and the tokens that the character ends. -/
def step (mode : Mode) (c : Char) : Mode × List Token :=
  match mode with
  | .plain => stepPlain c
  | .word read => stepWord read c
  | .quoted read => if c = '"' then (.quotedEnd read, []) else (.quoted (c :: read), [])
  | .quotedEnd read =>
    if c = '"' then (.quoted (c :: read), []) else emit (.quoted read.reverse) (stepPlain c)
  | .literal escapes read =>
    if c = '\'' then (.literalEnd escapes read, [])
    else if escapes ∧ c = '\\' then (.escape (c :: read), [])
    else (.literal escapes (c :: read), [])
  | .literalEnd escapes read =>
    if c = '\'' then (.literal escapes (if escapes then c :: c :: read else c :: read), [])
    else emit (.literal escapes read.reverse) (stepPlain c)
  | .escape read => (.literal true (c :: read), [])
  | .tag read =>
    if c = '$' then (.dollar read.reverse [], [])
    else if isWordStart c ∧ (read ≠ [] ∨ ¬ c.isDigit) then (.tag (c :: read), [])
    else emit (.symbol '$') (if read = [] then stepPlain c else stepWord read c)
  | .dollar tag read =>
    -- The text ends at the first place where its delimiter stands.
    if (delimiter tag).reverse <+: c :: read then
      (.plain, [.dollar tag ((c :: read).drop (delimiter tag).length).reverse])
    else (.dollar tag (c :: read), [])
  | .dash => if c = '-' then (.lineComment [], []) else emit (.symbol '-') (stepPlain c)
  | .lineComment read => if c = '\n' ∨ c = '\r' then (.plain, [.comment read.reverse]) else (.lineComment (c :: read), [])
  | .slash => if c = '*' then (.blockComment 1 true [], []) else emit (.symbol '/') (stepPlain c)
  | .blockComment depth fresh read =>
    if !fresh ∧ c = '/' ∧ read.head? = some '*' then
      if depth ≤ 1 then (.plain, [.comment (c :: read).reverse]) else (.blockComment (depth - 1) true (c :: read), [])
    else (.blockComment (if !fresh ∧ c = '*' ∧ read.head? = some '/' then depth + 1 else depth)
      (!fresh ∧ c = '*' ∧ read.head? = some '/') (c :: read), [])

/-- The tokens at the end of the text. -/
def finish : Mode → Option (List Token)
  | .plain => some []
  | .word read => some [.word read.reverse]
  | .quotedEnd read => some [.quoted read.reverse]
  | .literalEnd escapes read => some [.literal escapes read.reverse]
  | .tag [] => some [.symbol '$']
  | .tag read => some [.symbol '$', .word read.reverse]
  | .dash => some [.symbol '-']
  | .lineComment read => some [.comment read.reverse]
  | .slash => some [.symbol '/']
  | _ => none

/-- The mode after a text, and the tokens that have ended. -/
def run (mode : Mode) : List Char → Mode × List Token
  | [] => (mode, [])
  | c :: cs =>
    let next := step mode c
    let rest := run next.1 cs
    (rest.1, next.2 ++ rest.2)

/-- The tokens of a text. -/
def lex (text : List Char) : Option (List Token) :=
  let result := run .plain text
  (finish result.1).map (result.2 ++ ·)

/-! ## Texts side by side -/

theorem run_append (mode : Mode) (a b : List Char) :
    run mode (a ++ b) = ((run (run mode a).1 b).1, (run mode a).2 ++ (run (run mode a).1 b).2) := by
  induction a generalizing mode with
  | nil => simp [run]
  | cons c a ih =>
    rw [List.cons_append, run, run, ih]
    simp [List.append_assoc]

/-- A character that ends any token before it. -/
def isStop (c : Char) : Bool := !isWordChar c && c ≠ '"' && c ≠ '\'' && c ≠ '-' && c ≠ '/' && c ≠ '*'

/-- What comes next does not belong to the token before it. -/
def Stops (text : List Char) : Prop := ∀ c ∈ text.head?, isStop c

instance (text : List Char) : Decidable (Stops text) := Option.decidableForallMem text.head?

theorem step_stop {mode : Mode} {tokens : List Token} {c : Char} (hfinish : finish mode = some tokens)
    (hcomment : ∀ read, mode ≠ .lineComment read) (hstop : isStop c) :
    step mode c = ((stepPlain c).1, tokens ++ (stepPlain c).2) := by
  simp only [isStop, Bool.and_eq_true, Bool.not_eq_true', decide_eq_true_eq] at hstop
  obtain ⟨⟨⟨⟨⟨hword, hquote⟩, hapostrophe⟩, hdash⟩, -⟩, hstar⟩ := hstop
  have hstart : isWordStart c = false := by
    by_contra h
    simp [isWordChar, h] at hword
  have hdollar : c ≠ '$' := by
    rintro rfl
    simp [isWordChar] at hword
  cases mode with
  | plain =>
    obtain rfl := Option.some.inj hfinish
    rfl
  | word read =>
    obtain rfl := Option.some.inj hfinish
    simp [step, stepWord, hword, hapostrophe, emit]
  | quotedEnd read =>
    obtain rfl := Option.some.inj hfinish
    simp [step, hquote, emit]
  | literalEnd escapes read =>
    obtain rfl := Option.some.inj hfinish
    simp [step, hapostrophe, emit]
  | tag read =>
    cases read with
    | nil =>
      obtain rfl := Option.some.inj hfinish
      simp [step, hdollar, hstart, emit]
    | cons d read =>
      obtain rfl := Option.some.inj hfinish
      simp [step, hdollar, hstart, stepWord, hword, hapostrophe, emit]
  | dash =>
    obtain rfl := Option.some.inj hfinish
    simp [step, hdash, emit]
  | slash =>
    obtain rfl := Option.some.inj hfinish
    simp [step, hstar, emit]
  | lineComment read => exact absurd rfl (hcomment read)
  | quoted read => cases hfinish
  | literal escapes read => cases hfinish
  | escape read => cases hfinish
  | dollar tag read => cases hfinish
  | blockComment depth fresh read => cases hfinish

/-- A text whose tokens have all ended at its end. -/
def Settled (text : List Char) : Prop := (run .plain text).1 = .plain

instance (text : List Char) : Decidable (Settled text) := by
  unfold Settled
  infer_instance

/-- A text that does not end in a comment up to the end of the line. -/
def Open (text : List Char) : Prop := ∀ read, (run .plain text).1 ≠ .lineComment read

theorem lex_settled {a : List Char} (h : Settled a) (b : List Char) :
    lex (a ++ b) = (lex b).map ((run .plain a).2 ++ ·) := by
  rw [lex, lex, run_append, h, Option.map_map]
  simp [Function.comp_def, List.append_assoc]

theorem lex_of_settled {a : List Char} (h : Settled a) : lex a = some (run .plain a).2 := by
  rw [lex, h]
  simp [finish]

/-- **Two texts** are lexed one after the other when nothing joins them. -/
theorem lex_append {a b : List Char} {tokens : List Token} (ha : lex a = some tokens) (hopen : Open a)
    (hb : Stops b) : lex (a ++ b) = (lex b).map (tokens ++ ·) := by
  cases b with
  | nil =>
    rw [List.append_nil, ha]
    simp [lex, run, finish]
  | cons c b =>
    unfold lex at ha
    obtain ⟨rest, hrest, htokens⟩ := Option.map_eq_some_iff.mp ha
    subst htokens
    have hstep := step_stop hrest hopen (hb c rfl)
    have hrun : run (run .plain a).1 (c :: b) = ((run .plain (c :: b)).1, rest ++ (run .plain (c :: b)).2) := by
      rw [run, hstep]
      simp [run, step, List.append_assoc]
    rw [lex, lex, run_append, hrun, Option.map_map]
    simp [Function.comp_def, List.append_assoc]

/-! ## What is kept -/

/-- A character that is not lost between the text and its tokens. -/
def isKept (c : Char) : Bool :=
  !isBlank c && c ≠ '$' && c ≠ '-' && c ≠ '/' && c ≠ '*' && c ≠ 'e' && c ≠ 'E'

/-- How many characters `c` a token is written with. -/
def Token.weight (c : Char) : Token → ℕ
  | .word text => text.count c
  | .quoted name => if c = '"' then 2 + 2 * name.count c else name.count c
  | .literal escapes text =>
    if c = '\'' then if escapes then 2 + text.count c else 2 + 2 * text.count c else text.count c
  | .dollar tag text => 2 * tag.count c + text.count c
  | .comment text => text.count c
  | .symbol d => if d = c then 1 else 0

def weight (c : Char) (tokens : List Token) : ℕ := (tokens.map (Token.weight c)).sum

/-- How many characters `c` have been read of the token that the scanner is in. -/
def Mode.weight (c : Char) : Mode → ℕ
  | .plain => 0
  | .word read => read.count c
  | .quoted read => if c = '"' then 1 + 2 * read.count c else read.count c
  | .quotedEnd read => (Token.quoted read).weight c
  | .literal escapes read =>
    if c = '\'' then if escapes then 1 + read.count c else 1 + 2 * read.count c else read.count c
  | .literalEnd escapes read => (Token.literal escapes read).weight c
  | .escape read => if c = '\'' then 1 + read.count c else read.count c
  | .tag read => read.count c
  | .dollar label read => label.count c + read.count c
  | .dash => 0
  | .lineComment read => read.count c
  | .slash => 0
  | .blockComment _ _ read => read.count c

@[simp] theorem weight_nil (c : Char) : weight c [] = 0 := rfl

@[simp] theorem weight_cons (c : Char) (token : Token) (tokens : List Token) :
    weight c (token :: tokens) = token.weight c + weight c tokens := by
  simp [weight]

@[simp] theorem weight_append (c : Char) (a b : List Token) : weight c (a ++ b) = weight c a + weight c b := by
  simp [weight]

theorem weight_stepPlain {c : Char} (hc : isKept c) (d : Char) :
    (stepPlain d).1.weight c + weight c (stepPlain d).2 = if d = c then 1 else 0 := by
  simp only [isKept, Bool.and_eq_true, Bool.not_eq_true', decide_eq_true_eq] at hc
  obtain ⟨⟨⟨⟨⟨⟨hblank, hdollar⟩, hdash⟩, hslash⟩, -⟩, -⟩, -⟩ := hc
  unfold stepPlain
  split
  next h =>
    have hne : d ≠ c := by
      rintro rfl
      rw [h] at hblank
      cases hblank
    simp [Mode.weight, hne]
  split
  next => simp [Mode.weight, List.count_singleton]
  split
  next h =>
    subst h
    by_cases hq : c = '"'
    · simp [Mode.weight, hq]
    · simp [Mode.weight, hq, Ne.symm hq]
  split
  next h =>
    subst h
    by_cases hq : c = '\''
    · simp [Mode.weight, hq]
    · simp [Mode.weight, hq, Ne.symm hq]
  split
  next h => simp [Mode.weight, h, Ne.symm hdollar]
  split
  next h => simp [Mode.weight, h, Ne.symm hdash]
  split
  next h => simp [Mode.weight, h, Ne.symm hslash]
  next => simp [Mode.weight, Token.weight]

theorem weight_emit (c : Char) (token : Token) (next : Mode × List Token) :
    (emit token next).1.weight c + weight c (emit token next).2 =
      token.weight c + (next.1.weight c + weight c next.2) := by
  simp only [emit, weight_cons]
  omega

theorem weight_word (c : Char) (read : List Char) : (Token.word read.reverse).weight c = read.count c := by
  simp [Token.weight]

theorem weight_stepWord {c : Char} (hc : isKept c) (read : List Char) (d : Char) :
    (stepWord read d).1.weight c + weight c (stepWord read d).2 = read.count c + if d = c then 1 else 0 := by
  unfold stepWord
  split
  next => simp [Mode.weight, List.count_cons]
  split
  next h =>
    obtain ⟨rfl, hread⟩ := h
    simp only [isKept, Bool.and_eq_true, decide_eq_true_eq] at hc
    have hzero : read.count c = 0 := by
      rcases hread with rfl | rfl
      · simp [Ne.symm hc.1.2]
      · simp [Ne.symm hc.2]
    by_cases hq : c = '\''
    · subst hq
      simp [Mode.weight, hzero]
    · simp [Mode.weight, hq, Ne.symm hq, hzero]
  next => rw [weight_emit, weight_stepPlain hc, weight_word]

theorem weight_literal_cons {c d : Char} (hd : d ≠ '\'') (escapes : Bool) (read : List Char) :
    (Mode.literal escapes (d :: read)).weight c =
      (Mode.literal escapes read).weight c + if d = c then 1 else 0 := by
  by_cases hq : c = '\''
  · subst hq
    simp [Mode.weight, hd]
  · simp [Mode.weight, hq, List.count_cons]

/-- **A step keeps the characters**: each one is in the token that the scanner is in, or in
one that has ended. -/
theorem weight_step {c : Char} (hc : isKept c) (mode : Mode) (d : Char) :
    (step mode d).1.weight c + weight c (step mode d).2 = mode.weight c + if d = c then 1 else 0 := by
  have hkept := hc
  simp only [isKept, Bool.and_eq_true, Bool.not_eq_true', decide_eq_true_eq] at hkept
  obtain ⟨⟨⟨⟨⟨⟨-, hdollar⟩, hdash⟩, hslash⟩, hstar⟩, -⟩, -⟩ := hkept
  cases mode with
  | plain => simpa [step, Mode.weight] using weight_stepPlain hc d
  | word read => exact weight_stepWord hc read d
  | quoted read =>
    by_cases hd : d = '"'
    · subst hd
      by_cases hq : c = '"'
      · simp [step, Mode.weight, Token.weight, hq]
        omega
      · simp [step, Mode.weight, Token.weight, hq, Ne.symm hq]
    · by_cases hq : c = '"'
      · subst hq
        simp [step, Mode.weight, hd]
      · simp [step, Mode.weight, hd, hq, List.count_cons]
  | quotedEnd read =>
    by_cases hd : d = '"'
    · subst hd
      by_cases hq : c = '"'
      · simp [step, Mode.weight, Token.weight, hq]
        omega
      · simp [step, Mode.weight, Token.weight, hq, Ne.symm hq]
    · simp only [step, hd, if_false]
      rw [weight_emit, weight_stepPlain hc]
      simp [Mode.weight, Token.weight]
  | literal escapes read =>
    by_cases hd : d = '\''
    · subst hd
      by_cases hq : c = '\''
      · cases escapes
        · simp [step, Mode.weight, Token.weight, hq]
          omega
        · simp [step, Mode.weight, Token.weight, hq]
          omega
      · cases escapes <;> simp [step, Mode.weight, Token.weight, hq, Ne.symm hq]
    · have hread : (Mode.literal escapes (d :: read)).weight c =
          (Mode.literal escapes read).weight c + if d = c then 1 else 0 := weight_literal_cons hd escapes read
      simp only [step, hd, if_false]
      split
      next he => simpa [Mode.weight, he.1] using hread
      next => simpa using hread
  | literalEnd escapes read =>
    by_cases hd : d = '\''
    · subst hd
      by_cases hq : c = '\''
      · cases escapes
        · simp [step, Mode.weight, Token.weight, hq]
          omega
        · simp [step, Mode.weight, Token.weight, hq]
          omega
      · cases escapes <;> simp [step, Mode.weight, Token.weight, hq, Ne.symm hq]
    · simp only [step, hd, if_false]
      rw [weight_emit, weight_stepPlain hc]
      simp [Mode.weight, Token.weight]
  | escape read =>
    by_cases hq : c = '\''
    · subst hq
      simp [step, Mode.weight, List.count_cons]
      omega
    · simp [step, Mode.weight, hq, List.count_cons]
  | tag read =>
    simp only [step]
    split
    next h =>
      subst h
      simp [Mode.weight, Ne.symm hdollar]
    split
    next => simp [Mode.weight, List.count_cons]
    next =>
      rw [weight_emit]
      have hsymbol : (Token.symbol '$').weight c = 0 := by simp [Token.weight, Ne.symm hdollar]
      rw [hsymbol, Nat.zero_add]
      split
      next h =>
        subst h
        simpa [Mode.weight] using weight_stepPlain hc d
      next => exact weight_stepWord hc read d
  | dollar tag read =>
    simp only [step]
    split
    next h =>
      obtain ⟨text, htext⟩ := h
      have hcount : (d :: read).count c = tag.count c + text.count c := by
        rw [← htext]
        simp [delimiter, List.count_append, Ne.symm hdollar]
      have hdrop : (d :: read).drop (delimiter tag).length = text := by
        rw [← htext, ← List.length_reverse, List.drop_left]
      rw [hdrop]
      simp only [Mode.weight, weight_cons, weight_nil, Token.weight, List.count_reverse]
      rw [List.count_cons] at hcount
      simp only [beq_iff_eq] at hcount
      omega
    next =>
      simp only [Mode.weight, weight_nil, List.count_cons, beq_iff_eq]
      omega
  | dash =>
    by_cases hd : d = '-'
    · simp [step, hd, Mode.weight, Ne.symm hdash]
    · simp only [step, hd, if_false]
      rw [weight_emit, weight_stepPlain hc]
      simp [Mode.weight, Token.weight, Ne.symm hdash]
  | lineComment read =>
    simp only [isKept, Bool.and_eq_true, Bool.not_eq_true', decide_eq_true_eq] at hc
    simp only [step]
    split
    next h =>
      have hne : d ≠ c := by
        rintro rfl
        rcases h with rfl | rfl <;> simp [isBlank] at hc
      simp [Mode.weight, Token.weight, hne]
    next => simp [Mode.weight, List.count_cons]
  | slash =>
    by_cases hd : d = '*'
    · simp [step, hd, Mode.weight, Ne.symm hstar]
    · simp only [step, hd, if_false]
      rw [weight_emit, weight_stepPlain hc]
      simp [Mode.weight, Token.weight, Ne.symm hslash]
  | blockComment depth fresh read =>
    simp only [step]
    split
    next =>
      split
      next =>
        simp only [Mode.weight, weight_cons, weight_nil, Token.weight, List.count_reverse, List.count_cons, beq_iff_eq]
        omega
      next => simp [Mode.weight, List.count_cons]
    next => simp [Mode.weight, List.count_cons]

theorem weight_run {c : Char} (hc : isKept c) (mode : Mode) (text : List Char) :
    (run mode text).1.weight c + weight c (run mode text).2 = mode.weight c + text.count c := by
  induction text generalizing mode with
  | nil => simp [run]
  | cons d text ih =>
    have hstep := weight_step hc mode d
    have hrest := ih (step mode d).1
    simp only [run, weight_append, List.count_cons, beq_iff_eq]
    omega

theorem weight_finish (c : Char) {mode : Mode} {tokens : List Token} (h : finish mode = some tokens)
    (hc : isKept c) : weight c tokens = mode.weight c := by
  simp only [isKept, Bool.and_eq_true, decide_eq_true_eq] at hc
  obtain ⟨⟨⟨⟨⟨⟨-, hdollar⟩, hdash⟩, hslash⟩, -⟩, -⟩, -⟩ := hc
  cases mode with
  | tag read =>
    cases read with
    | nil =>
      obtain rfl := Option.some.inj h
      simp [Mode.weight, Token.weight, Ne.symm hdollar]
    | cons d read =>
      obtain rfl := Option.some.inj h
      have hcount : (d :: read).reverse.count c = (d :: read).count c := List.count_reverse
      simp only [Mode.weight, weight_cons, weight_nil, Token.weight, hcount, Ne.symm hdollar, if_false]
      omega
  | quoted read => cases h
  | literal escapes read => cases h
  | escape read => cases h
  | dollar tag read => cases h
  | blockComment depth fresh read => cases h
  | plain =>
    obtain rfl := Option.some.inj h
    rfl
  | word read =>
    obtain rfl := Option.some.inj h
    simp [Mode.weight, Token.weight]
  | quotedEnd read =>
    obtain rfl := Option.some.inj h
    simp [Mode.weight, Token.weight]
  | literalEnd escapes read =>
    obtain rfl := Option.some.inj h
    simp [Mode.weight, Token.weight]
  | dash =>
    obtain rfl := Option.some.inj h
    simp [Mode.weight, Token.weight, Ne.symm hdash]
  | lineComment read =>
    obtain rfl := Option.some.inj h
    simp [Mode.weight, Token.weight]
  | slash =>
    obtain rfl := Option.some.inj h
    simp [Mode.weight, Token.weight, Ne.symm hslash]

/-- **A text and its tokens hold the same characters.** -/
theorem weight_lex {c : Char} (hc : isKept c) {text : List Char} {tokens : List Token} (h : lex text = some tokens) :
    weight c tokens = text.count c := by
  unfold lex at h
  obtain ⟨rest, hrest, htokens⟩ := Option.map_eq_some_iff.mp h
  subst htokens
  have hrun := weight_run hc .plain text
  have hend := weight_finish c hrest hc
  have hplain : Mode.plain.weight c = 0 := rfl
  rw [weight_append]
  omega

/-! ## What a token is read from -/

theorem run_quoted {name : List Char} (h : '"' ∉ name) (read : List Char) :
    run (.quoted read) name = (.quoted (name.reverse ++ read), []) := by
  induction name generalizing read with
  | nil => rfl
  | cons c name ih =>
    have hc : c ≠ '"' := Ne.symm (List.ne_of_not_mem_cons h)
    rw [run, step, if_neg hc, ih (List.not_mem_of_not_mem_cons h)]
    simp

theorem run_literal {text : List Char} (h : '\'' ∉ text) (read : List Char) :
    run (.literal false read) text = (.literal false (text.reverse ++ read), []) := by
  induction text generalizing read with
  | nil => rfl
  | cons c text ih =>
    have hc : c ≠ '\'' := Ne.symm (List.ne_of_not_mem_cons h)
    simp only [run, step, hc, Bool.false_eq_true, false_and, if_false]
    rw [ih (List.not_mem_of_not_mem_cons h)]
    simp

theorem run_word {text : List Char} (h : ∀ c ∈ text, isWordChar c) (read : List Char) :
    run (.word read) text = (.word (text.reverse ++ read), []) := by
  induction text generalizing read with
  | nil => rfl
  | cons c text ih =>
    have hc : isWordChar c := h c List.mem_cons_self
    simp only [run, step, stepWord, hc, if_true]
    rw [ih fun d hd => h d (List.mem_cons_of_mem _ hd)]
    simp

theorem run_end_quoted {name : List Char} (h : '"' ∉ name) :
    run .plain ('"' :: name ++ ['"']) = (.quotedEnd name.reverse, []) := by
  have hopen : step .plain '"' = (.quoted [], []) := by decide
  rw [List.cons_append, run, hopen, run_append, run_quoted h]
  simp [run, step]

theorem run_end_literal {text : List Char} (h : '\'' ∉ text) :
    run .plain ('\'' :: text ++ ['\'']) = (.literalEnd false text.reverse, []) := by
  have hopen : step .plain '\'' = (.literal false [], []) := by decide
  rw [List.cons_append, run, hopen, run_append, run_literal h]
  simp [run, step]

theorem run_end_word {c : Char} {text : List Char} (hc : isWordStart c) (h : ∀ d ∈ text, isWordChar d) :
    run .plain (c :: text) = (.word (c :: text).reverse, []) := by
  have hblank : isBlank c = false := by
    by_contra hblank
    simp only [isBlank, Bool.not_eq_false, Bool.or_eq_true, decide_eq_true_eq] at hblank
    rcases hblank with ((((rfl | rfl) | rfl) | rfl) | rfl) | rfl <;> revert hc <;> decide
  have hopen : step .plain c = (.word [c], []) := by simp [step, stepPlain, hblank, hc]
  rw [run, hopen, run_word h]
  simp

/-! ## Dollar quotes -/

/-- As long as the delimiter is not complete, the text goes on. -/
theorem run_dollar {tag read text : List Char}
    (h : ∀ p, p <+: text → p ≠ [] → ¬ delimiter tag <:+ read.reverse ++ p) :
    run (.dollar tag read) text = (.dollar tag (text.reverse ++ read), []) := by
  induction text generalizing read with
  | nil => rfl
  | cons c text ih =>
    have hc : ¬ (delimiter tag).reverse <+: c :: read := by
      intro hclosed
      apply h [c] ⟨text, rfl⟩ (by simp)
      rw [← List.reverse_prefix]
      simpa using hclosed
    have hrest : ∀ p, p <+: text → p ≠ [] → ¬ delimiter tag <:+ (c :: read).reverse ++ p := by
      intro p hp _ hclosed
      apply h (c :: p) (List.cons_prefix_cons.mpr ⟨rfl, hp⟩) (by simp)
      simpa using hclosed
    rw [run, step, if_neg hc, ih hrest]
    simp

/-- The delimiter ends a dollar-quoted text where it first stands. -/
theorem run_dollar_ends {tag read text : List Char} (h : ∃ p, p <+: text ∧ p ≠ [] ∧ delimiter tag <:+ read.reverse ++ p) :
    ∃ shorter rest, (run (.dollar tag read) text).2 = .dollar tag shorter :: rest ∧
      shorter.length + (delimiter tag).length ≤ read.length + text.length := by
  induction text generalizing read with
  | nil =>
    obtain ⟨p, hp, hne, -⟩ := h
    exact absurd (List.prefix_nil.mp hp) hne
  | cons c text ih =>
    by_cases hc : (delimiter tag).reverse <+: c :: read
    · refine ⟨((c :: read).drop (delimiter tag).length).reverse, (run .plain text).2, ?_, ?_⟩
      · rw [run, step, if_pos hc]
        rfl
      · have hlength := hc.length_le
        simp only [List.length_reverse, List.length_cons, List.length_drop] at hlength ⊢
        omega
    · obtain ⟨p, hp, hne, hclosed⟩ := h
      -- The first character does not complete the delimiter, so a longer prefix does.
      have hmore : ∃ q, q <+: text ∧ q ≠ [] ∧ delimiter tag <:+ (c :: read).reverse ++ q := by
        cases p with
        | nil => exact absurd rfl hne
        | cons d p =>
          obtain ⟨rfl, hrest⟩ := List.cons_prefix_cons.mp hp
          refine ⟨p, hrest, ?_, by simpa using hclosed⟩
          rintro rfl
          apply hc
          rw [← List.reverse_prefix] at hclosed
          simpa using hclosed
      obtain ⟨shorter, rest, htokens, hlength⟩ := ih hmore
      refine ⟨shorter, rest, ?_, ?_⟩
      · rw [run, step, if_neg hc]
        simpa using htokens
      · simp only [List.length_cons] at hlength ⊢
        omega

/-- The text keeps clear of its delimiter. -/
def Clear (tag text : List Char) : Prop := ¬ delimiter tag <:+: text ++ (delimiter tag).dropLast

theorem delimiter_eq (tag : List Char) : delimiter tag = (delimiter tag).dropLast ++ ['$'] := by
  have h : delimiter tag ≠ [] := by simp [delimiter]
  have hlast : (delimiter tag).getLast h = '$' := by simp [delimiter]
  rw [← hlast, List.dropLast_concat_getLast]

/-- A clear text is read as it is. -/
theorem run_block {tag text : List Char} (h : Clear tag text) :
    run (.dollar tag []) (text ++ delimiter tag) = (.plain, [.dollar tag text]) := by
  have hgo : ∀ p, p <+: text ++ (delimiter tag).dropLast → p ≠ [] →
      ¬ delimiter tag <:+ ([] : List Char).reverse ++ p := by
    intro p hp _ hclosed
    apply h
    rw [List.infix_iff_suffix_prefix]
    exact ⟨p, by simpa using hclosed, hp⟩
  have hsplit : text ++ delimiter tag = text ++ (delimiter tag).dropLast ++ ['$'] := by
    rw [List.append_assoc, ← delimiter_eq]
  have hread : ('$' :: ((text ++ (delimiter tag).dropLast).reverse ++ [])) = (delimiter tag).reverse ++ text.reverse := by
    rw [← List.reverse_append, hsplit]
    simp
  have hclosed : (delimiter tag).reverse <+: '$' :: ((text ++ (delimiter tag).dropLast).reverse ++ []) := by
    rw [hread]
    exact List.prefix_append _ _
  rw [hsplit, run_append, run_dollar hgo, run, step, if_pos hclosed, hread]
  simp [run, List.drop_left']

/-- A text that is not clear is cut short. -/
theorem run_block_cut {tag text : List Char} (h : ¬ Clear tag text) (rest : List Char) :
    ∃ shorter tokens, (run (.dollar tag []) (text ++ delimiter tag ++ rest)).2 = .dollar tag shorter :: tokens ∧
      shorter ≠ text := by
  rw [Clear, not_not, List.infix_iff_suffix_prefix] at h
  obtain ⟨p, hsuffix, hprefix⟩ := h
  have hne : p ≠ [] := by
    rintro rfl
    simp [delimiter] at hsuffix
  have hends : ∃ q, q <+: text ++ (delimiter tag).dropLast ∧ q ≠ [] ∧
      delimiter tag <:+ ([] : List Char).reverse ++ q := ⟨p, hprefix, hne, by simpa using hsuffix⟩
  obtain ⟨shorter, tokens, htokens, hlength⟩ := run_dollar_ends hends
  have hsplit : text ++ delimiter tag ++ rest = text ++ (delimiter tag).dropLast ++ ('$' :: rest) := by
    conv_lhs => rw [delimiter_eq]
    simp
  refine ⟨shorter, tokens ++ (run (run (.dollar tag []) (text ++ (delimiter tag).dropLast)).1 ('$' :: rest)).2, ?_, ?_⟩
  · rw [hsplit, run_append, htokens]
    rfl
  · rintro rfl
    simp only [List.length_append, List.length_dropLast, List.length_nil] at hlength
    have hpos : 0 < (delimiter tag).length := by simp [delimiter]
    omega

end SqlLexer
