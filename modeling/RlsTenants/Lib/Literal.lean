import Mathlib.Data.List.Basic
import Mathlib.Tactic.Ring

/-!
# Python's string literals

A Python string is a list of code points, lone surrogates included.

* `repr` writes a string as a literal; `readLiteral` reads a literal, short or long, with
  every escape of the language.
* **`readLiteral_repr`**: what `repr` writes reads back, whatever follows that is no quote.
* `run_length`, `run_blank`: a literal reads as fewer characters than it is written with,
  and a blank that it runs over is one of them.
-/

namespace PyText

/-- A character of a Python string. -/
abbrev CodePoint := Fin 0x110000

abbrev Str := List CodePoint

/-- The code point of a character. -/
def ch (c : Char) : CodePoint :=
  ⟨c.toNat, by
    have h := c.valid
    rcases h with h | h
    · exact Nat.lt_trans h (by decide)
    · exact h.2⟩

def ofString (s : String) : Str := s.toList.map ch

/-- `str.isspace`. -/
def isSpace (c : CodePoint) : Bool :=
  (9 ≤ c.val && c.val ≤ 13) || (28 ≤ c.val && c.val ≤ 32) || c.val == 133 || c.val == 160 || c.val == 5760 ||
    (8192 ≤ c.val && c.val ≤ 8202) || c.val == 8232 || c.val == 8233 || c.val == 8239 || c.val == 8287 || c.val == 12288

/-- The characters that `str.splitlines` splits at. -/
def isLineBreak (c : CodePoint) : Bool :=
  (10 ≤ c.val && c.val ≤ 13) || (28 ≤ c.val && c.val ≤ 30) || c.val == 133 || c.val == 8232 || c.val == 8233

/-- The characters of the names in `\N`. -/
def isNameChar (c : CodePoint) : Bool :=
  (48 ≤ c.val && c.val ≤ 57) || (65 ≤ c.val && c.val ≤ 90) || (97 ≤ c.val && c.val ≤ 122) || c = ch ' ' || c = ch '-'

/-- The tables of the Unicode version: the characters that `str.isprintable` accepts, no
separator but the blank among them, and the characters that have names. -/
structure Unicode where
  printable : CodePoint → Bool
  named : Str → Option CodePoint
  space_not_printable : ∀ c, isSpace c → c ≠ ch ' ' → printable c = false
  named_chars : ∀ name c, named name = some c → name.all isNameChar

/-! ## Writing -/

/-- A digit of a hexadecimal number. -/
def hexDigit (n : ℕ) : CodePoint := if n < 10 then Fin.ofNat _ (48 + n) else Fin.ofNat _ (87 + n)

/-- The last `k` hexadecimal digits. -/
def hexDigits : ℕ → ℕ → Str
  | 0, _ => []
  | k + 1, n => hexDigit (n / 16 ^ k % 16) :: hexDigits k n

/-- The quote that `repr` takes. -/
def quoteOf (s : Str) : CodePoint := if s.contains (ch '\'') && !s.contains (ch '"') then ch '"' else ch '\''

/-- A character between the quotes `q`. -/
def reprChar (U : Unicode) (q c : CodePoint) : Str :=
  if c = q ∨ c = ch '\\' then [ch '\\', c]
  else if c = ch '\t' then [ch '\\', ch 't']
  else if c = ch '\n' then [ch '\\', ch 'n']
  else if c = ch '\r' then [ch '\\', ch 'r']
  else if c.val < 32 ∨ c.val = 127 then ch '\\' :: ch 'x' :: hexDigits 2 c.val
  else if c.val < 127 ∨ U.printable c then [c]
  else if c.val < 0x100 then ch '\\' :: ch 'x' :: hexDigits 2 c.val
  else if c.val < 0x10000 then ch '\\' :: ch 'u' :: hexDigits 4 c.val
  else ch '\\' :: ch 'U' :: hexDigits 8 c.val

/-- `repr` of a string. -/
def repr (U : Unicode) (s : Str) : Str := quoteOf s :: s.flatMap (reprChar U (quoteOf s)) ++ [quoteOf s]

/-! ## Reading -/

def isQuote (c : CodePoint) : Bool := c = ch '\'' || c = ch '"'

def octalValue (c : CodePoint) : Option ℕ := if 48 ≤ c.val ∧ c.val ≤ 55 then some (c.val - 48) else none

def hexValue (c : CodePoint) : Option ℕ :=
  if 48 ≤ c.val ∧ c.val ≤ 57 then some (c.val - 48)
  else if 65 ≤ c.val ∧ c.val ≤ 70 then some (c.val - 55)
  else if 97 ≤ c.val ∧ c.val ≤ 102 then some (c.val - 87)
  else none

/-- The escapes of one character. -/
def simpleEscape (c : CodePoint) : Option CodePoint :=
  if c = ch '\\' ∨ c = ch '\'' ∨ c = ch '"' then some c
  else if c = ch 'a' then some 7
  else if c = ch 'b' then some 8
  else if c = ch 'f' then some 12
  else if c = ch 'n' then some (ch '\n')
  else if c = ch 'r' then some (ch '\r')
  else if c = ch 't' then some (ch '\t')
  else if c = ch 'v' then some 11
  else none

/-- Where a reader is between the quotes: after a backslash, in an octal or hexadecimal
number with so many digits to come, or in a name. -/
inductive Mode
  | plain
  | escape
  | octal (left value : ℕ)
  | hex (left value : ℕ)
  | nameOpen
  | name (read : Str)
deriving DecidableEq

/-- What a character does: the literal is wrong, it ends, or it goes on. -/
inductive Outcome
  | fail
  | close (out : Str)
  | go (out : Str) (mode : Mode)
deriving DecidableEq

/-- A character that no escape holds; `next` is what follows it. -/
def stepPlain (long : Bool) (q : CodePoint) (out : Str) (c : CodePoint) (next : Str) : Outcome :=
  if c = q then if long ∧ next.take 2 ≠ [q, q] then .go (out ++ [c]) .plain else .close out
  else if c = ch '\\' then .go out .escape
  else if !long ∧ (c = ch '\n' ∨ c = ch '\r') then .fail
  else .go (out ++ [c]) .plain

/-- A character after a backslash; what is no escape stays with its backslash. -/
def stepEscape (c : CodePoint) : Outcome :=
  if c = ch '\n' ∨ c = ch '\r' then .go [] .plain
  else match simpleEscape c with
    | some d => .go [d] .plain
    | none => match octalValue c with
      | some n => .go [] (.octal 2 n)
      | none =>
        if c = ch 'x' then .go [] (.hex 2 0)
        else if c = ch 'u' then .go [] (.hex 4 0)
        else if c = ch 'U' then .go [] (.hex 8 0)
        else if c = ch 'N' then .go [] .nameOpen
        else .go [ch '\\', c] .plain

/-- A digit of an octal number, or the character after it. -/
def stepOctal (long : Bool) (q : CodePoint) (left value : ℕ) (c : CodePoint) (next : Str) : Outcome :=
  match left, octalValue c with
  | left + 1, some n => .go [] (.octal left (8 * value + n))
  | _, _ => stepPlain long q [Fin.ofNat _ value] c next

/-- A digit of a hexadecimal number. -/
def stepHex (left value : ℕ) (c : CodePoint) : Outcome :=
  match hexValue c with
  | none => .fail
  | some n =>
    if 1 < left then .go [] (.hex (left - 1) (16 * value + n))
    else if h : 16 * value + n < 0x110000 then .go [⟨16 * value + n, h⟩] .plain
    else .fail

/-- A character of a name. -/
def stepName (U : Unicode) (read : Str) (c : CodePoint) : Outcome :=
  if c = ch '}' then match U.named read with
    | some d => .go [d] .plain
    | none => .fail
  else .go [] (.name (read ++ [c]))

def step (U : Unicode) (long : Bool) (q : CodePoint) (mode : Mode) (c : CodePoint) (next : Str) : Outcome :=
  match mode with
  | .plain => stepPlain long q [] c next
  | .escape => stepEscape c
  | .octal left value => stepOctal long q left value c next
  | .hex left value => stepHex left value c
  | .nameOpen => if c = ch '{' then .go [] (.name []) else .fail
  | .name read => stepName U read c

/-- What is between the quotes, and what follows the literal. -/
def run (U : Unicode) (long : Bool) (q : CodePoint) : Mode → Str → Option (Str × Str)
  | _, [] => none
  | mode, c :: cs =>
    match step U long q mode c cs with
    | .fail => none
    | .close out => some (out, if long then cs.drop 2 else cs)
    | .go out mode => (run U long q mode cs).map fun r => (out ++ r.1, r.2)

/-- The literal that a text starts with, in single or triple quotes. -/
def readLiteral (U : Unicode) : Str → Option (Str × Str)
  | [] => none
  | q :: cs =>
    if !isQuote q then none
    else if cs.take 2 = [q, q] then run U true q .plain (cs.drop 2)
    else run U false q .plain cs

/-! ## What is read is shorter -/

/-- A character that is still to come of what has been read. -/
def Mode.pending : Mode → ℕ
  | .plain => 0
  | _ => 1

section Length

variable {U : Unicode} {long : Bool} {q c : CodePoint} {next out : Str} {mode mode' : Mode}

theorem stepPlain_go {before : Str} (h : stepPlain long q before c next = .go out mode') :
    out.length + mode'.pending ≤ before.length + 1 := by
  unfold stepPlain at h
  split at h
  · split at h
    · obtain ⟨rfl, rfl⟩ := Outcome.go.inj h
      simp [Mode.pending]
    · cases h
  · split at h
    · obtain ⟨rfl, rfl⟩ := Outcome.go.inj h
      simp [Mode.pending]
    · split at h
      · cases h
      · obtain ⟨rfl, rfl⟩ := Outcome.go.inj h
        simp [Mode.pending]

theorem stepPlain_close {before : Str} (h : stepPlain long q before c next = .close out) :
    out = before ∧ c = q ∧ (long → next.take 2 = [q, q]) := by
  unfold stepPlain at h
  split at h
  · rename_i hc
    split at h
    · cases h
    · rename_i hshort
      obtain rfl := Outcome.close.inj h
      refine ⟨rfl, hc, fun hlong => ?_⟩
      by_contra hne
      exact hshort ⟨hlong, hne⟩
  · split at h
    · cases h
    · split at h
      · cases h
      · cases h

theorem stepEscape_go (h : stepEscape c = .go out mode') : out.length + mode'.pending ≤ 2 := by
  unfold stepEscape at h
  split at h
  · obtain ⟨rfl, rfl⟩ := Outcome.go.inj h
    simp [Mode.pending]
  · split at h
    · obtain ⟨rfl, rfl⟩ := Outcome.go.inj h
      simp [Mode.pending]
    · split at h
      · obtain ⟨rfl, rfl⟩ := Outcome.go.inj h
        simp [Mode.pending]
      · split_ifs at h <;> obtain ⟨rfl, rfl⟩ := Outcome.go.inj h <;> simp [Mode.pending]

theorem stepEscape_ne_close : stepEscape c ≠ .close out := by
  intro h
  unfold stepEscape at h
  split at h
  · cases h
  · split at h
    · cases h
    · split at h
      · cases h
      · split_ifs at h

theorem stepHex_go {left value : ℕ} (h : stepHex left value c = .go out mode') : out.length + mode'.pending ≤ 2 := by
  unfold stepHex at h
  split at h
  · cases h
  · split_ifs at h <;> obtain ⟨rfl, rfl⟩ := Outcome.go.inj h <;> simp [Mode.pending]

theorem stepHex_ne_close {left value : ℕ} : stepHex left value c ≠ .close out := by
  intro h
  unfold stepHex at h
  split at h
  · cases h
  · split_ifs at h

theorem stepName_go {read : Str} (h : stepName U read c = .go out mode') : out.length + mode'.pending ≤ 2 := by
  unfold stepName at h
  split at h
  · split at h
    · obtain ⟨rfl, rfl⟩ := Outcome.go.inj h
      simp [Mode.pending]
    · cases h
  · obtain ⟨rfl, rfl⟩ := Outcome.go.inj h
    simp [Mode.pending]

theorem stepName_ne_close {read : Str} : stepName U read c ≠ .close out := by
  intro h
  unfold stepName at h
  split at h
  · split at h <;> cases h
  · cases h

/-- A character adds at most itself, and what was pending. -/
theorem step_go (h : step U long q mode c next = .go out mode') : out.length + mode'.pending ≤ 1 + mode.pending := by
  cases mode with
  | plain => simpa [Mode.pending] using stepPlain_go h
  | escape => simpa [Mode.pending] using stepEscape_go h
  | octal left value =>
    simp only [step, stepOctal] at h
    split at h
    · obtain ⟨rfl, rfl⟩ := Outcome.go.inj h
      simp [Mode.pending]
    · simpa [Mode.pending] using stepPlain_go h
  | hex left value => simpa [Mode.pending] using stepHex_go h
  | nameOpen =>
    simp only [step] at h
    split at h
    · obtain ⟨rfl, rfl⟩ := Outcome.go.inj h
      simp [Mode.pending]
    · cases h
  | name read => simpa [Mode.pending] using stepName_go h

/-- A literal ends at its quote, or at three of them. -/
theorem step_close (h : step U long q mode c next = .close out) :
    out.length ≤ mode.pending ∧ c = q ∧ (long → next.take 2 = [q, q]) := by
  cases mode with
  | plain =>
    obtain ⟨rfl, hc⟩ := stepPlain_close h
    exact ⟨Nat.zero_le _, hc⟩
  | escape => exact absurd h stepEscape_ne_close
  | octal left value =>
    simp only [step, stepOctal] at h
    split at h
    · cases h
    · obtain ⟨rfl, hc⟩ := stepPlain_close h
      exact ⟨Nat.le_refl _, hc⟩
  | hex left value => exact absurd h stepHex_ne_close
  | nameOpen =>
    simp only [step] at h
    split at h <;> cases h
  | name read => exact absurd h stepName_ne_close

end Length

variable {U : Unicode} {long : Bool} {q : CodePoint}

theorem run_cons {mode : Mode} {c : CodePoint} {cs : Str} {r : Str × Str} (h : run U long q mode (c :: cs) = some r) :
    (∃ out, step U long q mode c cs = .close out ∧ r = (out, if long then cs.drop 2 else cs)) ∨
      ∃ out mode' r', step U long q mode c cs = .go out mode' ∧ run U long q mode' cs = some r' ∧ r = (out ++ r'.1, r'.2) := by
  rw [run] at h
  split at h
  · cases h
  · exact .inl ⟨_, by assumption, (Option.some.inj h).symm⟩
  · obtain ⟨r', hr', rfl⟩ := Option.map_eq_some_iff.mp h
    exact .inr ⟨_, _, r', by assumption, hr', rfl⟩

/-- **A literal is longer than what it reads as.** -/
theorem run_length {mode : Mode} {t : Str} {r : Str × Str} (h : run U long q mode t = some r) :
    r.1.length + r.2.length + 1 ≤ t.length + mode.pending := by
  induction t generalizing mode r with
  | nil => cases h
  | cons c cs ih =>
    rcases run_cons h with ⟨out, hstep, rfl⟩ | ⟨out, mode', r', hstep, hrun, rfl⟩
    · have hout := (step_close hstep).1
      have hrest : (if long then cs.drop 2 else cs).length ≤ cs.length := by
        split
        · rw [List.length_drop]
          omega
        · exact Nat.le_refl _
      simp only [List.length_cons]
      omega
    · have hout := step_go hstep
      have htail := ih hrun
      simp only [List.length_append, List.length_cons]
      omega

/-! ## Blanks -/

/-- A name with an equals sign is none. -/
theorem run_name_none {read t : Str} (h : ch '=' ∈ read) : run U long q (.name read) t = none := by
  induction t generalizing read with
  | nil => rfl
  | cons c cs ih =>
    rw [run, step, stepName]
    by_cases hc : c = ch '}'
    · have hnamed : U.named read = none := by
        cases hd : U.named read with
        | none => rfl
        | some d =>
          have hchars := U.named_chars read d hd
          rw [List.all_eq_true] at hchars
          exact absurd (hchars _ h) (by decide)
      simp [hc, hnamed]
    · have hread : ch '=' ∈ read ++ [c] := List.mem_append_left _ h
      simp [hc, ih hread]

theorem run_name_to_equals {read name t : Str} (h : ch '}' ∉ name) :
    run U long q (.name read) (name ++ ch '=' :: t) = none := by
  induction name generalizing read with
  | nil =>
    have hne : ch '=' ≠ ch '}' := by decide
    have hread : ch '=' ∈ read ++ [ch '='] := by simp
    rw [List.nil_append, run, step, stepName, if_neg hne]
    simp [run_name_none hread]
  | cons c name ih =>
    have hc : c ≠ ch '}' := Ne.symm (List.ne_of_not_mem_cons h)
    rw [List.cons_append, run, step, stepName, if_neg hc]
    simp [ih (List.not_mem_of_not_mem_cons h)]

/-- A blank is a character, or part of a name. -/
theorem step_blank {mode mode' : Mode} {next out : Str} (h : step U long q mode (ch ' ') next = .go out mode') :
    ch ' ' ∈ out ∨ ∃ read, mode' = .name read := by
  have hplain : ∀ before : Str, stepPlain long q before (ch ' ') next = .go out mode' → ch ' ' ∈ out := by
    intro before h
    unfold stepPlain at h
    have hbackslash : ch ' ' ≠ ch '\\' := by decide
    have hbreak : ¬ (ch ' ' = ch '\n' ∨ ch ' ' = ch '\r') := by decide
    simp only [hbackslash, hbreak, and_false, if_false] at h
    split at h
    · split at h
      · obtain ⟨rfl, rfl⟩ := Outcome.go.inj h
        simp
      · cases h
    · obtain ⟨rfl, rfl⟩ := Outcome.go.inj h
      simp
  cases mode with
  | plain => exact .inl (hplain _ h)
  | escape =>
    have hescape : stepEscape (ch ' ') = .go [ch '\\', ch ' '] .plain := by decide
    rw [step, hescape] at h
    obtain ⟨rfl, rfl⟩ := Outcome.go.inj h
    exact .inl (by simp)
  | octal left value =>
    have hnone : octalValue (ch ' ') = none := by decide
    simp only [step, stepOctal, hnone] at h
    exact .inl (hplain _ h)
  | hex left value =>
    have hnone : hexValue (ch ' ') = none := by decide
    simp only [step, stepHex, hnone] at h
    cases h
  | nameOpen =>
    have hne : ch ' ' ≠ ch '\x7b' := by decide
    simp only [step, if_neg hne] at h
    cases h
  | name read =>
    have hne : ch ' ' ≠ ch '\x7d' := by decide
    simp only [step, stepName, if_neg hne] at h
    obtain ⟨rfl, rfl⟩ := Outcome.go.inj h
    exact .inr ⟨_, rfl⟩

/-- **A literal that runs over a blank reads it**, unless it ends before: no name goes on
past the equals sign that follows. -/
theorem run_blank (hq : q ≠ ch ' ') {name t : Str} (hname : ch '}' ∉ name) {mode : Mode} {u : Str} {r : Str × Str}
    (h : run U long q mode (u ++ ch ' ' :: (name ++ ch '=' :: t)) = some r) :
    ch ' ' ∈ r.1 ∨ (name ++ ch '=' :: t).length < r.2.length := by
  induction u generalizing mode r with
  | nil =>
    rcases run_cons h with ⟨out, hstep, -⟩ | ⟨out, mode', r', hstep, hrun, rfl⟩
    · exact absurd (step_close hstep).2.1.symm hq
    · rcases step_blank hstep with hout | ⟨read, rfl⟩
      · exact .inl (List.mem_append_left _ hout)
      · rw [run_name_to_equals hname] at hrun
        cases hrun
  | cons c u ih =>
    rw [List.cons_append] at h
    rcases run_cons h with ⟨out, hstep, rfl⟩ | ⟨out, mode', r', hstep, hrun, rfl⟩
    · right
      obtain ⟨-, -, hlong⟩ := step_close hstep
      cases long with
      | false =>
        simp only [Bool.false_eq_true, if_false, List.length_append, List.length_cons]
        omega
      | true =>
        -- the two quotes that close it stand before the blank
        have htake := hlong rfl
        simp only [if_true, List.length_drop, List.length_append, List.length_cons]
        cases u with
        | nil =>
          simp only [List.nil_append, List.take_succ_cons, List.cons.injEq] at htake
          exact absurd htake.1.symm hq
        | cons d u =>
          cases u with
          | nil =>
            simp only [List.nil_append, List.cons_append, List.take_succ_cons, List.cons.injEq] at htake
            exact absurd htake.2.1.symm hq
          | cons e u =>
            simp only [List.length_cons]
            omega
    · rcases ih hrun with hblank | hrest
      · exact .inl (List.mem_append_right _ hblank)
      · exact .inr hrest

/-! ## What is written reads back -/

theorem hexValue_hexDigit {n : ℕ} (h : n < 16) : hexValue (hexDigit n) = some n := by
  have hall : ∀ m : Fin 16, hexValue (hexDigit m.val) = some m.val := by decide
  exact hall ⟨n, h⟩

theorem run_plain {c : CodePoint} (hq : c ≠ q) (hbackslash : c ≠ ch '\\') (hline : c ≠ ch '\n') (hreturn : c ≠ ch '\r')
    (t : Str) : run U false q .plain (c :: t) = (run U false q .plain t).map fun r => (c :: r.1, r.2) := by
  rw [run, step, stepPlain, if_neg hq, if_neg hbackslash, if_neg (by simp [hline, hreturn])]
  rfl

theorem run_escape (hq : q ≠ ch '\\') (t : Str) :
    run U long q .plain (ch '\\' :: t) = run U long q .escape t := by
  rw [run, step, stepPlain, if_neg (Ne.symm hq), if_pos rfl]
  simp

/-- An escape of one character. -/
theorem run_simple {c d : CodePoint} (hline : ¬ (c = ch '\n' ∨ c = ch '\r')) (hc : simpleEscape c = some d) (t : Str) :
    run U long q .escape (c :: t) = (run U long q .plain t).map fun r => (d :: r.1, r.2) := by
  rw [run, step, stepEscape, if_neg hline, hc]
  rfl

/-- The last digits of a number add it to what has been read of it. -/
theorem run_hexDigits {k value n : ℕ} (h : value * 16 ^ (k + 1) + n % 16 ^ (k + 1) < 0x110000) (t : Str) :
    run U long q (.hex (k + 1) value) (hexDigits (k + 1) n ++ t) =
      (run U long q .plain t).map fun r => (⟨value * 16 ^ (k + 1) + n % 16 ^ (k + 1), h⟩ :: r.1, r.2) := by
  induction k generalizing value with
  | zero =>
    have hdigit : hexValue (hexDigit (n % 16)) = some (n % 16) := hexValue_hexDigit (Nat.mod_lt _ (by decide))
    have hdigits : hexDigits (0 + 1) n ++ t = hexDigit (n % 16) :: t := by simp [hexDigits]
    have hvalue : 16 * value + n % 16 = value * 16 ^ (0 + 1) + n % 16 ^ (0 + 1) := by
      rw [Nat.zero_add, Nat.pow_one, Nat.mul_comm]
    have hone : ¬ 1 < 0 + 1 := by decide
    have hlt : 16 * value + n % 16 < 0x110000 := by rwa [hvalue]
    rw [hdigits, run, step, stepHex, hdigit]
    simp only [hone, if_false, dif_pos hlt, List.singleton_append]
    congr 1
    funext r
    simp only [hvalue]
  | succ k ih =>
    have hdigit : hexValue (hexDigit (n / 16 ^ (k + 1) % 16)) = some (n / 16 ^ (k + 1) % 16) :=
      hexValue_hexDigit (Nat.mod_lt _ (by decide))
    have hdigits : hexDigits (k + 1 + 1) n ++ t = hexDigit (n / 16 ^ (k + 1) % 16) :: (hexDigits (k + 1) n ++ t) := rfl
    have hvalue : (16 * value + n / 16 ^ (k + 1) % 16) * 16 ^ (k + 1) + n % 16 ^ (k + 1) =
        value * 16 ^ (k + 1 + 1) + n % 16 ^ (k + 1 + 1) := by
      have hmod : n % 16 ^ (k + 1 + 1) = n % 16 ^ (k + 1) + 16 ^ (k + 1) * (n / 16 ^ (k + 1) % 16) := Nat.mod_pow_succ
      rw [hmod, Nat.pow_succ 16 (k + 1)]
      ring
    have hmore : 1 < k + 1 + 1 := by omega
    have hleft : k + 1 + 1 - 1 = k + 1 := rfl
    rw [hdigits, run, step, stepHex, hdigit]
    simp only [hmore, if_true, hleft, List.nil_append]
    rw [ih (by rwa [hvalue]), Option.map_map]
    congr 1
    funext r
    simp only [Function.comp, hvalue]

theorem run_hexEscape {c u : CodePoint} {k : ℕ} (hq : q ≠ ch '\\') (hu : stepEscape u = .go [] (.hex (k + 1) 0))
    (hk : c.val < 16 ^ (k + 1)) (t : Str) :
    run U long q .plain (ch '\\' :: u :: (hexDigits (k + 1) c.val ++ t)) =
      (run U long q .plain t).map fun r => (c :: r.1, r.2) := by
  have hvalue : 0 * 16 ^ (k + 1) + c.val % 16 ^ (k + 1) = c.val := by rw [Nat.zero_mul, Nat.zero_add, Nat.mod_eq_of_lt hk]
  have hlt : 0 * 16 ^ (k + 1) + c.val % 16 ^ (k + 1) < 0x110000 := by
    rw [hvalue]
    exact c.isLt
  rw [run_escape hq, run, step, hu]
  simp only [List.nil_append]
  rw [run_hexDigits hlt, Option.map_map]
  congr 1
  funext r
  simp only [Function.comp, hvalue]

/-- **A character that is written reads back.** -/
theorem run_reprChar (hq : isQuote q) (c : CodePoint) (t : Str) : run U false q .plain (reprChar U q c ++ t) =
    (run U false q .plain t).map fun r => (c :: r.1, r.2) := by
  have hbackslash : q ≠ ch '\\' := by
    rintro rfl
    revert hq
    decide
  have hline : ∀ d, isQuote d → ¬ (d = ch '\n' ∨ d = ch '\r') := by
    rintro d hd (rfl | rfl)
    · revert hd
      decide
    · revert hd
      decide
  unfold reprChar
  split_ifs with h1 h2 h3 h4 h5 h6 h7 h8
  · rw [List.cons_append, List.cons_append, List.nil_append, run_escape hbackslash]
    rcases h1 with rfl | rfl
    · have hescape : simpleEscape c = some c := by
        simp only [isQuote, Bool.or_eq_true, decide_eq_true_eq] at hq
        rcases hq with rfl | rfl <;> decide
      exact run_simple (hline _ hq) hescape t
    · exact run_simple (by decide) (by decide) t
  · subst h2
    rw [List.cons_append, List.cons_append, List.nil_append, run_escape hbackslash]
    exact run_simple (by decide) (by decide) t
  · subst h3
    rw [List.cons_append, List.cons_append, List.nil_append, run_escape hbackslash]
    exact run_simple (by decide) (by decide) t
  · subst h4
    rw [List.cons_append, List.cons_append, List.nil_append, run_escape hbackslash]
    exact run_simple (by decide) (by decide) t
  · apply run_hexEscape hbackslash (by decide) _ t
    omega
  · rw [not_or] at h1
    exact run_plain h1.1 h1.2 h3 h4 t
  · exact run_hexEscape hbackslash (by decide) (by omega) t
  · exact run_hexEscape hbackslash (by decide) (by omega) t
  · apply run_hexEscape hbackslash (by decide) _ t
    have hlt := c.isLt
    omega

theorem run_repr_body (hq : isQuote q) (s t : Str) :
    run U false q .plain (s.flatMap (reprChar U q) ++ q :: t) = some (s, t) := by
  induction s with
  | nil =>
    have hclose : stepPlain false q [] q t = .close [] := by simp [stepPlain]
    rw [List.flatMap_nil, List.nil_append, run, step, hclose]
    rfl
  | cons c s ih =>
    rw [List.flatMap_cons, List.append_assoc, run_reprChar hq, ih]
    rfl

theorem isQuote_quoteOf (s : Str) : isQuote (quoteOf s) := by
  unfold quoteOf
  split <;> decide

/-- A character does not start as the quote does. -/
theorem head_reprChar (c : CodePoint) : ∃ d ds, reprChar U q c = d :: ds ∧ (q ≠ ch '\\' → d ≠ q) := by
  unfold reprChar
  split_ifs with h1
  all_goals first
    | exact ⟨_, _, rfl, fun h => Ne.symm h⟩
    | exact ⟨_, _, rfl, fun _ => (not_or.mp h1).1⟩

/-- **A string reads back from its literal**, before a text that starts with no quote. -/
theorem readLiteral_repr {s t : Str} (ht : ∀ c ∈ t.head?, isQuote c = false) :
    readLiteral U (repr U s ++ t) = some (s, t) := by
  have hq := isQuote_quoteOf s
  have hbackslash : quoteOf s ≠ ch '\\' := by
    intro h
    rw [h] at hq
    revert hq
    decide
  have hsplit : repr U s ++ t = quoteOf s :: (s.flatMap (reprChar U (quoteOf s)) ++ quoteOf s :: t) := by
    simp [repr]
  have hshort : (s.flatMap (reprChar U (quoteOf s)) ++ quoteOf s :: t).take 2 ≠ [quoteOf s, quoteOf s] := by
    intro h
    cases s with
    | nil =>
      cases t with
      | nil => simp at h
      | cons c t =>
        simp only [List.flatMap_nil, List.nil_append, List.take_succ_cons, List.take_zero, List.cons.injEq, true_and,
          and_true] at h
        have hc := ht c rfl
        rw [h, hq] at hc
        cases hc
    | cons c s =>
      obtain ⟨d, ds, hchar, hd⟩ := head_reprChar (U := U) (q := quoteOf (c :: s)) c
      rw [List.flatMap_cons, hchar] at h
      simp only [List.cons_append, List.take_succ_cons, List.cons.injEq] at h
      exact hd hbackslash h.1
  rw [hsplit, readLiteral, hq, if_neg (by decide), if_neg hshort]
  exact run_repr_body hq s t

end PyText
