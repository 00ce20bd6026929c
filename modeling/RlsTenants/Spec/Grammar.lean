import Mathlib
import RlsTenants.Spec.Postgres

/-!
# Transaction control as PostgreSQL reads it

The statements that control a transaction, word by word (`Form.words`), and what they
do (`Form.command`). A keyword may be written in any case. An unquoted name is folded,
for ASCII letters only; a quoted one keeps its case, and a quote in it is doubled. A
name is cut to 63 bytes.

A `Plain` statement has its words apart by whitespace and nothing else, and names of at
most 63 bytes.
-/

namespace RlsTenants

/-- What PostgreSQL's lexer takes for whitespace. -/
def isBlank (c : Char) : Bool := c == ' ' || (0x09 ≤ c.toNat && c.toNat ≤ 0x0D)

/-! ## Names -/

/-- The characters an unquoted name starts with. -/
def isNameStart (c : Char) : Bool := c.isAlpha || c == '_' || 0x80 ≤ c.toNat

/-- The characters it goes on with. -/
def isNamePart (c : Char) : Bool := isNameStart c || c.isDigit || c == '$'

/-- A name as it is written: unquoted or quoted. -/
inductive Ident
  | unquoted (start : Char) (rest : Text) (ok : isNameStart start ∧ ∀ c ∈ rest, isNamePart c)
  | quoted (chars : Text) (ok : chars ≠ [])

/-- Double the quotes in a quoted name. -/
def double (t : Text) : Text := t.flatMap fun c => if c = '"' then ['"', '"'] else [c]

namespace Ident

/-- The name in the text. -/
def written : Ident → Text
  | unquoted start rest _ => start :: rest
  | quoted chars _ => '"' :: (double chars ++ ['"'])

/-- The name before it is cut. -/
def full : Ident → Name
  | unquoted start rest _ => asciiLower (start :: rest)
  | quoted chars _ => chars

end Ident

/-- The length of a text in bytes. -/
def byteLength (t : Text) : ℕ := (t.map Char.utf8Size).sum

/-- Cut a text to `n` bytes, between characters. -/
def clip : ℕ → Text → Text
  | _, [] => []
  | n, c :: cs => if c.utf8Size ≤ n then c :: clip (n - c.utf8Size) cs else []

theorem clip_of_short {n : ℕ} {t : Text} (h : byteLength t ≤ n) : clip n t = t := by
  induction t generalizing n with
  | nil => cases n <;> rfl
  | cons c t ih =>
    have hlen : c.utf8Size + byteLength t ≤ n := by simpa [byteLength] using h
    rw [clip.eq_def]
    simp only
    rw [if_pos (by omega), ih (by omega)]

/-- The name PostgreSQL compares. -/
def Ident.name (i : Ident) : Name := clip 63 i.full

/-! ## Statements -/

/-- `WORK` or `TRANSACTION`, which mean nothing. -/
inductive Noise
  | work
  | transaction

/-- A mode that a transaction is started in. -/
inductive TransactionMode
  | serializable
  | repeatableRead
  | readCommitted
  | readUncommitted
  | readWrite
  | readOnly
  | deferrable
  | notDeferrable

/-- A statement that controls the transaction. `chain` is `AND CHAIN` (`true`) or `AND NO
CHAIN`; `keyword` says whether the word `SAVEPOINT` stands before the name. -/
inductive Form
  | begin (noise : Option Noise) (modes : List TransactionMode)
  | start (modes : List TransactionMode)
  | commit (verb : Text) (ok : verb = "COMMIT".toList ∨ verb = "END".toList) (noise : Option Noise)
      (chain : Option Bool)
  | rollback (verb : Text) (ok : verb = "ROLLBACK".toList ∨ verb = "ABORT".toList) (noise : Option Noise)
      (chain : Option Bool)
  | savepoint (name : Ident)
  | release (keyword : Bool) (name : Ident)
  | rollbackTo (noise : Option Noise) (keyword : Bool) (name : Ident)

/-- A word of a statement; a comma may follow the last word of a mode. -/
inductive Word
  | keyword (upper : Text)
  | listed (upper : Text)
  | name (i : Ident)

/-- A word as it may be written. -/
def Word.Spelled : Word → Text → Prop
  | keyword upper, w => w.map Char.toUpper = upper
  | listed upper, w => w.map Char.toUpper = upper ∨ ∃ w', w = w' ++ [','] ∧ w'.map Char.toUpper = upper
  | name i, w => w = i.written

def Noise.words : Option Noise → List Word
  | none => []
  | some work => [.keyword "WORK".toList]
  | some transaction => [.keyword "TRANSACTION".toList]

/-- The words of a mode, and its last one. -/
def TransactionMode.words : TransactionMode → List Text × Text
  | serializable => (["ISOLATION".toList, "LEVEL".toList], "SERIALIZABLE".toList)
  | repeatableRead => (["ISOLATION".toList, "LEVEL".toList, "REPEATABLE".toList], "READ".toList)
  | readCommitted => (["ISOLATION".toList, "LEVEL".toList, "READ".toList], "COMMITTED".toList)
  | readUncommitted => (["ISOLATION".toList, "LEVEL".toList, "READ".toList], "UNCOMMITTED".toList)
  | readWrite => (["READ".toList], "WRITE".toList)
  | readOnly => (["READ".toList], "ONLY".toList)
  | deferrable => ([], "DEFERRABLE".toList)
  | notDeferrable => (["NOT".toList], "DEFERRABLE".toList)

/-- Modes, apart by blanks or by commas. -/
def modeWords : List TransactionMode → List Word
  | [] => []
  | [m] => m.words.1.map .keyword ++ [.keyword m.words.2]
  | m :: ms => m.words.1.map .keyword ++ .listed m.words.2 :: modeWords ms

def chainWords : Option Bool → List Word
  | none => []
  | some true => [.keyword "AND".toList, .keyword "CHAIN".toList]
  | some false => [.keyword "AND".toList, .keyword "NO".toList, .keyword "CHAIN".toList]

def keywordSavepoint (keyword : Bool) : List Word :=
  if keyword then [.keyword "SAVEPOINT".toList] else []

namespace Form

/-- The word the statement starts with. -/
def verb : Form → Text
  | begin _ _ => "BEGIN".toList
  | start _ => "START".toList
  | commit verb _ _ _ => verb
  | rollback verb _ _ _ => verb
  | savepoint _ => "SAVEPOINT".toList
  | release _ _ => "RELEASE".toList
  | rollbackTo _ _ _ => "ROLLBACK".toList

/-- The words after it. -/
def arguments : Form → List Word
  | begin noise modes => Noise.words noise ++ modeWords modes
  | start modes => .keyword "TRANSACTION".toList :: modeWords modes
  | commit _ _ noise chain => Noise.words noise ++ chainWords chain
  | rollback _ _ noise chain => Noise.words noise ++ chainWords chain
  | savepoint i => [.name i]
  | release keyword i => keywordSavepoint keyword ++ [.name i]
  | rollbackTo noise keyword i =>
    Noise.words noise ++ .keyword "TO".toList :: (keywordSavepoint keyword ++ [.name i])

/-- The name in the statement. -/
def ident? : Form → Option Ident
  | savepoint i => some i
  | release _ i => some i
  | rollbackTo _ _ i => some i
  | _ => none

/-- What PostgreSQL does. -/
def command : Form → Command
  | begin _ _ => .begin
  | start _ => .begin
  | commit _ _ _ chain => .commit (chain = some true)
  | rollback _ _ _ chain => .rollback (chain = some true)
  | savepoint i => .savepoint i.name
  | release _ i => .release i.name
  | rollbackTo _ _ i => .rollbackTo i.name

end Form

/-- A statement in plain form: its words, each after whitespace but the first. -/
structure Plain where
  form : Form
  first : Text
  rest : List (Text × Text)
  spelledFirst : first.map Char.toUpper = form.verb
  spelled : List.Forall₂ Word.Spelled form.arguments (rest.map Prod.snd)
  blanks : ∀ p ∈ rest, p.1 ≠ [] ∧ ∀ c ∈ p.1, isBlank c
  short : ∀ i, form.ident? = some i → byteLength i.full ≤ 63

/-- Its text. -/
def Plain.text (p : Plain) : Text := p.first ++ p.rest.flatMap fun (blanks, word) => blanks ++ word

end RlsTenants
