import Mathlib.Data.List.DropRight
import RlsTenants.Spec.Tracker

/-!
# Reading a statement's text

The statement reader of `tenants/affinity.py`: `parse` finds a statement's command
and first words in its first `sqlHead` characters, by whitespace, and the tests
below decide what the guard does with it (`controlsTheTransaction`, `isFollowed`,
`refusedInATransaction`). `savepointName` reads a savepoint's name.

Python's string methods are modelled for what is asked of them: `upper` is only ever
compared with ASCII words, so it maps the characters whose upper case is ASCII and
leaves every other one alone.
-/

namespace RlsTenants

/-- SQL text. -/
abbrev Text : Type := List Char

/-- How much of a statement is read to find its command and arguments (`_SQL_HEAD`). -/
def sqlHead : ℕ := 256

/-! ## Python's string methods -/

/-- `str.isspace` of one character: what `split` and `strip` cut at. -/
def isSpace (c : Char) : Bool :=
  let n := c.toNat
  (0x09 ≤ n && n ≤ 0x0D) || (0x1C ≤ n && n ≤ 0x20) || n == 0x85 || n == 0xA0 || n == 0x1680 ||
    (0x2000 ≤ n && n ≤ 0x200A) || n == 0x2028 || n == 0x2029 || n == 0x202F || n == 0x205F || n == 0x3000

/-- `str.lstrip()`. -/
def lstrip (t : Text) : Text := t.dropWhile isSpace

/-- `str.split()`. -/
def split : Text → List Text
  | [] => []
  | c :: cs =>
    if isSpace c then split cs
    else match cs with
      | [] => [[c]]
      | d :: _ =>
        if isSpace d then [c] :: split cs
        else match split cs with
          | w :: ws => (c :: w) :: ws
          | [] => [[c]]

/-- The characters whose upper case is one or more ASCII letters, others as they are. -/
def upperChar (c : Char) : Text :=
  if c.isLower then [c.toUpper]
  else match c.toNat with
    | 0x00DF => ['S', 'S']
    | 0x0131 => ['I']
    | 0x017F => ['S']
    | 0xFB00 => ['F', 'F']
    | 0xFB01 => ['F', 'I']
    | 0xFB02 => ['F', 'L']
    | 0xFB03 => ['F', 'F', 'I']
    | 0xFB04 => ['F', 'F', 'L']
    | 0xFB05 => ['S', 'T']
    | 0xFB06 => ['S', 'T']
    | _ => [c]

/-- `str.upper()`, for a comparison with ASCII words. -/
def upper (t : Text) : Text := t.flatMap upperChar

/-- `str.rstrip(";")`. -/
def rstripSemicolons (t : Text) : Text := t.rdropWhile (· == ';')

/-- `str.translate(_ASCII_LOWER)`: PostgreSQL folds unquoted names for ASCII letters only. -/
def asciiLower (t : Text) : Text := t.map fun c => if c.isUpper then c.toLower else c

/-- `str.replace('""', '"')`. -/
def undouble : Text → Text
  | '"' :: '"' :: cs => '"' :: undouble cs
  | c :: cs => c :: undouble cs
  | [] => []

/-! ## Parsing -/

/-- What is handed to the cursor: text, bytes (read as Latin-1), a composed statement
that the driver renders or fails to, or another object. -/
inductive SqlObject
  | str (text : Text)
  | bytes (octets : List UInt8)
  | composed (rendered : Option Text)
  | other

/-- The text of a statement, if it can be read. -/
def SqlObject.text? : SqlObject → Option Text
  | .str text => some text
  | .bytes octets => some (octets.map fun b => Char.ofNat b.toNat)
  | .composed rendered => rendered
  | .other => none

/-- The start of a statement, as far as the record needs it. -/
structure Statement where
  command : Text
  words : List Text
  compound : Bool
deriving DecidableEq

/-- The rest of the text after a block comment open `depth` times. -/
def skipBlock : ℕ → Text → Text
  | 0, cs => cs
  | depth + 1, '/' :: '*' :: cs => skipBlock (depth + 2) cs
  | depth + 1, '*' :: '/' :: cs => skipBlock depth cs
  | depth + 1, _ :: cs => skipBlock (depth + 1) cs
  | _ + 1, [] => []

/-- The rest of the text after a line comment: past the first newline. -/
def skipLine (t : Text) : Text := (t.dropWhile (· != '\n')).drop 1

/-- The loop of `_skip_leading_comments`; each turn takes a comment off, so `fuel` the
length of the text is enough. -/
def skipLeadingCommentsFrom : ℕ → Text → Text
  | 0, cs => cs
  | fuel + 1, '-' :: '-' :: cs => skipLeadingCommentsFrom fuel (lstrip (skipLine cs))
  | fuel + 1, '/' :: '*' :: cs => skipLeadingCommentsFrom fuel (lstrip (skipBlock 1 cs))
  | _ + 1, cs => cs

/-- Text without leading whitespace and `--` / `/* */` comments (nested). -/
def skipLeadingComments (sql : Text) : Text := skipLeadingCommentsFrom sql.length (lstrip sql)

/-- Something other than semicolons and blanks follows the first semicolon. -/
def isCompound (sql : Text) : Bool :=
  (sql.dropWhile (· != ';')).any fun c => !([';', ' ', '\t', '\r', '\n'].contains c)

/-- The part of the text its words are read from. -/
def head (sql : Text) : Text :=
  let text := skipLeadingComments (sql.take sqlHead)
  -- a leading comment that runs past the head is skipped on the whole text
  if text = [] ∧ sqlHead < sql.length then (skipLeadingComments sql).take sqlHead else text

/-- Read the command of a text; `none` if it is only comments. -/
def parseText (sql : Text) : Option Statement :=
  match split (head sql) with
  | [] => if sql.all isSpace then some ⟨[], [], false⟩ else none
  | w :: ws => some ⟨upper (rstripSemicolons w), w :: ws, isCompound sql⟩

/-- Read the command of a statement; `none` if it cannot be read. -/
def parse (sql : SqlObject) : Option Statement := sql.text?.bind parseText

/-! ## What the guard makes of it -/

/-- Statements that only control the transaction (`_TRANSACTION_CONTROL`). -/
def transactionControl : List Text :=
  ["ABORT", "BEGIN", "COMMIT", "END", "PREPARE", "RELEASE", "ROLLBACK", "SAVEPOINT", "START"].map
    String.toList

/-- Statements after which the record is updated (`_FOLLOWED`). -/
def followed : List Text := transactionControl ++ ["DISCARD", "RESET"].map String.toList

/-- Whether the statement only controls the transaction, so it reads no data. -/
def controlsTheTransaction : Option Statement → Bool
  | none => false
  | some s =>
    if s.compound then false
    else if s.command ∈ transactionControl then true
    else s.command = "SET".toList && ((s.words.drop 1).take 1).map upper = ["TRANSACTION".toList]

/-- Whether the record is updated after the statement. -/
def Statement.isFollowed (s : Statement) : Bool := s.command ∈ followed

/-- The `CREATE` / `ALTER` / `DROP` part of `refusedInATransaction`. -/
def refusedDdl (command : Text) (words : List Text) : Bool :=
  if (words.take 1).any (["DATABASE", "SUBSCRIPTION", "SYSTEM", "TABLESPACE"].map String.toList).contains then
    true
  else if command ≠ "ALTER".toList then
    words.take 2 = ["INDEX", "CONCURRENTLY"].map String.toList ||
      words.take 3 = ["UNIQUE", "INDEX", "CONCURRENTLY"].map String.toList
  else
    -- the two words at distance 1 and 3 from the first DETACH
    let rest := words.dropWhile (· ≠ "DETACH".toList)
    rest ≠ [] && ((rest.drop 1).take 1 ++ (rest.drop 3).take 1) = ["PARTITION", "CONCURRENTLY"].map String.toList

/-- Whether PostgreSQL may refuse the statement inside a transaction block. -/
def refusedInATransaction : Option Statement → Bool
  | none => false
  | some s =>
    let command := s.command.takeWhile (· != '(')
    if command ∈ ["ALTER", "CREATE", "DROP"].map String.toList then
      refusedDdl command ((s.words.drop 1).map fun w => upper (rstripSemicolons w))
    else command ∈ ["CLUSTER", "DISCARD", "REINDEX", "VACUUM"].map String.toList

/-- A SQL identifier as the reader compares it: quoted keeps its case. -/
def identifier (word : Text) : Name :=
  let word := rstripSemicolons word
  if 1 < word.length ∧ word.head? = some '"' ∧ word.getLast? = some '"' then
    undouble (word.drop 1).dropLast
  else asciiLower word

/-- The savepoint named after the keyword `after`, or `none` if unclear. -/
def savepointName (words : List Text) (after : Text) : Option Name :=
  let index := (words.map upper).idxOf after + 1
  let index :=
    if after ≠ "SAVEPOINT".toList ∧ (words[index]?).map upper = some "SAVEPOINT".toList then index + 1 else index
  if index + 1 = words.length then (words[index]?).map identifier else none

end RlsTenants
