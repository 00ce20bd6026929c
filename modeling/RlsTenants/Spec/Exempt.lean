import RlsTenants.Lib.Lexer
import RlsTenants.Spec.Statement

/-!
# Texts that run without the context

The wrapper lets two kinds of statement run as they are, without the active context's
values: those that control the transaction, and those that PostgreSQL may refuse in one.
It knows them by the first words the reader finds.

* `tokens` is what PostgreSQL's scanner makes of a text. How its grammar divides the tokens
  into statements, and which statements evaluate the policies of a table, is not modelled:
  `Grammar` has what the code relies on. `Queries` are the statements that may.
* `hidesReturn`: a line comment that the reader skips has a carriage return in it. For the
  reader a line ends at a newline only, for PostgreSQL also there.
-/

namespace RlsTenants.Exempt

open SqlLexer

/-! ## What PostgreSQL reads -/

def isComment : Token → Bool
  | .comment _ => true
  | _ => false

/-- The tokens of a text; none if it ends inside one. -/
def tokens (text : Text) : Option (List Token) := (lex text).map (·.filter fun t => !isComment t)

/-- A word as a keyword: PostgreSQL folds ASCII letters only. -/
def keyword (word : Text) : Text := word.map Char.toUpper

/-- The commands that read or change rows under the policies of their tables, and those
that run statements which may. -/
def queryCommands : List Text :=
  ["SELECT", "TABLE", "VALUES", "WITH", "INSERT", "UPDATE", "DELETE", "MERGE", "COPY", "EXPLAIN", "EXECUTE",
    "DECLARE", "FETCH", "MOVE", "CALL", "DO", "REFRESH"].map String.toList

/-- What follows `CREATE` where the statement may compute a query. -/
def queriedObjects : List Text :=
  ["TABLE", "TEMP", "TEMPORARY", "LOCAL", "GLOBAL", "UNLOGGED", "MATERIALIZED"].map String.toList

def isQueried : Token → Bool
  | .word v => queriedObjects.contains (keyword v)
  | _ => false

/-- A statement that may evaluate the policies of a table, by its first tokens. -/
def Queries : List Token → Bool
  | .symbol c :: _ => c = '('
  | .word w :: rest =>
    queryCommands.contains (keyword w) || (keyword w = "CREATE".toList && rest.head?.any isQueried)
  | _ => false

/-- PostgreSQL's grammar: the statements that it divides a text into (none if it takes the
text for no statement), and whether running one evaluates the policies of a table. -/
structure Grammar where
  statements : List Token → Option (List (List Token))
  evaluates : List Token → Prop
  cut : ∀ ts ps, statements ts = some ps → [Token.symbol ';'].intercalate ps = ts
  documented : ∀ p, evaluates p → Queries p = true

/-- PostgreSQL takes the statement handed to the cursor for `ps`. -/
def Grammar.Parses (G : Grammar) (object : SqlObject) (ps : List (List Token)) : Prop :=
  ∃ text ts, object.text? = some text ∧ tokens text = some ts ∧ G.statements ts = some ps

/-! ## What the wrapper does -/

/-- The wrapper runs the statement as it is. -/
def RunsAsIs (object : SqlObject) : Prop :=
  controlsTheTransaction (parse object) = true ∨ refusedInATransaction (parse object) = true

/-- The loop of `_skip_leading_comments` comes by a carriage return in a line comment. -/
def hidesReturnFrom : ℕ → Text → Bool
  | 0, _ => false
  | fuel + 1, '-' :: '-' :: cs =>
    (cs.takeWhile (· != '\n')).contains '\r' || hidesReturnFrom fuel (lstrip (skipLine cs))
  | fuel + 1, '/' :: '*' :: cs => hidesReturnFrom fuel (lstrip (skipBlock 1 cs))
  | _ + 1, _ => false

/-- A line comment before the statement has a carriage return in it. -/
def hidesReturn (sql : Text) : Bool := hidesReturnFrom sql.length (lstrip sql)

/-- A statement that runs as it is evaluates no policy. -/
def Harmless (G : Grammar) (object : SqlObject) : Prop :=
  RunsAsIs object → ∀ ps, G.Parses object ps → ∀ p ∈ ps, ¬G.evaluates p

/-- What is hidden from the wrapper evaluates no policy: in a statement that it runs as it
is, those after the first semicolon, and one that starts inside a line comment. -/
structure NothingHidden (G : Grammar) (object : SqlObject) : Prop where
  later : RunsAsIs object → ∀ text ps, object.text? = some text → G.Parses object ps → isCompound text = true →
    ∀ p ∈ ps.tail, ¬G.evaluates p
  first : RunsAsIs object → ∀ text ps, object.text? = some text → G.Parses object ps → hidesReturn text = true →
    ∀ p, ps.head? = some p → ¬G.evaluates p

/-- The grammar that takes what stands between semicolons for a statement. -/
def Grammar.bySemicolons : Grammar where
  statements ts := some (ts.splitOn (.symbol ';'))
  evaluates p := Queries p = true
  cut ts ps h := by rw [← Option.some.inj h, List.intercalate_splitOn]
  documented _ h := h

end RlsTenants.Exempt
