import RlsTenants.Lib.Literal

/-!
# Audit records

`emit` hands a record to the audit logger: its fields, and a text that lists those that are
not `None`.

* `plain` renders a value; a string that could forge a field is quoted with `repr`.
* `decode` is how the text is read back: a name, `=`, and a Python literal if the value
  starts with a quote, else all up to the next blank.
* `refuse` is the record of a refused tenant selection, which shows what the client sent.
-/

namespace RlsTenants

namespace Audit

open PyText

/-! ## Values -/

/-- The value of a field. -/
inductive Value
  | str (s : Str)
  | int (n : ℤ)
  | bool (b : Bool)
  | none
deriving DecidableEq

/-- `str(value)`. -/
def Value.text : Value → Str
  | .str s => s
  | .int n => ofString (toString n)
  | .bool b => ofString (if b then "True" else "False")
  | .none => ofString "None"

/-- A string with a blank, an equals sign or a character that is not printable. -/
def needsQuotes (U : Unicode) (s : Str) : Bool := !s.all U.printable || s.contains (ch '=') || s.any isSpace

/-- `_plain`. -/
def plain (U : Unicode) : Value → Str
  | .str s => if needsQuotes U s then repr U s else s
  | v => v.text

/-! ## Fields -/

/-- A character of an identifier, or a character beyond ASCII that is no space. -/
def isIdentifierChar (c : CodePoint) : Bool :=
  if c.val < 128 then
    (48 ≤ c.val && c.val ≤ 57) || (65 ≤ c.val && c.val ≤ 90) || (97 ≤ c.val && c.val ≤ 122) || c = ch '_'
  else !isSpace c

/-- A field's name: it is the name of an argument. -/
structure FieldName where
  text : Str
  ok : text.all isIdentifierChar

abbrev Fields := List (FieldName × Value)

/-- The fields that are not `None`. -/
def present (fields : Fields) : Fields := fields.filter fun f => f.2 ≠ .none

/-- The text of a record's message. -/
def message (U : Unicode) (fields : Fields) : Str :=
  [ch ' '].intercalate ((present fields).map fun f => f.1.text ++ ch '=' :: plain U f.2)

/-! ## Records -/

inductive Level
  | info
  | warning
deriving DecidableEq

inductive Event
  | contextEntered
  | contextExited
  | contextDenied
  | fkCrossTenantRejected
  | gucsCleared
  | tenantSwitched
deriving DecidableEq

inductive Source
  | admin
  | celery
  | command
  | contextManager
  | decorator
  | drf
  | forUser
  | middleware
  | queryset
  | safetyNet
  | selection
  | validation
deriving DecidableEq

def Source.text : Source → String
  | .admin => "admin"
  | .celery => "celery"
  | .command => "command"
  | .contextManager => "context_manager"
  | .decorator => "decorator"
  | .drf => "drf"
  | .forUser => "for_user"
  | .middleware => "middleware"
  | .queryset => "queryset"
  | .safetyNet => "safety_net"
  | .selection => "selection"
  | .validation => "validation"

inductive Reason
  | contextMismatch
  | crossSiteSelection
  | noContext
  | objectOfOtherTenant
  | strictMode
  | tenantIdNone
  | tenantNotSelectable
  | userWithoutTenant
deriving DecidableEq

def Reason.text : Reason → String
  | .contextMismatch => "context_mismatch"
  | .crossSiteSelection => "cross_site_selection"
  | .noContext => "no_context"
  | .objectOfOtherTenant => "object_of_other_tenant"
  | .strictMode => "strict_mode"
  | .tenantIdNone => "tenant_id_none"
  | .tenantNotSelectable => "tenant_not_selectable"
  | .userWithoutTenant => "user_without_tenant"

def nameSource : FieldName := ⟨ofString "source", by decide +kernel⟩
def nameTenantId : FieldName := ⟨ofString "tenant_id", by decide +kernel⟩
def nameAdmin : FieldName := ⟨ofString "admin", by decide +kernel⟩
def nameUserId : FieldName := ⟨ofString "user_id", by decide +kernel⟩
def nameUsing : FieldName := ⟨ofString "using", by decide +kernel⟩
def nameReason : FieldName := ⟨ofString "reason", by decide +kernel⟩
def nameSelected : FieldName := ⟨ofString "selected", by decide +kernel⟩
def nameVia : FieldName := ⟨ofString "via", by decide +kernel⟩

/-- What `emit` is called with. -/
structure Record where
  event : Event
  source : Source
  level : Level
  tenantId : Value
  admin : Option Bool
  userId : Value
  details : Fields

/-- The `fields` that `emit` makes. -/
def Record.fields (r : Record) : Fields :=
  [(nameSource, .str (ofString r.source.text)), (nameTenantId, r.tenantId),
    (nameAdmin, (r.admin.map Value.bool).getD .none), (nameUserId, r.userId)] ++ r.details

/-- `denied`. -/
def denied (source : Source) (reason : Reason) (userId tenantId : Value) (admin : Option Bool) (details : Fields) :
    Record :=
  { event := .contextDenied, source := source, level := .warning, tenantId := tenantId, admin := admin, userId := userId,
    details := (nameReason, .str (ofString reason.text)) :: details }

/-- `_SHOWN_LENGTH`. -/
def shownLength : ℕ := 64

/-- `_shown`. -/
def shown : Value → Value
  | .str s => if shownLength < s.length then .str (s.take shownLength ++ ofString "...") else .str s
  | v => v

/-- Where a selection came from. -/
inductive Via
  | header
  | session
  | query
  | switch
deriving DecidableEq

def Via.text : Via → String
  | .header => "header"
  | .session => "session"
  | .query => "query"
  | .switch => "switch"

/-- The record of `_refuse`. -/
def refuse (userId raw : Value) (source : Source) (via : Via) : Record :=
  denied source .tenantNotSelectable userId .none none
    [(nameSelected, shown raw), (nameVia, .str (ofString via.text))]

/-! ## Reading a message -/

/-- The value that a text starts with, and what follows it. -/
def readValue (U : Unicode) (t : Str) : Option (Str × Str) :=
  if t.head?.any isQuote then readLiteral U t
  else some (t.takeWhile (· ≠ ch ' '), t.dropWhile (· ≠ ch ' '))

/-- The fields that a text starts with, at most `n`. -/
def readFields (U : Unicode) : ℕ → Str → Option (List (Str × Str))
  | 0, _ => none
  | n + 1, t =>
    match t.dropWhile (· ≠ ch '=') with
    | [] => none
    | _ :: value => match readValue U value with
      | none => none
      | some (text, []) => some [(t.takeWhile (· ≠ ch '='), text)]
      | some (text, c :: more) =>
        if c = ch ' ' then (readFields U n more).map ((t.takeWhile (· ≠ ch '='), text) :: ·) else none

/-- The fields that a message lists. -/
def decode (U : Unicode) (t : Str) : Option (List (Str × Str)) :=
  if t.isEmpty then some [] else readFields U (t.length + 1) t

/-- What the record says: the fields that are not `None`, in order, with their texts. -/
def written (fields : Fields) : List (Str × Str) := (present fields).map fun f => (f.1.text, f.2.text)

/-- The value is not read as a literal that it is not. -/
def Value.Clear (U : Unicode) : Value → Prop
  | .str s => needsQuotes U s = false → s.head?.any isQuote = false
  | _ => True

/-- **The message says what the record says**: it reads back, and it is one line. -/
structure Faithful (U : Unicode) (fields : Fields) : Prop where
  reads : decode U (message U fields) = some (written fields)
  one_line : ∀ c ∈ message U fields, isLineBreak c = false

end Audit

end RlsTenants
