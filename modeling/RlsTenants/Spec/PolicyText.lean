import RlsTenants.Lib.Template
import RlsTenants.Spec.M2m

/-!
# The texts of the policies as PostgreSQL reads them

The names in the policies' texts stand in literals, in double quotes or bare, inside two
dollar-quoted texts.

* `Block` is what a builder means to write: a `DO` block that creates a policy of a table,
  with the conditions of the policy. `Block.statement` are its parts.
* `Call` is a call of one of the four builders; `Call.sql` is the text that it hands to the
  schema editor, `Call.blocks` the blocks that it means.
* `Intact`: after the composition the text lexes as these blocks, and each name is read as
  itself.
-/

namespace RlsTenants

open RowSql SqlLexer

/-! ## The parts of a condition -/

def SqlName.part (n : SqlName) : Piece := if n.quoted then .quoted n.text.toList else .word n.text.toList

def scalarParts : Scalar → List Piece
  | .setting name => [.fixed "(SELECT current_setting(".toList, .literal name.toList, .fixed ", true))".toList]
  | .nullif s t => .fixed "nullif(".toList :: scalarParts s ++ [.fixed ", ".toList, .literal t.toList, .fixed ")".toList]

def operandParts : Operand SqlName → List Piece
  | .column none name => [name.part]
  | .column (some table) name => [table.part, .fixed ".".toList, name.part]
  | .cast s type => scalarParts s ++ [.fixed "::".toList, .word type.toList]

/-- The alias of a subquery's table. -/
def labelParts : Option SqlName → List Piece
  | none => []
  | some label => [.fixed " AS ".toList, label.part]

/-- What a `CASE` holds between its two conditions, and before its end. -/
def caseElse : String := "
                                     THEN true
                                     ELSE "

def caseEnd : String := "
                                "

/-- A condition; `gap` stands before each OR and AND. -/
def condParts (gap : String) : Cond SqlName → List Piece
  | .equal a b => operandParts a ++ .fixed " = ".toList :: operandParts b
  | .textEqual s t => scalarParts s ++ [.fixed " = ".toList, .literal t.toList]
  | .or a b => condParts gap a ++ .fixed (gap ++ "OR ").toList :: condParts gap b
  | .and a b => condParts gap a ++ .fixed (gap ++ "AND ").toList :: condParts gap b
  | .group a => .fixed "(".toList :: condParts gap a ++ [.fixed ")".toList]
  | .caseTrue c otherwise =>
    .fixed "CASE WHEN ".toList :: condParts gap c ++ .fixed caseElse.toList :: condParts gap otherwise ++
      [.fixed caseEnd.toList, .word "END".toList]
  | .exists table label filter =>
    .fixed "EXISTS (SELECT 1 FROM ".toList :: table.part :: labelParts label ++
      .fixed " WHERE ".toList :: condParts oneBlank filter ++ [.fixed ")".toList]

/-- The names that an operand reads. -/
def operandNames : Operand SqlName → List SqlName
  | .column table name => table.toList ++ [name]
  | .cast _ _ => []

/-- The names that a condition reads. -/
def condNames : Cond SqlName → List SqlName
  | .equal a b => operandNames a ++ operandNames b
  | .textEqual _ _ => []
  | .or a b => condNames a ++ condNames b
  | .and a b => condNames a ++ condNames b
  | .group a => condNames a
  | .caseTrue c otherwise => condNames c ++ condNames otherwise
  | .exists table label filter => table :: label.toList ++ condNames filter

/-- Parts with a fixed piece between them. -/
def joinParts (sep : String) : List (List Piece) → List Piece
  | [] => []
  | [a] => a
  | a :: b :: rest => a ++ .fixed sep.toList :: joinParts sep (b :: rest)

/-! ## Blocks -/

/-- A predicate of a sharing policy: a condition, or the developer's own text. -/
inductive Clause
  | cond (c : Cond SqlName)
  | raw (sql : String)

/-- What a policy lets through: rows that pass a bypass flag, else all of `otherwise`, or,
for reading, rows that pass one of the clauses. -/
inductive PolicyBody
  | all (gap : String) (bypassUsing bypassCheck : Cond SqlName) (otherwise : List (Cond SqlName))
  | select (clauses : List Clause)

/-- A block that creates a policy. -/
structure Block where
  table : String
  policyName : String
  body : PolicyBody

/-- A `CASE` of a policy. -/
def caseParts (gap : String) (bypass : Cond SqlName) (otherwise : List (Cond SqlName)) : List Piece :=
  .fixed "CASE WHEN ".toList :: condParts gap bypass ++ .fixed caseElse.toList ::
    joinParts (gap ++ "AND ") (otherwise.map (condParts gap)) ++ [.fixed caseEnd.toList, .word "END".toList]

def Clause.parts : Clause → List Piece
  | .cond c => condParts oneBlank c
  | .raw sql => [.fixed "(".toList, .expression sql.toList, .fixed ")".toList]

/-- What stands before each OR of a sharing policy. -/
def sharingOr : String := "\n                                OR "

namespace Block

def execAlter : String := "
                            ALTER TABLE "
def execForce : String := " ENABLE ROW LEVEL SECURITY;
                            ALTER TABLE "
def execCreate : String := " FORCE ROW LEVEL SECURITY;
                            CREATE POLICY "
def execCreateOnly : String := "
                            CREATE POLICY "
def execOn : String := "
                            ON "
def execUsing : String := "
                            USING (
                                "
def execSelect : String := "
                            AS PERMISSIVE
                            FOR SELECT
                            USING (
                                "
def execCheck : String := "
                            )
                            WITH CHECK (
                                "
def execEnd : String := "
                            );
                        "

/-- The statements that the block executes. -/
def exec (b : Block) : List Piece :=
  match b.body with
  | .all gap bypassUsing bypassCheck otherwise =>
    [.fixed execAlter.toList, .quoted b.table.toList, .fixed execForce.toList, .quoted b.table.toList,
      .fixed execCreate.toList, .quoted b.policyName.toList, .fixed execOn.toList, .quoted b.table.toList,
      .fixed execUsing.toList] ++ caseParts gap bypassUsing otherwise ++ .fixed execCheck.toList ::
      caseParts gap bypassCheck otherwise ++ [.fixed execEnd.toList]
  | .select clauses =>
    [.fixed execCreateOnly.toList, .quoted b.policyName.toList, .fixed execOn.toList, .quoted b.table.toList,
      .fixed execSelect.toList] ++ joinParts sharingOr (clauses.map Clause.parts) ++ [.fixed execEnd.toList]

/-- The names in double quotes or bare. -/
def names (b : Block) : List SqlName :=
  ⟨true, b.table⟩ :: ⟨true, b.policyName⟩ ::
    match b.body with
    | .all _ bypassUsing bypassCheck otherwise =>
      condNames bypassUsing ++ condNames bypassCheck ++ otherwise.flatMap condNames
    | .select clauses => clauses.flatMap fun
      | .cond c => condNames c
      | .raw _ => []

/-- The developer's own texts. -/
def raws (b : Block) : List String :=
  match b.body with
  | .all _ _ _ _ => []
  | .select clauses => clauses.filterMap fun
    | .cond _ => none
    | .raw sql => some sql

def bodyFind : String := "
                BEGIN
                    IF NOT EXISTS (
                        SELECT 1 FROM pg_policies
                        WHERE policyname = "
def bodyTable : String := "
                        AND tablename = "
def bodyExecute : String := "
                        AND schemaname = current_schema()
                    ) THEN
                        EXECUTE "
def bodyEnd : String := ";
                    END IF;
                END
                "
def statementDo : String := "
                DO "
def statementEnd : String := ";
            "

/-- The block's own text, around the text that it executes. -/
def bodyParts (b : Block) (execText : List Char) : List Piece :=
  [.fixed bodyFind.toList, .literal b.policyName.toList, .fixed bodyTable.toList, .literal b.table.toList,
    .fixed bodyExecute.toList, .block "BODY".toList execText, .fixed bodyEnd.toList]

/-- The `DO` statement. -/
def statement (b : Block) (execText : List Char) : List Piece :=
  [.fixed statementDo.toList, .block [] (text (b.bodyParts execText)), .fixed statementEnd.toList]

/-- The statement as it is meant. -/
def meant (b : Block) : List Piece := b.statement (text b.exec)

/-- The statement as it is handed over, with the percent signs of raw texts doubled. -/
def handed (b : Block) : List Char :=
  text (b.statement (SqlLexer.handed b.exec))

end Block

/-! ## Reading names -/

/-- The words that PostgreSQL takes for no column: its reserved words, and those for types and
functions only. -/
def reservedWords : List String :=
  ["all", "analyse", "analyze", "and", "any", "array", "as", "asc", "asymmetric", "authorization", "binary",
    "both", "case", "cast", "check", "collate", "collation", "column", "concurrently", "constraint", "create",
    "cross", "current_catalog", "current_date", "current_role", "current_schema", "current_time",
    "current_timestamp", "current_user", "default", "deferrable", "desc", "distinct", "do", "else", "end",
    "except", "false", "fetch", "for", "foreign", "freeze", "from", "full", "grant", "group", "having", "ilike",
    "in", "initially", "inner", "intersect", "into", "is", "isnull", "join", "lateral", "leading", "left", "like",
    "limit", "localtime", "localtimestamp", "natural", "not", "notnull", "null", "offset", "on", "only", "or",
    "order", "outer", "overlaps", "placing", "primary", "references", "returning", "right", "select",
    "session_user", "similar", "some", "symmetric", "system_user", "table", "tablesample", "then", "to",
    "trailing", "true", "union", "unique", "user", "using", "variadic", "verbose", "when", "where", "window",
    "with"]

/-- The name that a token is: a word is folded, and both kinds are cut to 63 bytes. -/
def readName : Token → Option Name
  | .quoted name => some (clip 63 name)
  | .word w => if String.ofList (asciiLower w) ∈ reservedWords then none else some (clip 63 (asciiLower w))
  | _ => none

/-- The token that a name is written as. -/
def SqlName.token (n : SqlName) : Token := if n.quoted then .quoted n.text.toList else .word n.text.toList

/-- A text that is complete on its own. -/
def Complete (sql : String) : Prop := lex sql.toList ≠ none ∧ Open sql.toList

/-- **The text is what the builder means**: it lexes as the blocks, on each of their levels,
and every name is one token, which is read as that name. -/
structure Intact (sql : String) (blocks : List Block) : Prop where
  raws : ∀ b ∈ blocks, ∀ raw ∈ b.raws, Complete raw
  statements : ∃ composed, compose sql.toList = some composed ∧ scan composed = some (tokens (blocks.flatMap Block.meant))
  bodies : ∀ b ∈ blocks, lex (text (b.bodyParts (text b.exec))) = some (tokens (b.bodyParts (text b.exec)))
  execs : ∀ b ∈ blocks, lex (text b.exec) = some (tokens b.exec)
  names : ∀ b ∈ blocks, ∀ n ∈ b.names, readName n.token = some n.text.toList

/-! ## Calls of the builders -/

/-- `_UNSAFE_RAW_SQL`. -/
def unsafeRawSql : List String := [";", "--", "/*", "$", "\x00"]

/-- The checks of the predicates' `__init__`. -/
def Predicate.check : Predicate → Except PolicyError Unit
  | .sharedWith through fk tenantFk => do
    validateModelPath through "through"
    validateFieldName fk "fk"
    validateFieldName tenantFk "tenant_fk"
  | .tenantField field => validateFieldName field "field"
  | .raw sql =>
    if sql.toList.all isSpace ∨ ∃ token ∈ unsafeRawSql, token.toList <:+: sql.toList then .error (.unsafeName sql "sql")
    else .ok ()

/-- Predicates that were built. -/
def PredicatesOk (predicates : List Predicate) : Prop := ∀ p ∈ predicates, p.check = .ok ()

/-- A call of `create_sql` or `database_forwards`; an M2M constraint's through table is its
model's. -/
inductive Call
  | constraint (c : RLSConstraint) (built : PredicatesOk c.extraPredicates) (apps : Registry) (model : Model)
  | m2mConstraint (c : RLSM2MConstraint) (apps : Registry) (table : String)
  | operation (op : AddRLSPolicy) (built : PredicatesOk op.extraPredicates) (settings : Settings) (allowMigrate : Bool)
    (apps : Registry)
  | m2mOperation (op : AddM2MRLSPolicy) (allowMigrate : Bool) (apps : Registry)

namespace Call

/-- The text that is handed to the schema editor, if any. -/
def sql : Call → Except PolicyError (Option String)
  | .constraint c _ apps model => (c.createSql apps model).map some
  | .m2mConstraint c apps table => (c.createSql apps table).map some
  | .operation op _ settings allowMigrate apps => op.databaseForwards settings allowMigrate apps
  | .m2mOperation op allowMigrate apps => op.databaseForwards allowMigrate apps

/-- What stands before each OR of a tenant policy. -/
def flagsGap : String := "\n                              "

/-- What stands before the AND of an M2M policy. -/
def sidesGap : String := "\n                                "

/-- The block of a tenant policy. -/
def tenantBlock (table : String) (column : SqlName) (gucTenantVar gucAdminVar tenantPkType : String)
    (extraBypassFlags : List String) : Block :=
  ⟨table, s!"{table}_tenant_isolation_policy",
    .all flagsGap ((boolFlag gucAdminVar).anyOf (extraBypassFlags.map boolFlag)) (boolFlag gucAdminVar)
      [.equal (.column none column) (tenantValue gucTenantVar tenantPkType)]⟩

/-- The block of a sharing policy. -/
def sharingBlock (table : String) (clauses : List Clause) : Block :=
  ⟨table, s!"{table}_tenant_sharing_policy", .select clauses⟩

/-- The block of an M2M policy. -/
def m2mBlock (table fromTable toTable : String) (s : M2mSides) (o : PolicyOptions) : Block :=
  ⟨table, s!"{table}_m2m_rls_policy",
    .all sidesGap (boolFlag o.gucAdminVar) (boolFlag o.gucAdminVar)
      ((s.protectedSides fromTable toTable).map (M2mSide.cond · o.gucTenantVar o.tenantPkType))⟩

/-- The clause that a predicate writes. -/
def clause (apps : Registry) (model : Model) (tenantValue : Operand SqlName) : Predicate → Except PolicyError Clause
  | .sharedWith through fk tenantFk => do
    return .cond ((← resolveShared apps model through fk tenantFk).cond tenantValue)
  | .tenantField name => do
    let (table, column) ← resolveTenantField model name
    return .cond (tenantFieldCond table column tenantValue)
  | .raw sql => .ok (.raw sql)

/-- The block of the sharing policy, where there are predicates. -/
def sharingBlocks (apps : Registry) (model : Model) (predicates : List Predicate) (gucTenantVar tenantPkType : String) :
    Except PolicyError (List Block) :=
  if predicates.isEmpty then .ok [] else do
    let clauses ← predicates.mapM (clause apps model (tenantValue gucTenantVar tenantPkType))
    return [sharingBlock model.dbTable clauses]

/-- The blocks that the call means to write, for the names that it finds. -/
def blocks : Call → Except PolicyError (List Block)
  | .constraint c _ apps model => do
    let sharing ← sharingBlocks apps model c.extraPredicates c.gucTenantVar c.tenantPkType
    return tenantBlock model.dbTable ⟨false, s!"{c.field}_id"⟩ c.gucTenantVar c.gucAdminVar c.tenantPkType
      c.extraBypassFlags :: sharing
  | .m2mConstraint c apps table => do
    let fromTable ← resolveTable apps c.sides.fromModel
    let toTable ← resolveTable apps c.sides.toModel
    return [m2mBlock table fromTable toTable c.sides c.options]
  | .operation op _ settings _ apps => do
    let model ← op.findModel apps
    let column ← op.column settings model
    let sharing ← sharingBlocks apps model op.extraPredicates op.gucTenantVar op.tenantPkType
    return tenantBlock model.dbTable column op.gucTenantVar op.gucAdminVar op.tenantPkType op.extraBypassFlags :: sharing
  | .m2mOperation op _ apps => do
    let fromTable ← resolveTable apps op.sides.fromModel
    let toTable ← resolveTable apps op.sides.toModel
    return [m2mBlock op.m2mTable fromTable toTable op.sides op.options]

/-- **The call's text is not broken**: if it hands one over, the text is what it means. -/
def Unbroken (call : Call) : Prop :=
  ∀ sql, call.sql = .ok (some sql) → ∃ blocks, call.blocks = .ok blocks ∧ Intact sql blocks

end Call

/-! ## Names that are safe -/

/-- A name that PostgreSQL reads as it is, wherever a policy's text holds it. -/
structure SqlName.Sound (n : SqlName) : Prop where
  percent : '%' ∉ n.text.toList
  ended : '\x00' ∉ n.text.toList
  dollar : ¬ "$$".toList <:+: n.text.toList
  tag : ¬ "$BODY$".toList <:+: n.text.toList
  whole : byteLength n.text.toList ≤ 63
  quotes : n.quoted → '"' ∉ n.text.toList
  bare : ¬ n.quoted → (∀ c ∈ n.text.toList, c.isUpper = false) ∧ n.text ∉ reservedWords

/-- The names of a block are safe, its table's in literals too, and its raw texts complete. -/
structure Block.Sound (b : Block) : Prop where
  names : ∀ n ∈ b.names, n.Sound
  literals : '\'' ∉ b.policyName.toList
  raws : ∀ raw ∈ b.raws, Complete raw

end RlsTenants
