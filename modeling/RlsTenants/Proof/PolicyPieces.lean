import RlsTenants.Proof.Sharing
import RlsTenants.Proof.M2mAgree
import RlsTenants.Spec.PolicyText

/-!
# The pieces of a policy's text

* `text_condParts`: the pieces of a condition are its text.
* `Built`: what the pieces of a policy's text are; `Block.Written`: its conditions are
  well written.
* `fits_exec`, `built_exec`: the statements that a block executes fit, and are built from
  the block's names.
* `good_exec_iff`, `infix_exec`: what goes wrong in them goes wrong in a name.
-/

namespace RlsTenants

open RowSql SqlLexer

/-! ## The texts of the parts -/

theorem text_part (n : SqlName) : n.part.text = n.sql.toList := by
  obtain ⟨quoted, t⟩ := n
  cases quoted with
  | false => rfl
  | true =>
    have h : (SqlName.mk true t).sql = "\"" ++ t ++ "\"" := rfl
    rw [h]
    simp [SqlName.part, String.toList_append]

theorem text_scalarParts (s : Scalar) : text (scalarParts s) = (scalarSql s).toList := by
  induction s with
  | setting name =>
    have h : scalarSql (.setting name) = "(SELECT current_setting('" ++ name ++ "', true))" := rfl
    rw [h]
    simp [scalarParts, String.toList_append]
  | nullif s t ih =>
    have h : scalarSql (.nullif s t) = "nullif(" ++ scalarSql s ++ ", '" ++ t ++ "')" := rfl
    rw [h]
    simp [scalarParts, String.toList_append, ih]

theorem text_operandParts (x : Operand SqlName) : text (operandParts x) = (operandSql x).toList := by
  cases x with
  | column table name =>
    cases table with
    | none => simp [operandParts, operandSql, text_part]
    | some table =>
      have h : operandSql (.column (some table) name) = table.sql ++ "." ++ name.sql := rfl
      rw [h]
      simp [operandParts, String.toList_append, text_part]
  | cast s type =>
    have h : operandSql (.cast s type) = scalarSql s ++ "::" ++ type := rfl
    rw [h]
    simp [operandParts, String.toList_append, text_scalarParts]

theorem caseSql_eq (bypass otherwise : String) :
    caseSql bypass otherwise = "CASE WHEN " ++ bypass ++ caseElse ++ otherwise ++ (caseEnd ++ "END") := by
  have hend : (caseEnd ++ "END" : String) = "
                                END" := by simp [caseEnd]
  rw [hend]
  rfl

theorem text_condParts (gap : String) (c : Cond SqlName) : text (condParts gap c) = (condSql gap c).toList := by
  induction c generalizing gap with
  | equal a b =>
    have h : condSql gap (.equal a b) = operandSql a ++ " = " ++ operandSql b := rfl
    rw [h]
    simp [condParts, String.toList_append, text_operandParts]
  | textEqual s t =>
    have h : condSql gap (.textEqual s t) = scalarSql s ++ " = '" ++ t ++ "'" := rfl
    rw [h]
    simp [condParts, String.toList_append, text_scalarParts]
  | or a b iha ihb =>
    have h : condSql gap (.or a b) = condSql gap a ++ gap ++ "OR " ++ condSql gap b := rfl
    rw [h]
    simp [condParts, String.toList_append, iha, ihb]
  | and a b iha ihb =>
    have h : condSql gap (.and a b) = condSql gap a ++ gap ++ "AND " ++ condSql gap b := rfl
    rw [h]
    simp [condParts, String.toList_append, iha, ihb]
  | group a ih =>
    have h : condSql gap (.group a) = "(" ++ condSql gap a ++ ")" := rfl
    rw [h]
    simp [condParts, String.toList_append, ih]
  | caseTrue a b iha ihb =>
    rw [condSql_caseTrue, caseSql_eq]
    simp only [condParts, text_cons, text_append, text_nil, Piece.text_fixed, Piece.text_word, String.toList_append, iha, ihb,
      List.append_assoc, List.append_nil]
  | «exists» table label filter ih =>
    cases label with
    | none =>
      have h : condSql gap (.exists table none filter) =
          "EXISTS (SELECT 1 FROM " ++ table.sql ++ " WHERE " ++ condSql oneBlank filter ++ ")" := rfl
      rw [h]
      simp only [condParts, labelParts, text_cons, text_append, text_nil, Piece.text_fixed, String.toList_append, ih, text_part,
        List.append_assoc, List.append_nil]
    | some label =>
      have h : condSql gap (.exists table (some label) filter) =
          "EXISTS (SELECT 1 FROM " ++ (table.sql ++ " AS " ++ label.sql) ++ " WHERE " ++ condSql oneBlank filter ++ ")" := rfl
      rw [h]
      simp only [condParts, labelParts, text_cons, text_append, text_nil, Piece.text_fixed, String.toList_append, ih, text_part,
        List.append_assoc, List.append_nil, List.nil_append, List.cons_append]

theorem text_joinParts {sep : String} {parts : List (List Piece)} {texts : List String}
    (h : parts.map text = texts.map String.toList) : text (joinParts sep parts) = (joinSql sep texts).toList := by
  induction parts generalizing texts with
  | nil =>
    cases texts with
    | nil => rfl
    | cons t texts => cases h
  | cons a rest ih =>
    cases texts with
    | nil => cases h
    | cons t texts =>
      obtain ⟨ha, hrest⟩ := List.cons.inj h
      cases rest with
      | nil =>
        cases texts with
        | nil => exact ha
        | cons u texts => cases hrest
      | cons b rest =>
        cases texts with
        | nil => cases hrest
        | cons u texts =>
          have hsql : joinSql sep (t :: u :: texts) = t ++ sep ++ joinSql sep (u :: texts) := rfl
          rw [hsql, joinParts, text_append, text_cons, ih hrest, ha]
          simp only [Piece.text_fixed, String.toList_append, List.append_assoc]

theorem text_caseParts (gap : String) (bypass : Cond SqlName) (otherwise : List (Cond SqlName)) :
    text (caseParts gap bypass otherwise) =
      (caseSql (condSql gap bypass) (joinSql (gap ++ "AND ") (otherwise.map (condSql gap)))).toList := by
  have hjoin : text (joinParts (gap ++ "AND ") (otherwise.map (condParts gap))) =
      (joinSql (gap ++ "AND ") (otherwise.map (condSql gap))).toList := by
    apply text_joinParts
    rw [List.map_map, List.map_map]
    exact List.map_congr_left fun c _ => text_condParts gap c
  rw [caseSql_eq]
  simp only [caseParts, text_cons, text_append, text_nil, Piece.text_fixed, Piece.text_word, text_condParts, hjoin,
    String.toList_append, List.append_assoc, List.append_nil]

/-! ## The texts of the blocks -/

theorem toString_string (s : String) : toString s = s := rfl

open Block in
/-- The fixed pieces of `createPolicyBlock`. -/
theorem createPolicyBlock_pieces : ∃ s₀ s₁ s₂ s₃ s₄ s₅ s₆ s₈ : String,
    (∀ table policyName usingSql checkSql, createPolicyBlock table policyName usingSql checkSql =
      s₀ ++ policyName ++ s₁ ++ table ++ s₂ ++ table ++ s₃ ++ table ++ s₄ ++ policyName ++ s₅ ++ table ++ s₆ ++
        usingSql ++ execCheck ++ checkSql ++ s₈) ∧
    s₀ = statementDo ++ "$$" ++ bodyFind ++ "'" ∧ s₁ = "'" ++ bodyTable ++ "'" ∧
    s₂ = "'" ++ bodyExecute ++ "$BODY$" ++ execAlter ++ "\"" ∧ s₃ = "\"" ++ execForce ++ "\"" ∧
    s₄ = "\"" ++ execCreate ++ "\"" ∧ s₅ = "\"" ++ execOn ++ "\"" ∧ s₆ = "\"" ++ execUsing ∧
    s₈ = execEnd ++ "$BODY$" ++ bodyEnd ++ "$$" ++ statementEnd := by
  refine ⟨_, _, _, _, _, _, _, _, fun _ _ _ _ => rfl, ?_, ?_, ?_, ?_, ?_, ?_, ?_, ?_⟩ <;>
    simp [toString_string, statementDo, bodyFind, bodyTable, bodyExecute, execAlter, execForce, execCreate, execOn, execUsing,
      execEnd, bodyEnd, statementEnd]

open Block in
/-- The fixed pieces of `createSharingBlock`. -/
theorem createSharingBlock_pieces : ∃ s₀ s₁ s₂ s₃ s₄ s₅ : String,
    (∀ table policyName usingSql, createSharingBlock table policyName usingSql =
      s₀ ++ policyName ++ s₁ ++ table ++ s₂ ++ policyName ++ s₃ ++ table ++ s₄ ++ usingSql ++ s₅) ∧
    s₀ = statementDo ++ "$$" ++ bodyFind ++ "'" ∧ s₁ = "'" ++ bodyTable ++ "'" ∧
    s₂ = "'" ++ bodyExecute ++ "$BODY$" ++ execCreateOnly ++ "\"" ∧ s₃ = "\"" ++ execOn ++ "\"" ∧
    s₄ = "\"" ++ execSelect ∧ s₅ = execEnd ++ "$BODY$" ++ bodyEnd ++ "$$" ++ statementEnd := by
  refine ⟨_, _, _, _, _, _, fun _ _ _ => rfl, ?_, ?_, ?_, ?_, ?_, ?_⟩ <;>
    simp [toString_string, statementDo, bodyFind, bodyTable, bodyExecute, execCreateOnly, execOn, execSelect, execEnd,
      bodyEnd, statementEnd]

theorem toList_delimiters : "$$".toList = delimiter [] ∧ "$BODY$".toList = delimiter "BODY".toList ∧
    "'".toList = ['\''] ∧ "\"".toList = ['"'] := by
  simp [delimiter]

theorem text_do (x y e : List Char) : text [.fixed x, .block [] e, .fixed y] =
    x ++ delimiter [] ++ e ++ delimiter [] ++ y := by
  simp only [text_cons, text_nil, Piece.text_fixed, Piece.text_block, List.append_assoc, List.append_nil]

theorem text_execute (x y z w t p q e : List Char) :
    text [.fixed x, .literal p, .fixed y, .literal q, .fixed z, .block w e, .fixed t] =
      x ++ ('\'' :: p ++ ['\'']) ++ y ++ ('\'' :: q ++ ['\'']) ++ z ++ delimiter w ++ e ++ delimiter w ++ t := by
  simp only [text_cons, text_nil, Piece.text_fixed, Piece.text_literal, Piece.text_block, List.append_assoc,
    List.append_nil, List.cons_append]

/-- The text of a statement, around the text that it executes. -/
theorem text_statement (b : Block) (execText : List Char) : text (b.statement execText) =
    Block.statementDo.toList ++ delimiter [] ++
      (Block.bodyFind.toList ++ ('\'' :: b.policyName.toList ++ ['\'']) ++ Block.bodyTable.toList ++
        ('\'' :: b.table.toList ++ ['\'']) ++ Block.bodyExecute.toList ++ delimiter "BODY".toList ++ execText ++
        delimiter "BODY".toList ++ Block.bodyEnd.toList) ++ delimiter [] ++ Block.statementEnd.toList := by
  have hstatement : text (b.statement execText) = text [.fixed Block.statementDo.toList,
      .block [] (text (b.bodyParts execText)), .fixed Block.statementEnd.toList] := rfl
  have hbody : b.bodyParts execText = [.fixed Block.bodyFind.toList, .literal b.policyName.toList,
      .fixed Block.bodyTable.toList, .literal b.table.toList, .fixed Block.bodyExecute.toList,
      .block "BODY".toList execText, .fixed Block.bodyEnd.toList] := rfl
  rw [hstatement, text_do, hbody, text_execute]

theorem text_alter (x y z u v t n : List Char) (using_ check : List Piece) (m : List Char) :
    text ([Piece.fixed x, Piece.quoted t, Piece.fixed y, Piece.quoted t, Piece.fixed z, Piece.quoted n, Piece.fixed u,
        Piece.quoted t, Piece.fixed v] ++ using_ ++ Piece.fixed m :: check ++ [Piece.fixed w]) =
      x ++ ('"' :: t ++ ['"']) ++ y ++ ('"' :: t ++ ['"']) ++ z ++ ('"' :: n ++ ['"']) ++ u ++ ('"' :: t ++ ['"']) ++ v ++
        text using_ ++ m ++ text check ++ w := by
  simp only [text_cons, text_append, text_nil, Piece.text_fixed, Piece.text_quoted, List.append_assoc, List.append_nil,
    List.cons_append, List.nil_append]

theorem handed_createOnly (x u v t n : List Char) (using_ : List Piece) (w : List Char) :
    handed ([Piece.fixed x, Piece.quoted n, Piece.fixed u, Piece.quoted t, Piece.fixed v] ++ using_ ++ [Piece.fixed w]) =
      x ++ ('"' :: n ++ ['"']) ++ u ++ ('"' :: t ++ ['"']) ++ v ++ handed using_ ++ w := by
  simp only [handed_cons, handed_append, handed_nil, Piece.handed, Piece.text_fixed, Piece.text_quoted, List.append_assoc,
    List.append_nil, List.cons_append, List.nil_append]

section Strings

variable {dollars tag apostrophe quote : String} (hdollars : dollars.toList = delimiter [])
  (htag : tag.toList = delimiter "BODY".toList) (hapostrophe : apostrophe.toList = ['\'']) (hquote : quote.toList = ['"'])

include hdollars htag hapostrophe hquote

theorem toList_createPolicyBlock (d f b e a F c o u k E B S p t U C : String) :
    (d ++ dollars ++ f ++ apostrophe ++ p ++ (apostrophe ++ b ++ apostrophe) ++ t ++
      (apostrophe ++ e ++ tag ++ a ++ quote) ++ t ++ (quote ++ F ++ quote) ++ t ++ (quote ++ c ++ quote) ++ p ++
      (quote ++ o ++ quote) ++ t ++ (quote ++ u) ++ U ++ k ++ C ++ (E ++ tag ++ B ++ dollars ++ S)).toList =
    d.toList ++ delimiter [] ++ (f.toList ++ ('\'' :: p.toList ++ ['\'']) ++ b.toList ++ ('\'' :: t.toList ++ ['\'']) ++
      e.toList ++ delimiter "BODY".toList ++
      (a.toList ++ ('"' :: t.toList ++ ['"']) ++ F.toList ++ ('"' :: t.toList ++ ['"']) ++ c.toList ++
        ('"' :: p.toList ++ ['"']) ++ o.toList ++ ('"' :: t.toList ++ ['"']) ++ u.toList ++ U.toList ++ k.toList ++
        C.toList ++ E.toList) ++
      delimiter "BODY".toList ++ B.toList) ++ delimiter [] ++ S.toList := by
  simp only [String.toList_append, hdollars, htag, hapostrophe, hquote, List.append_assoc, List.cons_append,
    List.nil_append]

theorem toList_createSharingBlock (d f b e c o u E B S p t U : String) :
    (d ++ dollars ++ f ++ apostrophe ++ p ++ (apostrophe ++ b ++ apostrophe) ++ t ++
      (apostrophe ++ e ++ tag ++ c ++ quote) ++ p ++ (quote ++ o ++ quote) ++ t ++ (quote ++ u) ++ U ++
      (E ++ tag ++ B ++ dollars ++ S)).toList =
    d.toList ++ delimiter [] ++ (f.toList ++ ('\'' :: p.toList ++ ['\'']) ++ b.toList ++ ('\'' :: t.toList ++ ['\'']) ++
      e.toList ++ delimiter "BODY".toList ++
      (c.toList ++ ('"' :: p.toList ++ ['"']) ++ o.toList ++ ('"' :: t.toList ++ ['"']) ++ u.toList ++ U.toList ++
        E.toList) ++
      delimiter "BODY".toList ++ B.toList) ++ delimiter [] ++ S.toList := by
  simp only [String.toList_append, hdollars, htag, hapostrophe, hquote, List.append_assoc, List.cons_append,
    List.nil_append]

end Strings

theorem handed_all {table policyName gap : String} {bypassUsing bypassCheck : Cond SqlName}
    {otherwise : List (Cond SqlName)}
    (h : handed (Block.mk table policyName (.all gap bypassUsing bypassCheck otherwise)).exec =
      text (Block.mk table policyName (.all gap bypassUsing bypassCheck otherwise)).exec) :
    (Block.mk table policyName (.all gap bypassUsing bypassCheck otherwise)).handed =
      (createPolicyBlock table policyName
        (caseSql (condSql gap bypassUsing) (joinSql (gap ++ "AND ") (otherwise.map (condSql gap))))
        (caseSql (condSql gap bypassCheck) (joinSql (gap ++ "AND ") (otherwise.map (condSql gap))))).toList := by
  obtain ⟨s₀, s₁, s₂, s₃, s₄, s₅, s₆, s₈, hblock, rfl, rfl, rfl, rfl, rfl, rfl, rfl, rfl⟩ := createPolicyBlock_pieces
  obtain ⟨hdollars, htag, hapostrophe, hquote⟩ := toList_delimiters
  rw [Block.handed, text_statement, h, hblock, Block.exec, text_alter, text_caseParts, text_caseParts,
    toList_createPolicyBlock hdollars htag hapostrophe hquote]

theorem handed_select {table policyName : String} {clauses : List Clause} {texts : List String}
    (h : handed (joinParts sharingOr (clauses.map Clause.parts)) = (joinSql sharingOr texts).toList) :
    (Block.mk table policyName (.select clauses)).handed =
      (createSharingBlock table policyName (joinSql sharingOr texts)).toList := by
  obtain ⟨s₀, s₁, s₂, s₃, s₄, s₅, hblock, rfl, rfl, rfl, rfl, rfl, rfl⟩ := createSharingBlock_pieces
  obtain ⟨hdollars, htag, hapostrophe, hquote⟩ := toList_delimiters
  rw [Block.handed, text_statement, hblock, Block.exec, handed_createOnly, h,
    toList_createSharingBlock hdollars htag hapostrophe hquote]

/-! ## Fixed pieces -/

/-- A fixed piece: complete, with nothing in it that the layers around it look for. -/
def isFixed (t : List Char) : Bool := decide (Settled t) && t.all fun c => c ≠ '$' && c ≠ '%' && c ≠ '\x00'

theorem isFixed_of {s : String} {l : List Char} (hs : s = String.ofList l) (h : isFixed l = true) :
    isFixed s.toList = true := by
  rw [hs, String.toList_ofList, h]

theorem isFixed.settled {t : List Char} (h : isFixed t) : Settled t := by
  simp only [isFixed, Bool.and_eq_true, decide_eq_true_eq] at h
  exact h.1

theorem isFixed.tame {t : List Char} (h : isFixed t) : '$' ∉ t ∧ '%' ∉ t ∧ '\x00' ∉ t := by
  simp only [isFixed, Bool.and_eq_true, List.all_eq_true, decide_eq_true_eq] at h
  exact ⟨fun hmem => (h.2 _ hmem).1.1 rfl, fun hmem => (h.2 _ hmem).1.2 rfl, fun hmem => (h.2 _ hmem).2 rfl⟩

theorem isFixed.append {a b : List Char} (ha : isFixed a) (hb : isFixed b) : isFixed (a ++ b) := by
  simp only [isFixed, Bool.and_eq_true, decide_eq_true_eq, List.all_append] at ha hb ⊢
  refine ⟨?_, ha.2, hb.2⟩
  rw [Settled, run_append, ha.1]
  exact hb.1

set_option maxRecDepth 2000 in
open Block in
theorem fixed_exec : isFixed execAlter.toList ∧ isFixed execForce.toList ∧ isFixed execCreate.toList ∧
    isFixed execCreateOnly.toList ∧ isFixed execOn.toList ∧ isFixed execUsing.toList ∧ isFixed execSelect.toList ∧
    isFixed execCheck.toList ∧ isFixed execEnd.toList :=
  ⟨isFixed_of rfl (by decide), isFixed_of rfl (by decide), isFixed_of rfl (by decide),
    isFixed_of rfl (by decide), isFixed_of rfl (by decide), isFixed_of rfl (by decide),
    isFixed_of rfl (by decide), isFixed_of rfl (by decide), isFixed_of rfl (by decide)⟩

set_option maxRecDepth 2000 in
open Block in
theorem fixed_body : isFixed bodyFind.toList ∧ isFixed bodyTable.toList ∧ isFixed bodyExecute.toList ∧
    isFixed bodyEnd.toList ∧ isFixed statementDo.toList ∧ isFixed statementEnd.toList :=
  ⟨isFixed_of rfl (by decide), isFixed_of rfl (by decide), isFixed_of rfl (by decide),
    isFixed_of rfl (by decide), isFixed_of rfl (by decide), isFixed_of rfl (by decide)⟩

set_option maxRecDepth 2000 in
theorem fixed_cond : isFixed caseElse.toList ∧ isFixed caseEnd.toList ∧ isFixed "CASE WHEN ".toList ∧
    isFixed "EXISTS (SELECT 1 FROM ".toList ∧ isFixed " WHERE ".toList ∧ isFixed " AS ".toList ∧
    isFixed ")".toList ∧ isFixed "(".toList ∧ isFixed " = ".toList ∧ isFixed ".".toList ∧ isFixed "::".toList ∧
    isFixed "(SELECT current_setting(".toList ∧ isFixed ", true))".toList ∧ isFixed "nullif(".toList ∧
    isFixed ", ".toList ∧ isFixed "OR ".toList ∧ isFixed "AND ".toList :=
  ⟨isFixed_of rfl (by decide), isFixed_of rfl (by decide), isFixed_of rfl (by decide),
    isFixed_of rfl (by decide), isFixed_of rfl (by decide), isFixed_of rfl (by decide),
    isFixed_of rfl (by decide), isFixed_of rfl (by decide), isFixed_of rfl (by decide),
    isFixed_of rfl (by decide), isFixed_of rfl (by decide), isFixed_of rfl (by decide),
    isFixed_of rfl (by decide), isFixed_of rfl (by decide), isFixed_of rfl (by decide),
    isFixed_of rfl (by decide), isFixed_of rfl (by decide)⟩

/-! ## Conditions that are well written -/

/-- A literal that no layer of the text takes for anything else. -/
def Harmless (t : List Char) : Prop := ∀ c ∈ t, c ≠ '\'' ∧ c ≠ '%' ∧ c ≠ '$' ∧ c ≠ '\x00'

/-- A word of letters, digits and underscores, which does not start with a digit. -/
theorem word_of_isFieldName {name : String} (h : isFieldName name) :
    (∃ c cs, name.toList = c :: cs ∧ isWordStart c ∧ ∀ d ∈ cs, isWordChar d) ∧ ('$' ∉ name.toList ∧ '%' ∉ name.toList ∧ '\x00' ∉ name.toList) := by
  unfold isFieldName at h
  cases hname : name.toList with
  | nil =>
    rw [hname] at h
    cases h
  | cons c cs =>
    rw [hname] at h
    simp only [Bool.and_eq_true, Bool.or_eq_true, beq_iff_eq, List.all_eq_true] at h
    obtain ⟨hc, hcs⟩ := h
    have hstart : isWordStart c := by
      rcases hc with hc | hc <;> simp [isWordStart, hc]
    have hchars : ∀ d ∈ cs, isWordStart d := by
      intro d hd
      rcases hcs d hd with (hd | hd) | hd <;> simp [isWordStart, hd]
    refine ⟨⟨c, cs, rfl, hstart, fun d hd => by simp [isWordChar, hchars d hd]⟩, ?_, ?_, ?_⟩ <;>
    · intro hmem
      rcases List.mem_cons.mp hmem with rfl | hmem
      · revert hstart
        decide
      · exact absurd (hchars _ hmem) (by decide)

theorem harmless_of_isGucName {name : String} (h : isGucName name) : Harmless name.toList := by
  intro c hc
  unfold isGucName at h
  cases hname : name.toList with
  | nil =>
    rw [hname] at h
    cases h
  | cons d ds =>
    rw [hname] at h hc
    simp only [Bool.and_eq_true, Bool.or_eq_true, beq_iff_eq, List.all_eq_true] at h
    have hchar : ((c.isAlpha = true ∨ c.isDigit = true) ∨ c = '_') ∨ c = '.' := by
      rcases List.mem_cons.mp hc with rfl | hc
      · rcases h.1 with h | h
        · exact .inl (.inl (.inl h))
        · exact .inl (.inr h)
      · exact h.2 _ hc
    refine ⟨?_, ?_, ?_, ?_⟩ <;>
    · rintro rfl
      revert hchar
      decide

def SqlName.Written (n : SqlName) : Prop := n.quoted = false → isFieldName n.text

def scalarWritten : Scalar → Prop
  | .setting name => Harmless name.toList
  | .nullif s t => scalarWritten s ∧ Harmless t.toList

def operandWritten : Operand SqlName → Prop
  | .column table name => (∀ t ∈ table, t.Written) ∧ name.Written
  | .cast s type => scalarWritten s ∧ isFieldName type

/-- The condition's literals are harmless, and its bare names words. -/
def condWritten : Cond SqlName → Prop
  | .equal a b => operandWritten a ∧ operandWritten b
  | .textEqual s t => scalarWritten s ∧ Harmless t.toList
  | .or a b => condWritten a ∧ condWritten b
  | .and a b => condWritten a ∧ condWritten b
  | .group a => condWritten a
  | .caseTrue c otherwise => condWritten c ∧ condWritten otherwise
  | .exists table label filter => table.Written ∧ (∀ l ∈ label, l.Written) ∧ condWritten filter

/-- What a policy's text is built from: the quoted names are among `names`, and the
developer's own texts among `raws`. -/
inductive Built (names : List SqlName) (raws : List String) : Piece → Prop
  | fixed {t : List Char} (h : isFixed t) : Built names raws (.fixed t)
  | word {name : String} (h : isFieldName name) : Built names raws (.word name.toList)
  | literal {t : List Char} (h : Harmless t) : Built names raws (.literal t)
  | quoted {name : String} (h : ⟨true, name⟩ ∈ names) : Built names raws (.quoted name.toList)
  | expression {sql : String} (h : sql ∈ raws) : Built names raws (.expression sql.toList)

theorem Built.mono {names names' : List SqlName} {raws raws' : List String} {p : Piece} (h : Built names raws p)
    (hnames : ∀ n ∈ names, n ∈ names') (hraws : ∀ sql ∈ raws, sql ∈ raws') : Built names' raws' p := by
  cases h with
  | fixed h => exact .fixed h
  | word h => exact .word h
  | literal h => exact .literal h
  | quoted h => exact .quoted (hnames _ h)
  | expression h => exact .expression (hraws _ h)

/-- Pieces of a policy's text that are put together. -/
def AllBuilt (names : List SqlName) (raws : List String) (pieces : List Piece) : Prop := ∀ p ∈ pieces, Built names raws p

section Pieces

variable {names : List SqlName} {raws : List String}

theorem AllBuilt.nil : AllBuilt names raws [] := by
  intro p hp
  cases hp

theorem AllBuilt.cons {p : Piece} {ps : List Piece} (hp : Built names raws p) (hps : AllBuilt names raws ps) :
    AllBuilt names raws (p :: ps) := by
  intro q hq
  rcases List.mem_cons.mp hq with rfl | hq
  · exact hp
  · exact hps q hq

theorem AllBuilt.append {ps qs : List Piece} (hps : AllBuilt names raws ps) (hqs : AllBuilt names raws qs) :
    AllBuilt names raws (ps ++ qs) := by
  intro q hq
  rcases List.mem_append.mp hq with hq | hq
  · exact hps q hq
  · exact hqs q hq

theorem built_part {n : SqlName} (hn : n.Written) (hmem : n ∈ names) : Built names raws n.part := by
  obtain ⟨quoted, t⟩ := n
  cases quoted with
  | false => exact .word (hn rfl)
  | true => exact .quoted hmem

theorem built_scalar {s : Scalar} (hs : scalarWritten s) : AllBuilt names raws (scalarParts s) := by
  obtain ⟨-, -, -, -, -, -, hclose, -, -, -, -, hsetting, hmissing, hnullif, hcomma, -, -⟩ := fixed_cond
  induction s with
  | setting name => exact .cons (.fixed hsetting) (.cons (.literal hs) (.cons (.fixed hmissing) .nil))
  | nullif s t ih =>
    exact .append (.cons (.fixed hnullif) (ih hs.1)) (.cons (.fixed hcomma) (.cons (.literal hs.2) (.cons (.fixed hclose) .nil)))

theorem built_operand {x : Operand SqlName} (hx : operandWritten x) (hmem : ∀ n ∈ operandNames x, n ∈ names) :
    AllBuilt names raws (operandParts x) := by
  obtain ⟨-, -, -, -, -, -, -, -, -, hdot, hcast, -⟩ := fixed_cond
  cases x with
  | column table name =>
    cases table with
    | none => exact .cons (built_part hx.2 (hmem _ (by simp [operandNames]))) .nil
    | some table =>
      exact .cons (built_part (hx.1 _ rfl) (hmem _ (by simp [operandNames])))
        (.cons (.fixed hdot) (.cons (built_part hx.2 (hmem _ (by simp [operandNames]))) .nil))
  | cast s type => exact .append (built_scalar hx.1) (.cons (.fixed hcast) (.cons (.word hx.2) .nil))

theorem isFieldName_end : isFieldName "END" := by decide

/-- **A condition is built from its names.** -/
theorem built_cond {gap : String} (hgap : isFixed gap.toList) {c : Cond SqlName} (hc : condWritten c)
    (hmem : ∀ n ∈ condNames c, n ∈ names) : AllBuilt names raws (condParts gap c) := by
  obtain ⟨helse, hend, hcase, hexists, hwhere, has, hclose, hopen, hequal, -, -, -, -, -, -, hor, hand⟩ := fixed_cond
  induction c generalizing gap with
  | equal a b =>
    exact .append (built_operand hc.1 fun n hn => hmem n (List.mem_append_left _ hn))
      (.cons (.fixed hequal) (built_operand hc.2 fun n hn => hmem n (List.mem_append_right _ hn)))
  | textEqual s t => exact .append (built_scalar hc.1) (.cons (.fixed hequal) (.cons (.literal hc.2) .nil))
  | or a b iha ihb =>
    have hgapOr : isFixed (gap ++ "OR ").toList := by
      rw [String.toList_append]
      exact isFixed.append hgap hor
    exact .append (iha hgap hc.1 fun n hn => hmem n (List.mem_append_left _ hn))
      (.cons (.fixed hgapOr) (ihb hgap hc.2 fun n hn => hmem n (List.mem_append_right _ hn)))
  | and a b iha ihb =>
    have hgapAnd : isFixed (gap ++ "AND ").toList := by
      rw [String.toList_append]
      exact isFixed.append hgap hand
    exact .append (iha hgap hc.1 fun n hn => hmem n (List.mem_append_left _ hn))
      (.cons (.fixed hgapAnd) (ihb hgap hc.2 fun n hn => hmem n (List.mem_append_right _ hn)))
  | group a ih => exact .append (.cons (.fixed hopen) (ih hgap hc hmem)) (.cons (.fixed hclose) .nil)
  | caseTrue a b iha ihb =>
    exact .append (.append (.cons (.fixed hcase) (iha hgap hc.1 fun n hn => hmem n (List.mem_append_left _ hn)))
      (.cons (.fixed helse) (ihb hgap hc.2 fun n hn => hmem n (List.mem_append_right _ hn))))
      (.cons (.fixed hend) (.cons (.word isFieldName_end) .nil))
  | «exists» table label filter ih =>
    have hblank : isFixed oneBlank.toList := isFixed_of rfl (by decide)
    have htable : Built names raws table.part := built_part hc.1 (hmem _ (by simp [condNames]))
    have hlabel : AllBuilt names raws (labelParts label) := by
      cases label with
      | none => exact .nil
      | some label => exact .cons (.fixed has) (.cons (built_part (hc.2.1 _ rfl) (hmem _ (by simp [condNames]))) .nil)
    exact .append (.append (.cons (.fixed hexists) (.cons htable hlabel))
      (.cons (.fixed hwhere) (ih hblank hc.2.2 fun n hn => hmem n (by simp [condNames, hn])))) (.cons (.fixed hclose) .nil)

end Pieces

/-! ## Pieces that fit -/

/-- A text that starts with a character that ends any token. -/
def startsWithStop (t : List Char) : Bool := t.head?.any isStop

theorem startsWithStop_of {s : String} {l : List Char} (hs : s = String.ofList l) (h : startsWithStop l = true) :
    startsWithStop s.toList = true := by
  rw [hs, String.toList_ofList, h]

theorem stops_append {t : List Char} (h : startsWithStop t) (next : List Char) : Stops (t ++ next) := by
  cases t with
  | nil => cases h
  | cons c t =>
    intro d hd
    obtain rfl := Option.some.inj hd
    simpa [startsWithStop] using h

section Fits

variable {next : List Char} {f : List Char} {rest : List Piece}

theorem stops_fixed (h : startsWithStop f) (next : List Char) : Stops (text (.fixed f :: rest) ++ next) := by
  rw [text_cons, List.append_assoc]
  exact stops_append h _

theorem fits_fixed (h : isFixed f) (hrest : Fits next rest) : Fits next (.fixed f :: rest) := ⟨isFixed.settled h, hrest⟩

theorem fits_literal {t : List Char} (hstops : Stops (text rest ++ next)) (hrest : Fits next rest) :
    Fits next (.literal t :: rest) := ⟨hstops, hrest⟩

theorem fits_part {n : SqlName} (hn : n.Written) (hstops : Stops (text rest ++ next)) (hrest : Fits next rest) :
    Fits next (n.part :: rest) := by
  refine ⟨?_, hrest⟩
  obtain ⟨quoted, t⟩ := n
  cases quoted with
  | false => exact ⟨(word_of_isFieldName (hn rfl)).1, hstops⟩
  | true => exact hstops

theorem fits_word {name : String} (h : isFieldName name) (hstops : Stops (text rest ++ next)) (hrest : Fits next rest) :
    Fits next (.word name.toList :: rest) := ⟨⟨(word_of_isFieldName h).1, hstops⟩, hrest⟩

end Fits

theorem starts_cond : startsWithStop caseElse.toList ∧ startsWithStop caseEnd.toList ∧ startsWithStop " WHERE ".toList ∧
    startsWithStop " AS ".toList ∧ startsWithStop ")".toList ∧ startsWithStop " = ".toList ∧
    startsWithStop ".".toList ∧ startsWithStop ", true))".toList ∧ startsWithStop "::".toList :=
  ⟨startsWithStop_of rfl (by decide), startsWithStop_of rfl (by decide),
    startsWithStop_of rfl (by decide), startsWithStop_of rfl (by decide),
    startsWithStop_of rfl (by decide), startsWithStop_of rfl (by decide),
    startsWithStop_of rfl (by decide), startsWithStop_of rfl (by decide),
    startsWithStop_of rfl (by decide)⟩

theorem fits_scalar {s : Scalar} (hs : scalarWritten s) (next : List Char) : Fits next (scalarParts s) := by
  obtain ⟨-, -, -, -, -, -, hclose, -, -, -, -, hsetting, hmissing, hnullif, hcomma, -, -⟩ := fixed_cond
  obtain ⟨-, -, -, -, hsclose, -, -, hsmissing, -⟩ := starts_cond
  induction s generalizing next with
  | setting name =>
    exact fits_fixed hsetting (fits_literal (stops_fixed hsmissing _) (fits_fixed hmissing trivial))
  | nullif s t ih =>
    apply fits_append
    · exact fits_fixed hnullif (ih hs.1 _)
    · exact fits_fixed hcomma (fits_literal (stops_fixed hsclose _) (fits_fixed hclose trivial))

theorem fits_operand {x : Operand SqlName} (hx : operandWritten x) {next : List Char} (hnext : Stops next) :
    Fits next (operandParts x) := by
  obtain ⟨-, -, -, -, -, -, -, -, -, hdot, hcast, -⟩ := fixed_cond
  obtain ⟨-, -, -, -, -, -, hsdot, -, -⟩ := starts_cond
  cases x with
  | column table name =>
    cases table with
    | none => exact fits_part hx.2 hnext trivial
    | some table =>
      exact fits_part (hx.1 _ rfl) (stops_fixed hsdot _) (fits_fixed hdot (fits_part hx.2 hnext trivial))
  | cast s type => exact fits_append (fits_scalar hx.1 _) (fits_fixed hcast (fits_word hx.2 hnext trivial))

/-- What stands before an OR or AND. -/
structure GapOk (gap : String) : Prop where
  fixed : isFixed gap.toList
  starts : startsWithStop gap.toList

theorem gapOk_blank : GapOk oneBlank := ⟨isFixed_of rfl (by decide), startsWithStop_of rfl (by decide)⟩

theorem gapOk_flags : GapOk Call.flagsGap := ⟨isFixed_of rfl (by decide), startsWithStop_of rfl (by decide)⟩

theorem gapOk_sides : GapOk Call.sidesGap := ⟨isFixed_of rfl (by decide), startsWithStop_of rfl (by decide)⟩

theorem startsWithStop_append {a : List Char} (h : startsWithStop a) (b : List Char) : startsWithStop (a ++ b) := by
  cases a with
  | nil => cases h
  | cons c a => exact h

theorem GapOk.and {gap : String} (h : GapOk gap) :
    isFixed (gap ++ "AND ").toList ∧ startsWithStop (gap ++ "AND ").toList := by
  obtain ⟨-, -, -, -, -, -, -, -, -, -, -, -, -, -, -, -, hand⟩ := fixed_cond
  rw [String.toList_append]
  exact ⟨isFixed.append h.fixed hand, startsWithStop_append h.starts _⟩

theorem GapOk.or {gap : String} (h : GapOk gap) :
    isFixed (gap ++ "OR ").toList ∧ startsWithStop (gap ++ "OR ").toList := by
  obtain ⟨-, -, -, -, -, -, -, -, -, -, -, -, -, -, -, hor, -⟩ := fixed_cond
  rw [String.toList_append]
  exact ⟨isFixed.append h.fixed hor, startsWithStop_append h.starts _⟩

/-- **The pieces of a condition fit.** -/
theorem fits_cond {gap : String} (hgap : GapOk gap) {c : Cond SqlName} (hc : condWritten c) {next : List Char}
    (hnext : Stops next) : Fits next (condParts gap c) := by
  obtain ⟨helse, hend, hcase, hexists, hwhere, has, hclose, hopen, hequal, -⟩ := fixed_cond
  obtain ⟨hselse, hsend, hswhere, hsas, hsclose, hsequal, -⟩ := starts_cond
  induction c generalizing gap next with
  | equal a b =>
    exact fits_append (fits_operand hc.1 (stops_fixed hsequal _)) (fits_fixed hequal (fits_operand hc.2 hnext))
  | textEqual s t =>
    exact fits_append (fits_scalar hc.1 _) (fits_fixed hequal (fits_literal hnext trivial))
  | or a b iha ihb =>
    exact fits_append (iha hgap hc.1 (stops_fixed hgap.or.2 _)) (fits_fixed hgap.or.1 (ihb hgap hc.2 hnext))
  | and a b iha ihb =>
    exact fits_append (iha hgap hc.1 (stops_fixed hgap.and.2 _)) (fits_fixed hgap.and.1 (ihb hgap hc.2 hnext))
  | group a ih =>
    apply fits_append
    · exact fits_fixed hopen (ih hgap hc (stops_fixed hsclose _))
    · exact fits_fixed hclose trivial
  | caseTrue a b iha ihb =>
    apply fits_append
    · apply fits_append
      · exact fits_fixed hcase (iha hgap hc.1 (stops_fixed hselse _))
      · exact fits_fixed helse (ihb hgap hc.2 (stops_fixed hsend _))
    · exact fits_fixed hend (fits_word isFieldName_end hnext trivial)
  | «exists» table label filter ih =>
    apply fits_append
    · apply fits_append
      · apply fits_fixed hexists
        cases label with
        | none => exact fits_part hc.1 (stops_fixed hswhere _) trivial
        | some label =>
          apply fits_part hc.1 (stops_fixed hsas _)
          apply fits_fixed has
          exact fits_part (hc.2.1 _ rfl) (stops_fixed hswhere _) trivial
      · exact fits_fixed hwhere (ih gapOk_blank hc.2.2 (stops_fixed hsclose _))
    · exact fits_fixed hclose trivial

/-! ## Pieces that are joined -/

section Join

variable {sep : String}

theorem built_join {names : List SqlName} {raws : List String} {pieces : List (List Piece)} (hsep : isFixed sep.toList)
    (h : ∀ ps ∈ pieces, AllBuilt names raws ps) : AllBuilt names raws (joinParts sep pieces) := by
  induction pieces with
  | nil => exact .nil
  | cons a rest ih =>
    have ha := h a List.mem_cons_self
    have hrest := ih fun ps hps => h ps (List.mem_cons_of_mem _ hps)
    cases rest with
    | nil => exact ha
    | cons b rest => exact .append ha (.cons (.fixed hsep) hrest)

theorem fits_join {pieces : List (List Piece)} (hsep : isFixed sep.toList) (hstarts : startsWithStop sep.toList)
    (h : ∀ ps ∈ pieces, ∀ next, Stops next → Fits next ps) {next : List Char} (hnext : Stops next) :
    Fits next (joinParts sep pieces) := by
  induction pieces with
  | nil => trivial
  | cons a rest ih =>
    have ha := h a List.mem_cons_self
    have hrest := ih fun ps hps => h ps (List.mem_cons_of_mem _ hps)
    cases rest with
    | nil => exact ha next hnext
    | cons b rest => exact fits_append (ha _ (stops_fixed hstarts _)) (fits_fixed hsep hrest)

end Join

/-! ## Blocks that are well written -/

def Clause.Written : Clause → Prop
  | .cond c => condWritten c
  | .raw sql => '$' ∉ sql.toList ∧ '\x00' ∉ sql.toList

/-- The block's conditions are well written. -/
def Block.Written (b : Block) : Prop :=
  match b.body with
  | .all gap bypassUsing bypassCheck otherwise =>
    GapOk gap ∧ condWritten bypassUsing ∧ condWritten bypassCheck ∧ ∀ c ∈ otherwise, condWritten c
  | .select clauses => ∀ c ∈ clauses, c.Written

theorem fits_case {gap : String} (hgap : GapOk gap) {bypass : Cond SqlName} (hbypass : condWritten bypass)
    {otherwise : List (Cond SqlName)} (hotherwise : ∀ c ∈ otherwise, condWritten c) {next : List Char}
    (hnext : Stops next) : Fits next (caseParts gap bypass otherwise) := by
  obtain ⟨helse, hend, hcase, -⟩ := fixed_cond
  obtain ⟨hselse, hsend, -⟩ := starts_cond
  apply fits_append
  · apply fits_append
    · exact fits_fixed hcase (fits_cond hgap hbypass (stops_fixed hselse _))
    · apply fits_fixed helse
      apply fits_join hgap.and.1 hgap.and.2 _ (stops_fixed hsend _)
      intro ps hps
      obtain ⟨c, hc, rfl⟩ := List.mem_map.mp hps
      exact fun next hnext => fits_cond hgap (hotherwise c hc) hnext
  · exact fits_fixed hend (fits_word isFieldName_end hnext trivial)

theorem built_case {names : List SqlName} {raws : List String} {gap : String} (hgap : GapOk gap) {bypass : Cond SqlName}
    (hbypass : condWritten bypass) {otherwise : List (Cond SqlName)} (hotherwise : ∀ c ∈ otherwise, condWritten c)
    (hmem : ∀ n ∈ condNames bypass ++ otherwise.flatMap condNames, n ∈ names) :
    AllBuilt names raws (caseParts gap bypass otherwise) := by
  obtain ⟨helse, hend, hcase, -⟩ := fixed_cond
  have hjoin : AllBuilt names raws (joinParts (gap ++ "AND ") (otherwise.map (condParts gap))) := by
    apply built_join hgap.and.1
    intro ps hps
    obtain ⟨c, hc, rfl⟩ := List.mem_map.mp hps
    apply built_cond hgap.fixed (hotherwise c hc)
    exact fun n hn => hmem n (List.mem_append_right _ (List.mem_flatMap.mpr ⟨c, hc, hn⟩))
  have hfirst : AllBuilt names raws (condParts gap bypass) :=
    built_cond hgap.fixed hbypass fun n hn => hmem n (List.mem_append_left _ hn)
  exact .append (.append (.cons (.fixed hcase) hfirst) (.cons (.fixed helse) hjoin))
    (.cons (.fixed hend) (.cons (.word isFieldName_end) .nil))

theorem fixed_sharingOr : isFixed sharingOr.toList ∧ startsWithStop sharingOr.toList :=
  ⟨isFixed_of rfl (by decide), startsWithStop_of rfl (by decide)⟩

set_option maxRecDepth 2000 in
open Block in
theorem starts_exec : startsWithStop execForce.toList ∧ startsWithStop execCreate.toList ∧
    startsWithStop execOn.toList ∧ startsWithStop execUsing.toList ∧ startsWithStop execSelect.toList ∧
    startsWithStop execCheck.toList ∧ startsWithStop execEnd.toList ∧ startsWithStop bodyTable.toList ∧
    startsWithStop bodyExecute.toList :=
  ⟨startsWithStop_of rfl (by decide), startsWithStop_of rfl (by decide),
    startsWithStop_of rfl (by decide), startsWithStop_of rfl (by decide),
    startsWithStop_of rfl (by decide), startsWithStop_of rfl (by decide),
    startsWithStop_of rfl (by decide), startsWithStop_of rfl (by decide),
    startsWithStop_of rfl (by decide)⟩

theorem fits_quoted {name : List Char} {next : List Char} {rest : List Piece} (hstops : Stops (text rest ++ next))
    (hrest : Fits next rest) : Fits next (.quoted name :: rest) := ⟨hstops, hrest⟩

/-- **The executed statements fit.** -/
theorem fits_exec {b : Block} (hb : b.Written) (hraws : ∀ raw ∈ b.raws, Complete raw) : Fits [] b.exec := by
  obtain ⟨halter, hforce, hcreate, honly, hon, husing, hselect, hcheck, hend⟩ := fixed_exec
  obtain ⟨hsforce, hscreate, hson, hsusing, hsselect, hscheck, hsend, -, -⟩ := starts_exec
  obtain ⟨table, policyName, body⟩ := b
  cases body with
  | all gap bypassUsing bypassCheck otherwise =>
    obtain ⟨hgap, hbypassUsing, hbypassCheck, hotherwise⟩ := hb
    apply fits_append
    · apply fits_append
      · apply fits_append
        · apply fits_fixed halter
          apply fits_quoted (stops_fixed hsforce _)
          apply fits_fixed hforce
          apply fits_quoted (stops_fixed hscreate _)
          apply fits_fixed hcreate
          apply fits_quoted (stops_fixed hson _)
          apply fits_fixed hon
          apply fits_quoted (stops_fixed hsusing _)
          exact fits_fixed husing trivial
        · exact fits_case hgap hbypassUsing hotherwise (stops_fixed hscheck _)
      · exact fits_fixed hcheck (fits_case hgap hbypassCheck hotherwise (stops_fixed hsend _))
    · exact fits_fixed hend trivial
  | select clauses =>
    obtain ⟨hor, hsor⟩ := fixed_sharingOr
    obtain ⟨-, -, -, -, -, -, hclose, hopen, -⟩ := fixed_cond
    obtain ⟨-, -, -, -, hsclose, -⟩ := starts_cond
    apply fits_append
    · apply fits_append
      · apply fits_fixed honly
        apply fits_quoted (stops_fixed hson _)
        apply fits_fixed hon
        apply fits_quoted (stops_fixed hsselect _)
        exact fits_fixed hselect trivial
      · apply fits_join hor hsor _ (stops_fixed hsend _)
        intro ps hps next hnext
        obtain ⟨clause, hclause, rfl⟩ := List.mem_map.mp hps
        cases clause with
        | cond c => exact fits_cond gapOk_blank (hb _ hclause) hnext
        | raw sql =>
          have hcomplete : Complete sql := hraws sql (List.mem_filterMap.mpr ⟨_, hclause, rfl⟩)
          exact fits_fixed hopen ⟨⟨hcomplete.1, hcomplete.2, stops_fixed hsclose _⟩, fits_fixed hclose trivial⟩
    · exact fits_fixed hend trivial

/-- **The executed statements are built from the block's names.** -/
theorem built_exec {b : Block} (hb : b.Written) : AllBuilt b.names b.raws b.exec := by
  obtain ⟨halter, hforce, hcreate, honly, hon, husing, hselect, hcheck, hend⟩ := fixed_exec
  have htable : ∀ body, (⟨true, b.table⟩ : SqlName) ∈ (Block.mk b.table b.policyName body).names := by simp [Block.names]
  have hpolicy : ∀ body, (⟨true, b.policyName⟩ : SqlName) ∈ (Block.mk b.table b.policyName body).names := by
    simp [Block.names]
  obtain ⟨table, policyName, body⟩ := b
  have ht := htable body
  have hp := hpolicy body
  cases body with
  | all gap bypassUsing bypassCheck otherwise =>
    obtain ⟨hgap, hbypassUsing, hbypassCheck, hotherwise⟩ := hb
    refine .append (.append (.append (.cons (.fixed halter) (.cons (.quoted ht) (.cons (.fixed hforce) (.cons (.quoted ht)
      (.cons (.fixed hcreate) (.cons (.quoted hp) (.cons (.fixed hon) (.cons (.quoted ht)
        (.cons (.fixed husing) .nil))))))))) (built_case hgap hbypassUsing hotherwise ?_))
      (.cons (.fixed hcheck) (built_case hgap hbypassCheck hotherwise ?_))) (.cons (.fixed hend) .nil)
    · intro n hn
      rcases List.mem_append.mp hn with hn | hn <;> simp [Block.names, hn]
    · intro n hn
      rcases List.mem_append.mp hn with hn | hn <;> simp [Block.names, hn]
  | select clauses =>
    obtain ⟨hor, -⟩ := fixed_sharingOr
    obtain ⟨-, -, -, -, -, -, hclose, hopen, -⟩ := fixed_cond
    refine .append (.append (.cons (.fixed honly) (.cons (.quoted hp) (.cons (.fixed hon) (.cons (.quoted ht)
      (.cons (.fixed hselect) .nil))))) (built_join hor ?_)) (.cons (.fixed hend) .nil)
    intro ps hps
    obtain ⟨clause, hclause, rfl⟩ := List.mem_map.mp hps
    cases clause with
    | cond c =>
      apply built_cond gapOk_blank.fixed (hb _ hclause)
      intro n hn
      apply List.mem_cons_of_mem
      apply List.mem_cons_of_mem
      exact List.mem_flatMap.mpr ⟨.cond c, hclause, hn⟩
    | raw sql =>
      have hmem : sql ∈ (Block.mk table policyName (.select clauses)).raws :=
        List.mem_filterMap.mpr ⟨_, hclause, rfl⟩
      exact .cons (.fixed hopen) (.cons (.expression hmem) (.cons (.fixed hclose) .nil))

/-! ## The names are in the text -/

theorem quoted_part {n : SqlName} (h : n.quoted) : n.part = .quoted n.text.toList := by
  rw [SqlName.part, if_pos h]

theorem quoted_mem_operand {n : SqlName} (hn : n.quoted) {x : Operand SqlName} (hmem : n ∈ operandNames x) :
    Piece.quoted n.text.toList ∈ operandParts x := by
  rw [← quoted_part hn]
  cases x with
  | column table name =>
    cases table with
    | none =>
      obtain rfl : n = name := by simpa [operandNames] using hmem
      simp [operandParts]
    | some table =>
      simp only [operandNames, Option.toList_some, List.cons_append, List.nil_append, List.mem_cons, List.not_mem_nil,
        or_false] at hmem
      rcases hmem with rfl | rfl <;> simp [operandParts]
  | cast s type => cases hmem

theorem quoted_mem_cond {n : SqlName} (hn : n.quoted) {gap : String} {c : Cond SqlName} (hmem : n ∈ condNames c) :
    Piece.quoted n.text.toList ∈ condParts gap c := by
  induction c generalizing gap with
  | equal a b =>
    rcases List.mem_append.mp hmem with h | h
    · exact List.mem_append_left _ (quoted_mem_operand hn h)
    · exact List.mem_append_right _ (List.mem_cons_of_mem _ (quoted_mem_operand hn h))
  | textEqual s t => cases hmem
  | or a b iha ihb =>
    rcases List.mem_append.mp hmem with h | h
    · exact List.mem_append_left _ (iha h)
    · exact List.mem_append_right _ (List.mem_cons_of_mem _ (ihb h))
  | and a b iha ihb =>
    rcases List.mem_append.mp hmem with h | h
    · exact List.mem_append_left _ (iha h)
    · exact List.mem_append_right _ (List.mem_cons_of_mem _ (ihb h))
  | group a ih => exact List.mem_append_left _ (List.mem_cons_of_mem _ (ih hmem))
  | caseTrue a b iha ihb =>
    apply List.mem_append_left
    rcases List.mem_append.mp hmem with h | h
    · exact List.mem_append_left _ (List.mem_cons_of_mem _ (iha h))
    · exact List.mem_append_right _ (List.mem_cons_of_mem _ (ihb h))
  | «exists» table label filter ih =>
    apply List.mem_append_left
    rcases List.mem_append.mp hmem with h | h
    · apply List.mem_append_left
      apply List.mem_cons_of_mem
      rw [← quoted_part hn]
      rcases List.mem_cons.mp h with rfl | h
      · exact List.mem_cons_self
      · cases label with
        | none => cases h
        | some label =>
          obtain rfl : n = label := by simpa using h
          simp [labelParts]
    · exact List.mem_append_right _ (List.mem_cons_of_mem _ (ih h))

theorem mem_joinParts {sep : String} {pieces : List (List Piece)} {ps : List Piece} (hps : ps ∈ pieces) {p : Piece}
    (hp : p ∈ ps) : p ∈ joinParts sep pieces := by
  induction pieces with
  | nil => cases hps
  | cons a rest ih =>
    cases rest with
    | nil =>
      obtain rfl : ps = a := by simpa using hps
      exact hp
    | cons b rest =>
      rcases List.mem_cons.mp hps with rfl | hps
      · exact List.mem_append_left _ hp
      · exact List.mem_append_right _ (List.mem_cons_of_mem _ (ih hps))

theorem quoted_mem_case {n : SqlName} (hn : n.quoted) {gap : String} {bypass : Cond SqlName}
    {otherwise : List (Cond SqlName)} (hmem : n ∈ condNames bypass ∨ n ∈ otherwise.flatMap condNames) :
    Piece.quoted n.text.toList ∈ caseParts gap bypass otherwise := by
  apply List.mem_append_left
  rcases hmem with h | h
  · exact List.mem_append_left _ (List.mem_cons_of_mem _ (quoted_mem_cond hn h))
  · obtain ⟨c, hc, hnc⟩ := List.mem_flatMap.mp h
    apply List.mem_append_right
    apply List.mem_cons_of_mem
    exact mem_joinParts (List.mem_map_of_mem hc) (quoted_mem_cond hn hnc)

/-- **Every quoted name is put in.** -/
theorem quoted_mem_exec {b : Block} {n : SqlName} (hmem : n ∈ b.names) (hn : n.quoted) :
    Piece.quoted n.text.toList ∈ b.exec := by
  obtain ⟨table, policyName, body⟩ := b
  cases body with
  | all gap bypassUsing bypassCheck otherwise =>
    rcases List.mem_cons.mp hmem with rfl | hmem
    · simp [Block.exec]
    rcases List.mem_cons.mp hmem with rfl | hmem
    · simp [Block.exec]
    apply List.mem_append_left
    rcases List.mem_append.mp hmem with h | h
    · rcases List.mem_append.mp h with h | h
      · exact List.mem_append_left _ (List.mem_append_right _ (quoted_mem_case hn (.inl h)))
      · exact List.mem_append_right _ (List.mem_cons_of_mem _ (quoted_mem_case hn (.inl h)))
    · exact List.mem_append_left _ (List.mem_append_right _ (quoted_mem_case hn (.inr h)))
  | select clauses =>
    rcases List.mem_cons.mp hmem with rfl | hmem
    · simp [Block.exec]
    rcases List.mem_cons.mp hmem with rfl | hmem
    · simp [Block.exec]
    apply List.mem_append_left
    apply List.mem_append_right
    obtain ⟨clause, hclause, hnc⟩ := List.mem_flatMap.mp hmem
    cases clause with
    | cond c => exact mem_joinParts (List.mem_map_of_mem hclause) (quoted_mem_cond hn hnc)
    | raw sql => cases hnc

/-! ## What the executed statements hold -/

section Exec

variable {b : Block} (hb : b.Written)

include hb

theorem tame_exec : ∀ p ∈ b.exec, p.Tame := by
  intro p hp
  cases built_exec hb p hp with
  | fixed h => exact isFixed.tame h
  | word h => exact (word_of_isFieldName h).2
  | literal h => trivial
  | quoted h => trivial
  | expression h =>
    -- Only sharing policies have raw texts.
    obtain ⟨table, policyName, body⟩ := b
    cases body with
    | all gap bypassUsing bypassCheck otherwise => cases h
    | select clauses =>
      obtain ⟨clause, hclause, hraw⟩ := List.mem_filterMap.mp h
      cases clause with
      | cond c => cases hraw
      | raw sql =>
        obtain rfl := Option.some.inj hraw
        exact hb _ hclause

/-- What is put in are the quoted names, and harmless literals. -/
theorem forall_inserted {P : List Char → Prop} (hP : ∀ t, Harmless t → P t) :
    (∀ t ∈ inserted b.exec, P t) ↔ ∀ n ∈ b.names, n.quoted → P n.text.toList := by
  constructor
  · intro h n hn hquoted
    apply h
    exact List.mem_flatMap.mpr ⟨_, quoted_mem_exec hn hquoted, by simp [Piece.inserted]⟩
  · intro h t ht
    obtain ⟨p, hp, ht⟩ := List.mem_flatMap.mp ht
    cases built_exec hb p hp with
    | fixed h => cases ht
    | word h => cases ht
    | literal hharmless =>
      obtain rfl : t = _ := by simpa [Piece.inserted] using ht
      exact hP _ hharmless
    | quoted hmem =>
      obtain rfl : t = _ := by simpa [Piece.inserted] using ht
      exact h _ hmem rfl
    | expression h => cases ht

theorem good_exec_iff : (∀ p ∈ b.exec, p.Good) ↔ ∀ n ∈ b.names, n.quoted → '"' ∉ n.text.toList := by
  constructor
  · intro h n hn hquoted
    exact h _ (quoted_mem_exec hn hquoted)
  · intro h p hp
    cases built_exec hb p hp with
    | fixed h => trivial
    | word h => trivial
    | literal hharmless => exact fun hmem => (hharmless _ hmem).1 rfl
    | quoted hmem => exact h _ hmem rfl
    | expression h => trivial

/-- A delimiter in the executed statements is in a name. -/
theorem infix_exec {d : List Char} (hquote : '"' ∉ '$' :: d) (hapostrophe : '\'' ∉ '$' :: d) (next : List Char) :
    ¬ '$' :: d <:+: text b.exec ++ next ↔
      (∀ n ∈ b.names, n.quoted → ¬ '$' :: d <:+: n.text.toList) ∧ ¬ '$' :: d <:+: next := by
  have hharmless : ∀ t, Harmless t → ¬ '$' :: d <:+: t := by
    intro t ht hinside
    exact (ht _ (hinside.subset List.mem_cons_self)).2.2.1 rfl
  have hall := forall_inserted hb (P := fun t => ¬ '$' :: d <:+: t) hharmless
  rw [infix_text (tame_exec hb) hquote hapostrophe, not_or, ← hall]
  simp only [not_exists, not_and]

end Exec

end RlsTenants
