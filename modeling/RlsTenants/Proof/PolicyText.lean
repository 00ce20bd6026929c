import RlsTenants.Proof.M2mPlan
import RlsTenants.Proof.PolicyPieces

/-!
# Names that break a policy's text

* `intact_iff`: the text of well written blocks is intact exactly when the blocks are
  sound.
* `Call.sql_blocks`: what a call hands over are the blocks that it means.
* **`unbroken_iff`**: a call's text is not broken exactly when the names that it finds are
  sound.
-/

namespace RlsTenants

open RowSql SqlLexer

/-! ## Around the executed statements -/

/-- The text before the executed statements. -/
def statementStart (b : Block) : List Char :=
  Block.statementDo.toList ++ delimiter [] ++ (Block.bodyFind.toList ++ ('\'' :: b.policyName.toList ++ ['\'']) ++
    Block.bodyTable.toList ++ ('\'' :: b.table.toList ++ ['\'']) ++ Block.bodyExecute.toList ++ delimiter "BODY".toList)

/-- The text after them. -/
def statementRest : List Char :=
  delimiter "BODY".toList ++ Block.bodyEnd.toList ++ delimiter [] ++ Block.statementEnd.toList

theorem text_statement_split (b : Block) (execText : List Char) :
    text (b.statement execText) = statementStart b ++ (execText ++ statementRest) := by
  rw [text_statement, statementStart, statementRest]
  simp only [List.append_assoc]

theorem tag_eq : "BODY".toList = ['B', 'O', 'D', 'Y'] := by simp

theorem count_fixed {c : Char} (hc : c = '%' ∨ c = '\x00') {t : List Char} (h : isFixed t) : t.count c = 0 := by
  rw [List.count_eq_zero]
  rcases hc with rfl | rfl
  · exact (isFixed.tame h).2.1
  · exact (isFixed.tame h).2.2

theorem count_delimiters {c : Char} (hc : c = '%' ∨ c = '\x00') :
    (delimiter []).count c = 0 ∧ (delimiter "BODY".toList).count c = 0 := by
  rw [tag_eq]
  rcases hc with rfl | rfl <;> decide

theorem count_statementStart {c : Char} (hc : c = '%' ∨ c = '\x00') (b : Block) :
    (statementStart b).count c = b.policyName.toList.count c + b.table.toList.count c := by
  obtain ⟨hfind, htable, hexecute, -, hdo, -⟩ := fixed_body
  obtain ⟨hdollars, htag⟩ := count_delimiters hc
  have hquotes : ∀ t : List Char, ('\'' :: t ++ ['\'']).count c = t.count c := by
    intro t
    rcases hc with rfl | rfl <;> simp
  simp only [statementStart, List.count_append, hquotes, count_fixed hc hfind, count_fixed hc htable,
    count_fixed hc hexecute, count_fixed hc hdo, hdollars, htag]
  omega

theorem count_statementRest {c : Char} (hc : c = '%' ∨ c = '\x00') : statementRest.count c = 0 := by
  obtain ⟨-, -, -, hend, -, hstatementEnd⟩ := fixed_body
  obtain ⟨hdollars, htag⟩ := count_delimiters hc
  simp only [statementRest, List.count_append, count_fixed hc hend, count_fixed hc hstatementEnd, hdollars, htag]

/-- The percent signs that a block's names hold. -/
def Block.percent (b : Block) : ℕ := b.policyName.toList.count '%' + b.table.toList.count '%' + SqlLexer.percent b.exec

section Statement

variable {b : Block} (hb : b.Written)

include hb

theorem count_handed_block :
    2 * (text b.meant).count '%' = b.handed.count '%' + b.percent := by
  have hexec := count_handed (tame_exec hb)
  rw [Block.meant, Block.handed, text_statement_split, text_statement_split, Block.percent]
  simp only [List.count_append, count_statementStart (.inl rfl), count_statementRest (.inl rfl)]
  omega

theorem compose_block (hzero : b.percent = 0) (rest : List Char) :
    compose (b.handed ++ rest) = (compose rest).map (text b.meant ++ ·) := by
  simp only [Block.percent, Nat.add_eq_zero_iff] at hzero
  obtain ⟨⟨hpolicy, htable⟩, hexec⟩ := hzero
  have hstart : '%' ∉ statementStart b := by
    rw [← List.count_eq_zero, count_statementStart (.inl rfl), hpolicy, htable]
  have hrest : '%' ∉ statementRest := by
    rw [← List.count_eq_zero, count_statementRest (.inl rfl)]
  rw [Block.handed, text_statement_split, List.append_assoc, compose_append hstart, List.append_assoc,
    compose_handed (tame_exec hb) hexec, compose_append hrest, Option.map_map, Option.map_map, Block.meant,
    text_statement_split]
  simp [Function.comp_def, List.append_assoc]

theorem percent_block_iff : b.percent = 0 ↔ '%' ∉ b.policyName.toList ∧ '%' ∉ b.table.toList ∧
    ∀ n ∈ b.names, n.quoted → '%' ∉ n.text.toList := by
  have hharmless : ∀ t, Harmless t → '%' ∉ t := fun t ht hmem => (ht _ hmem).2.1 rfl
  rw [Block.percent, Nat.add_eq_zero_iff, Nat.add_eq_zero_iff, List.count_eq_zero, List.count_eq_zero, percent_eq_zero,
    forall_inserted hb hharmless, and_assoc]

theorem nul_block_iff : '\x00' ∉ text b.meant ↔ '\x00' ∉ b.policyName.toList ∧ '\x00' ∉ b.table.toList ∧
    ∀ n ∈ b.names, n.quoted → '\x00' ∉ n.text.toList := by
  have hharmless : ∀ t, Harmless t → '\x00' ∉ t := fun t ht hmem => (ht _ hmem).2.2.2 rfl
  have hexec : '\x00' ∉ text b.exec ↔ ∀ n ∈ b.names, n.quoted → '\x00' ∉ n.text.toList := by
    rw [nul_mem_text (tame_exec hb), ← forall_inserted hb hharmless]
    simp only [not_exists, not_and]
  rw [← hexec, Block.meant, text_statement_split]
  simp only [← List.count_eq_zero, List.count_append, count_statementStart (.inr rfl), count_statementRest (.inr rfl)]
  omega

end Statement

/-! ## The layers -/

theorem getLast?_of {s : String} {l : List Char} {c : Char} (hs : s = String.ofList l) (h : l.getLast? = some c) :
    s.toList.getLast? = some c := by
  rw [hs, String.toList_ofList, h]

open Block in
theorem last_pieces : execEnd.toList.getLast? = some ' ' ∧ bodyEnd.toList.getLast? = some ' ' :=
  ⟨getLast?_of rfl (by decide), getLast?_of rfl (by decide)⟩

theorem fits_bodyParts (b : Block) (execText : List Char) : Fits [] (b.bodyParts execText) := by
  obtain ⟨hfind, htable, hexecute, hend, -⟩ := fixed_body
  obtain ⟨-, -, -, -, -, -, -, hstable, hsexecute⟩ := starts_exec
  have htag : run .plain (delimiter "BODY".toList) = (.dollar "BODY".toList [], []) := by
    rw [tag_eq]
    decide
  exact fits_fixed hfind (fits_literal (stops_fixed hstable _) (fits_fixed htable
    (fits_literal (stops_fixed hsexecute _) (fits_fixed hexecute ⟨htag, fits_fixed hend trivial⟩))))

theorem good_bodyParts (b : Block) (execText : List Char) : (∀ p ∈ b.bodyParts execText, p.Good) ↔
    '\'' ∉ b.policyName.toList ∧ '\'' ∉ b.table.toList ∧ Clear "BODY".toList execText := by
  constructor
  · intro h
    exact ⟨h (.literal b.policyName.toList) (by simp [Block.bodyParts]), h (.literal b.table.toList) (by simp [Block.bodyParts]),
      h (.block "BODY".toList execText) (by simp [Block.bodyParts])⟩
  · rintro ⟨hpolicy, htable, hclear⟩ p hp
    simp only [Block.bodyParts, List.mem_cons, List.not_mem_nil, or_false] at hp
    rcases hp with rfl | rfl | rfl | rfl | rfl | rfl | rfl
    · trivial
    · exact hpolicy
    · trivial
    · exact htable
    · trivial
    · exact hclear
    · trivial

theorem fits_statement (b : Block) (execText : List Char) (next : List Char) : Fits next (b.statement execText) := by
  obtain ⟨-, -, -, -, hdo, hend⟩ := fixed_body
  have htag : run .plain (delimiter []) = (.dollar [] [], []) := by decide
  exact fits_fixed hdo ⟨htag, fits_fixed hend trivial⟩

theorem good_statement (b : Block) (execText : List Char) : (∀ p ∈ b.statement execText, p.Good) ↔
    Clear [] (text (b.bodyParts execText)) := by
  constructor
  · intro h
    exact h (.block [] (text (b.bodyParts execText))) (by simp [Block.statement])
  · intro hclear p hp
    simp only [Block.statement, List.mem_cons, List.not_mem_nil, or_false] at hp
    rcases hp with rfl | rfl | rfl
    · trivial
    · exact hclear
    · trivial

theorem fits_meant (blocks : List Block) (next : List Char) : Fits next (blocks.flatMap Block.meant) := by
  induction blocks with
  | nil => trivial
  | cons b blocks ih => exact fits_append (fits_statement b _ _) ih

/-- The executed statements end in a blank. -/
theorem last_exec (b : Block) : (text b.exec).getLast? = some ' ' := by
  have hend : ∃ front, b.exec = front ++ [.fixed Block.execEnd.toList] := by
    unfold Block.exec
    cases b.body with
    | all gap bypassUsing bypassCheck otherwise => exact ⟨_, rfl⟩
    | select clauses => exact ⟨_, rfl⟩
  obtain ⟨front, hfront⟩ := hend
  rw [hfront, text_append, text_cons, text_nil, Piece.text_fixed, List.append_nil, List.getLast?_append, last_pieces.1]
  rfl

/-- They start with a character that is no dollar sign. -/
theorem head_exec (b : Block) (next : List Char) : ∃ c t, text b.exec ++ next = c :: t ∧ c ≠ '$' := by
  have hstart : ∃ f rest, b.exec = .fixed f :: rest ∧ startsWithStop f := by
    unfold Block.exec
    cases b.body with
    | all gap bypassUsing bypassCheck otherwise =>
      exact ⟨_, _, rfl, startsWithStop_of rfl (by decide)⟩
    | select clauses => exact ⟨_, _, rfl, startsWithStop_of rfl (by decide)⟩
  obtain ⟨f, rest, hexec, hf⟩ := hstart
  cases f with
  | nil => cases hf
  | cons c f =>
    refine ⟨c, f ++ text rest ++ next, by simp [hexec], ?_⟩
    rintro rfl
    simp [startsWithStop, isStop, isWordChar] at hf

theorem clear_exec_iff {b : Block} (hb : b.Written) : Clear "BODY".toList (text b.exec) ↔
    ∀ n ∈ b.names, n.quoted → ¬ "$BODY$".toList <:+: n.text.toList := by
  have hblank : ' ' ∉ delimiter "BODY".toList := by
    rw [tag_eq]
    decide
  have htag : "$BODY$".toList = '$' :: ['B', 'O', 'D', 'Y', '$'] := by simp
  have hdelimiter : delimiter "BODY".toList = '$' :: ['B', 'O', 'D', 'Y', '$'] := by simp [delimiter]
  have hinside := infix_exec hb (by decide : '"' ∉ '$' :: ['B', 'O', 'D', 'Y', '$']) (by decide) []
  rw [clear_iff (last_exec b) hblank, htag, hdelimiter, ← List.append_nil (text b.exec), hinside]
  simp

theorem clear_body_iff {b : Block} (hb : b.Written) : Clear [] (text (b.bodyParts (text b.exec))) ↔
    ¬ "$$".toList <:+: b.policyName.toList ∧ ¬ "$$".toList <:+: b.table.toList ∧
      ∀ n ∈ b.names, n.quoted → ¬ "$$".toList <:+: n.text.toList := by
  obtain ⟨hfind, htable, hexecute, hend, -⟩ := fixed_body
  have hdollars : "$$".toList = '$' :: ['$'] := by simp
  have hdelimiter : delimiter [] = '$' :: ['$'] := rfl
  let front : List Piece := [.fixed Block.bodyFind.toList, .literal b.policyName.toList, .fixed Block.bodyTable.toList,
    .literal b.table.toList, .fixed Block.bodyExecute.toList]
  have htame : ∀ p ∈ front, p.Tame := by
    intro p hp
    simp only [front, List.mem_cons, List.not_mem_nil, or_false] at hp
    rcases hp with rfl | rfl | rfl | rfl | rfl
    · exact isFixed.tame hfind
    · trivial
    · exact isFixed.tame htable
    · trivial
    · exact isFixed.tame hexecute
  have hbody : text (b.bodyParts (text b.exec)) =
      text front ++ (delimiter "BODY".toList ++ (text b.exec ++ (delimiter "BODY".toList ++ Block.bodyEnd.toList))) := by
    have hsplit : b.bodyParts (text b.exec) =
      front ++ [.block "BODY".toList (text b.exec), .fixed Block.bodyEnd.toList] := rfl
    have hback : text [.block "BODY".toList (text b.exec), .fixed Block.bodyEnd.toList] =
        delimiter "BODY".toList ++ (text b.exec ++ (delimiter "BODY".toList ++ Block.bodyEnd.toList)) := by
      simp only [text_cons, text_nil, Piece.text_block, Piece.text_fixed, List.append_assoc, List.append_nil]
    rw [hsplit, text_append, hback]
  have hlast : (text (b.bodyParts (text b.exec))).getLast? = some ' ' := by
    rw [hbody, ← List.append_assoc, ← List.append_assoc, ← List.append_assoc, List.getLast?_append, last_pieces.2]
    rfl
  -- The tag's letters keep the two dollar signs of a delimiter apart.
  have hopen : ∀ t, '$' :: ['$'] <:+: delimiter "BODY".toList ++ t ↔ '$' :: ['$'] <:+: '$' :: t := by
    intro t
    have hsplit : delimiter "BODY".toList ++ t = ['$', 'B', 'O', 'D', 'Y'] ++ '$' :: t := by simp [delimiter]
    have hmiddle : ['$', 'B', 'O', 'D', 'Y'] ++ '$' :: t = ['$'] ++ 'B' :: (['O', 'D', 'Y'] ++ '$' :: t) := rfl
    rw [hsplit, hmiddle, infix_separated (by decide) (by simp), infix_append_of_notMem (by decide)]
    have hone : ¬ '$' :: ['$'] <:+: ['$'] := by decide
    simp only [hone, false_or]
  have hexec : '$' :: ['$'] <:+: '$' :: (text b.exec ++ (delimiter "BODY".toList ++ Block.bodyEnd.toList)) ↔
      '$' :: ['$'] <:+: text b.exec ++ (delimiter "BODY".toList ++ Block.bodyEnd.toList) := by
    obtain ⟨c, t, hhead, hc⟩ := head_exec b (delimiter "BODY".toList ++ Block.bodyEnd.toList)
    rw [hhead, List.infix_cons_iff]
    constructor
    · rintro (hstart | hinside)
      · have hsecond := (List.cons_prefix_cons.mp (List.cons_prefix_cons.mp hstart).2).1
        exact absurd hsecond.symm hc
      · exact hinside
    · exact .inr
  have hafter : ¬ '$' :: ['$'] <:+: delimiter "BODY".toList ++ Block.bodyEnd.toList := by
    rw [hopen, ← List.singleton_append]
    intro hinside
    have hstop : startsWithStop Block.bodyEnd.toList := startsWithStop_of rfl (by decide)
    cases hchars : Block.bodyEnd.toList with
    | nil =>
      rw [hchars] at hstop
      cases hstop
    | cons c t =>
      rw [hchars] at hinside hstop
      have hdollar : '$' ∉ c :: t := by
        rw [← hchars]
        exact (isFixed.tame hend).1
      have hc : c ∉ ['$', '$'] := by
        simpa using Ne.symm (List.ne_of_not_mem_cons hdollar)
      rcases (infix_separated hc (by simp) ['$'] t).mp hinside with hinside | hinside
      · exact absurd hinside (by decide)
      · exact List.not_mem_of_not_mem_cons hdollar (hinside.subset List.mem_cons_self)
  rw [clear_iff hlast (by decide), hdollars, hdelimiter, hbody,
    infix_text htame (by decide) (by decide), not_or, hopen, hexec, infix_exec hb (by decide) (by decide)]
  simp only [front, inserted_cons, inserted_nil, Piece.inserted, List.nil_append, List.cons_append, List.mem_cons,
    List.not_mem_nil, or_false, exists_eq_or_imp, exists_eq_left, not_or, hafter, not_false_eq_true, and_true, and_assoc]

/-! ## Names that are read as they are -/

theorem clip_eq_self_iff {n : ℕ} {t : Text} : clip n t = t ↔ byteLength t ≤ n := by
  constructor
  · intro h
    have hlen := M2mPlan.byteLength_clip n t
    rwa [h] at hlen
  · exact clip_of_short

theorem clip_initial (n : ℕ) (t : Text) : clip n t <+: t := by
  induction t generalizing n with
  | nil => simp [clip]
  | cons c t ih =>
    rw [clip.eq_def]
    simp only
    split
    · exact List.cons_prefix_cons.mpr ⟨rfl, ih _⟩
    · exact List.nil_prefix

theorem asciiLower_eq_self_iff {t : Text} : asciiLower t = t ↔ ∀ c ∈ t, c.isUpper = false := by
  have hchar : ∀ c : Char, (if c.isUpper then c.toLower else c) = c ↔ c.isUpper = false := by
    intro c
    by_cases hc : c.isUpper = true
    · rw [if_pos hc, hc]
      constructor
      · intro h
        -- no letter in upper case is its own lower case
        have hval : c.toLower.val = c.val + ('a'.val - 'A'.val) := by
          have hupper : c.val ≥ 'A'.val ∧ c.val ≤ 'Z'.val := by simpa [Char.isUpper] using hc
          rw [Char.toLower, dif_pos hupper]
        rw [h, left_eq_add] at hval
        exact absurd hval (by decide)
      · intro h
        cases h
    · simp [hc]
  rw [asciiLower]
  conv_lhs => rhs; rw [← List.map_id t]
  rw [List.map_inj_left]
  exact forall₂_congr fun c _ => hchar c

/-- A name in double quotes is read as itself if it is short. -/
theorem readName_quoted {name : String} : readName (.quoted name.toList) = some name.toList ↔
    byteLength name.toList ≤ 63 := by
  rw [readName, Option.some_inj, clip_eq_self_iff]

/-- A bare name if it is also in lower case, and not reserved. -/
theorem readName_word {name : String} : readName (.word name.toList) = some name.toList ↔
    byteLength name.toList ≤ 63 ∧ (∀ c ∈ name.toList, c.isUpper = false) ∧ name ∉ reservedWords := by
  rw [readName]
  constructor
  · intro h
    by_cases hreserved : String.ofList (asciiLower name.toList) ∈ reservedWords
    · rw [if_pos hreserved] at h
      cases h
    · rw [if_neg hreserved, Option.some_inj] at h
      -- folding keeps the length, so nothing was cut
      have hlength : (asciiLower name.toList).length = name.toList.length := by simp [asciiLower]
      have hwhole : clip 63 (asciiLower name.toList) = asciiLower name.toList :=
        (clip_initial 63 _).eq_of_length (by rw [h, hlength])
      have hlower : asciiLower name.toList = name.toList := hwhole.symm.trans h
      rw [hlower] at h hreserved
      rw [String.ofList_toList] at hreserved
      exact ⟨clip_eq_self_iff.mp h, asciiLower_eq_self_iff.mp hlower, hreserved⟩
  · rintro ⟨hshort, hlower, hreserved⟩
    rw [asciiLower_eq_self_iff.mpr hlower, String.ofList_toList, if_neg hreserved, clip_of_short hshort]

theorem readName_iff {n : SqlName} : readName n.token = some n.text.toList ↔ byteLength n.text.toList ≤ 63 ∧
    (¬ n.quoted → (∀ c ∈ n.text.toList, c.isUpper = false) ∧ n.text ∉ reservedWords) := by
  obtain ⟨quoted, t⟩ := n
  cases quoted with
  | true => simp [SqlName.token, readName_quoted]
  | false => simp [SqlName.token, readName_word]

/-! ## Texts of several blocks -/

section Blocks

variable {blocks : List Block}

/-- The percent signs in the blocks' names. -/
def percents (blocks : List Block) : ℕ := (blocks.map Block.percent).sum

theorem count_blocks (hw : ∀ b ∈ blocks, b.Written) :
    2 * (text (blocks.flatMap Block.meant)).count '%' = (blocks.flatMap Block.handed).count '%' + percents blocks := by
  induction blocks with
  | nil => rfl
  | cons b blocks ih =>
    have hb := count_handed_block (hw b List.mem_cons_self)
    have hrest := ih fun b' hb' => hw b' (List.mem_cons_of_mem _ hb')
    simp only [List.flatMap_cons, text_append, List.count_append, percents, List.map_cons, List.sum_cons] at hrest ⊢
    omega

theorem compose_blocks (hw : ∀ b ∈ blocks, b.Written) (hzero : percents blocks = 0) :
    compose (blocks.flatMap Block.handed) = some (text (blocks.flatMap Block.meant)) := by
  induction blocks with
  | nil => rfl
  | cons b blocks ih =>
    rw [percents, List.map_cons, List.sum_cons, Nat.add_eq_zero_iff] at hzero
    have hrest := ih (fun b' hb' => hw b' (List.mem_cons_of_mem _ hb')) hzero.2
    rw [List.flatMap_cons, compose_block (hw b List.mem_cons_self) hzero.1, hrest, List.flatMap_cons, text_append]
    rfl

theorem percents_eq_zero : percents blocks = 0 ↔ ∀ b ∈ blocks, b.percent = 0 := by
  rw [percents, List.sum_eq_zero_iff_forall_eq_nat]
  simp

theorem nul_blocks : '\x00' ∉ text (blocks.flatMap Block.meant) ↔ ∀ b ∈ blocks, '\x00' ∉ text b.meant := by
  induction blocks with
  | nil => simp
  | cons b blocks ih =>
    rw [List.flatMap_cons, text_append, List.mem_append, not_or, ih, List.forall_mem_cons]

/-- The statements of blocks are read as they are meant exactly when each name is free of
percent signs, of the character that ends a text and of `$$`. -/
theorem statements_iff {sql : String} (hsql : sql.toList = blocks.flatMap Block.handed) (hw : ∀ b ∈ blocks, b.Written) :
    (∃ composed, compose sql.toList = some composed ∧ scan composed = some (tokens (blocks.flatMap Block.meant))) ↔
      ∀ b ∈ blocks, b.percent = 0 ∧ '\x00' ∉ text b.meant ∧ Clear [] (text (b.bodyParts (text b.exec))) := by
  have hfits : Fits [] (blocks.flatMap Block.meant) := fits_meant blocks []
  have hgood : (∀ p ∈ blocks.flatMap Block.meant, p.Good) ↔
      ∀ b ∈ blocks, Clear [] (text (b.bodyParts (text b.exec))) := by
    simp only [← good_statement, List.mem_flatMap, forall_exists_index, and_imp]
    constructor
    · exact fun h b hb p hp => h p b hb hp
    · exact fun h p b hb hp => h b hb p hp
  rw [hsql, scan_composed_iff hfits (count_blocks hw) (compose_blocks hw), percents_eq_zero, nul_blocks, hgood]
  simp only [← forall_and]

end Blocks

/-! ## Blocks that are intact -/

/-- A block whose policy is named after its table. -/
structure Block.Ready (b : Block) : Prop where
  written : b.Written
  named : b.table.toList <+: b.policyName.toList

/-- What the layers ask of the names of a block. -/
structure Block.Layers (b : Block) : Prop where
  statement : b.percent = 0 ∧ '\x00' ∉ text b.meant ∧ Clear [] (text (b.bodyParts (text b.exec)))
  body : ∀ p ∈ b.bodyParts (text b.exec), p.Good
  exec : ∀ p ∈ b.exec, p.Good
  names : ∀ n ∈ b.names, readName n.token = some n.text.toList

theorem written_of_mem_operand {x : Operand SqlName} (hx : operandWritten x) {n : SqlName} (hn : n ∈ operandNames x) :
    n.Written := by
  cases x with
  | column table name =>
    rcases List.mem_append.mp hn with hn | hn
    · exact hx.1 n (Option.mem_toList.mp hn)
    · obtain rfl : n = name := by simpa using hn
      exact hx.2
  | cast s type => cases hn

theorem written_of_mem_cond {c : Cond SqlName} (hc : condWritten c) {n : SqlName} (hn : n ∈ condNames c) : n.Written := by
  induction c with
  | equal a b =>
    rcases List.mem_append.mp hn with hn | hn
    · exact written_of_mem_operand hc.1 hn
    · exact written_of_mem_operand hc.2 hn
  | textEqual s t => cases hn
  | or a b iha ihb =>
    rcases List.mem_append.mp hn with hn | hn
    · exact iha hc.1 hn
    · exact ihb hc.2 hn
  | and a b iha ihb =>
    rcases List.mem_append.mp hn with hn | hn
    · exact iha hc.1 hn
    · exact ihb hc.2 hn
  | group a ih => exact ih hc hn
  | caseTrue a b iha ihb =>
    rcases List.mem_append.mp hn with hn | hn
    · exact iha hc.1 hn
    · exact ihb hc.2 hn
  | «exists» table label filter ih =>
    rcases List.mem_append.mp hn with hn | hn
    · rcases List.mem_cons.mp hn with rfl | hn
      · exact hc.1
      · exact hc.2.1 n (Option.mem_toList.mp hn)
    · exact ih hc.2.2 hn

/-- A bare name of a block is a word. -/
theorem written_of_mem_names {b : Block} (hb : b.Written) {n : SqlName} (hn : n ∈ b.names) : n.Written := by
  obtain ⟨table, policyName, body⟩ := b
  rcases List.mem_cons.mp hn with rfl | hn
  · intro hbare
    cases hbare
  rcases List.mem_cons.mp hn with rfl | hn
  · intro hbare
    cases hbare
  cases body with
  | all gap bypassUsing bypassCheck otherwise =>
    obtain ⟨-, hbypassUsing, hbypassCheck, hotherwise⟩ := hb
    rcases List.mem_append.mp hn with hn | hn
    · rcases List.mem_append.mp hn with hn | hn
      · exact written_of_mem_cond hbypassUsing hn
      · exact written_of_mem_cond hbypassCheck hn
    · obtain ⟨c, hc, hn⟩ := List.mem_flatMap.mp hn
      exact written_of_mem_cond (hotherwise c hc) hn
  | select clauses =>
    obtain ⟨clause, hclause, hn⟩ := List.mem_flatMap.mp hn
    cases clause with
    | cond c => exact written_of_mem_cond (hb _ hclause) hn
    | raw sql => cases hn

/-- A delimiter starts with a dollar sign, which no word holds. -/
theorem not_infix_of_notMem {s : String} {t d : List Char} (hs : s = String.ofList ('$' :: d)) (h : '$' ∉ t) :
    ¬ s.toList <:+: t := by
  intro hinside
  rw [hs, String.toList_ofList] at hinside
  exact h (hinside.subset List.mem_cons_self)

/-- **What the layers ask of a block's names is that they are sound.** -/
theorem layers_iff {b : Block} (hb : b.Ready) : b.Layers ↔ (∀ n ∈ b.names, n.Sound) ∧ '\'' ∉ b.policyName.toList := by
  obtain ⟨hw, hnamed⟩ := hb
  have htable : (⟨true, b.table⟩ : SqlName) ∈ b.names := by simp [Block.names]
  have hpolicy : (⟨true, b.policyName⟩ : SqlName) ∈ b.names := by simp [Block.names]
  constructor
  · rintro ⟨⟨hpercent, hnul, hclear⟩, hbody, hexec, hnames⟩
    rw [percent_block_iff hw] at hpercent
    rw [nul_block_iff hw] at hnul
    rw [clear_body_iff hw] at hclear
    rw [good_bodyParts, clear_exec_iff hw] at hbody
    rw [good_exec_iff hw] at hexec
    refine ⟨fun n hn => ?_, hbody.1⟩
    obtain ⟨hwhole, hbare⟩ := readName_iff.mp (hnames n hn)
    by_cases hquoted : n.quoted
    · exact ⟨hpercent.2.2 n hn hquoted, hnul.2.2 n hn hquoted, hclear.2.2 n hn hquoted, hbody.2.2 n hn hquoted, hwhole,
        hexec n hn, hbare⟩
    · -- a bare name is a word, so no layer takes it for anything else
      have hword := written_of_mem_names hw hn (Bool.eq_false_iff.mpr hquoted)
      obtain ⟨-, hdollar, hpercent, hnul⟩ := word_of_isFieldName hword
      exact ⟨hpercent, hnul, not_infix_of_notMem rfl hdollar, not_infix_of_notMem rfl hdollar, hwhole,
        hexec n hn, hbare⟩
  · rintro ⟨hsound, hliteral⟩
    have ht := hsound _ htable
    have hp := hsound _ hpolicy
    refine ⟨⟨?_, ?_, ?_⟩, ?_, ?_, fun n hn => ?_⟩
    · rw [percent_block_iff hw]
      exact ⟨hp.percent, ht.percent, fun n hn _ => (hsound n hn).percent⟩
    · rw [nul_block_iff hw]
      exact ⟨hp.ended, ht.ended, fun n hn _ => (hsound n hn).ended⟩
    · rw [clear_body_iff hw]
      exact ⟨hp.dollar, ht.dollar, fun n hn _ => (hsound n hn).dollar⟩
    · rw [good_bodyParts, clear_exec_iff hw]
      exact ⟨hliteral, fun hmem => hliteral (hnamed.subset hmem), fun n hn _ => (hsound n hn).tag⟩
    · rw [good_exec_iff hw]
      exact fun n hn => (hsound n hn).quotes
    · exact readName_iff.mpr ⟨(hsound n hn).whole, (hsound n hn).bare⟩

/-- **The text of well written blocks is intact** exactly when the blocks are sound. -/
theorem intact_iff {sql : String} {blocks : List Block} (hsql : sql.toList = blocks.flatMap Block.handed)
    (hready : ∀ b ∈ blocks, b.Ready) : Intact sql blocks ↔ ∀ b ∈ blocks, b.Sound := by
  have hw : ∀ b ∈ blocks, b.Written := fun b hb => (hready b hb).written
  constructor
  · rintro ⟨hraws, hstatements, hbodies, hexecs, hnames⟩ b hb
    rw [statements_iff hsql hw] at hstatements
    have hbody := (lex_text_iff (fits_bodyParts b (text b.exec))).mp (hbodies b hb)
    have hexec := (lex_text_iff (fits_exec (hw b hb) (hraws b hb))).mp (hexecs b hb)
    obtain ⟨hsound, hliteral⟩ := (layers_iff (hready b hb)).mp ⟨hstatements b hb, hbody, hexec, hnames b hb⟩
    exact ⟨hsound, hliteral, hraws b hb⟩
  · intro hsound
    have hlayers : ∀ b ∈ blocks, b.Layers := fun b hb =>
      (layers_iff (hready b hb)).mpr ⟨(hsound b hb).names, (hsound b hb).literals⟩
    refine ⟨fun b hb => (hsound b hb).raws, ?_, ?_, ?_, fun b hb => (hlayers b hb).names⟩
    · rw [statements_iff hsql hw]
      exact fun b hb => (hlayers b hb).statement
    · intro b hb
      exact (lex_text_iff (fits_bodyParts b (text b.exec))).mpr (hlayers b hb).body
    · intro b hb
      exact (lex_text_iff (fits_exec (hw b hb) (hsound b hb).raws)).mpr (hlayers b hb).exec


/-! ## What the builders write -/

theorem handed_eq_text {names : List SqlName} {parts : List Piece} (h : AllBuilt names [] parts) :
    SqlLexer.handed parts = text parts := by
  induction parts with
  | nil => rfl
  | cons p ps ih =>
    have hrest := ih fun q hq => h q (List.mem_cons_of_mem _ hq)
    rw [handed_cons, text_cons, hrest]
    cases h p List.mem_cons_self with
    | fixed _ => rfl
    | word _ => rfl
    | literal _ => rfl
    | quoted _ => rfl
    | expression hmem => cases hmem

theorem harmless_nil : Harmless "".toList := by
  intro c hc
  simp at hc

theorem harmless_true : Harmless "true".toList := by
  intro c hc
  have htrue : "true".toList = ['t', 'r', 'u', 'e'] := by simp
  rw [htrue] at hc
  simp only [List.mem_cons, List.not_mem_nil, or_false] at hc
  rcases hc with rfl | rfl | rfl | rfl <;> refine ⟨?_, ?_, ?_, ?_⟩ <;> decide

theorem isFieldName_pkType {type : String} (h : type ∈ allowedPkTypes) : isFieldName type := by
  have hall : ∀ type ∈ allowedPkTypes, isFieldName type := by decide
  exact hall type h

theorem isFieldName_id {field : String} (h : isFieldName field) : isFieldName s!"{field}_id" := by
  have heq : s!"{field}_id" = field ++ "_id" := rfl
  unfold isFieldName at h ⊢
  rw [heq, String.toList_append]
  have hid : "_id".toList = ['_', 'i', 'd'] := by simp
  cases hcs : field.toList with
  | nil =>
    rw [hcs] at h
    cases h
  | cons c cs =>
    rw [hcs] at h
    simp only [Bool.and_eq_true] at h
    rw [hid, List.cons_append]
    simp only [List.all_append, h.1, h.2, Bool.true_and]
    decide

section Written

variable {gucVar gucTenantVar type : String}

theorem written_boolFlag (h : isGucName gucVar) : condWritten (boolFlag gucVar) :=
  ⟨harmless_of_isGucName h, harmless_true⟩

theorem written_tenantValue (h : isGucName gucTenantVar) (htype : type ∈ allowedPkTypes) :
    operandWritten (tenantValue gucTenantVar type) :=
  ⟨⟨harmless_of_isGucName h, harmless_nil⟩, isFieldName_pkType htype⟩

theorem written_anyOf {c : Cond SqlName} (hc : condWritten c) {cs : List (Cond SqlName)}
    (hcs : ∀ d ∈ cs, condWritten d) : condWritten (c.anyOf cs) := by
  induction cs generalizing c with
  | nil => exact hc
  | cons d ds ih =>
    exact ⟨hc, ih (hcs d List.mem_cons_self) fun e he => hcs e (List.mem_cons_of_mem _ he)⟩

theorem written_quoted (name : String) : (SqlName.mk true name).Written := by
  intro hbare
  cases hbare

end Written

theorem named_table (table suffix : String) : table.toList <+: (table ++ suffix).toList := by
  rw [String.toList_append]
  exact List.prefix_append _ _

/-! ## Tenant policies -/

section Tenant

variable {table gucTenantVar gucAdminVar type : String} {column : SqlName} {flags : List String}

theorem ready_tenantBlock (hcolumn : column.Written) (hgucs : ∀ guc ∈ gucTenantVar :: gucAdminVar :: flags, isGucName guc)
    (htype : type ∈ allowedPkTypes) : (Call.tenantBlock table column gucTenantVar gucAdminVar type flags).Ready := by
  obtain ⟨htenant, hrest⟩ := List.forall_mem_cons.mp hgucs
  obtain ⟨hadmin, hflags⟩ := List.forall_mem_cons.mp hrest
  refine ⟨⟨gapOk_flags, ?_, written_boolFlag hadmin, ?_⟩, named_table _ _⟩
  · apply written_anyOf (written_boolFlag hadmin)
    intro d hd
    obtain ⟨flag, hflag, rfl⟩ := List.mem_map.mp hd
    exact written_boolFlag (hflags flag hflag)
  · intro c hc
    obtain rfl := List.mem_singleton.mp hc
    refine ⟨⟨?_, hcolumn⟩, written_tenantValue htenant htype⟩
    intro t ht
    cases ht

theorem handed_tenantBlock (hready : (Call.tenantBlock table column gucTenantVar gucAdminVar type flags).Ready) :
    (Call.tenantBlock table column gucTenantVar gucAdminVar type flags).handed =
      (buildPolicyCreateSql table column.sql gucTenantVar gucAdminVar type flags).toList := by
  have htext := handed_eq_text (built_exec hready.written)
  have hgap : Call.flagsGap = policyGap := rfl
  have hcolumn : column.sql = operandSql (.column none column) := rfl
  have hbuild : buildPolicyCreateSql table column.sql gucTenantVar gucAdminVar type flags =
      createPolicyBlock table s!"{table}_tenant_isolation_policy"
        (caseSql (condSql policyGap ((boolFlag gucAdminVar).anyOf (flags.map boolFlag)))
          (condSql policyGap (.equal (.column none column) (tenantValue gucTenantVar type))))
        (caseSql (condSql policyGap (boolFlag gucAdminVar))
          (condSql policyGap (.equal (.column none column) (tenantValue gucTenantVar type)))) := by
    rw [hcolumn, buildPolicyCreateSql_eq]
    rfl
  rw [Call.tenantBlock, handed_all htext, hbuild, hgap]
  rfl

end Tenant

/-! ## M2M policies -/

section M2m

variable {table fromTable toTable : String} {s : M2mSides} {o : PolicyOptions}

theorem isFieldName_of_validate {field param : String} (h : validateFieldName field param = .ok ()) : isFieldName field := by
  unfold validateFieldName at h
  by_contra hnot
  rw [if_neg hnot] at h
  cases h

theorem M2mSides.check_ok (h : s.check = .ok ()) : isFieldName s.fromFk ∧ isFieldName s.toFk ∧
    (∀ fk ∈ s.fromTenantFk, isFieldName fk) ∧ ∀ fk ∈ s.toTenantFk, isFieldName fk := by
  obtain ⟨_, -, h⟩ := bind_ok h
  obtain ⟨_, -, h⟩ := bind_ok h
  obtain ⟨_, hfrom, h⟩ := bind_ok h
  obtain ⟨_, hto, h⟩ := bind_ok h
  obtain ⟨_, hfromTenant, htoTenant⟩ := bind_ok h
  have hgiven : ∀ (fk : Option String) (param : String),
      fk.toList.forM (validateFieldName · param) = (.ok () : Except PolicyError Unit) → ∀ name ∈ fk, isFieldName name := by
    intro fk param h name hname
    obtain rfl := hname
    obtain ⟨_, hvalid, -⟩ := bind_ok h
    exact isFieldName_of_validate hvalid
  exact ⟨isFieldName_of_validate hfrom, isFieldName_of_validate hto, hgiven _ _ hfromTenant, hgiven _ _ htoTenant⟩

theorem ready_m2mBlock (hs : s.check = .ok ()) (ho : o.check = .ok ()) :
    (Call.m2mBlock table fromTable toTable s o).Ready := by
  obtain ⟨hfrom, hto, hfromTenant, htoTenant⟩ := M2mSides.check_ok hs
  obtain ⟨htype, htenant, hadmin⟩ := check_options ho
  have hid : isFieldName "id" := by decide
  have hcond : ∀ side : M2mSide, isFieldName side.fk → isFieldName side.tenantFk →
      condWritten (side.cond o.gucTenantVar o.tenantPkType) := by
    intro side hfk htenantFk
    have hnone : ∀ t ∈ (none : Option SqlName), t.Written := by
      intro t ht
      cases ht
    exact ⟨written_quoted _, hnone, ⟨⟨hnone, fun _ => hid⟩, hnone, fun _ => hfk⟩, ⟨hnone, fun _ => isFieldName_id htenantFk⟩,
      written_tenantValue htenant htype⟩
  refine ⟨⟨gapOk_sides, written_boolFlag hadmin, written_boolFlag hadmin, ?_⟩, named_table _ _⟩
  intro c hc
  obtain ⟨side, hside, rfl⟩ := List.mem_map.mp hc
  rcases List.mem_append.mp hside with hside | hside
  · obtain ⟨fk, hfk, rfl⟩ := Option.mem_map.mp (Option.mem_toList.mp hside)
    exact hcond _ hfrom (hfromTenant fk hfk)
  · obtain ⟨fk, hfk, rfl⟩ := Option.mem_map.mp (Option.mem_toList.mp hside)
    exact hcond _ hto (htoTenant fk hfk)

theorem handed_m2mBlock (hready : (Call.m2mBlock table fromTable toTable s o).Ready) :
    (Call.m2mBlock table fromTable toTable s o).handed = (m2mPolicySql table fromTable toTable s o).toList := by
  have htext := handed_eq_text (built_exec hready.written)
  have hgap : (Call.sidesGap ++ "AND " : String) = "\n                                AND " := by simp [Call.sidesGap]
  have hside : condSql Call.sidesGap ∘ (M2mSide.cond · o.gucTenantVar o.tenantPkType) = fun side : M2mSide =>
      s!"EXISTS (SELECT 1 FROM \"{side.table}\" WHERE id = {side.fk} AND {side.tenantFk}_id = {
        tenantValueSql o.gucTenantVar o.tenantPkType})" := funext fun side => condSql_side _ _ _ side
  have hconds : joinSql (Call.sidesGap ++ "AND ")
      (((s.protectedSides fromTable toTable).map (M2mSide.cond · o.gucTenantVar o.tenantPkType)).map
        (condSql Call.sidesGap)) =
      buildM2mConditions s.fromFk fromTable s.fromTenantFk s.toFk toTable s.toTenantFk o.gucTenantVar o.tenantPkType := by
    rw [hgap, List.map_map, hside]
    cases hf : s.fromTenantFk <;> cases ht : s.toTenantFk <;> simp [M2mSides.protectedSides, buildM2mConditions, hf, ht]
  rw [Call.m2mBlock, handed_all htext, condSql_boolFlag, hconds]
  rfl

end M2m

/-! ## Sharing policies -/

section Sharing

variable {apps : Registry} {model : Model} {gucTenantVar type : String}

/-- What a predicate writes. -/
structure Clause.Of (clause : Clause) (text : String) : Prop where
  written : clause.Written
  handed : SqlLexer.handed clause.parts = text.toList

theorem resolveShared_written {through : ModelPath} {fk tenantFk : String} {s : Shared}
    (h : resolveShared apps model through fk tenantFk = .ok s) {x : Operand SqlName} (hx : operandWritten x) :
    condWritten (s.cond x) := by
  obtain ⟨m, f, target, tenant, -, rfl, -⟩ := resolveShared_finds h
  have hnames : ∀ a b : String, operandWritten (.column (some ⟨true, a⟩) ⟨true, b⟩) := by
    intro a b
    refine ⟨?_, written_quoted _⟩
    intro t ht
    obtain rfl := Option.some.inj ht
    exact written_quoted _
  refine ⟨written_quoted _, ?_, ⟨hnames _ _, hnames _ _⟩, hnames _ _, hx⟩
  intro l hl
  obtain rfl := Option.some.inj hl
  exact written_quoted _

theorem resolveTenantField_written {name : String} {table column : SqlName}
    (h : resolveTenantField model name = .ok (table, column)) : table.Written ∧ column.Written := by
  obtain ⟨_, -, h⟩ := bind_ok h
  obtain ⟨t, ht, h⟩ := bind_ok h
  obtain ⟨c, hc, h⟩ := bind_ok h
  obtain ⟨rfl, rfl⟩ := Prod.mk.inj (Except.ok.inj h)
  obtain ⟨rfl, -⟩ := quoted_eq ht
  obtain ⟨rfl, -⟩ := quoted_eq hc
  exact ⟨written_quoted _, written_quoted _⟩

theorem clause_of_cond {c : Cond SqlName} (hc : condWritten c) : (Clause.cond c).Of (condSql oneBlank c) := by
  refine ⟨hc, ?_⟩
  have hbuilt : AllBuilt (condNames c) [] (condParts oneBlank c) := built_cond gapOk_blank.fixed hc fun n hn => hn
  change SqlLexer.handed (condParts oneBlank c) = _
  rw [handed_eq_text hbuilt, text_condParts]

theorem raw_check {sql : String} (h : (Predicate.raw sql).check = .ok ()) : '$' ∉ sql.toList ∧ '\x00' ∉ sql.toList := by
  simp only [Predicate.check] at h
  by_cases hrefused : sql.toList.all isSpace ∨ ∃ token ∈ unsafeRawSql, token.toList <:+: sql.toList
  · rw [if_pos hrefused] at h
    cases h
  · have hfree : ∀ c : Char, String.singleton c ∈ unsafeRawSql → c ∉ sql.toList := by
      intro c hc hmem
      obtain ⟨before, after, hsplit⟩ := List.append_of_mem hmem
      refine hrefused (.inr ⟨_, hc, before, after, ?_⟩)
      simp [hsplit]
    exact ⟨hfree '$' (by decide), hfree '\x00' (by decide)⟩

/-- **Each predicate writes its clause.** -/
theorem clause_of_policySql {p : Predicate} (hbuilt : p.check = .ok ()) (hguc : isGucName gucTenantVar)
    (htype : type ∈ allowedPkTypes) {sql : String}
    (h : p.policySql apps model (tenantValueSql gucTenantVar type) = .ok sql) :
    ∃ clause, Call.clause apps model (tenantValue gucTenantVar type) p = .ok clause ∧ clause.Of sql := by
  have hvalue := written_tenantValue hguc htype
  cases p with
  | sharedWith through fk tenantFk =>
    obtain ⟨s, hs, hsql⟩ := bind_ok h
    obtain rfl := Except.ok.inj hsql
    refine ⟨.cond (s.cond (tenantValue gucTenantVar type)), ?_, ?_⟩
    · rw [Call.clause, hs]
      rfl
    · have hof := clause_of_cond (resolveShared_written hs hvalue)
      rwa [condSql_shared, operandSql_tenantValue] at hof
  | tenantField name =>
    obtain ⟨⟨table, column⟩, hfound, hsql⟩ := bind_ok h
    obtain rfl := Except.ok.inj hsql
    refine ⟨.cond (tenantFieldCond table column (tenantValue gucTenantVar type)), ?_, ?_⟩
    · rw [Call.clause, hfound]
      rfl
    · have hwritten := resolveTenantField_written hfound
      have hc : condWritten (tenantFieldCond table column (tenantValue gucTenantVar type)) := by
        refine ⟨⟨?_, hwritten.2⟩, hvalue⟩
        intro t ht
        obtain rfl := Option.some.inj ht
        exact hwritten.1
      have hof := clause_of_cond hc
      rwa [condSql_tenantField, operandSql_tenantValue] at hof
  | raw raw =>
    obtain rfl := Except.ok.inj h
    refine ⟨.raw raw, rfl, raw_check hbuilt, ?_⟩
    have htext : s!"({String.ofList (SqlLexer.double raw.toList)})" =
        "(" ++ String.ofList (SqlLexer.double raw.toList) ++ ")" := rfl
    rw [htext]
    simp [Clause.parts, Piece.handed, String.toList_append]

theorem handed_joinParts {sep : String} {clauses : List Clause} {texts : List String}
    (h : List.Forall₂ Clause.Of clauses texts) :
    SqlLexer.handed (joinParts sep (clauses.map Clause.parts)) = (joinSql sep texts).toList := by
  induction h with
  | nil => rfl
  | cons hfirst hrest ih =>
    rename_i clause text clauses texts
    cases hrest with
    | nil => exact hfirst.handed
    | cons hsecond hmore =>
      rename_i clause' text' clauses texts
      have hsql : joinSql sep (text :: text' :: texts) = text ++ sep ++ joinSql sep (text' :: texts) := rfl
      have hparts : joinParts sep ((clause :: clause' :: clauses).map Clause.parts) =
          clause.parts ++ .fixed sep.toList :: joinParts sep ((clause' :: clauses).map Clause.parts) := rfl
      rw [hsql, hparts, handed_append, handed_cons, hfirst.handed, ih]
      simp only [Piece.handed, Piece.text_fixed, String.toList_append, List.append_assoc]

theorem written_of_forall {clauses : List Clause} {texts : List String} (h : List.Forall₂ Clause.Of clauses texts)
    {clause : Clause} (hclause : clause ∈ clauses) : clause.Written := by
  induction h with
  | nil => cases hclause
  | cons hfirst _ ih =>
    rcases List.mem_cons.mp hclause with rfl | hclause
    · exact hfirst.written
    · exact ih hclause

theorem clauses_of_predicatesSql {predicates : List Predicate} (hbuilt : PredicatesOk predicates)
    (hguc : isGucName gucTenantVar) (htype : type ∈ allowedPkTypes) {texts : List String}
    (h : predicatesSql apps model predicates (tenantValueSql gucTenantVar type) = .ok texts) :
    ∃ clauses, predicates.mapM (Call.clause apps model (tenantValue gucTenantVar type)) = .ok clauses ∧
      List.Forall₂ Clause.Of clauses texts := by
  unfold predicatesSql at h
  induction predicates generalizing texts with
  | nil =>
    obtain rfl := Except.ok.inj h
    exact ⟨[], rfl, .nil⟩
  | cons p predicates ih =>
    rw [List.mapM_cons] at h
    obtain ⟨text, htext, h⟩ := bind_ok h
    obtain ⟨rest, hrest, h⟩ := bind_ok h
    obtain rfl := Except.ok.inj h
    obtain ⟨clause, hclause, hof⟩ := clause_of_policySql (hbuilt p List.mem_cons_self) hguc htype htext
    obtain ⟨clauses, hclauses, hall⟩ := ih (fun q hq => hbuilt q (List.mem_cons_of_mem _ hq)) hrest
    refine ⟨clause :: clauses, ?_, .cons hof hall⟩
    rw [List.mapM_cons, hclause, hclauses]
    rfl

/-- Blocks that are handed over as `sql`. -/
structure WrittenAs (blocks : List Block) (sql : String) : Prop where
  handed : sql.toList = blocks.flatMap Block.handed
  ready : ∀ b ∈ blocks, b.Ready

theorem WrittenAs.append {as bs : List Block} {a b : String} (ha : WrittenAs as a) (hb : WrittenAs bs b) :
    WrittenAs (as ++ bs) (a ++ b) := by
  refine ⟨?_, ?_⟩
  · rw [String.toList_append, List.flatMap_append, ha.handed, hb.handed]
  · intro block hblock
    rcases List.mem_append.mp hblock with hblock | hblock
    · exact ha.ready block hblock
    · exact hb.ready block hblock

theorem writtenAs_block {b : Block} {sql : String} (hready : b.Ready) (h : b.handed = sql.toList) :
    WrittenAs [b] sql := by
  refine ⟨?_, ?_⟩
  · simp [h]
  · intro block hblock
    obtain rfl := List.mem_singleton.mp hblock
    exact hready

/-- **The sharing policy's text is its block.** -/
theorem sharing_writtenAs {predicates : List Predicate} (hbuilt : PredicatesOk predicates)
    (hne : predicates.isEmpty = false) (hguc : isGucName gucTenantVar) (htype : type ∈ allowedPkTypes)
    {texts : List String} {sql : String}
    (htexts : predicatesSql apps model predicates (tenantValueSql gucTenantVar type) = .ok texts)
    (h : buildSharingPolicyCreateSql model.dbTable texts = .ok sql) :
    ∃ blocks, Call.sharingBlocks apps model predicates gucTenantVar type = .ok blocks ∧ WrittenAs blocks sql := by
  obtain ⟨clauses, hclauses, hof⟩ := clauses_of_predicatesSql hbuilt hguc htype htexts
  obtain ⟨-, rfl⟩ := buildSharing_eq h
  refine ⟨[Call.sharingBlock model.dbTable clauses], ?_, writtenAs_block ⟨?_, named_table _ _⟩ ?_⟩
  · rw [Call.sharingBlocks, hne, hclauses]
    rfl
  · intro clause hclause
    exact written_of_forall hof hclause
  · have hor : sharingOr = "\n                                OR " := rfl
    rw [Call.sharingBlock, handed_select (handed_joinParts hof), hor]

end Sharing

/-! ## Calls -/

section Policies

variable {apps : Registry} {model : Model} {column : SqlName} {gucTenantVar gucAdminVar type : String}
  {flags : List String}

/-- The text of both kinds of policy of a table. -/
inductive PoliciesText (apps : Registry) (model : Model) (column : SqlName) (gucTenantVar gucAdminVar type : String)
    (flags : List String) : List Predicate → String → Prop
  | tenant : PoliciesText apps model column gucTenantVar gucAdminVar type flags []
      (buildPolicyCreateSql model.dbTable column.sql gucTenantVar gucAdminVar type flags)
  | both {predicates : List Predicate} {texts : List String} {sharing : String} (hne : predicates.isEmpty = false)
      (htexts : predicatesSql apps model predicates (tenantValueSql gucTenantVar type) = .ok texts)
      (hsharing : buildSharingPolicyCreateSql model.dbTable texts = .ok sharing) :
      PoliciesText apps model column gucTenantVar gucAdminVar type flags predicates
        (buildPolicyCreateSql model.dbTable column.sql gucTenantVar gucAdminVar type flags ++ sharing)

/-- What a builder does with its predicates. -/
theorem policiesText_of {predicates : List Predicate} {sql : String}
    (h : (if predicates.isEmpty then
        (.ok (buildPolicyCreateSql model.dbTable column.sql gucTenantVar gucAdminVar type flags) : Except PolicyError String)
      else predicatesSql apps model predicates (tenantValueSql gucTenantVar type) >>= fun texts =>
        buildSharingPolicyCreateSql model.dbTable texts >>= fun sharing =>
          .ok (buildPolicyCreateSql model.dbTable column.sql gucTenantVar gucAdminVar type flags ++ sharing)) = .ok sql) :
    PoliciesText apps model column gucTenantVar gucAdminVar type flags predicates sql := by
  by_cases hempty : predicates.isEmpty = true
  · rw [if_pos hempty] at h
    obtain rfl := Except.ok.inj h
    obtain rfl := List.isEmpty_iff.mp hempty
    exact .tenant
  · rw [if_neg hempty] at h
    obtain ⟨texts, htexts, h⟩ := bind_ok h
    obtain ⟨sharing, hsharing, h⟩ := bind_ok h
    obtain rfl := Except.ok.inj h
    exact .both (Bool.eq_false_iff.mpr hempty) htexts hsharing

theorem PoliciesText.writtenAs {predicates : List Predicate} {sql : String}
    (h : PoliciesText apps model column gucTenantVar gucAdminVar type flags predicates sql) (hcolumn : column.Written)
    (hgucs : ∀ guc ∈ gucTenantVar :: gucAdminVar :: flags, isGucName guc) (htype : type ∈ allowedPkTypes)
    (hbuilt : PredicatesOk predicates) :
    ∃ sharing, Call.sharingBlocks apps model predicates gucTenantVar type = .ok sharing ∧
      WrittenAs (Call.tenantBlock model.dbTable column gucTenantVar gucAdminVar type flags :: sharing) sql := by
  have hready : (Call.tenantBlock model.dbTable column gucTenantVar gucAdminVar type flags).Ready :=
    ready_tenantBlock hcolumn hgucs htype
  have htenant := writtenAs_block hready (handed_tenantBlock hready)
  cases h with
  | tenant => exact ⟨[], rfl, htenant⟩
  | both hne htexts hsharing =>
    obtain ⟨blocks, hblocks, hwritten⟩ := sharing_writtenAs hbuilt hne (hgucs _ List.mem_cons_self) htype htexts hsharing
    exact ⟨blocks, hblocks, htenant.append hwritten⟩

end Policies

theorem column_written {op : AddRLSPolicy} {settings : Settings} {model : Model} {column : SqlName}
    (h : op.column settings model = .ok column) : column.Written := by
  obtain ⟨⟨f, fk⟩, -, h⟩ := bind_ok h
  obtain ⟨_, -, h⟩ := bind_ok h
  obtain ⟨_, hvalid, h⟩ := bind_ok h
  have hname := isFieldName_of_validate hvalid
  by_cases hbare : f.column = s!"{op.field}_id" ∧ f.column = f.column.map Char.toLower
  · rw [if_pos hbare] at h
    obtain rfl := Except.ok.inj h
    exact fun _ => hname
  · rw [if_neg hbare] at h
    obtain rfl := Except.ok.inj h
    exact written_quoted _

theorem map_some_ok {ε α : Type} {x : Except ε α} {a : α} (h : x.map some = .ok (some a)) : x = .ok a := by
  cases x with
  | error e => cases h
  | ok b =>
    obtain rfl := Option.some.inj (Except.ok.inj h)
    rfl

theorem RLSM2MConstraint.checks (c : RLSM2MConstraint) : c.sides.check = .ok () ∧ c.options.check = .ok () := by
  obtain ⟨_, hsides, hchecked⟩ := bind_ok c.checked
  refine ⟨hsides, ?_⟩
  by_cases hnone : (c.sides.fromTenantFk.isNone && c.sides.toTenantFk.isNone) = true
  · rw [if_pos hnone] at hchecked
    cases hchecked
  · rw [if_neg hnone] at hchecked
    exact hchecked

theorem AddM2MRLSPolicy.checks (op : AddM2MRLSPolicy) : op.sides.check = .ok () ∧ op.options.check = .ok () := by
  obtain ⟨_, -, hchecked⟩ := bind_ok op.checked
  obtain ⟨_, hsides, hoptions⟩ := bind_ok hchecked
  exact ⟨hsides, hoptions⟩

/-- **What a call hands over are the blocks that it means.** -/
theorem Call.sql_blocks {call : Call} {sql : String} (h : call.sql = .ok (some sql)) :
    ∃ blocks, call.blocks = .ok blocks ∧ WrittenAs blocks sql := by
  cases call with
  | constraint c built apps model =>
    have htext : PoliciesText apps model ⟨false, s!"{c.field}_id"⟩ c.gucTenantVar c.gucAdminVar c.tenantPkType
        c.extraBypassFlags c.extraPredicates sql := policiesText_of (map_some_ok h)
    have hcolumn : (SqlName.mk false s!"{c.field}_id").Written := fun _ => isFieldName_id c.names_ok.field_ok
    obtain ⟨sharing, hsharing, hwritten⟩ :=
      htext.writtenAs hcolumn c.names_ok.gucs_ok c.names_ok.pkType_ok built
    refine ⟨_, ?_, hwritten⟩
    rw [Call.blocks, hsharing]
    rfl
  | m2mConstraint c apps table =>
    obtain ⟨fromTable, hfrom, hcreate⟩ := bind_ok (map_some_ok h)
    obtain ⟨toTable, hto, hcreate⟩ := bind_ok hcreate
    obtain rfl := Except.ok.inj hcreate
    obtain ⟨hsides, hoptions⟩ := c.checks
    have hready : (Call.m2mBlock table fromTable toTable c.sides c.options).Ready := ready_m2mBlock hsides hoptions
    refine ⟨[_], ?_, writtenAs_block hready (handed_m2mBlock hready)⟩
    rw [Call.blocks, hfrom, hto]
    rfl
  | operation op built settings allowMigrate apps =>
    change op.databaseForwards settings allowMigrate apps = .ok (some sql) at h
    obtain ⟨model, hmodel, h⟩ := bind_ok h
    by_cases happlies : AddRLSPolicy.appliesTo allowMigrate model
    · simp only [happlies, Bool.not_true, Bool.false_eq_true, if_false] at h
      obtain ⟨table, htable, h⟩ := bind_ok h
      obtain ⟨column, hfound, h⟩ := bind_ok h
      obtain rfl := AddRLSPolicy.table_eq htable
      have htext : PoliciesText apps model column op.gucTenantVar op.gucAdminVar op.tenantPkType op.extraBypassFlags
          op.extraPredicates sql := by
        by_cases hempty : op.extraPredicates.isEmpty = true
        · rw [if_pos hempty] at h
          obtain rfl := Option.some.inj (Except.ok.inj h)
          rw [List.isEmpty_iff.mp hempty]
          exact .tenant
        · rw [if_neg hempty] at h
          obtain ⟨texts, htexts, h⟩ := bind_ok h
          obtain ⟨sharing, hsharing, h⟩ := bind_ok h
          obtain rfl := Option.some.inj (Except.ok.inj h)
          exact .both (Bool.eq_false_iff.mpr hempty) htexts hsharing
      obtain ⟨sharing, hsharing, hwritten⟩ := htext.writtenAs (column_written hfound) op.names_ok.gucs_ok
        op.names_ok.pkType_ok built
      refine ⟨_, ?_, hwritten⟩
      rw [Call.blocks, hmodel]
      simp only [bind, Except.bind, hfound, hsharing]
      rfl
    · simp only [happlies, Bool.not_false, if_true] at h
      cases h
  | m2mOperation op allowMigrate apps =>
    change op.databaseForwards allowMigrate apps = .ok (some sql) at h
    unfold AddM2MRLSPolicy.databaseForwards at h
    by_cases happlies : allowMigrate
    · simp only [happlies, Bool.not_true, Bool.false_eq_true, if_false] at h
      obtain ⟨fromTable, hfrom, h⟩ := bind_ok h
      obtain ⟨toTable, hto, h⟩ := bind_ok h
      obtain rfl := Option.some.inj (Except.ok.inj h)
      obtain ⟨hsides, hoptions⟩ := op.checks
      have hready : (Call.m2mBlock op.m2mTable fromTable toTable op.sides op.options).Ready := ready_m2mBlock hsides hoptions
      refine ⟨[_], ?_, writtenAs_block hready (handed_m2mBlock hready)⟩
      rw [Call.blocks, hfrom, hto]
      rfl
    · simp only [happlies, Bool.not_false, if_true] at h
      cases h

/-- **Names break the text of a policy exactly when they are not sound**: whatever the
builder, its text is what it means when each name it finds is sound. -/
theorem unbroken_iff (call : Call) : call.Unbroken ↔
    ∀ sql blocks, call.sql = .ok (some sql) → call.blocks = .ok blocks → ∀ b ∈ blocks, b.Sound := by
  constructor
  · intro h sql blocks hsql hblocks
    obtain ⟨blocks', hblocks', hintact⟩ := h sql hsql
    obtain ⟨blocks'', hblocks'', hwritten⟩ := Call.sql_blocks hsql
    obtain rfl := Except.ok.inj (hblocks.symm.trans hblocks')
    obtain rfl := Except.ok.inj (hblocks.symm.trans hblocks'')
    exact (intact_iff hwritten.handed hwritten.ready).mp hintact
  · intro h sql hsql
    obtain ⟨blocks, hblocks, hwritten⟩ := Call.sql_blocks hsql
    exact ⟨blocks, hblocks, (intact_iff hwritten.handed hwritten.ready).mpr (h sql blocks hsql hblocks)⟩


/-- A model of some other application, whose table has an apostrophe. -/
def brienModel : Model :=
  { orderModel [tenantKey "tenant" none] with dbTable := "o'brien_note" }

def brienApps : Registry := ⟨[brienModel], by decide +kernel⟩

/-- `AddRLSPolicy` on the model. -/
def brienPolicy : AddRLSPolicy :=
  { model := ⟨"shop", "Order"⟩, field := "tenant", gucTenantVar := "rls.current_tenant", gucAdminVar := "rls.is_admin",
    tenantPkType := "int", extraBypassFlags := [], extraPredicates := [],
    names_ok := (constraintOn "tenant" isFieldName_tenant).names_ok }

/-- The constraint on the model. -/
def brienCall : Call :=
  .constraint (constraintOn "tenant" isFieldName_tenant) (by intro p hp; cases hp) brienApps brienModel

/-- The constraint writes the apostrophe into the block, where it ends the literal; the
operation refuses the table. -/
theorem apostrophe_breaks_constraint : ¬ brienCall.Unbroken ∧
    ∀ settings, brienPolicy.databaseForwards settings true brienApps = .error (.unsafeName "o'brien_note" "table name") := by
  constructor
  · intro hunbroken
    have hsql : brienCall.sql = .ok (some (buildPolicyCreateSql brienModel.dbTable "tenant_id" "rls.current_tenant"
      "rls.is_admin" "int" [])) := rfl
    obtain ⟨blocks, hblocks, hintact⟩ := hunbroken _ hsql
    obtain ⟨blocks', hblocks', hwritten⟩ := Call.sql_blocks hsql
    obtain rfl := Except.ok.inj (hblocks.symm.trans hblocks')
    have hsound := (intact_iff hwritten.handed hwritten.ready).mp hintact
    have hblock : brienCall.blocks = .ok [Call.tenantBlock brienModel.dbTable ⟨false, "tenant_id"⟩ "rls.current_tenant"
      "rls.is_admin" "int" []] := rfl
    obtain rfl := Except.ok.inj (hblock.symm.trans hblocks)
    have hliteral := (hsound _ List.mem_cons_self).literals
    apply hliteral
    apply (named_table brienModel.dbTable _).subset
    have hchars : "o'brien_note".toList.contains '\'' = true := by decide +kernel
    exact List.elem_iff.mp hchars
  · intro settings
    have htable : AddRLSPolicy.table brienModel = .error (.unsafeName "o'brien_note" "table name") := by decide +kernel
    have hmodel : brienPolicy.findModel brienApps = .ok brienModel := by decide +kernel
    have happlies : AddRLSPolicy.appliesTo true brienModel = true := rfl
    simp only [AddRLSPolicy.databaseForwards, hmodel, htable, happlies, bind, Except.bind, Bool.not_true, Bool.false_eq_true,
      if_false]

end RlsTenants
