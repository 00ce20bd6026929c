import RlsTenants.Proof.Scanning
import RlsTenants.Proof.Reads

/-!
# Only harmless statements run without the context

* `queries_false`: a text that the wrapper lets through on its first words starts with no
  query, unless a carriage return hides its start.
* `ended_tokens`: in a text that the reader takes for one statement, the scanner finds only
  semicolons after the first one.
* `harmless_and_covered_iff`: so what runs as it is evaluates no policy, and what may runs with the values of
  its context, if nothing is hidden from the wrapper: a statement after the first semicolon,
  or one in a line comment that ends at a carriage return.
* `reindex_lets_a_query_through` is a text with a query after its first semicolon.
-/

namespace RlsTenants.Exempt

open SqlLexer Effect

/-! ## The first words -/

/-- The commands that the wrapper lets through on their first word. -/
def commands : List Text :=
  transactionControl ++ ["SET", "CLUSTER", "DISCARD", "REINDEX", "VACUUM", "ALTER", "DROP"].map String.toList

/-- The words after `CREATE` that it lets through. -/
def createdObjects : List Text :=
  ["DATABASE", "SUBSCRIPTION", "SYSTEM", "TABLESPACE", "INDEX", "UNIQUE"].map String.toList

theorem commands_apart : commands.all (Apart (queryCommands ++ ["CREATE".toList])) = true := by decide

theorem create_apart : Apart queryCommands "CREATE".toList = true := by decide

theorem createdObjects_apart : createdObjects.all (Apart queriedObjects) = true := by decide

theorem commands_plain : commands.all (fun K => K.takeWhile (· != '(') = K) = true := by decide

theorem toUpper_ne_paren {c : Char} (hc : c.isLower = true) : c.toUpper ≠ '(' := by
  have hrange : 97 ≤ c.toNat ∧ c.toNat ≤ 122 := by
    simp only [Char.isLower, decide_eq_true_eq, Bool.and_eq_true, ge_iff_le, UInt32.le_iff_toNat_le] at hc
    exact hc
  rw [← Char.ofNat_toNat c]
  obtain ⟨h1, h2⟩ := hrange
  generalize c.toNat = n at h1 h2
  interval_cases n <;> decide

theorem upper_takeWhile (t : Text) : (upper t).takeWhile (· != '(') = upper (t.takeWhile (· != '(')) := by
  induction t with
  | nil => rfl
  | cons c t ih =>
    have hcons : ∀ t, upper (c :: t) = upperChar c ++ upper t := fun t => by simp [upper]
    by_cases hc : c = '('
    · subst hc
      have hone : upperChar '(' = ['('] := by decide
      rw [hcons, hone]
      simp [upper]
    · have hall : ∀ d ∈ upperChar c, (d != '(') = true := by
        intro d hd
        rw [bne_iff_ne]
        rintro rfl
        unfold upperChar at hd
        by_cases hl : c.isLower = true
        · rw [if_pos hl, List.mem_singleton] at hd
          exact toUpper_ne_paren hl hd.symm
        · rw [if_neg hl] at hd
          split at hd
          all_goals first | exact absurd hd (by decide) | skip
          exact hc (List.mem_singleton.1 hd).symm
      rw [hcons, List.takeWhile_append_of_pos hall, ih, List.takeWhile_cons_of_pos (by simpa using hc), hcons]

/-- The first word of the text is apart from the commands that query, if its start up to a
parenthesis is one of those let through. -/
theorem queries_false_of_command {p s : Text} {ts : List Token} (hp : upper p ∈ commands)
    (hts : tokens (p ++ s) = some ts) : Queries ts = false := by
  have ha := List.all_eq_true.1 commands_apart _ hp
  rw [tokens_keyword ha rfl] at hts
  obtain ⟨ts', -, rfl⟩ := Option.map_eq_some_iff.1 hts
  have hnot := keyword_notMem ha rfl (List.prefix_append p (s.takeWhile isWordChar))
  rw [List.mem_append, not_or, List.mem_singleton] at hnot
  rw [Queries, List.contains_eq_mem, decide_eq_false hnot.1, decide_eq_false hnot.2]
  rfl

/-- A word is its part without semicolons at the end, and these. -/
theorem rstripSemicolons_split (w : Text) :
    ∃ semis, w = rstripSemicolons w ++ semis ∧ ∀ c ∈ semis, c = ';' := by
  refine ⟨(w.reverse.takeWhile (· == ';')).reverse, ?_, fun c hc => ?_⟩
  · have := congrArg List.reverse (List.takeWhile_append_dropWhile (p := (· == ';')) (l := w.reverse))
    rw [List.reverse_append, List.reverse_reverse] at this
    exact this.symm
  · have := List.mem_takeWhile_imp (p := (· == ';')) (List.mem_reverse.1 hc)
    exact beq_iff_eq.1 this

/-- What follows the part of a word up to a parenthesis. -/
theorem word_split (w : Text) : ∃ q, w = (rstripSemicolons w).takeWhile (· != '(') ++ q ∧
    ∀ c, q.head? = some c → c = '(' ∨ c = ';' := by
  obtain ⟨semis, hsemis, hall⟩ := rstripSemicolons_split w
  refine ⟨(rstripSemicolons w).dropWhile (· != '(') ++ semis, ?_, fun c hc => ?_⟩
  · rw [← List.append_assoc, List.takeWhile_append_dropWhile]
    exact hsemis
  · have hparen := List.head?_dropWhile_not (p := (· != '(')) (rstripSemicolons w)
    cases hd : (rstripSemicolons w).dropWhile (· != '(') with
    | nil =>
      rw [hd, List.nil_append] at hc
      exact .inr (hall c (List.mem_of_mem_head? hc))
    | cons d ds =>
      rw [hd] at hc hparen
      obtain rfl : d = c := by simpa using hc
      exact .inl (by simpa using hparen)

/-- What comes after a word is a blank, a semicolon or a parenthesis and the next word. -/
theorem unqueried_next {q rest r w : Text} {ws : List Text} (hq : ∀ c, q.head? = some c → c = '(' ∨ c = ';')
    (hrest : split rest = w :: ws) (hw : upper (rstripSemicolons w) ∈ createdObjects) {ts : List Token}
    (hts : tokens (q ++ (rest ++ r)) = some ts) : ts.head?.any isQueried = false := by
  cases q with
  | cons c q =>
    have hstep : stepPlain c = (.plain, [.symbol c]) := by
      rcases hq c rfl with rfl | rfl <;> decide
    rw [List.cons_append, tokens_symbol hstep] at hts
    obtain ⟨ts', -, rfl⟩ := Option.map_eq_some_iff.1 hts
    rfl
  | nil =>
    rw [List.nil_append] at hts
    obtain ⟨rest', hstrip, -, -⟩ := split_eq_cons hrest
    rcases tokens_lstrip rest r with heq | hodd
    · obtain ⟨semis, hsemis, -⟩ := rstripSemicolons_split w
      have ha := List.all_eq_true.1 createdObjects_apart _ hw
      have hword : lstrip rest ++ r = rstripSemicolons w ++ (semis ++ (rest' ++ r)) := by
        rw [hstrip]
        conv_lhs => rw [hsemis]
        simp
      rw [heq, hword, tokens_keyword ha rfl] at hts
      obtain ⟨ts', -, rfl⟩ := Option.map_eq_some_iff.1 hts
      have hnot := keyword_notMem ha rfl (List.prefix_append (rstripSemicolons w)
        ((semis ++ (rest' ++ r)).takeWhile isWordChar))
      simp only [List.head?_cons, Option.any_some, isQueried, List.contains_eq_mem, decide_eq_false hnot]
    · exact (hodd.unqueried hts).2

/-- `CREATE` computes no query where the next word is one of those let through. -/
theorem queries_false_of_create {p q rest r w : Text} {ws : List Text} (hp : upper p = "CREATE".toList)
    (hq : ∀ c, q.head? = some c → c = '(' ∨ c = ';') (hrest : split rest = w :: ws)
    (hw : upper (rstripSemicolons w) ∈ createdObjects) {ts : List Token}
    (hts : tokens (p ++ (q ++ (rest ++ r))) = some ts) : Queries ts = false := by
  rw [tokens_keyword create_apart hp] at hts
  obtain ⟨ts', hts', rfl⟩ := Option.map_eq_some_iff.1 hts
  set s := q ++ (rest ++ r) with hs
  have hquery := keyword_notMem create_apart hp (List.prefix_append p (s.takeWhile isWordChar))
  rw [Queries, List.contains_eq_mem, decide_eq_false hquery, Bool.false_or]
  by_cases hcre : keyword (p ++ s.takeWhile isWordChar) = "CREATE".toList
  · -- the token is no longer than `CREATE`, so the next word follows it
    have hshort : s.takeWhile isWordChar = [] := by
      have hlen := congrArg List.length hcre
      have hup := congrArg List.length
        ((upper_eq_keyword hcre (by decide) (List.prefix_append p (s.takeWhile isWordChar))).symm.trans hp)
      simp only [keyword, List.length_map, List.length_append] at hlen hup
      refine List.eq_nil_of_length_eq_zero ?_
      omega
    have hdrop : s.dropWhile isWordChar = s := by
      have := List.takeWhile_append_dropWhile (p := isWordChar) (l := s)
      rwa [hshort, List.nil_append] at this
    rw [hdrop] at hts'
    rw [unqueried_next hq hrest hw hts', Bool.and_false]
  · rw [decide_eq_false hcre, Bool.false_and]

/-- The first word, up to a parenthesis, of a statement that the wrapper lets through. -/
theorem command_of_let_through {st : Statement}
    (h : controlsTheTransaction (some st) = true ∨ refusedInATransaction (some st) = true) :
    st.command.takeWhile (· != '(') ∈ commands ∨ (st.command.takeWhile (· != '(') = "CREATE".toList ∧
      refusedDdl "CREATE".toList ((st.words.drop 1).map fun w => upper (rstripSemicolons w)) = true) := by
  rcases h with h | h
  · have hmem : st.command ∈ commands := by
      simp only [controlsTheTransaction] at h
      by_cases hc : st.compound = true
      · simp [hc] at h
      · rw [if_neg hc] at h
        by_cases hctl : st.command ∈ transactionControl
        · exact List.mem_append_left _ hctl
        · rw [if_neg hctl, Bool.and_eq_true, decide_eq_true_eq] at h
          rw [h.1]
          decide
    have hplain := List.all_eq_true.1 commands_plain _ hmem
    rw [decide_eq_true_eq] at hplain
    rw [hplain]
    exact .inl hmem
  · simp only [refusedInATransaction] at h
    generalize hk : st.command.takeWhile (· != '(') = K at h ⊢
    by_cases hddl : K ∈ ["ALTER", "CREATE", "DROP"].map String.toList
    · rw [if_pos hddl] at h
      simp only [List.map_cons, List.map_nil, List.mem_cons, List.not_mem_nil, or_false] at hddl
      rcases hddl with rfl | rfl | rfl
      · exact .inl (by decide)
      · exact .inr ⟨rfl, h⟩
      · exact .inl (by decide)
    · rw [if_neg hddl, decide_eq_true_eq] at h
      simp only [List.map_cons, List.map_nil, List.mem_cons, List.not_mem_nil, or_false] at h
      rcases h with rfl | rfl | rfl | rfl <;> exact .inl (by decide)

/-- What follows `CREATE` in a statement that the wrapper lets through. -/
theorem created_of_refusedDdl {words : List Text} (h : refusedDdl "CREATE".toList words = true) :
    ∃ u us, words = u :: us ∧ u ∈ createdObjects := by
  have halter : "CREATE".toList ≠ "ALTER".toList := by decide
  cases words with
  | nil => exact absurd h (by decide)
  | cons u us =>
    refine ⟨u, us, rfl, ?_⟩
    simp only [refusedDdl, if_pos halter] at h
    split at h
    · rename_i hobj
      simp only [List.take_succ_cons, List.take_zero, List.any_cons, List.any_nil, Bool.or_false,
        List.contains_eq_mem, decide_eq_true_eq] at hobj
      exact (show ["DATABASE", "SUBSCRIPTION", "SYSTEM", "TABLESPACE"].map String.toList ⊆ createdObjects by decide) hobj
    · simp only [Bool.or_eq_true, decide_eq_true_eq] at h
      rcases h with h | h
      · have : u = "INDEX".toList := by simpa using congrArg List.head? h
        rw [this]
        decide
      · have : u = "UNIQUE".toList := by simpa using congrArg List.head? h
        rw [this]
        decide

/-- **A text let through on its first words starts with no query**, if no carriage return
stands in a line comment before them. -/
theorem queries_false {sql : Text} {st : Statement} (hparse : parseText sql = some st)
    (hacc : controlsTheTransaction (some st) = true ∨ refusedInATransaction (some st) = true)
    (hret : hidesReturn sql = false) {ts : List Token} (hts : tokens sql = some ts) : Queries ts = false := by
  have hcommand := command_of_let_through hacc
  unfold parseText at hparse
  cases hsplit : split (head sql) with
  | nil =>
    rw [hsplit] at hparse
    simp only at hparse
    split at hparse
    · obtain rfl := Option.some.inj hparse
      exact absurd hcommand (by decide)
    · cases hparse
  | cons w ws =>
    rw [hsplit] at hparse
    obtain rfl := Option.some.inj hparse
    have hhead : head sql ≠ [] := by
      intro h0
      rw [h0] at hsplit
      cases hsplit
    obtain ⟨rest, hstrip, hws, hrest⟩ := split_eq_cons hsplit
    obtain ⟨r, heq | hodd⟩ := tokens_head hhead hret
    · rcases tokens_lstrip (head sql) r with heq' | hodd
      · -- the first word up to a parenthesis or its semicolons, and what is left of it
        set p := (rstripSemicolons w).takeWhile (· != '(') with hp
        obtain ⟨q, hq, hqhead⟩ := word_split w
        have htext : tokens sql = tokens (p ++ (q ++ (rest ++ r))) := by
          have happ := congrArg (· ++ (rest ++ r)) hq
          simp only [List.append_assoc] at happ
          rw [heq, heq', hstrip, List.append_assoc, happ]
        rw [htext] at hts
        simp only [upper_takeWhile] at hcommand
        rw [← hp] at hcommand
        rcases hcommand with hcommand | ⟨hcreate, hddl⟩
        · exact queries_false_of_command hcommand hts
        · obtain ⟨u, us, hu, hmem⟩ := created_of_refusedDdl hddl
          obtain ⟨v, vs, rfl, rfl⟩ : ∃ v vs, ws = v :: vs ∧ u = upper (rstripSemicolons v) := by
            cases ws with
            | nil => simp at hu
            | cons v vs => exact ⟨v, vs, rfl, by simpa using (List.cons.inj hu).1.symm⟩
          exact queries_false_of_create hcreate hqhead hws.symm hmem hts
      · exact (hodd.of_tokens heq).unqueried hts |>.1
    · exact (hodd.unqueried hts).1

/-! ## After the first semicolon -/

/-- After its first semicolon the list has semicolons and comments only. -/
def Ended (ts : List Token) : Prop :=
  ∀ t ∈ ts.dropWhile (· ≠ .symbol ';'), t = .symbol ';' ∨ isComment t = true

/-- The scanner is not in the middle of a token, or in one that does not end at a blank. -/
def Inside (mode : Mode) : Prop := finish mode = none ∨ mode = .plain ∨ ∃ read, mode = .lineComment read

/-- What `isCompound` takes for the end of the last statement. -/
def isTrailing (c : Char) : Bool := [';', ' ', '\t', '\r', '\n'].contains c

theorem step_trailing {mode : Mode} (hm : Inside mode) {c : Char} (hc : isTrailing c = true) :
    Inside (step mode c).1 ∧ ∀ t ∈ (step mode c).2, t = .symbol ';' ∨ isComment t = true := by
  have hcases : c = ';' ∨ c = ' ' ∨ c = '\t' ∨ c = '\r' ∨ c = '\n' := by simpa [isTrailing] using hc
  have hquote : c ≠ '"' ∧ c ≠ '\'' ∧ c ≠ '\\' ∧ c ≠ '$' ∧ c ≠ '/' ∧ c ≠ '*' := by
    rcases hcases with rfl | rfl | rfl | rfl | rfl <;> decide
  obtain ⟨h1, h2, h3, h4, h5, h6⟩ := hquote
  cases mode with
  | plain =>
    rcases hcases with rfl | rfl | rfl | rfl | rfl <;> exact ⟨.inr (.inl (by decide)), by decide⟩
  | lineComment read =>
    by_cases hline : c = '\n' ∨ c = '\r'
    · rw [step, if_pos hline]
      exact ⟨.inr (.inl rfl), by simp [isComment]⟩
    · rw [step, if_neg hline]
      exact ⟨.inr (.inr ⟨_, rfl⟩), by simp⟩
  | quoted read =>
    rw [step, if_neg h1]
    exact ⟨.inl rfl, by simp⟩
  | literal escapes read =>
    rw [step, if_neg h2, if_neg fun h => h3 h.2]
    exact ⟨.inl rfl, by simp⟩
  | escape read => exact ⟨.inl rfl, by simp [step]⟩
  | dollar tag read =>
    have hopen : ¬(delimiter tag).reverse <+: c :: read := by
      intro h
      have hrev : (delimiter tag).reverse = '$' :: (tag.reverse ++ ['$']) := by simp [delimiter]
      rw [hrev, List.cons_prefix_cons] at h
      exact h4 h.1.symm
    rw [step, if_neg hopen]
    exact ⟨.inl rfl, by simp⟩
  | blockComment depth fresh read => exact ⟨.inl (by simp [step, h5, h6, finish]), by simp [step, h5]⟩
  | word read => rcases hm with h | h | ⟨_, h⟩ <;> simp [finish] at h
  | quotedEnd read => rcases hm with h | h | ⟨_, h⟩ <;> simp [finish] at h
  | literalEnd escapes read => rcases hm with h | h | ⟨_, h⟩ <;> simp [finish] at h
  | tag read => cases read <;> rcases hm with h | h | ⟨_, h⟩ <;> simp [finish] at h
  | dash => rcases hm with h | h | ⟨_, h⟩ <;> simp [finish] at h
  | slash => rcases hm with h | h | ⟨_, h⟩ <;> simp [finish] at h

theorem run_trailing {mode : Mode} (hm : Inside mode) {t : Text} (ht : ∀ c ∈ t, isTrailing c = true) :
    Inside (run mode t).1 ∧ ∀ tok ∈ (run mode t).2, tok = .symbol ';' ∨ isComment tok = true := by
  induction t generalizing mode with
  | nil => exact ⟨hm, by simp [run]⟩
  | cons c t ih =>
    obtain ⟨h1, h2⟩ := step_trailing hm (ht c List.mem_cons_self)
    obtain ⟨h3, h4⟩ := ih h1 fun d hd => ht d (List.mem_cons_of_mem _ hd)
    refine ⟨h3, fun tok htok => ?_⟩
    rcases List.mem_append.1 htok with h | h
    · exact h2 tok h
    · exact h4 tok h

theorem ended_of_forall {ts : List Token} (h : ∀ t ∈ ts, t = .symbol ';' ∨ isComment t = true) : Ended ts :=
  fun t ht => h t ((List.dropWhile_suffix _).subset ht)

theorem ended_append {us : List Token} (hus : .symbol ';' ∉ us) {ts : List Token} :
    Ended (us ++ ts) ↔ Ended ts := by
  have hall : ∀ t ∈ us, decide (t ≠ .symbol ';') = true := by
    intro t ht
    rw [decide_eq_true_eq]
    rintro rfl
    exact hus ht
  rw [Ended, Ended, List.dropWhile_append_of_pos hall]

theorem finish_notMem {mode : Mode} {ts : List Token} (h : finish mode = some ts) : .symbol ';' ∉ ts := by
  unfold finish at h
  split at h <;> cases h <;> simp

theorem Ended.append {ts us : List Token} (h : Ended ts) (hus : ∀ t ∈ us, t = .symbol ';' ∨ isComment t = true) :
    Ended (ts ++ us) := by
  intro t ht
  rw [List.dropWhile_append] at ht
  split at ht
  · exact hus t ((List.dropWhile_suffix _).subset ht)
  · rcases List.mem_append.1 ht with ht | ht
    · exact h t ht
    · exact hus t ht

theorem finish_inside {mode : Mode} (hm : Inside mode) {ts : List Token} (h : finish mode = some ts) :
    ∀ t ∈ ts, t = .symbol ';' ∨ isComment t = true := by
  rcases hm with hm | rfl | ⟨read, rfl⟩
  · rw [hm] at h
    cases h
  · obtain rfl := Option.some.inj h
    simp
  · obtain rfl := Option.some.inj h
    simp [isComment]

/-- A semicolon ends a token, or stands in one that ends later. -/
theorem step_semicolon (mode : Mode) : Inside (step mode ';').1 ∧ Ended (step mode ';').2 := by
  by_cases hm : Inside mode
  · obtain ⟨h1, h2⟩ := step_trailing hm (c := ';') (by decide)
    exact ⟨h1, ended_of_forall h2⟩
  · simp only [Inside, not_or, not_exists] at hm
    obtain ⟨hfinish, -, hline⟩ := hm
    obtain ⟨ts, hts⟩ := Option.ne_none_iff_exists'.1 hfinish
    have hplain : stepPlain ';' = (.plain, [.symbol ';']) := by decide
    rw [step_stop hts hline (by decide), hplain]
    refine ⟨.inr (.inl rfl), (ended_append (finish_notMem hts)).2 ?_⟩
    exact ended_of_forall (by simp)

theorem stepPlain_other {c : Char} (hc : c ≠ ';') : .symbol ';' ∉ (stepPlain c).2 := by
  unfold stepPlain
  repeat' split
  all_goals simp [hc.symm]

theorem stepWord_other (read : List Char) {c : Char} (hc : c ≠ ';') : .symbol ';' ∉ (stepWord read c).2 := by
  unfold stepWord
  repeat' split
  all_goals simp [emit, stepPlain_other hc]

/-- Another character is no semicolon for the scanner either. -/
theorem step_other (mode : Mode) {c : Char} (hc : c ≠ ';') : .symbol ';' ∉ (step mode c).2 := by
  have hplain := stepPlain_other hc
  cases mode with
  | plain => exact hplain
  | word read => exact stepWord_other read hc
  | tag read =>
    simp only [step]
    repeat' split
    all_goals simp [emit, hplain, stepWord_other read hc]
  | _ =>
    simp only [step]
    repeat' split
    all_goals simp [emit, hplain]

/-- **After the first semicolon** of a text in which the reader finds one statement, the
scanner finds no other. -/
theorem ended_run {t : Text} (h : isCompound t = false) : ∀ mode : Mode, ∀ ts, finish (run mode t).1 = some ts →
    Ended ((run mode t).2 ++ ts) := by
  induction t with
  | nil =>
    intro mode ts hts
    have hnil : Ended (ts ++ []) := (ended_append (finish_notMem hts)).2 (ended_of_forall (by simp))
    rw [List.append_nil] at hnil
    exact hnil
  | cons c t ih =>
    intro mode ts hts
    by_cases hc : c = ';'
    · subst hc
      have htrail : ∀ d ∈ t, isTrailing d = true := by
        have hall : (';' :: t).dropWhile (· != ';') = ';' :: t := by simp
        intro d hd
        rw [isCompound, hall, List.any_eq_false] at h
        by_contra hne
        exact h d (List.mem_cons_of_mem _ hd) (Bool.not_eq_true' _ ▸ Bool.eq_false_iff.2 hne)
      obtain ⟨h1, h2⟩ := step_semicolon mode
      obtain ⟨h3, h4⟩ := run_trailing h1 htrail
      rw [run, List.append_assoc]
      refine h2.append fun tok htok => ?_
      rcases List.mem_append.1 htok with htok | htok
      · exact h4 tok htok
      · exact finish_inside h3 hts tok htok
    · have hrest : isCompound t = false := by
        have hdrop : (c :: t).dropWhile (· != ';') = t.dropWhile (· != ';') :=
          List.dropWhile_cons_of_pos (by simpa using hc)
        rwa [isCompound, hdrop] at h
      rw [run, List.append_assoc, ended_append (step_other mode hc)]
      exact ih hrest _ ts hts

theorem ended_tokens {sql : Text} (h : isCompound sql = false) {ts : List Token} (hts : tokens sql = some ts) :
    ∀ t ∈ ts.dropWhile (· ≠ .symbol ';'), t = .symbol ';' := by
  obtain ⟨all, hall, rfl⟩ := Option.map_eq_some_iff.1 hts
  obtain ⟨last, hlast, rfl⟩ := Option.map_eq_some_iff.1 hall
  have hended := ended_run h _ last hlast
  generalize (run .plain sql).2 ++ last = us at hended
  -- the comments left out are no semicolons
  induction us with
  | nil => simp
  | cons u us ih =>
    cases hu : isComment u with
    | true =>
      have hne : u ≠ .symbol ';' := by
        rintro rfl
        cases hu
      have hended' : Ended us := by
        rw [Ended, List.dropWhile_cons_of_pos (by simpa using hne)] at hended
        exact hended
      rw [List.filter_cons_of_neg (by simp [hu])]
      exact ih hended'
    | false =>
      rw [List.filter_cons_of_pos (by simp [hu])]
      by_cases hsemi : u = .symbol ';'
      · intro t ht
        rw [Ended, hsemi, List.dropWhile_cons_of_neg (by simp)] at hended
        rw [hsemi, List.dropWhile_cons_of_neg (by simp)] at ht
        rcases List.mem_cons.1 ht with rfl | ht
        · rfl
        · obtain ⟨hmem, hnot⟩ := List.mem_filter.1 ht
          have := hended t (List.mem_cons_of_mem _ hmem)
          rcases this with h | h
          · exact h
          · simp [h] at hnot
      · rw [Ended, List.dropWhile_cons_of_pos (by simpa using hsemi)] at hended
        rw [List.dropWhile_cons_of_pos (by simpa using hsemi)]
        exact ih hended

/-! ## Statements -/

theorem mem_intercalate {sep : List Token} {ps : List (List Token)} {p : List Token} (hp : p ∈ ps) {t : Token}
    (ht : t ∈ p) : t ∈ sep.intercalate ps := by
  induction ps with
  | nil => cases hp
  | cons q ps ih =>
    cases ps with
    | nil =>
      rw [List.mem_singleton] at hp
      rwa [List.intercalate_singleton, ← hp]
    | cons q' ps =>
      rw [List.intercalate_cons_cons]
      rcases List.mem_cons.1 hp with rfl | hp
      · exact List.mem_append_left _ (List.mem_append_left _ ht)
      · exact List.mem_append_right _ (ih hp)

/-- The later statements start after a semicolon. -/
theorem mem_dropWhile_of_tail {ps : List (List Token)} {p : List Token} (hp : p ∈ ps.tail) {t : Token} (ht : t ∈ p) :
    t ∈ ([Token.symbol ';'].intercalate ps).dropWhile (· ≠ .symbol ';') := by
  match ps with
  | [] => cases hp
  | [_] => cases hp
  | q :: q' :: rest =>
    have hmem : t ∈ [Token.symbol ';'].intercalate (q' :: rest) := mem_intercalate hp ht
    have hstop : ([Token.symbol ';'] ++ [Token.symbol ';'].intercalate (q' :: rest)).dropWhile (· ≠ .symbol ';') =
        [Token.symbol ';'] ++ [Token.symbol ';'].intercalate (q' :: rest) :=
      List.dropWhile_cons_of_neg (by simp)
    rw [List.intercalate_cons_cons, List.append_assoc, List.dropWhile_append, hstop]
    split
    · exact List.mem_append_right _ hmem
    · exact List.mem_append_right _ (List.mem_append_right _ hmem)

theorem queries_append {p : List Token} (h : Queries p = true) (us : List Token) : Queries (p ++ us) = true := by
  match p with
  | [] => cases h
  | .symbol c :: rest => exact h
  | .word w :: rest =>
    rw [Queries, Bool.or_eq_true, Bool.and_eq_true] at h
    rw [List.cons_append, Queries, Bool.or_eq_true, Bool.and_eq_true]
    refine h.imp id fun hcreate => ⟨hcreate.1, ?_⟩
    cases rest with
    | nil => cases hcreate.2
    | cons t rest => exact hcreate.2

/-- A query that starts the first statement starts the text. -/
theorem queries_of_head {ps : List (List Token)} {p : List Token} (hp : ps.head? = some p) (hq : Queries p = true) :
    Queries ([Token.symbol ';'].intercalate ps) = true := by
  match ps with
  | [] => cases hp
  | [q] =>
    obtain rfl := Option.some.inj hp
    rwa [List.intercalate_singleton]
  | q :: q' :: rest =>
    obtain rfl := Option.some.inj hp
    rw [List.intercalate_cons_cons, List.append_assoc]
    exact queries_append hq _

theorem queries_false_of_semicolons {p : List Token} (h : ∀ t ∈ p, t = .symbol ';') : Queries p = false := by
  cases p with
  | nil => rfl
  | cons t p =>
    rw [h t List.mem_cons_self]
    rfl

/-! ## What is let through -/

/-- **A statement that runs as it is is harmless** exactly when nothing is hidden in it. -/
theorem harmless_iff (G : Grammar) (object : SqlObject) : Harmless G object ↔ NothingHidden G object := by
  constructor
  · intro h
    refine ⟨fun hrun _ ps _ hps _ p hp => h hrun ps hps p (List.mem_of_mem_tail hp), ?_⟩
    exact fun hrun _ ps _ hps _ p hp => h hrun ps hps p (List.mem_of_mem_head? hp)
  · intro h hrun ps hps p hp heval
    obtain ⟨text, ts, htext, hts, hG⟩ := hps
    have hcut := G.cut ts ps hG
    have hquery := G.documented p heval
    have hparse : parse object = parseText text := by rw [parse, htext, Option.bind_some]
    -- a statement that is not read is not let through
    obtain ⟨st, hst⟩ : ∃ st, parseText text = some st := by
      rw [RunsAsIs, hparse] at hrun
      cases hread : parseText text with
      | none => rw [hread] at hrun; rcases hrun with hrun | hrun <;> cases hrun
      | some st => exact ⟨st, rfl⟩
    have hacc := hrun
    rw [RunsAsIs, hparse, hst] at hacc
    by_cases hfirst : ps.head? = some p
    · cases hret : hidesReturn text with
      | true => exact h.first hrun text ps htext ⟨text, ts, htext, hts, hG⟩ hret p hfirst heval
      | false =>
        have hno := queries_false hst hacc hret hts
        rw [← hcut, queries_of_head hfirst hquery] at hno
        cases hno
    · have htail : p ∈ ps.tail := by
        cases ps with
        | nil => cases hp
        | cons q ps =>
          rcases List.mem_cons.1 hp with rfl | hp
          · exact absurd rfl hfirst
          · exact hp
      cases hcomp : isCompound text with
      | true => exact h.later hrun text ps htext ⟨text, ts, htext, hts, hG⟩ hcomp p htail heval
      | false =>
        have hsemi : ∀ t ∈ p, t = .symbol ';' := by
          intro t ht
          refine ended_tokens hcomp hts t ?_
          rw [← hcut]
          exact mem_dropWhile_of_tail htail ht
        rw [queries_false_of_semicolons hsemi] at hquery
        cases hquery

/-- A line that ends at a carriage return hides the statement after it from the reader. -/
example :
    let text := "-- of today\rSELECT * FROM notes\nVACUUM".toList
    (parseText text).map Statement.command = some "VACUUM".toList ∧
      (tokens text).map List.head? = some (some (.word "SELECT".toList)) := by
  decide +kernel

/-! ## What is not -/

/-- The statement runs in a transaction with the context's values: in autocommit the wrapper
gives it one of its own, if the values are transaction-local, and after every run of the
connection its commands on rows run under the values of their context. -/
structure Covered (object : SqlObject) : Prop where
  own : ∀ (env : Env) (c : Connection), env.conf.useLocalSet = true → env.context.isSome = true →
    c.autocommit = true → c.guarded = true →
    controlsTheTransaction (parse object) = false ∧ needsOwnTransaction env c .idle (parse object) = true
  values : ∀ (conf : Conf) (c : Connection) (es : List Event), Unopened c → (∀ e ∈ es, e.Clear conf) →
    ∀ (context : Option ContextGucs) (cmds : List Command) (fates : List Fate), (∀ cmd ∈ cmds, cmd.Neutral) →
    ∀ r ∈ (throughCursor ⟨conf, context⟩ ⟨object, cmds⟩ { Run.run (Event.step conf) c es with fates := fates }).2.ran,
      r.seen = valuesOf r.context

theorem covered_of_not_runsAsIs {object : SqlObject} (h : ¬RunsAsIs object) : Covered object := by
  simp only [RunsAsIs, not_or, Bool.not_eq_true] at h
  obtain ⟨hctl, href⟩ := h
  refine ⟨fun env c hlocal hcontext hauto hguarded => ⟨hctl, ?_⟩, ?_⟩
  · simp [needsOwnTransaction, hlocal, hcontext, hauto, hguarded, href]
  · intro conf c es hc hes context cmds fates hcmds
    have hrun : Inv (fun _ => True) (fun _ => False) true (fun r => r.seen = valuesOf r.context)
        (Run.run (Event.step conf) c es) := by
      refine Run.run_keeps_along (P := fun _ e => e.Clear conf) (fun c e hi he => ?_) hc.inv
        (Run.along_of_forall hes c)
      exact step_keeps hi he.read (fun _ _ _ _ _ _ h => h) fun _ g h => h trivial
    have hdata : Data (fun r => r.seen = valuesOf r.context) ⟨conf, context⟩ ⟨object, cmds⟩ := ⟨hctl, hcmds, fun _ _ hr => by rw [href] at hr; cases hr⟩
    have hlast : Ends (fun _ => Inv (fun _ => True) (fun _ => False) true fun r => r.seen = valuesOf r.context)
        (fun _ => Inv (fun _ => True) (fun _ => False) true fun r => r.seen = valuesOf r.context)
        (throughCursor ⟨conf, context⟩ ⟨object, cmds⟩ { Run.run (Event.step conf) c es with fates := fates }) := by
      refine (ensureConnection_ends _ (hrun.with_fates fates)).bind_rule fun _ c' hi => ?_
      exact guard_data_ends hi.1 hdata fun g hg => hg trivial
    exact hlast.inv.log

/-- **Only harmless statements run as they are**, and every other one runs with the values of
its context, exactly when nothing is hidden from the wrapper in what it lets through. -/
theorem harmless_and_covered_iff (G : Grammar) (object : SqlObject) :
    (Harmless G object ∧ ∀ ps, G.Parses object ps → (∃ p ∈ ps, G.evaluates p) → Covered object) ↔
      NothingHidden G object := by
  constructor
  · intro h
    exact (harmless_iff G object).1 h.1
  · intro h
    have hharmless := (harmless_iff G object).2 h
    refine ⟨hharmless, fun ps hps ⟨p, hp, heval⟩ => covered_of_not_runsAsIs fun hrun => ?_⟩
    exact hharmless hrun ps hps p hp heval

/-- A query after a command that PostgreSQL may refuse in a transaction. -/
def reindexAndSelect : SqlObject := .str "REINDEX TABLE notes; SELECT * FROM notes".toList

/-- **The query is let through** with the command before it. -/
theorem reindex_lets_a_query_through :
    ¬∀ (G : Grammar) (object : SqlObject), Harmless G object ∧
      ∀ ps, G.Parses object ps → (∃ p ∈ ps, G.evaluates p) → Covered object := by
  intro h
  have hquery : ((tokens "REINDEX TABLE notes; SELECT * FROM notes".toList).map
      (·.splitOn (.symbol ';'))).any (·.any Queries) = true := by decide +kernel
  obtain ⟨ps, hps, hany⟩ := (Option.any_eq_true _ _).1 hquery
  obtain ⟨ts, hts, rfl⟩ := Option.map_eq_some_iff.1 hps
  obtain ⟨p, hp, heval⟩ := List.any_eq_true.1 hany
  exact (h .bySemicolons reindexAndSelect).1 (.inr (by decide +kernel)) _ ⟨_, ts, rfl, hts, rfl⟩ p hp heval

end RlsTenants.Exempt
