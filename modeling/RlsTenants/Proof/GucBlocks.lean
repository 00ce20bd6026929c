import RlsTenants.Spec.GucBlocks

/-!
# GUC blocks restore what they found

* `Keeps`: a session is as it was, or its transaction has failed and its start and
  savepoints are as they were.
* `block_restores`: the exit of a block undoes what the block wrote.
* `atomic_restores`: an atomic block gives back the session that it began with.
* `exec_restores`: so does every program whose blocks meet no hidden session value.
-/

namespace RlsTenants

namespace GucBlocks

open Txn

variable {c c' : Conn} {s s' s'' : State ℕ Settings} {isLocal fails excPending : Bool} {name value : String}
  {f g : Settings → Settings} {names : List String}

/-! ## Sessions that are kept -/

/-- The session's transaction has failed; its start and its savepoints are as they were. -/
def FailedFrom (s s' : State ℕ Settings) : Prop :=
  ∃ o o', s = .inTx o ∧ s' = .inTx o' ∧ o'.failed = true ∧ o'.start = o.start ∧ o'.savepoints = o.savepoints

def Keeps (s s' : State ℕ Settings) : Prop := s' = s ∨ FailedFrom s s'

theorem FailedFrom.isFailed (h : FailedFrom s s') : s'.isFailed = true := by
  obtain ⟨o, o', -, rfl, hfailed, -⟩ := h
  exact hfailed

theorem FailedFrom.trans (h : FailedFrom s s') (h' : FailedFrom s' s'') : FailedFrom s s'' := by
  obtain ⟨o, o', rfl, rfl, -, hstart, hsaves⟩ := h
  obtain ⟨o₁, o'', ho, rfl, hfailed, hstart', hsaves'⟩ := h'
  obtain rfl : o' = o₁ := State.inTx.inj ho
  exact ⟨o, o'', rfl, rfl, hfailed, hstart'.trans hstart, hsaves'.trans hsaves⟩

theorem Keeps.refl (s : State ℕ Settings) : Keeps s s := .inl rfl

theorem Keeps.trans (h : Keeps s s') (h' : Keeps s' s'') : Keeps s s'' := by
  rcases h with rfl | h
  · exact h'
  · rcases h' with rfl | h'
    · exact .inr h
    · exact .inr (h.trans h')

theorem Keeps.healthy (h : Keeps s s') (hs : s'.isFailed = false) : s' = s := by
  rcases h with h | h
  · exact h
  · rw [h.isFailed] at hs
    cases hs

theorem keeps_fail (s : State ℕ Settings) : Keeps s s.fail := by
  cases s with
  | idle v => exact .inl rfl
  | inTx o => exact .inr ⟨o, _, rfl, rfl, rfl, rfl, rfl⟩

theorem Keeps.restored {session : List String} (h : Keeps c.pg c'.pg) : (⟨session, c, c'⟩ : Report).Restored where
  effective hs := by rw [h.healthy hs]
  session v hv := by
    rcases h with h | ⟨o, -, ho, -⟩
    · exact h.trans hv
    · cases hv.symm.trans ho

/-! ## Scoped writes -/

theorem writeScoped_comp : writeScoped isLocal g (writeScoped isLocal f s) = writeScoped isLocal (g ∘ f) s := by
  cases isLocal <;> cases s <;> rfl

theorem writeScoped_id : writeScoped isLocal id s = s := by
  cases isLocal <;> cases s <;> rfl

theorem writeScoped_isFailed : (writeScoped isLocal f s).isFailed = s.isFailed := by
  cases isLocal <;> cases s <;> rfl

/-- A failure after a scoped write is one from the session before it. -/
theorem FailedFrom.of_writeScoped (h : FailedFrom (writeScoped isLocal f s) s') : FailedFrom s s' := by
  obtain ⟨o, o', ho, rfl, hfailed, hstart, hsaves⟩ := h
  cases s with
  | idle v => cases isLocal <;> cases ho
  | inTx p =>
    refine ⟨p, o', rfl, rfl, hfailed, ?_, ?_⟩ <;> cases isLocal <;> cases ho <;> assumption

/-- A write in a failed transaction leaves it failed. -/
theorem FailedFrom.writeScoped (h : FailedFrom s s') : FailedFrom s (writeScoped isLocal f s') := by
  obtain ⟨o, o', rfl, rfl, hfailed, hstart, hsaves⟩ := h
  cases isLocal <;> exact ⟨o, _, rfl, rfl, hfailed, hstart, hsaves⟩

/-- `f` changes no other GUCs. -/
def Touches (names : List String) (f : Settings → Settings) : Prop :=
  ∀ v key, key ∉ names.map foldName → f v key = v key

theorem touches_put (h : name ∈ names) : Touches names (put name value) := by
  intro v key hkey
  apply Function.update_of_ne
  rintro rfl
  exact hkey (List.mem_map_of_mem h)

theorem Touches.comp (hg : Touches names g) (hf : Touches names f) : Touches names (g ∘ f) := by
  intro v key hkey
  exact (hg _ _ hkey).trans (hf _ _ hkey)

/-- Set each GUC in turn. -/
def putAll (vars : List (String × String)) (v : Settings) : Settings :=
  vars.foldl (fun v p => put p.1 p.2 v) v

/-- GUCs set to the values of `w` have them, and others keep theirs. -/
theorem putAll_eq {vars : List (String × String)} {w : Settings} (h : ∀ p ∈ vars, p.2 = w (foldName p.1))
    (v : Settings) (key : String) :
    putAll vars v key = if key ∈ (vars.map Prod.fst).map foldName then w key else v key := by
  induction vars generalizing v with
  | nil => simp [putAll]
  | cons p rest ih =>
    have hp := h p List.mem_cons_self
    show putAll rest (put p.1 p.2 v) key = _
    rw [ih (fun q hq => h q (List.mem_cons_of_mem _ hq))]
    by_cases hrest : key ∈ (rest.map Prod.fst).map foldName
    · rw [if_pos hrest, if_pos (by rw [List.map_cons, List.map_cons]; exact List.mem_cons_of_mem _ hrest)]
    · rw [if_neg hrest]
      by_cases hkey : key = foldName p.1
      · subst hkey
        rw [if_pos (by simp)]
        simp [put, hp]
      · have hnot : key ∉ ((p :: rest).map Prod.fst).map foldName := by
          rw [List.map_cons, List.map_cons, List.mem_cons]
          rintro (he | he)
          · exact hkey he
          · exact hrest he
        rw [if_neg hnot]
        exact Function.update_of_ne hkey ..

/-! ## Statements -/

/-- The flags of a connection, which statements leave alone. -/
def SameFlags (c c' : Conn) : Prop := c'.inAtomicBlock = c.inAtomicBlock ∧ c'.needsRollback = c.needsRollback

theorem execute_cases (fails : Bool) (h : State ℕ Settings → State ℕ Settings) (c : Conn) :
    SameFlags c (c.execute fails h).2 ∧
      ((c.execute fails h = (none, { c with pg := h c.pg }) ∧ c.needsRollback = false ∧ c.pg.isFailed = false) ∨
        ((c.execute fails h).1 = some .database ∧ Keeps c.pg (c.execute fails h).2.pg)) := by
  unfold Conn.execute
  by_cases hrefused : c.needsRollback = true ∨ c.pg.isFailed = true
  · rw [if_pos hrefused]
    exact ⟨⟨rfl, rfl⟩, .inr ⟨rfl, .refl _⟩⟩
  · rw [if_neg hrefused]
    rw [not_or, Bool.not_eq_true, Bool.not_eq_true] at hrefused
    cases fails with
    | true => exact ⟨⟨rfl, rfl⟩, .inr ⟨rfl, keeps_fail _⟩⟩
    | false => exact ⟨⟨rfl, rfl⟩, .inl ⟨rfl, hrefused⟩⟩

theorem setGuc_cases (name value : String) (isLocal fails : Bool) (c : Conn) :
    SameFlags c (setGuc name value isLocal fails c).2 ∧
      (((setGuc name value isLocal fails c).1 = none ∧
          (setGuc name value isLocal fails c).2.pg = writeScoped isLocal (put name value) c.pg) ∨
        ((setGuc name value isLocal fails c).1 ≠ none ∧ Keeps c.pg (setGuc name value isLocal fails c).2.pg)) := by
  unfold setGuc
  split
  · exact ⟨⟨rfl, rfl⟩, .inr ⟨by simp, .refl _⟩⟩
  · split
    · exact ⟨⟨rfl, rfl⟩, .inr ⟨by simp, .refl _⟩⟩
    · obtain ⟨hflags, ⟨he, -⟩ | ⟨he, hk⟩⟩ := execute_cases fails (writeScoped isLocal (put name value)) c
      · rw [he]
        exact ⟨⟨rfl, rfl⟩, .inl ⟨rfl, rfl⟩⟩
      · exact ⟨hflags, .inr ⟨by simp [he], hk⟩⟩

/-- A block has written some of its GUCs in its scope, or failed the transaction. -/
def Wrote (isLocal : Bool) (names : List String) (c c' : Conn) : Prop :=
  ∃ f, Touches names f ∧ (c'.pg = writeScoped isLocal f c.pg ∨ FailedFrom c.pg c'.pg)

theorem wrote_keeps (h : Keeps c.pg c'.pg) : Wrote isLocal names c c' := by
  refine ⟨id, fun _ _ _ => rfl, ?_⟩
  rw [writeScoped_id]
  exact h

theorem Wrote.trans {c'' : Conn} (h : Wrote isLocal names c c') (h' : Wrote isLocal names c' c'') :
    Wrote isLocal names c c'' := by
  obtain ⟨f, hf, hpg⟩ := h
  obtain ⟨g, hg, hpg'⟩ := h'
  refine ⟨g ∘ f, hg.comp hf, ?_⟩
  rcases hpg with hpg | hfailed
  · rw [hpg] at hpg'
    rcases hpg' with hpg' | hfailed
    · exact .inl (hpg'.trans writeScoped_comp)
    · exact .inr hfailed.of_writeScoped
  · rcases hpg' with hpg' | hfailed'
    · rw [hpg']
      exact .inr hfailed.writeScoped
    · exact .inr (hfailed.trans hfailed')

theorem wrote_setGuc (h : name ∈ names) : Wrote isLocal names c (setGuc name value isLocal fails c).2 := by
  obtain ⟨-, ⟨-, hpg⟩ | ⟨-, hk⟩⟩ := setGuc_cases name value isLocal fails c
  · exact ⟨_, touches_put h, .inl hpg⟩
  · exact wrote_keeps hk

theorem wrote_setEach (isLocal : Bool) (failsAt : Option ℕ) {vars : List (String × String)}
    (h : ∀ p ∈ vars, p.1 ∈ names) :
    SameFlags c (setEach isLocal failsAt vars c).2 ∧ Wrote isLocal names c (setEach isLocal failsAt vars c).2 := by
  induction vars generalizing c failsAt with
  | nil => exact ⟨⟨rfl, rfl⟩, wrote_keeps (.refl _)⟩
  | cons p rest ih =>
    obtain ⟨name, value⟩ := p
    have hflags := (setGuc_cases name value isLocal (failsAt = some 0) c).1
    have hwrote : Wrote isLocal names c (setGuc name value isLocal (failsAt = some 0) c).2 :=
      wrote_setGuc (h (name, value) List.mem_cons_self)
    rw [setEach]
    rcases hset : setGuc name value isLocal (failsAt = some 0) c with ⟨_ | failure, c₁⟩
    · rw [hset] at hflags hwrote
      obtain ⟨hflags', hwrote'⟩ := ih (c := c₁) _ (fun q hq => h q (List.mem_cons_of_mem _ hq))
      exact ⟨⟨hflags'.1.trans hflags.1, hflags'.2.trans hflags.2⟩, hwrote.trans hwrote'⟩
    · rw [hset] at hflags hwrote
      exact ⟨hflags, hwrote⟩

/-! ## Snapshots -/

/-- A GUC that can be read has a valid name, in a session that takes statements. -/
theorem getGuc_ok {previous : Option String} (h : getGuc name c = .ok previous) :
    isGucName name = true ∧ c.needsRollback = false ∧ c.pg.isFailed = false ∧
      previous.getD "" = c.pg.current (foldName name) := by
  unfold getGuc at h
  split at h
  · cases h
  · rename_i hname
    split at h
    · cases h
    · rename_i hrefused
      rw [not_or, Bool.not_eq_true, Bool.not_eq_true] at hrefused
      refine ⟨by simpa using hname, hrefused.1, hrefused.2, ?_⟩
      obtain rfl := Except.ok.inj h
      split
      · rename_i hempty
        exact hempty.symm
      · rfl

/-- What a snapshot holds: valid names, and the values that statements see. -/
structure Snapshot (c : Conn) (names : List String) (previous : List (String × Option String)) : Prop where
  names : previous.map Prod.fst = names
  valid : ∀ p ∈ previous, isGucName p.1 = true
  values : ∀ p ∈ previous, p.2.getD "" = c.pg.current (foldName p.1)
  healthy : previous ≠ [] → c.pg.isFailed = false

theorem snapshot_ok {previous : List (String × Option String)} (h : snapshot c names = .ok previous) :
    Snapshot c names previous := by
  induction names generalizing previous with
  | nil =>
    obtain rfl := Except.ok.inj h
    exact ⟨rfl, by simp, by simp, by simp⟩
  | cons name rest ih =>
    unfold snapshot at h
    cases hget : getGuc name c with
    | error e =>
      rw [hget] at h
      cases h
    | ok value =>
      cases hrest : snapshot c rest with
      | error e =>
        rw [hget, hrest] at h
        cases h
      | ok tail =>
        rw [hget, hrest] at h
        obtain rfl : (name, value) :: tail = previous := Except.ok.inj h
        obtain ⟨hvalid, -, hhealthy, hvalue⟩ := getGuc_ok hget
        have htail := ih hrest
        refine ⟨by rw [List.map_cons, htail.names], ?_, ?_, fun _ => hhealthy⟩
        · intro p hp
          rcases List.mem_cons.1 hp with rfl | hp
          · exact hvalid
          · exact htail.valid p hp
        · intro p hp
          rcases List.mem_cons.1 hp with rfl | hp
          · exact hvalue
          · exact htail.values p hp

/-! ## Restoring -/

theorem restoreGuc_eq (name : String) (previous : Option String) (isLocal : Bool) (c : Conn) :
    restoreGuc name previous isLocal c = setGuc name (previous.getD "") isLocal false c := by
  cases previous <;> rfl

/-- In a failed transaction nothing is restored. -/
theorem restoreEach_failed {previous : List (String × Option String)} (h : c.pg.isFailed = true) :
    (restoreEach isLocal excPending previous c).2 = c := by
  induction previous with
  | nil => rfl
  | cons p rest ih =>
    obtain ⟨name, value⟩ := p
    have hset : ∃ failure, restoreGuc name value isLocal c = (some failure, c) := by
      rw [restoreGuc_eq]
      unfold setGuc Conn.execute
      split
      · exact ⟨_, rfl⟩
      · split
        · exact ⟨_, rfl⟩
        · rw [if_pos (.inr h)]
          exact ⟨_, rfl⟩
    obtain ⟨failure, hset⟩ := hset
    rw [restoreEach, hset]
    cases failure with
    | other => rfl
    | database =>
      dsimp only
      split
      · exact ih
      · rfl

/-- Nothing can be written locally outside an atomic block. -/
theorem restoreEach_outside {previous : List (String × Option String)} (h : c.inAtomicBlock = false)
    (hvalid : ∀ p ∈ previous, isGucName p.1 = true) : (restoreEach true excPending previous c).2 = c := by
  cases previous with
  | nil => rfl
  | cons p rest =>
    obtain ⟨name, value⟩ := p
    have hname : isGucName name = true := hvalid (name, value) List.mem_cons_self
    rw [restoreEach, restoreGuc_eq]
    unfold setGuc
    simp [hname, h]

/-- Otherwise every value is written. -/
theorem restoreEach_writes {previous : List (String × Option String)} (hpg : c.pg.isFailed = false)
    (hrollback : c.needsRollback = false) (hscope : isLocal = true → c.inAtomicBlock = true)
    (hvalid : ∀ p ∈ previous, isGucName p.1 = true) :
    (restoreEach isLocal excPending previous c).2 =
      { c with pg := writeScoped isLocal (putAll (previous.map fun p => (p.1, p.2.getD ""))) c.pg } := by
  induction previous generalizing c with
  | nil =>
    show c = { c with pg := writeScoped isLocal id c.pg }
    rw [writeScoped_id]
  | cons p rest ih =>
    obtain ⟨name, value⟩ := p
    have hname : isGucName name = true := hvalid (name, value) List.mem_cons_self
    have hset : restoreGuc name value isLocal c =
        (none, { c with pg := writeScoped isLocal (put name (value.getD "")) c.pg }) := by
      rw [restoreGuc_eq]
      unfold setGuc Conn.execute
      have hlocal : (isLocal && !c.inAtomicBlock) = false := by
        cases hl : isLocal with
        | false => rfl
        | true => simp [hscope hl]
      simp [hname, hlocal, hpg, hrollback]
    have hrest := ih (c := { c with pg := writeScoped isLocal (put name (value.getD "")) c.pg })
      (writeScoped_isFailed.trans hpg) hrollback hscope (fun q hq => hvalid q (List.mem_cons_of_mem _ hq))
    rw [restoreEach, hset]
    dsimp only
    rw [hrest, writeScoped_comp]
    rfl

/-- The exit of a block that has written, and perhaps failed: what it found is back. -/
theorem block_restores {previous : List (String × Option String)} (excPending : Bool)
    (hok : c.inAtomicBlock = false → ∃ v, c.pg = .idle v)
    (hsnapshot : Snapshot c names previous) (hwrote : Wrote isLocal names c c')
    (hflags : c'.inAtomicBlock = c.inAtomicBlock)
    (hhidden : isLocal = false → ∀ name ∈ names,
      c.pg.current (foldName name) = sessionValues c.pg (foldName name)) :
    Keeps c.pg (restoreGucs previous isLocal excPending c').2.pg ∧
      (restoreGucs previous isLocal excPending c').2.inAtomicBlock = c.inAtomicBlock := by
  obtain ⟨f, hf, hpg⟩ := hwrote
  unfold restoreGucs
  by_cases hnil : previous = []
  · rw [if_pos hnil]
    refine ⟨?_, hflags⟩
    rcases hpg with hpg | hfailed
    · -- a block of no GUCs has written none
      have hid : f = id := by
        funext v key
        apply hf
        rw [← hsnapshot.names, hnil]
        simp
      rw [hid, writeScoped_id] at hpg
      exact .inl hpg
    · exact .inr hfailed
  · rw [if_neg hnil]
    have hhealthy := hsnapshot.healthy hnil
    set c₁ : Conn := { c' with needsRollback := false } with hc₁
    show Keeps c.pg (restoreEach isLocal excPending previous c₁).2.pg ∧
      (restoreEach isLocal excPending previous c₁).2.inAtomicBlock = c.inAtomicBlock
    rcases hpg with hpg | hfailed
    · by_cases hscope : isLocal = true → c.inAtomicBlock = true
      · have hc₁pg : c₁.pg.isFailed = false := by
          show c'.pg.isFailed = false
          rw [hpg, writeScoped_isFailed, hhealthy]
        rw [restoreEach_writes hc₁pg rfl (fun hl => hflags.trans (hscope hl)) hsnapshot.valid]
        refine ⟨.inl ?_, hflags⟩
        show writeScoped isLocal _ c'.pg = c.pg
        rw [hpg, writeScoped_comp]
        set g := putAll (previous.map fun p => (p.1, p.2.getD "")) with hg
        -- a GUC of the block gets the value it had, and the others have kept theirs
        have hback : ∀ v : Settings, (∀ name ∈ names, c.pg.current (foldName name) = v (foldName name)) →
            (g ∘ f) v = v := by
          intro v hv
          funext key
          have hkeys : ((previous.map fun p => (p.1, p.2.getD "")).map Prod.fst).map foldName =
              names.map foldName := by
            rw [← hsnapshot.names]
            simp [Function.comp_def]
          show g (f v) key = v key
          rw [hg, putAll_eq (w := c.pg.current) (by
            intro p hp
            obtain ⟨q, hq, rfl⟩ := List.mem_map.1 hp
            exact hsnapshot.values q hq), hkeys]
          by_cases hkey : key ∈ names.map foldName
          · rw [if_pos hkey]
            obtain ⟨name, hname, rfl⟩ := List.mem_map.1 hkey
            exact hv name hname
          · rw [if_neg hkey]
            exact hf v key hkey
        cases hs : c.pg with
        | idle v =>
          rw [hs] at hback
          cases isLocal with
          | true => rfl
          | false => exact congrArg State.idle (hback v fun _ _ => rfl)
        | inTx o =>
          rw [hs] at hback hhidden
          have hcurrent : (g ∘ f) o.level.current = o.level.current := hback _ fun _ _ => rfl
          cases isLocal with
          | true =>
            show State.inTx { o with level := ⟨o.level.session, (g ∘ f) o.level.current⟩ } = .inTx o
            rw [hcurrent]
          | false =>
            have hsession : (g ∘ f) o.level.session = o.level.session := hback _ (hhidden rfl)
            show State.inTx { o with level := ⟨(g ∘ f) o.level.session, (g ∘ f) o.level.current⟩ } = .inTx o
            rw [hcurrent, hsession]
      · rw [Classical.not_imp, Bool.not_eq_true] at hscope
        obtain ⟨rfl, houtside⟩ := hscope
        rw [restoreEach_outside (c := c₁) (hflags.trans houtside) hsnapshot.valid]
        refine ⟨.inl ?_, hflags⟩
        obtain ⟨v, hv⟩ := hok houtside
        show c'.pg = c.pg
        rw [hpg, hv]
        rfl
    · rw [restoreEach_failed (c := c₁) hfailed.isFailed]
      exact ⟨.inr hfailed, hflags⟩

/-! ## Atomic blocks -/

/-- Inside atomic blocks, and only there, a transaction is open. -/
def Conn.Ok (c : Conn) : Prop :=
  (c.inAtomicBlock = false → ∃ v, c.pg = .idle v) ∧ (c.inAtomicBlock = true → ∃ o, c.pg = .inTx o)

theorem Conn.Ok.keeps (h : c.Ok) (hk : Keeps c.pg c'.pg) (hflag : c'.inAtomicBlock = c.inAtomicBlock) : c'.Ok := by
  rcases hk with hpg | ⟨o, o', ho, ho', -⟩
  · unfold Conn.Ok
    rw [hpg, hflag]
    exact h
  · constructor
    · intro hout
      obtain ⟨v, hv⟩ := h.1 (hflag.symm.trans hout)
      cases hv.symm.trans ho
    · intro _
      exact ⟨o', ho'⟩

theorem Conn.Ok.writes {session : Bool} (h : c.Ok) (hw : Wrote session names c c')
    (hflag : c'.inAtomicBlock = c.inAtomicBlock) : c'.Ok := by
  obtain ⟨f, -, hpg | hfailed⟩ := hw
  · constructor
    · intro hout
      obtain ⟨v, hv⟩ := h.1 (hflag.symm.trans hout)
      rw [hpg, hv]
      cases session <;> exact ⟨_, rfl⟩
    · intro hin
      obtain ⟨o, ho⟩ := h.2 (hflag.symm.trans hin)
      rw [hpg, ho]
      cases session <;> exact ⟨_, rfl⟩
  · exact h.keeps (.inr hfailed) hflag

/-- Going back to the newest savepoint gives the transaction as it was when it was set. -/
theorem undoSavepoint_eq {sid : ℕ} {o o' : Open ℕ Settings} (hfailed : o.failed = false)
    (hstart : o'.start = o.start) (hsaves : o'.savepoints = (o.savepoint sid).savepoints) :
    onOpen (undoSavepoint sid) (.inTx o') = .inTx o := by
  have hseek : seek sid o'.savepoints = some (o.level, o.savepoints) := by
    rw [hsaves]
    exact seek_head ..
  obtain ⟨start, level, savepoints, failed⟩ := o
  obtain ⟨start', level', savepoints', failed'⟩ := o'
  simp only at hfailed hstart hseek
  subst hfailed hstart
  simp [onOpen, undoSavepoint, Open.rollbackTo, Open.release, hseek]

/-- The end of a savepoint's block, whatever it did inside. -/
theorem savepoint_restores {sid : ℕ} {o : Open ℕ Settings} (raised : Option Failure) (hfailed : o.failed = false)
    (hk : Keeps (.inTx (o.savepoint sid)) c.pg) :
    (atomicExit raised c (.savepoint sid)).2.pg = .inTx o ∧
      (atomicExit raised c (.savepoint sid)).2.inAtomicBlock = c.inAtomicBlock := by
  have hundo : onOpen (undoSavepoint sid) c.pg = .inTx o := by
    rcases hk with hpg | ⟨p, o', hp, hpg, -, hstart, hsaves⟩
    · rw [hpg]
      exact undoSavepoint_eq hfailed rfl rfl
    · cases hp
      rw [hpg]
      exact undoSavepoint_eq hfailed hstart hsaves
  unfold atomicExit
  dsimp only
  split
  · rename_i hclean
    obtain ⟨hflags, ⟨he, -, hhealthy⟩ | ⟨he, -⟩⟩ := execute_cases false (onOpen fun o => o.release sid) c
    · rw [he]
      rw [hk.healthy hhealthy]
      refine ⟨?_, rfl⟩
      simp [onOpen, Open.release, Open.savepoint]
    · -- refused in a failed transaction, which the rollback heals
      have hrollback : c.needsRollback = false := by simpa using hclean.2
      have hexec : c.execute false (onOpen fun o => o.release sid) = (some .database, c) := by
        unfold Conn.execute at he ⊢
        split
        · rfl
        · rename_i hn
          simp [hn] at he
      rw [hexec]
      exact ⟨hundo, rfl⟩
  · exact ⟨hundo, rfl⟩

/-- **Atomic blocks.** What the block's body keeps, the atomic block gives back as it was. -/
theorem atomic_restores {savepoint : Bool} {begun : Atomic} {c₁ c₂ : Conn} (raised : Option Failure) (hok : c.Ok)
    (henter : atomicEnter savepoint c = .ok (begun, c₁)) (hk : Keeps c₁.pg c₂.pg)
    (hflag : c₂.inAtomicBlock = c₁.inAtomicBlock) :
    Keeps c.pg (atomicExit raised c₂ begun).2.pg ∧
      (atomicExit raised c₂ begun).2.inAtomicBlock = c.inAtomicBlock := by
  unfold atomicEnter at henter
  cases hin : c.inAtomicBlock with
  | false =>
    obtain ⟨v, hv⟩ := hok.1 hin
    simp only [hin, Bool.not_false, if_true, Except.ok.injEq, Prod.mk.injEq] at henter
    obtain ⟨rfl, rfl⟩ := henter
    -- the transaction starts from `v`, and leaves it however it ends
    have hpg : c₂.pg = .inTx (Open.fresh v) ∨ ∃ o', c₂.pg = .inTx o' ∧ o'.failed = true ∧ o'.start = v := by
      rcases hk with hpg | ⟨o, o', ho, hpg, hfailed, hstart, -⟩
      · exact .inl (by rw [hpg, hv]; rfl)
      · have ho' : Open.fresh v = o := by
          rw [hv] at ho
          exact State.inTx.inj ho
        exact .inr ⟨o', hpg, hfailed, by rw [hstart, ← ho']; rfl⟩
    rw [hv]
    unfold atomicExit
    dsimp only
    split
    · refine ⟨.inl ?_, rfl⟩
      show c₂.pg.commit = .idle v
      rcases hpg with hpg | ⟨o', hpg, hfailed, hstart⟩
      · rw [hpg]
        rfl
      · rw [hpg]
        simp [State.commit, Open.committed, hfailed, hstart]
    · refine ⟨.inl ?_, rfl⟩
      show c₂.pg.rollback = .idle v
      rcases hpg with hpg | ⟨o', hpg, -, hstart⟩
      · rw [hpg]
        rfl
      · rw [hpg]
        simp [State.rollback, State.durable, hstart]
  | true =>
    obtain ⟨o, ho⟩ := hok.2 hin
    simp only [hin, Bool.not_true, Bool.false_eq_true, if_false] at henter
    split at henter
    · obtain ⟨-, ⟨he, -, hhealthy⟩ | ⟨he, -⟩⟩ :=
        execute_cases false (onOpen fun o => some (o.savepoint c.nextSid)) c
      · rw [he] at henter
        simp only [Except.ok.injEq, Prod.mk.injEq] at henter
        obtain ⟨rfl, rfl⟩ := henter
        rw [ho] at hhealthy
        have hk' : Keeps (.inTx (o.savepoint c.nextSid)) c₂.pg := by
          have hc₁ : onOpen (fun o => some (o.savepoint c.nextSid)) c.pg = .inTx (o.savepoint c.nextSid) := by
            rw [ho]
            rfl
          rw [← hc₁]
          exact hk
        obtain ⟨hpg, hflag'⟩ := savepoint_restores raised hhealthy hk'
        exact ⟨.inl (hpg.trans ho.symm), hflag'.trans (hflag.trans hin)⟩
      · rcases hexec : c.execute false (onOpen fun o => some (o.savepoint c.nextSid)) with ⟨failure, c'⟩
        rw [hexec] at he henter
        obtain rfl : failure = some .database := he
        cases henter
    · obtain ⟨rfl, rfl⟩ := Prod.mk.inj (Except.ok.inj henter)
      unfold atomicExit
      dsimp only
      split
      · exact ⟨hk, hflag.trans hin⟩
      · exact ⟨hk, hflag.trans hin⟩

theorem atomicEnter_ok {savepoint : Bool} {begun : Atomic} {c₁ : Conn} (hok : c.Ok)
    (h : atomicEnter savepoint c = .ok (begun, c₁)) : c₁.Ok := by
  unfold atomicEnter at h
  cases hin : c.inAtomicBlock with
  | false =>
    obtain ⟨v, hv⟩ := hok.1 hin
    simp only [hin, Bool.not_false, if_true, Except.ok.injEq, Prod.mk.injEq] at h
    obtain ⟨-, rfl⟩ := h
    constructor
    · intro hout
      cases hout
    · intro _
      exact ⟨Open.fresh v, by simp [hv, State.start]⟩
  | true =>
    obtain ⟨o, ho⟩ := hok.2 hin
    simp only [hin, Bool.not_true, Bool.false_eq_true, if_false] at h
    split at h
    · rcases (execute_cases false (onOpen fun o => some (o.savepoint c.nextSid)) c).2 with ⟨he, -⟩ | ⟨he, -⟩
      · rw [he] at h
        simp only [Except.ok.injEq, Prod.mk.injEq] at h
        obtain ⟨-, rfl⟩ := h
        exact ⟨fun hout => absurd (hin.symm.trans hout) (by decide), fun _ => ⟨_, by simp [ho, onOpen]; rfl⟩⟩
      · rcases hexec : c.execute false (onOpen fun o => some (o.savepoint c.nextSid)) with ⟨failure, c'⟩
        rw [hexec] at he h
        obtain rfl : failure = some .database := he
        cases h
    · obtain ⟨-, rfl⟩ := Prod.mk.inj (Except.ok.inj h)
      exact hok

/-! ## Programs -/

/-- Where a block ends: the session, and its report after those of its body. -/
theorem block_ends {previous : List (String × Option String)} {reports : List Report} (hok : c.Ok)
    (hsnapshot : Snapshot c names previous) (hwrote : Wrote isLocal names c c')
    (hflags : c'.inAtomicBlock = c.inAtomicBlock) (hreports : ∀ report ∈ reports, report.Restored)
    (hhidden : (⟨if isLocal then [] else names, c, (restoreGucs previous isLocal excPending c').2⟩ : Report).Unhidden) :
    Keeps c.pg (restoreGucs previous isLocal excPending c').2.pg ∧
      (restoreGucs previous isLocal excPending c').2.inAtomicBlock = c.inAtomicBlock ∧
      ∀ report ∈ reports ++
        [⟨if isLocal then [] else names, c, (restoreGucs previous isLocal excPending c').2⟩], report.Restored := by
  have hunhidden : isLocal = false → ∀ name ∈ names,
      c.pg.current (foldName name) = sessionValues c.pg (foldName name) := by
    rintro rfl
    exact hhidden
  obtain ⟨hk, hflag⟩ := block_restores excPending hok.1 hsnapshot hwrote hflags hunhidden
  refine ⟨hk, hflag, ?_⟩
  intro report hmem
  rcases List.mem_append.1 hmem with hmem | hmem
  · exact hreports report hmem
  · rw [List.mem_singleton.1 hmem]
    exact hk.restored

/-- A block that does not begin. -/
theorem block_refused {session : List String} (h : Keeps c.pg c'.pg) (hflag : c'.inAtomicBlock = c.inAtomicBlock) :
    Keeps c.pg c'.pg ∧ c'.inAtomicBlock = c.inAtomicBlock ∧
      ∀ report ∈ [(⟨session, c, c'⟩ : Report)], report.Restored := by
  refine ⟨h, hflag, ?_⟩
  intro report hmem
  rw [List.mem_singleton.1 hmem]
  exact h.restored

/-- **Programs.** If no session-scoped block meets a hidden session value, every block
restores what it found, and so does the program. -/
theorem exec_restores (p : Prog) (hok : c.Ok) (h : ∀ report ∈ (p.exec c).2.2, report.Unhidden) :
    Keeps c.pg (p.exec c).2.1.pg ∧ (p.exec c).2.1.inAtomicBlock = c.inAtomicBlock ∧
      ∀ report ∈ (p.exec c).2.2, report.Restored := by
  induction p generalizing c with
  | done => exact ⟨.refl _, rfl, by simp [Prog.exec]⟩
  | raising => exact ⟨.refl _, rfl, by simp [Prog.exec]⟩
  | failing =>
    obtain ⟨hflags, ⟨he, -⟩ | ⟨-, hk⟩⟩ := execute_cases true id c
    · refine ⟨.inl ?_, hflags.1, by simp [Prog.exec]⟩
      show (c.execute true id).2.pg = c.pg
      rw [he]
      rfl
    · exact ⟨hk, hflags.1, by simp [Prog.exec]⟩
  | setRollback rollback =>
    rw [Prog.exec]
    split
    · exact ⟨.refl _, rfl, by simp⟩
    · exact ⟨.refl _, rfl, by simp⟩
  | catching body ih => exact ih hok h
  | seq p q ihp ihq =>
    rw [Prog.exec] at h ⊢
    have hp := ihp (c := c) hok
    rcases hrun : p.exec c with ⟨_ | failure, c₁, reports⟩
    · rw [hrun] at h hp
      obtain ⟨hk, hflag, hreports⟩ := hp fun report hmem => h report (List.mem_append_left _ hmem)
      obtain ⟨hk', hflag', hreports'⟩ := ihq (hok.keeps hk hflag) fun report hmem =>
        h report (List.mem_append_right _ hmem)
      refine ⟨hk.trans hk', hflag'.trans hflag, ?_⟩
      intro report hmem
      rcases List.mem_append.1 hmem with hmem | hmem
      · exact hreports report hmem
      · exact hreports' report hmem
    · rw [hrun] at h hp
      exact hp h
  | rlsContext vars isLocal fails body ih =>
    rw [Prog.exec] at h ⊢
    dsimp only at h ⊢
    cases hsnapshot : snapshot c (vars.map Prod.fst) with
    | error failure => exact block_refused (.refl _) rfl
    | ok previous =>
      rw [hsnapshot] at h
      have hnames : ∀ p ∈ vars, p.1 ∈ vars.map Prod.fst := fun p hp => List.mem_map_of_mem hp
      obtain ⟨hflags, hwrote⟩ := wrote_setEach (c := c) isLocal fails hnames
      rcases hset : setEach isLocal fails vars c with ⟨_ | failure, c₁⟩
      · rw [hset] at h hflags hwrote
        dsimp only at h ⊢
        have hbody := ih (hok.writes hwrote hflags.1) fun report hmem => h report (List.mem_append_left _ hmem)
        rcases hrun : body.exec c₁ with ⟨raised, c₂, reports⟩
        rw [hrun] at h hbody
        exact block_ends hok (snapshot_ok hsnapshot) (hwrote.trans (wrote_keeps hbody.1))
          (hbody.2.1.trans hflags.1) hbody.2.2 (h _ (List.mem_append_right _ (List.mem_singleton.2 rfl)))
      · rw [hset] at h hflags hwrote
        exact block_ends hok (snapshot_ok hsnapshot) hwrote hflags.1 (by simp)
          (h _ (List.mem_append_right _ (List.mem_singleton.2 rfl)))
  | bypassFlag flag isLocal fails body ih =>
    rw [Prog.exec] at h ⊢
    dsimp only at h ⊢
    cases hget : getGuc flag c with
    | error failure => exact block_refused (.refl _) rfl
    | ok previous =>
      rw [hget] at h
      have hsnapshot : snapshot c [flag] = .ok [(flag, previous)] := by
        unfold snapshot
        rw [hget]
        rfl
      obtain ⟨hflags, hset'⟩ := setGuc_cases flag "true" isLocal fails c
      have hwrote : Wrote isLocal [flag] c (setGuc flag "true" isLocal fails c).2 :=
        wrote_setGuc (List.mem_singleton.2 rfl)
      rcases hset : setGuc flag "true" isLocal fails c with ⟨_ | failure, c₁⟩
      · rw [hset] at h hflags hwrote
        dsimp only at h ⊢
        have hbody := ih (hok.writes hwrote hflags.1) fun report hmem => h report (List.mem_append_left _ hmem)
        rcases hrun : body.exec c₁ with ⟨raised, c₂, reports⟩
        rw [hrun] at h hbody
        exact block_ends hok (snapshot_ok hsnapshot) (hwrote.trans (wrote_keeps hbody.1))
          (hbody.2.1.trans hflags.1) hbody.2.2 (h _ (List.mem_append_right _ (List.mem_singleton.2 rfl)))
      · rw [hset] at hflags hset'
        rcases hset' with ⟨hnone, -⟩ | ⟨-, hk⟩
        · cases hnone
        · exact block_refused hk hflags.1
  | atomic savepoint body ih =>
    rw [Prog.exec] at h ⊢
    cases henter : atomicEnter savepoint c with
    | error failure => exact block_refused (.refl _) rfl
    | ok begun =>
      obtain ⟨begun, c₁⟩ := begun
      rw [henter] at h
      dsimp only at h ⊢
      have hbody := ih (atomicEnter_ok hok henter) fun report hmem => h report (List.mem_append_left _ hmem)
      rcases hrun : body.exec c₁ with ⟨raised, c₂, reports⟩
      rw [hrun] at hbody
      obtain ⟨hk, hflag⟩ := atomic_restores raised hok henter hbody.1 hbody.2.1
      refine ⟨hk, hflag, ?_⟩
      intro report hmem
      rcases List.mem_append.1 hmem with hmem | hmem
      · exact hbody.2.2 report hmem
      · rw [List.mem_singleton.1 hmem]
        exact hk.restored

/-- **Blocks end where they began.** From a session outside a transaction, in every run of
a program whose session-scoped blocks meet no hidden session value, each block restores
what it found, and the session keeps nothing. -/
theorem blocks_restore (p : Prog) (v : Settings)
    (h : ∀ report ∈ (p.exec (Conn.idle v)).2.2, report.Unhidden) :
    (∀ report ∈ (p.exec (Conn.idle v)).2.2, report.Restored) ∧ (p.exec (Conn.idle v)).2.1.pg = .idle v := by
  have hok : (Conn.idle v).Ok := ⟨fun _ => ⟨v, rfl⟩, fun hin => by cases hin⟩
  obtain ⟨hk, -, hreports⟩ := exec_restores p hok h
  refine ⟨hreports, ?_⟩
  rcases hk with hpg | ⟨o, -, ho, -⟩
  · exact hpg
  · cases ho

/-- A login flag set for the session, in a transaction that a local block has set to `true`. -/
def mixedFlags : Prog :=
  .atomic true (.bypassFlag "rls.is_login_request" true false (.bypassFlag "rls.is_login_request" false false .done))

/-- Once the transaction has committed, the session has the flag. -/
theorem mixedFlags_leaves_flag :
    (match (mixedFlags.exec (Conn.idle fun _ => "")).2.1.pg with
      | .idle v => v "rls.is_login_request"
      | .inTx _ => "") = "true" := by
  decide

/-- The flag set for the session alone, in a transaction that fails and is rolled back. -/
theorem blocks_restore_flag :
    ((Prog.atomic true (.bypassFlag "rls.is_login_request" false false .failing)).exec
      (Conn.idle fun _ => "")).2.1.pg = .idle fun _ => "" := by
  refine (blocks_restore (.atomic true (.bypassFlag "rls.is_login_request" false false .failing)) (fun _ => "") ?_).2
  decide

end GucBlocks

end RlsTenants
