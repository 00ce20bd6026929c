import RlsTenants.Spec.Holder

/-!
# What the holder operations do

Holders are only ever created and ended: an operation keeps every holder's values
and kind, and a holder that has ended stays ended (`Grows`).
-/

namespace RlsTenants

open ContextVar Effect

namespace Store

variable {s s' s'' : Store} {i j : ℕ}

@[simp] theorem endLive_length (i : ℕ) (s : Store) : (s.endLive i).lives.length = s.lives.length := by
  simp [endLive]

@[simp] theorem endLive_ledger (i : ℕ) (s : Store) : (s.endLive i).ledger = s.ledger := rfl

theorem endLive_getElem? (i j : ℕ) (s : Store) : (s.endLive i).lives[j]? =
    if i = j then (s.lives[j]?).map fun l => { l with alive := false } else s.lives[j]? := by
  simp [endLive, List.getElem?_modify]
  split <;> simp

@[simp] theorem isAlive_endLive (i j : ℕ) (s : Store) :
    (s.endLive i).isAlive j = (decide (i ≠ j) && s.isAlive j) := by
  unfold isAlive
  rw [endLive_getElem?]
  by_cases h : i = j
  · subst h
    cases s.lives[i]? <;> simp
  · simp [h]

@[simp] theorem isBlock_endLive (i j : ℕ) (s : Store) : (s.endLive i).isBlock j = s.isBlock j := by
  unfold isBlock
  rw [endLive_getElem?]
  split
  · cases s.lives[j]? <;> rfl
  · rfl

theorem endIfNewer_eq (live than : Option ℕ) (s : Store) :
    s.endIfNewer live than = s ∨ ∃ i, live = some i ∧ s.endIfNewer live than = s.endLive i := by
  rcases live with _ | i
  · exact .inl (by cases than <;> rfl)
  · rcases than with _ | j
    · exact .inr ⟨i, rfl, rfl⟩
    · by_cases h : j < i
      · exact .inr ⟨i, rfl, if_pos h⟩
      · exact .inl (if_neg h)

@[simp] theorem endIfNewer_length (live than : Option ℕ) (s : Store) :
    (s.endIfNewer live than).lives.length = s.lives.length := by
  rcases endIfNewer_eq live than s with h | ⟨i, -, h⟩ <;> rw [h]
  exact endLive_length i s

@[simp] theorem endIfNewer_ledger (live than : Option ℕ) (s : Store) :
    (s.endIfNewer live than).ledger = s.ledger := by
  rcases endIfNewer_eq live than s with h | ⟨i, -, h⟩ <;> rw [h]
  rfl

theorem isAlive_endIfNewer (live : Option ℕ) (k j : ℕ) (s : Store) :
    (s.endIfNewer live (some k)).isAlive j = (s.isAlive j && !decide (live = some j ∧ k < j)) := by
  rcases live with _ | i
  · simp [endIfNewer]
  · by_cases h : k < i
    · simp only [endIfNewer, if_pos h, isAlive_endLive, Option.some.injEq]
      by_cases hij : i = j
      · subst hij; simp [h]
      · simp [hij]
    · simp only [endIfNewer, if_neg h, Option.some.injEq]
      by_cases hij : i = j
      · subst hij; simp [h]
      · simp [hij]

@[simp] theorem create_length (v : Option ContextGucs) (b : Bool) (s : Store) :
    (s.create v b).lives.length = s.lives.length + 1 := by simp [create]

theorem create_getElem? (v : Option ContextGucs) (b : Bool) (s : Store) (j : ℕ) :
    (s.create v b).lives[j]? = if j = s.lives.length then some ⟨v, b, true⟩ else s.lives[j]? := by
  unfold create
  by_cases h : j < s.lives.length
  · rw [List.getElem?_append_left h, if_neg (by omega)]
  · rw [List.getElem?_append_right (by omega)]
    by_cases h2 : j = s.lives.length
    · simp [h2]
    · rw [if_neg h2, List.getElem?_eq_none (by simp; omega), List.getElem?_eq_none (by omega)]

theorem lt_of_isAlive (h : s.isAlive i = true) : i < s.lives.length := by
  by_contra hn
  simp [isAlive, List.getElem?_eq_none (by omega : s.lives.length ≤ i)] at h

theorem lt_of_isBlock (h : s.isBlock i = true) : i < s.lives.length := by
  by_contra hn
  simp [isBlock, List.getElem?_eq_none (by omega : s.lives.length ≤ i)] at h

/-- **A holder that has ended gives no values**, to no copy. -/
theorem valuesOf_ended (h : s.isAlive i = false) : s.valuesOf (some i) = none := by
  unfold isAlive at h
  unfold valuesOf
  rcases hl : s.lives[i]? with _ | l
  · simp [hl]
  · simp [hl] at h; simp [hl, h]

/-- `s'` came after `s`: holders were created and ended, nothing else. -/
structure Grows (s s' : Store) : Prop where
  length : s.lives.length ≤ s'.lives.length
  kept : ∀ (i : ℕ) (l : Live), s.lives[i]? = some l → ∃ alive, s'.lives[i]? = some { l with alive := alive } ∧
    (alive = true → l.alive = true)

namespace Grows

theorem refl (s : Store) : Grows s s := ⟨Nat.le_refl _, fun _ l h => ⟨l.alive, by simpa using h, id⟩⟩

theorem trans (h : Grows s s') (h' : Grows s' s'') : Grows s s'' := by
  refine ⟨Nat.le_trans h.length h'.length, fun i l hi => ?_⟩
  obtain ⟨a, ha, hal⟩ := h.kept i l hi
  obtain ⟨b, hb, hbl⟩ := h'.kept i _ ha
  exact ⟨b, hb, fun x => hal (hbl x)⟩

theorem endLive (i : ℕ) (s : Store) : Grows s (s.endLive i) := by
  refine ⟨by simp, fun j l hj => ?_⟩
  rw [endLive_getElem?, hj]
  by_cases h : i = j
  · exact ⟨false, by simp [h], by simp⟩
  · exact ⟨l.alive, by simp [h], id⟩

theorem endIfNewer (live than : Option ℕ) (s : Store) : Grows s (s.endIfNewer live than) := by
  rcases endIfNewer_eq live than s with h | ⟨i, -, h⟩ <;> rw [h]
  · exact refl s
  · exact endLive i s

theorem create (v : Option ContextGucs) (b : Bool) (s : Store) : Grows s (s.create v b) := by
  refine ⟨by simp, fun j l hj => ⟨l.alive, ?_, id⟩⟩
  have hlt : j < s.lives.length := by
    by_contra hn
    simp [List.getElem?_eq_none (by omega : s.lives.length ≤ j)] at hj
  rw [create_getElem?, if_neg (by omega), hj]

theorem lives_eq {s'' : Store} (h : Grows s s') (he : s''.lives = s'.lives) : Grows s s'' :=
  ⟨he ▸ h.length, he ▸ h.kept⟩

theorem isAlive (h : Grows s s') (hlt : i < s.lives.length) (ha : s'.isAlive i = true) :
    s.isAlive i = true := by
  obtain ⟨l, hl⟩ : ∃ l, s.lives[i]? = some l := ⟨_, List.getElem?_eq_getElem hlt⟩
  obtain ⟨a, h1, h2⟩ := h.kept i l hl
  simp only [Store.isAlive, h1, Option.any_some] at ha
  simp only [Store.isAlive, hl, Option.any_some]
  exact h2 ha

theorem isBlock (h : Grows s s') (hlt : i < s.lives.length) : s'.isBlock i = s.isBlock i := by
  obtain ⟨l, hl⟩ : ∃ l, s.lives[i]? = some l := ⟨_, List.getElem?_eq_getElem hlt⟩
  obtain ⟨a, h1, -⟩ := h.kept i l hl
  simp [Store.isBlock, h1, hl]

/-- A holder that lives on gives the values it gave. -/
theorem valuesOf (h : Grows s s') (hlt : i < s.lives.length) (ha : s'.isAlive i = true) :
    s'.valuesOf (some i) = s.valuesOf (some i) := by
  obtain ⟨l, hl⟩ : ∃ l, s.lives[i]? = some l := ⟨_, List.getElem?_eq_getElem hlt⟩
  obtain ⟨a, h1, h2⟩ := h.kept i l hl
  simp only [Store.isAlive, h1, Option.any_some] at ha
  simp [Store.valuesOf, h1, hl, ha, h2 ha]

end Grows

end Store

namespace Scope

variable {α : Type} {s s' : Scope}

theorem setVar_grows (x : Var Vars α) (a : α) (s : Scope) : Store.Grows s.store (setVar x a s).2.store :=
  (Store.Grows.refl s.store).lives_eq rfl

theorem resetVar_lives (x : Var Vars α) (t : Token α) (s : Scope) :
    (resetVar x t s).2.store.lives = s.store.lives := by
  unfold resetVar
  rcases x.reset s.context t s.vars s.store.ledger with e | ⟨v, l⟩ <;> rfl

theorem setContextGucs_grows (v : Option ContextGucs) (b : Bool) (s : Scope) :
    Store.Grows s.store (setContextGucs v b s).2.store :=
  (Store.Grows.create v b s.store).lives_eq rfl

theorem endLiveContext_grows (s : Scope) : Store.Grows s.store s.endLiveContext.store := by
  unfold endLiveContext
  rcases s.vars.live with _ | i
  · exact Store.Grows.refl _
  · exact Store.Grows.endLive i _

theorem resetContextGucs_grows (e : GucsToken) (s : Scope) :
    Store.Grows s.store (resetContextGucs e s).2.store := by
  have h0 := Store.Grows.endLive e.live s.store
  set s1 : Scope := { s with store := s.store.endLive e.live } with hs1
  have h1 : Store.Grows s.store (resetVar Vars.liveVar e.token s1).2.store :=
    h0.lives_eq (resetVar_lives _ _ s1)
  unfold resetContextGucs
  rw [← hs1]
  rcases hr : resetVar Vars.liveVar e.token s1 with ⟨(_ | _) | _, s2⟩ <;> rw [hr] at h1 <;>
    simp only [hr]
  · exact h1.trans (endLiveContext_grows s2)
  · exact h1
  · exact h1.trans (Store.Grows.endIfNewer _ _ _)

theorem holdContextGucs_grows (s : Scope) : Store.Grows s.store (holdContextGucs s).2.store := by
  unfold holdContextGucs
  rcases s.vars.live with _ | i
  · exact setContextGucs_grows none true s
  · exact setVar_grows _ _ s

theorem releaseContextGucs_grows (t : GucsToken) (s : Scope) :
    Store.Grows s.store (releaseContextGucs t s).2.store := by
  have h1 : Store.Grows s.store (resetVar Vars.liveVar t.token s).2.store :=
    (Store.Grows.refl _).lives_eq (resetVar_lives _ _ s)
  unfold releaseContextGucs
  rcases hr : resetVar Vars.liveVar t.token s with ⟨_ | _, s2⟩ <;> rw [hr] at h1
  · exact h1
  · exact h1.trans (Store.Grows.endIfNewer _ _ _)

/-! ### Tokens -/

/-- A token is used up. -/
def useToken (id : ℕ) (s : Store) : Store :=
  { s with ledger := { s.ledger with used := id :: s.ledger.used } }

@[simp] theorem useToken_lives (id : ℕ) (st : Store) : (useToken id st).lives = st.lives := rfl

@[simp] theorem useToken_isAlive (id i : ℕ) (st : Store) :
    (useToken id st).isAlive i = st.isAlive i := rfl

section Reset

variable {e : GucsToken}

theorem resetVar_used {x : Var Vars α} {t : Token α} (hu : t.id ∈ s.store.ledger.used) :
    resetVar x t s = (.error .used, s) := by
  simp [resetVar, Var.reset, hu]

theorem resetVar_elsewhere {x : Var Vars α} {t : Token α} (hu : t.id ∉ s.store.ledger.used)
    (hc : t.context ≠ s.context) : resetVar x t s = (.error .elsewhere, s) := by
  simp [resetVar, Var.reset, hu, hc]

theorem resetVar_ok {x : Var Vars α} {t : Token α} (hu : t.id ∉ s.store.ledger.used)
    (hc : t.context = s.context) :
    resetVar x t s = (.ok (), { s with vars := x.put t.old s.vars, store := useToken t.id s.store }) := by
  simp [resetVar, Var.reset, hu, hc, useToken]

/-- A token used before: the holder is ended, and the current one. -/
theorem resetContextGucs_used (hu : e.token.id ∈ s.store.ledger.used) :
    resetContextGucs e s = (.error .used, endLiveContext { s with store := s.store.endLive e.live }) := by
  simp [resetContextGucs, resetVar_used (s := { s with store := s.store.endLive e.live }) hu]

/-- A token from another `Context`: the holder is ended, nothing is put back. -/
theorem resetContextGucs_elsewhere (hu : e.token.id ∉ s.store.ledger.used)
    (hc : e.token.context ≠ s.context) :
    resetContextGucs e s = (.error .elsewhere, { s with store := s.store.endLive e.live }) := by
  simp [resetContextGucs, resetVar_elsewhere (s := { s with store := s.store.endLive e.live }) hu hc]

theorem resetContextGucs_ok (hu : e.token.id ∉ s.store.ledger.used) (hc : e.token.context = s.context) :
    resetContextGucs e s = (.ok (),
      { s with
        vars := { s.vars with live := e.token.old }
        store := (useToken e.token.id (s.store.endLive e.live)).endIfNewer s.vars.live (some e.live) }) := by
  simp [resetContextGucs, resetVar_ok (s := { s with store := s.store.endLive e.live }) hu hc, Vars.liveVar]

theorem releaseContextGucs_used (hu : e.token.id ∈ s.store.ledger.used) :
    releaseContextGucs e s = (.error .used, s) := by
  simp [releaseContextGucs, resetVar_used hu]

theorem releaseContextGucs_elsewhere (hu : e.token.id ∉ s.store.ledger.used)
    (hc : e.token.context ≠ s.context) : releaseContextGucs e s = (.error .elsewhere, s) := by
  simp [releaseContextGucs, resetVar_elsewhere hu hc]

theorem releaseContextGucs_ok (hu : e.token.id ∉ s.store.ledger.used) (hc : e.token.context = s.context) :
    releaseContextGucs e s = (.ok (),
      { s with
        vars := { s.vars with live := e.token.old }
        store := (useToken e.token.id s.store).endIfNewer s.vars.live (some e.live) }) := by
  simp [releaseContextGucs, resetVar_ok hu hc, Vars.liveVar]

end Reset

theorem endLiveContext_length (s : Scope) :
    s.endLiveContext.store.lives.length = s.store.lives.length := by
  unfold endLiveContext
  rcases s.vars.live with _ | i
  · rfl
  · exact Store.endLive_length i _

theorem endLiveContext_ledger (s : Scope) : s.endLiveContext.store.ledger = s.store.ledger := by
  unfold endLiveContext
  rcases s.vars.live with _ | i <;> rfl

/-! ### Opening and closing -/

/-- What holds in every `Context`: its holder exists, and only tokens handed out were
used. -/
structure Ok (s : Scope) : Prop where
  live : ∀ i, s.vars.live = some i → i < s.store.lives.length
  used : ∀ t ∈ s.store.ledger.used, t < s.store.ledger.next

end Scope

/-- A token that was handed out, for a holder that exists. -/
structure GucsToken.Ok (s : Store) (t : GucsToken) : Prop where
  id : t.token.id < s.ledger.next
  live : t.live < s.lives.length
  old : ∀ i, t.token.old = some i → i < s.lives.length

namespace Scope

variable {s s' : Scope}

/-- What opening a scope does: it hands out a new token. -/
structure Opens (s : Scope) (entered : GucsToken × Scope) : Prop where
  grows : s.store.Grows entered.2.store
  context : entered.2.context = s.context
  used : entered.2.store.ledger.used = s.store.ledger.used
  next : entered.2.store.ledger.next = s.store.ledger.next + 1
  id : entered.1.token.id = s.store.ledger.next
  made : entered.1.token.context = entered.2.context
  old : entered.1.token.old = s.vars.live
  current : entered.2.vars.live = some entered.1.live
  token : entered.1.Ok entered.2.store
  ok : entered.2.Ok

theorem Ok.opened (hs : s.Ok)
    (hledger : s'.store.ledger = { s.store.ledger with next := s.store.ledger.next + 1 }) {i : ℕ}
    (hi : s'.vars.live = some i) (hlt : i < s'.store.lives.length) : s'.Ok where
  live j hj := by
    rw [hi] at hj
    obtain rfl := Option.some.inj hj
    exact hlt
  used t ht := by
    rw [hledger] at ht ⊢
    exact Nat.lt_succ_of_lt (hs.used t ht)

theorem setContextGucs_opens (hs : s.Ok) (v : Option ContextGucs) (b : Bool) :
    s.Opens (s.setContextGucs v b) := by
  have hgrow := setContextGucs_grows v b s
  have hlt : s.store.lives.length < (s.setContextGucs v b).2.store.lives.length := by
    simp [setContextGucs, setVar, Var.set]
  exact
    { grows := hgrow, context := rfl, used := rfl, next := rfl, id := rfl, made := rfl, old := rfl
      current := rfl
      token := ⟨Nat.lt_succ_self _, hlt, fun i hi => Nat.lt_of_lt_of_le (hs.live i hi) hgrow.length⟩
      ok := hs.opened rfl rfl hlt }

theorem holdContextGucs_opens (hs : s.Ok) : s.Opens s.holdContextGucs := by
  unfold holdContextGucs
  rcases hl : s.vars.live with _ | i
  · exact setContextGucs_opens hs none true
  · have hgrow := setVar_grows Vars.liveVar (some i) s
    exact
      { grows := hgrow, context := rfl, used := rfl, next := rfl, id := rfl, made := rfl, old := rfl
        current := rfl
        token := ⟨Nat.lt_succ_self _, hs.live i hl, fun j hj => hs.live j hj⟩
        ok := hs.opened rfl rfl (hs.live i hl) }

theorem Opens.keeps {e : GucsToken × Scope} (h : s.Opens e) {t : GucsToken} (ht : t.Ok s.store) :
    t.Ok e.2.store where
  id := by rw [h.next]; exact Nat.lt_succ_of_lt ht.id
  live := Nat.lt_of_lt_of_le ht.live h.grows.length
  old i hi := Nat.lt_of_lt_of_le (ht.old i hi) h.grows.length

/-- What closing a scope does, apart from the holders it ends: the token is used, and
what it found put back, or neither. -/
structure Closes (s : Scope) (t : GucsToken) (s' : Scope) : Prop where
  grows : s.store.Grows s'.store
  length : s'.store.lives.length = s.store.lives.length
  context : s'.context = s.context
  next : s'.store.ledger.next = s.store.ledger.next
  used : s'.store.ledger.used = s.store.ledger.used ∨
    s'.store.ledger.used = t.token.id :: s.store.ledger.used
  current : s'.vars.live = s.vars.live ∨ s'.vars.live = t.token.old

theorem resetContextGucs_closes (e : GucsToken) (s : Scope) : s.Closes e (resetContextGucs e s).2 := by
  have hgrow := resetContextGucs_grows e s
  by_cases hu : e.token.id ∈ s.store.ledger.used
  · rw [resetContextGucs_used hu] at hgrow ⊢
    exact ⟨hgrow, by simp [endLiveContext_length], rfl, by simp [endLiveContext_ledger],
      .inl (by simp [endLiveContext_ledger]), .inl rfl⟩
  · by_cases hc : e.token.context = s.context
    · rw [resetContextGucs_ok hu hc] at hgrow ⊢
      exact ⟨hgrow, by simp, rfl, by simp [useToken], .inr (by simp [useToken]), .inr rfl⟩
    · rw [resetContextGucs_elsewhere hu hc] at hgrow ⊢
      exact ⟨hgrow, by simp, rfl, by simp, .inl (by simp), .inl rfl⟩

theorem releaseContextGucs_closes (e : GucsToken) (s : Scope) :
    s.Closes e (releaseContextGucs e s).2 := by
  have hgrow := releaseContextGucs_grows e s
  by_cases hu : e.token.id ∈ s.store.ledger.used
  · rw [releaseContextGucs_used hu] at hgrow ⊢
    exact ⟨hgrow, rfl, rfl, rfl, .inl rfl, .inl rfl⟩
  · by_cases hc : e.token.context = s.context
    · rw [releaseContextGucs_ok hu hc] at hgrow ⊢
      exact ⟨hgrow, by simp, rfl, by simp [useToken], .inr (by simp [useToken]), .inr rfl⟩
    · rw [releaseContextGucs_elsewhere hu hc] at hgrow ⊢
      exact ⟨hgrow, rfl, rfl, rfl, .inl rfl, .inl rfl⟩

theorem Closes.ok {t : GucsToken} (h : s.Closes t s') (hs : s.Ok) (ht : t.Ok s.store) : s'.Ok where
  live i hi := by
    rw [h.length]
    rcases h.current with h1 | h1 <;> rw [h1] at hi
    · exact hs.live i hi
    · exact ht.old i hi
  used k hk := by
    rw [h.next]
    rcases h.used with h1 | h1 <;> rw [h1] at hk
    · exact hs.used k hk
    · rcases List.mem_cons.1 hk with rfl | hk
      · exact ht.id
      · exact hs.used k hk

theorem Closes.keeps {t t' : GucsToken} (h : s.Closes t s') (ht : t'.Ok s.store) : t'.Ok s'.store :=
  ⟨by rw [h.next]; exact ht.id, by rw [h.length]; exact ht.live,
    fun i hi => by rw [h.length]; exact ht.old i hi⟩

/-- The reset ends the holder, also when it raises. -/
theorem resetContextGucs_ends (e : GucsToken) (s : Scope) :
    (resetContextGucs e s).2.store.isAlive e.live = false := by
  have h0 : (s.store.endLive e.live).isAlive e.live = false := by simp
  by_cases hu : e.token.id ∈ s.store.ledger.used
  · rw [resetContextGucs_used hu]
    by_cases hlt : e.live < s.store.lives.length
    · by_contra ha
      have := (endLiveContext_grows { s with store := s.store.endLive e.live }).isAlive (i := e.live)
        (by simpa using hlt) (by simpa using ha)
      simp at this
    · by_contra ha
      have := Store.lt_of_isAlive (by simpa using ha)
      rw [endLiveContext_length] at this
      simp at this
      omega
  · by_cases hc : e.token.context = s.context
    · rw [resetContextGucs_ok hu hc]
      simp [Store.isAlive_endIfNewer]
    · rw [resetContextGucs_elsewhere hu hc]
      exact h0

end Scope

end RlsTenants
