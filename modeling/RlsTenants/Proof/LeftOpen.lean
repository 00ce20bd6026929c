import RlsTenants.Lib.Run
import RlsTenants.Proof.Holders

/-!
# Blocks left open

Any sequence, in one `Context`, of blocks entered and exited and of request scopes
held and released, in any order. A block that is entered inside a scope and still
open when the scope is closed is *left open*.

* `close_isAlive`: closing a scope ends, of the newer holders, the one that is
  current, and no other.
* `left_open_ended_iff`: no block left open outlives the scope around it exactly
  when, at every closing, the only live block left open is the current one.
-/

namespace RlsTenants

open ContextVar Effect Run

/-- How a scope was opened: a context block, or a request's hold. -/
inductive Opening
  | block
  | request
deriving DecidableEq

/-- A scope opened so far. -/
structure Opened where
  opening : Opening
  token : GucsToken
deriving DecidableEq

/-- Scopes of one `Context`: those opened, in order, and those closed, each with the
number of scopes opened when it was first closed. -/
structure Scopes where
  scope : Scope
  opened : List Opened
  closed : List (ℕ × ℕ)
deriving DecidableEq

/-- One step: open a scope, or close the `k`-th one. -/
inductive ScopeOp
  | enter (values : Option ContextGucs) (block : Bool)
  | hold
  | close (k : ℕ)
deriving DecidableEq

/-- Close a scope with its token. -/
def Opened.close (o : Opened) (s : Scope) : Scope :=
  match o.opening with
  | .block => (Scope.resetContextGucs o.token s).2
  | .request => (Scope.releaseContextGucs o.token s).2

namespace Scopes

/-- The scopes of a `Context` before any was opened. -/
def start (s : Scope) : Scopes := ⟨s, [], []⟩

/-- A scope is opened with what its entry returned. -/
def opens (s : Scopes) (opening : Opening) (entered : GucsToken × Scope) : Scopes :=
  ⟨entered.2, s.opened ++ [⟨opening, entered.1⟩], s.closed⟩

def step (s : Scopes) : ScopeOp → Scopes
  | .enter values block => s.opens .block (s.scope.setContextGucs values block)
  | .hold => s.opens .request s.scope.holdContextGucs
  | .close k =>
    match s.opened[k]? with
    | none => s
    | some o =>
      { s with
        scope := o.close s.scope
        closed := if k ∈ s.closed.map Prod.fst then s.closed else (k, s.opened.length) :: s.closed }

/-- The `j`-th scope is a block opened inside the `k`-th, before `u` scopes were. -/
def Inside (s : Scopes) (k u j : ℕ) (o : Opened) : Prop :=
  k < j ∧ j < u ∧ s.opened[j]? = some o ∧ o.opening = .block

/-- Once a scope has been closed, no block opened inside it is alive. -/
def LeftOpenEnded (s : Scopes) : Prop :=
  ∀ k u, (k, u) ∈ s.closed → ∀ j o, s.Inside k u j o → s.scope.store.isAlive o.token.live = false

/-- When a scope is closed, a live block left open inside it is the current one. -/
def OnlyCurrentLeftOpen (s : Scopes) : ScopeOp → Prop
  | .close k => k ∉ s.closed.map Prod.fst → ∀ j o, s.Inside k s.opened.length j o →
      s.scope.store.isAlive o.token.live = true → s.scope.vars.live = some o.token.live
  | _ => True

end Scopes

namespace Scope

variable {s : Scope}

theorem close_closes (o : Opened) (s : Scope) : s.Closes o.token (o.close s) := by
  unfold Opened.close
  split
  · exact resetContextGucs_closes _ _
  · exact releaseContextGucs_closes _ _

/-- **What a closing ends.** Of the holders newer than the scope's own, the current one. -/
theorem close_isAlive {o : Opened} (ho : o.token.token.context = s.context)
    (hu : o.token.token.id ∉ s.store.ledger.used) {i : ℕ} (hi : o.token.live < i) :
    (o.close s).store.isAlive i = (s.store.isAlive i && !decide (s.vars.live = some i)) := by
  unfold Opened.close
  split
  · rw [resetContextGucs_ok hu ho]
    simp only [Store.isAlive_endIfNewer, useToken_isAlive, Store.isAlive_endLive]
    simp [hi, show o.token.live ≠ i from by omega]
  · rw [releaseContextGucs_ok hu ho]
    simp [Store.isAlive_endIfNewer, hi]

end Scope

namespace Scopes

/-- The tokens of the scopes opened are those of the `Context`, used once closed, and a
block's holder is newer than those of the scopes opened before it. -/
structure Ok (s : Scopes) : Prop where
  scope : s.scope.Ok
  context : ∀ o ∈ s.opened, o.token.token.context = s.scope.context
  token : ∀ o ∈ s.opened, o.token.Ok s.scope.store
  sorted : s.opened.Pairwise fun o o' =>
    o.token.token.id < o'.token.token.id ∧ (o'.opening = .block → o.token.live < o'.token.live)
  fresh : ∀ (k : ℕ) (o : Opened), s.opened[k]? = some o → k ∉ s.closed.map Prod.fst →
    o.token.token.id ∉ s.scope.store.ledger.used
  closed : ∀ k u, (k, u) ∈ s.closed → u ≤ s.opened.length

theorem start_ok {s : Scope} (hs : s.Ok) : (start s).Ok := by
  constructor <;> first | exact hs | simp [start]

variable {s : Scopes}

theorem getElem?_opens {opening : Opening} {e : GucsToken × Scope} {k : ℕ} {o : Opened}
    (h : (s.opens opening e).opened[k]? = some o) :
    (k < s.opened.length ∧ s.opened[k]? = some o) ∨ (k = s.opened.length ∧ o = ⟨opening, e.1⟩) := by
  simp only [opens] at h
  rw [List.getElem?_append] at h
  split at h
  · exact .inl ⟨‹_›, h⟩
  · obtain ⟨hlt, heq⟩ := List.getElem?_eq_some_iff.1 h
    simp only [List.length_singleton, List.getElem_singleton] at hlt heq
    exact .inr ⟨by omega, heq.symm⟩

theorem Ok.opens (h : s.Ok) {opening : Opening} {e : GucsToken × Scope} (he : s.scope.Opens e)
    (hnew : opening = .block → e.1.live = s.scope.store.lives.length) : (s.opens opening e).Ok where
  scope := he.ok
  context o ho := by
    rcases List.mem_append.1 ho with ho | ho
    · exact (h.context o ho).trans he.context.symm
    · rw [List.mem_singleton.1 ho]; exact he.made
  token o ho := by
    rcases List.mem_append.1 ho with ho | ho
    · exact he.keeps (h.token o ho)
    · rw [List.mem_singleton.1 ho]; exact he.token
  sorted := by
    refine List.pairwise_append.2 ⟨h.sorted, List.pairwise_singleton _ _, fun o ho o' ho' => ?_⟩
    rw [List.mem_singleton.1 ho']
    have ht := h.token o ho
    refine ⟨by rw [he.id]; exact ht.id, fun hb => ?_⟩
    rw [hnew hb]
    exact ht.live
  fresh k o hk hcl := by
    have hu := he.used
    rcases getElem?_opens hk with ⟨-, hk⟩ | ⟨-, rfl⟩
    · simp only [Scopes.opens, hu]
      exact h.fresh k o hk hcl
    · simp only [Scopes.opens, hu, he.id]
      intro hin
      exact absurd (h.scope.used _ hin) (Nat.lt_irrefl _)
  closed k u hku := by
    have := h.closed k u hku
    simp only [Scopes.opens, List.length_append]
    omega

theorem Ok.close (h : s.Ok) {k : ℕ} {o : Opened} (hk : s.opened[k]? = some o) :
    (s.step (.close k)).Ok := by
  have ho := h.token o (List.mem_of_getElem? hk)
  have hc := Scope.close_closes o s.scope
  simp only [step, hk]
  refine ⟨hc.ok h.scope ho, fun o' ho' => (h.context o' ho').trans hc.context.symm,
    fun o' ho' => hc.keeps (h.token o' ho'), h.sorted, fun j o' hj hcl => ?_,
    fun j u hju => ?_⟩
  · have hjk : j ≠ k ∧ j ∉ s.closed.map Prod.fst := by
      by_cases hin : k ∈ s.closed.map Prod.fst
      · rw [if_pos hin] at hcl
        exact ⟨by rintro rfl; exact hcl hin, hcl⟩
      · rw [if_neg hin] at hcl
        simpa [not_or] using hcl
    have hfresh := h.fresh j o' hj hjk.2
    -- the token used up now is another one
    have hne : o'.token.token.id ≠ o.token.token.id := by
      obtain ⟨hj1, rfl⟩ := List.getElem?_eq_some_iff.1 hj
      obtain ⟨hk1, rfl⟩ := List.getElem?_eq_some_iff.1 hk
      have hp := List.pairwise_iff_getElem.1 h.sorted
      rcases Nat.lt_or_gt_of_ne hjk.1 with hlt | hlt
      · exact Nat.ne_of_lt (hp j k hj1 hk1 hlt).1
      · exact Nat.ne_of_gt (hp k j hk1 hj1 hlt).1
    rcases hc.used with hu | hu <;> rw [hu]
    · exact hfresh
    · simp [hne, hfresh]
  · by_cases hin : k ∈ s.closed.map Prod.fst
    · rw [if_pos hin] at hju
      exact h.closed j u hju
    · rw [if_neg hin] at hju
      rcases List.mem_cons.1 hju with he | hju
      · rw [Prod.mk.injEq] at he
        exact Nat.le_of_eq he.2
      · exact h.closed j u hju

/-- Every step keeps `Ok`. -/
theorem Ok.step (h : s.Ok) (op : ScopeOp) : (s.step op).Ok := by
  cases op with
  | enter v b => exact h.opens (Scope.setContextGucs_opens h.scope v b) fun _ => rfl
  | hold => exact h.opens (Scope.holdContextGucs_opens h.scope) (by simp)
  | close k =>
    rcases hk : s.opened[k]? with _ | o
    · simpa [Scopes.step, hk] using h
    · exact h.close hk

theorem leftOpenEnded_opens (h : s.Ok) {opening : Opening} {e : GucsToken × Scope}
    (he : s.scope.Opens e) (hq : s.LeftOpenEnded) : (s.opens opening e).LeftOpenEnded := by
  intro k u hku j o ⟨hkj, hju, hj, hb⟩
  have hu := h.closed k u hku
  have hj' : s.opened[j]? = some o := by
    rcases getElem?_opens hj with ⟨-, hj⟩ | ⟨hj, -⟩
    · exact hj
    · omega
  have hdead := hq k u hku j o ⟨hkj, hju, hj', hb⟩
  by_contra ha
  have := he.grows.isAlive (h.token o (List.mem_of_getElem? hj')).live (by simpa [opens] using ha)
  simp [hdead] at this

/-- The first closing of a scope ends what is left open inside it exactly when the
only live block left open is the current one. -/
theorem leftOpenEnded_close (h : s.Ok) {k : ℕ} {o : Opened} (hk : s.opened[k]? = some o)
    (hq : s.LeftOpenEnded) :
    (s.step (.close k)).LeftOpenEnded ↔ s.OnlyCurrentLeftOpen (.close k) := by
  have ho := h.token o (List.mem_of_getElem? hk)
  have hc := Scope.close_closes o s.scope
  have hkept : ∀ j u', (j, u') ∈ s.closed → ∀ i o', s.Inside j u' i o' →
      (o.close s.scope).store.isAlive o'.token.live = false := by
    intro j u' hju i o' hin
    have hdead := hq j u' hju i o' hin
    by_contra ha
    have := hc.grows.isAlive (h.token o' (List.mem_of_getElem? hin.2.2.1)).live (by simpa using ha)
    simp [hdead] at this
  by_cases hin : k ∈ s.closed.map Prod.fst
  · -- closed before: nothing new is asked
    refine iff_of_true ?_ fun hn => absurd hin hn
    intro j u' hju i o' hins
    simp only [step, hk, if_pos hin] at hju ⊢
    exact hkept j u' hju i o' (by simpa [step, hk, Inside] using hins)
  · have hfresh := h.fresh k o hk hin
    have halive : ∀ j o', s.Inside k s.opened.length j o' →
        (o.close s.scope).store.isAlive o'.token.live =
          (s.scope.store.isAlive o'.token.live && !decide (s.scope.vars.live = some o'.token.live)) := by
      rintro j o' ⟨hkj, -, hj, hb⟩
      refine Scope.close_isAlive (h.context o (List.mem_of_getElem? hk)) hfresh ?_
      obtain ⟨hj1, rfl⟩ := List.getElem?_eq_some_iff.1 hj
      obtain ⟨hk1, rfl⟩ := List.getElem?_eq_some_iff.1 hk
      exact (List.pairwise_iff_getElem.1 h.sorted k j hk1 hj1 hkj).2 hb
    constructor
    · intro hq' _ j o' hins ha
      have h1 := hq' k s.opened.length (by simp [step, hk, hin]) j o' (by simpa [step, hk, Inside] using hins)
      have h2 : (o.close s.scope).store.isAlive o'.token.live = false := by simpa [step, hk] using h1
      rw [halive j o' hins, ha] at h2
      simpa using h2
    · intro hp j u' hju i o' hins
      have hins' : s.Inside j u' i o' := by simpa [step, hk, Inside] using hins
      simp only [step, hk, if_neg hin] at hju ⊢
      rcases List.mem_cons.1 hju with he | hju
      · obtain ⟨rfl, rfl⟩ := Prod.mk.inj he
        rw [halive i o' hins']
        rcases ha : s.scope.store.isAlive o'.token.live with _ | _
        · simp
        · simp [hp hin i o' hins' ha]
      · exact hkept j u' hju i o' hins'

/-- **Blocks left open.** In any sequence of scopes opened and closed, no block left
open outlives the scope around it, exactly when at every closing the only live block
left open inside is the current one. -/
theorem left_open_ended_iff (c : Scope) (hc : c.Ok) (ops : List ScopeOp) :
    Always step LeftOpenEnded (start c) ops ↔ Along step OnlyCurrentLeftOpen (start c) ops := by
  refine always_iff_along (I := Ok) (fun s op h => h.step op) ?_ (start_ok hc) ?_
  · intro s op h hq
    cases op with
    | enter v b =>
      exact iff_of_true (leftOpenEnded_opens h (Scope.setContextGucs_opens h.scope v b) hq) trivial
    | hold => exact iff_of_true (leftOpenEnded_opens h (Scope.holdContextGucs_opens h.scope) hq) trivial
    | close k =>
      rcases hk : s.opened[k]? with _ | o
      · refine iff_of_true (by simpa [step, hk] using hq) fun _ j o ⟨hkj, hj, _⟩ => ?_
        have := List.getElem?_eq_none_iff.1 hk
        omega
      · exact leftOpenEnded_close h hk hq
  · intro k u hku
    simp [start] at hku

/-- A `Context` of its own. -/
def fresh : Scope := ⟨0, Vars.init, ⟨[], ⟨0, []⟩⟩⟩

theorem left_open_ended_two_blocks :
    Always step LeftOpenEnded (start fresh)
        [.enter (some ⟨"false", "1"⟩) true, .enter (some ⟨"false", "2"⟩) true, .close 0, .close 1] ↔
      Along step OnlyCurrentLeftOpen (start fresh)
        [.enter (some ⟨"false", "1"⟩) true, .enter (some ⟨"false", "2"⟩) true, .close 0, .close 1] :=
  left_open_ended_iff fresh ⟨by simp [fresh, Vars.init], by simp [fresh]⟩ _

/-- Two blocks left open: the outer exit ends the inner one only, and the exit of that
one makes the other's values active again. -/
theorem left_open_not_ended :
    let ops := [ScopeOp.enter (some ⟨"false", "1"⟩) true, .enter adminGucs true,
      .enter (some ⟨"false", "3"⟩) true, .close 0]
    ¬ LeftOpenEnded (run step (start fresh) ops) ∧
      (run step (start fresh) (ops ++ [.close 2])).scope.contextGucs = some adminGucs := by
  refine ⟨fun h => ?_, by decide⟩
  have := h 0 3 (by decide) 1 ⟨.block, ⟨⟨1, 0, some 0⟩, 1⟩⟩ ⟨by decide, by decide, by decide, rfl⟩
  revert this
  decide

end Scopes

end RlsTenants
