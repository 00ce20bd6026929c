import RlsTenants.Lib.Run
import RlsTenants.Proof.Holders
import RlsTenants.Spec.Hops

/-!
# What a hop hands back

Any steps of any number of copies, hops returning or cancelled at any moment.

* `handBack_keeps_holder`: a caller that holds a holder, live or ended, never gets
  another block's.
* `block_kept`: a caller inside a block keeps it while its hops only enter and exit
  blocks, and they do not end it.
* `processRequest_reaches_caller`, `release_leaves_processRequest`: the holder of
  `process_request` reaches the request, and is gone from it when the request ends.
* `block_over`: a block that has ended is over in every copy.
-/

namespace RlsTenants

open ContextVar Effect Run

namespace Copies

variable {w : Copies}

/-- `o` was handed out before `o'`: a new holder is newer than all that `o` knows. -/
def Before (o o' : Issued) : Prop :=
  o.token.token.id < o'.token.token.id ∧ (o'.purpose ≠ .hold →
    o.token.live < o'.token.live ∧ ∀ l, o.token.token.old = some l → l < o'.token.live)

/-- The holders and tokens of the copies are those handed out; a block or request
context that is done has ended. -/
structure Ok (w : Copies) : Prop where
  live : ∀ (i : ℕ) (c : Copy), w.copies[i]? = some c → ∀ l, c.vars.live = some l → l < w.store.lives.length
  used : ∀ t ∈ w.store.ledger.used, t < w.store.ledger.next
  token : ∀ (k : ℕ) (o : Issued), w.issued[k]? = some o → o.token.Ok w.store
  fresh : ∀ (k : ℕ) (o : Issued), w.issued[k]? = some o → o.done = false →
    o.token.token.id ∉ w.store.ledger.used
  context : ∀ (k : ℕ) (o : Issued), w.issued[k]? = some o → o.token.token.context < w.copies.length
  later : ∀ (j : ℕ) (c : Copy), w.copies[j]? = some c → ∀ k, c.caller = some k → k < j
  sorted : ∀ (k j : ℕ) (o o' : Issued), k < j → w.issued[k]? = some o → w.issued[j]? = some o' → Before o o'
  kind : ∀ (k : ℕ) (o : Issued), w.issued[k]? = some o → o.purpose ≠ .hold →
    w.store.isBlock o.token.live = decide (o.purpose = .block)
  ended : ∀ (k : ℕ) (o : Issued), w.issued[k]? = some o → o.done = true → o.purpose ≠ .hold →
    w.store.isAlive o.token.live = false

/-! ## Copies and their scopes -/

@[simp] theorem scope_context (i : ℕ) : (w.scope i).context = i := rfl
@[simp] theorem scope_store (i : ℕ) : (w.scope i).store = w.store := rfl

theorem scope_vars {i : ℕ} {c : Copy} (h : w.copies[i]? = some c) : (w.scope i).vars = c.vars := by
  simp [scope, h]

theorem live_of {i : ℕ} {c : Copy} (h : w.copies[i]? = some c) : w.live i = c.vars.live := by
  rw [live, scope_vars h]

theorem live_eq (i : ℕ) : w.live i = (w.copies[i]?).bind (·.vars.live) := by
  rcases h : w.copies[i]? with _ | c
  · simp [live, scope, h, Vars.init]
  · rw [live_of h]; rfl

theorem Ok.live_lt (h : w.Ok) {i l : ℕ} (hl : w.live i = some l) : l < w.store.lives.length := by
  rw [live_eq] at hl
  rcases hc : w.copies[i]? with _ | c
  · simp [hc] at hl
  · rw [hc] at hl; exact h.live i c hc l hl

theorem Ok.scope (h : w.Ok) (i : ℕ) : (w.scope i).Ok := ⟨fun _ hl => h.live_lt hl, h.used⟩

theorem putScope_getElem? (i j : ℕ) (s : Scope) : (w.putScope i s).copies[j]? =
    if i = j then (w.copies[j]?).map fun c => { c with vars := s.vars } else w.copies[j]? := by
  simp only [putScope, List.getElem?_modify]
  split <;> simp

theorem putScope_live (i j : ℕ) (s : Scope) (hi : i < w.copies.length) :
    (w.putScope i s).live j = if i = j then s.vars.live else w.live j := by
  rw [live_eq, putScope_getElem?, live_eq]
  split
  · subst j
    rw [List.getElem?_eq_getElem hi]; rfl
  · rfl

theorem Runs.lt {i : ℕ} (h : w.Runs i) : i < w.copies.length := by
  obtain ⟨c, hc, -⟩ := h
  exact (List.getElem?_eq_some_iff.1 hc).1

theorem issue_getElem? {i : ℕ} {p : Purpose} {e : GucsToken × Scope} {k : ℕ} {o : Issued}
    (h : (w.issue i p e).issued[k]? = some o) :
    w.issued[k]? = some o ∨ (k = w.issued.length ∧ o = ⟨p, e.1, false⟩) := by
  simp only [issue] at h
  rw [List.getElem?_append] at h
  split at h
  · exact .inl h
  · obtain ⟨hlt, heq⟩ := List.getElem?_eq_some_iff.1 h
    simp only [List.length_singleton, List.getElem_singleton] at hlt heq
    exact .inr ⟨by omega, heq.symm⟩

theorem use_getElem? {i k j : ℕ} {s : Scope} {o : Issued} (h : (w.use i k s).issued[j]? = some o) :
    ∃ o0, w.issued[j]? = some o0 ∧ o.purpose = o0.purpose ∧ o.token = o0.token ∧
      o.done = (o0.done || decide (k = j)) := by
  simp only [use, List.getElem?_modify] at h
  rcases ho : w.issued[j]? with _ | o0
  · simp [ho] at h
  · rw [ho] at h
    simp only [Option.map_eq_map, Option.map_some, Option.some.injEq] at h
    refine ⟨o0, rfl, ?_⟩
    by_cases hkj : k = j
    · rw [if_pos hkj] at h; subst h; simp [hkj]
    · rw [if_neg hkj] at h; subst h; simp [hkj]

/-! ## Every step keeps `Ok` -/

theorem Ok.putLive (h : w.Ok) {i : ℕ} {s : Scope} (hs : s.Ok)
    (hgrow : w.store.Grows s.store) : ∀ (j : ℕ) (c : Copy), (w.putScope i s).copies[j]? = some c →
      ∀ l, c.vars.live = some l → l < s.store.lives.length := by
  intro j c hc l hl
  rw [putScope_getElem?] at hc
  split at hc
  · rcases hj : w.copies[j]? with _ | c0
    · simp [hj] at hc
    · rw [hj] at hc
      simp only [Option.map_some, Option.some.injEq] at hc
      subst hc
      exact hs.live l hl
  · exact Nat.lt_of_lt_of_le (h.live j c hc l hl) hgrow.length

theorem Ok.putCaller (h : w.Ok) {i : ℕ} {s : Scope} : ∀ (j : ℕ) (c : Copy),
    (w.putScope i s).copies[j]? = some c → ∀ k, c.caller = some k → k < j := by
  intro j c hc k hk
  rw [putScope_getElem?] at hc
  split at hc
  · rcases hj : w.copies[j]? with _ | c0
    · simp [hj] at hc
    · rw [hj] at hc
      simp only [Option.map_some, Option.some.injEq] at hc
      subst hc
      exact h.later j c0 hj k hk
  · exact h.later j c hc k hk

@[simp] theorem putScope_length (i : ℕ) (s : Scope) :
    (w.putScope i s).copies.length = w.copies.length := by simp [putScope]

theorem Ok.issue (h : w.Ok) {i : ℕ} {p : Purpose} {e : GucsToken × Scope} (hi : i < w.copies.length)
    (he : (w.scope i).Opens e)
    (hnew : p ≠ .hold → e.1.live = w.store.lives.length ∧ e.2.store.isBlock e.1.live = decide (p = .block)) :
    (w.issue i p e).Ok where
  live := h.putLive he.ok he.grows
  used := he.ok.used
  token k o hk := by
    rcases issue_getElem? hk with hk | ⟨-, rfl⟩
    · exact he.keeps (h.token k o hk)
    · exact he.token
  fresh k o hk hd := by
    have hu := he.used
    simp only [Copies.issue, putScope]
    rw [hu]
    rcases issue_getElem? hk with hk | ⟨-, rfl⟩
    · exact h.fresh k o hk hd
    · intro hin
      have := h.used _ hin
      rw [he.id] at this
      exact absurd this (Nat.lt_irrefl _)
  context k o hk := by
    refine Nat.lt_of_lt_of_eq ?_ (putScope_length i e.2).symm
    rcases issue_getElem? hk with hk | ⟨-, rfl⟩
    · exact h.context k o hk
    · rw [he.made, he.context]; exact hi
  later := h.putCaller
  sorted k j o o' hkj hk hj := by
    rcases issue_getElem? hj with hj | ⟨rfl, rfl⟩
    · rcases issue_getElem? hk with hk | ⟨rfl, rfl⟩
      · exact h.sorted k j o o' hkj hk hj
      · have := (List.getElem?_eq_some_iff.1 hj).1
        omega
    · rcases issue_getElem? hk with hk | ⟨rfl, rfl⟩
      · have ht := h.token k o hk
        refine ⟨by rw [he.id]; exact ht.id, fun hp => ?_⟩
        rw [(hnew hp).1]
        exact ⟨ht.live, ht.old⟩
      · omega
  kind k o hk hp := by
    rcases issue_getElem? hk with hk | ⟨-, rfl⟩
    · exact (he.grows.isBlock (h.token k o hk).live).trans (h.kind k o hk hp)
    · exact (hnew hp).2
  ended k o hk hd hp := by
    rcases issue_getElem? hk with hk | ⟨-, rfl⟩
    · by_contra ha
      have := he.grows.isAlive (h.token k o hk).live (by simpa [Copies.issue, putScope] using ha)
      simp [h.ended k o hk hd hp] at this
    · simp at hd

theorem Ok.use (h : w.Ok) {i k : ℕ} {o : Issued} {s : Scope} (hk : w.issued[k]? = some o)
    (hs : (w.scope i).Closes o.token s) (hend : o.purpose ≠ .hold → s.store.isAlive o.token.live = false) :
    (w.use i k s).Ok where
  live := h.putLive (hs.ok (h.scope i) (h.token k o hk)) hs.grows
  used := (hs.ok (h.scope i) (h.token k o hk)).used
  token j o' hj := by
    obtain ⟨o0, h0, -, ht, -⟩ := use_getElem? hj
    rw [ht]; exact hs.keeps (h.token j o0 h0)
  fresh j o' hj hd := by
    obtain ⟨o0, h0, -, ht, hd'⟩ := use_getElem? hj
    rw [hd] at hd'
    have hkj : k ≠ j ∧ o0.done = false := by
      rcases hdone : o0.done with _ | _ <;> simp [hdone] at hd' ⊢
      exact hd'
    have hfresh := h.fresh j o0 h0 hkj.2
    have hne : o0.token.token.id ≠ o.token.token.id := by
      rcases Nat.lt_or_gt_of_ne hkj.1 with hlt | hlt
      · exact Nat.ne_of_gt (h.sorted k j o o0 hlt hk h0).1
      · exact Nat.ne_of_lt (h.sorted j k o0 o hlt h0 hk).1
    simp only [Copies.use, putScope, ht]
    rcases hs.used with hu | hu <;> rw [hu]
    · exact hfresh
    · simp [hne, hfresh]
  context j o' hj := by
    obtain ⟨o0, h0, -, ht, -⟩ := use_getElem? hj
    rw [ht]
    exact Nat.lt_of_lt_of_eq (h.context j o0 h0) (putScope_length i s).symm
  later := h.putCaller
  sorted j l o1 o2 hjl hj hl := by
    obtain ⟨o1', h1, -, ht1, -⟩ := use_getElem? hj
    obtain ⟨o2', h2, hp2, ht2, -⟩ := use_getElem? hl
    have := h.sorted j l o1' o2' hjl h1 h2
    rw [Before] at this ⊢
    rw [ht1, ht2, hp2]; exact this
  kind j o' hj hp := by
    obtain ⟨o0, h0, hp0, ht, -⟩ := use_getElem? hj
    rw [ht, hp0]
    exact (hs.grows.isBlock (h.token j o0 h0).live).trans (h.kind j o0 h0 (hp0 ▸ hp))
  ended j o' hj hd hp := by
    obtain ⟨o0, h0, hp0, ht, hd'⟩ := use_getElem? hj
    rw [ht]
    by_cases hkj : k = j
    · subst hkj
      rw [hk] at h0
      obtain rfl := Option.some.inj h0
      exact hend (hp0 ▸ hp)
    · have hdone : o0.done = true := by simpa [hkj, hd] using hd'.symm
      by_contra ha
      have := hs.grows.isAlive (h.token j o0 h0).live (by simpa [Copies.use, putScope] using ha)
      simp [h.ended j o0 h0 hdone (hp0 ▸ hp)] at this

/-- Changing copies, but no store and no token, keeps `Ok` if the holders exist. -/
theorem Ok.withCopies (h : w.Ok) {cs : List Copy} (hlen : w.copies.length ≤ cs.length)
    (hcs : ∀ (i : ℕ) (c : Copy), cs[i]? = some c → (∀ l, c.vars.live = some l → ∃ j, w.live j = some l) ∧
      ∀ k, c.caller = some k → k < i) : Ok { w with copies := cs } :=
  ⟨fun i c hc l hl => by obtain ⟨j, hj⟩ := (hcs i c hc).1 l hl; exact h.live_lt hj,
    h.used, h.token, h.fresh, fun k o hk => Nat.lt_of_lt_of_le (h.context k o hk) hlen,
    fun j c hc => (hcs j c hc).2, h.sorted,
    h.kind, h.ended⟩

theorem copyInto_live (s : Store) (src dest : Vars) :
    (s.copyInto src dest).live = src.live ∨ (s.copyInto src dest).live = dest.live := by
  simp only [Store.copyInto]
  split
  · exact .inl rfl
  · exact .inr rfl

/-- A copy that was started takes over its starter's holder. -/
theorem copyInto_init (s : Store) (src : Vars) : (s.copyInto src Vars.init).live = src.live := by
  rcases hl : src.live with _ | l <;> simp [Store.copyInto, Vars.init, hl, Store.pyNe]

/-- A copy after a fork is an old one, with its map and caller, or the new one. -/
theorem forkFrom_getElem? {i j : ℕ} {f : Fork} {c : Copy} (h : (w.forkFrom i f).copies[j]? = some c) :
    (∃ c0, w.copies[j]? = some c0 ∧ c.vars = c0.vars ∧ c.caller = c0.caller ∧
      (c.awaits = c0.awaits ∨ j = i ∧ c.awaits = some w.copies.length)) ∨
    (j = w.copies.length ∧ c.vars.live = w.live i ∧ (c.caller = none ∨ c.caller = some i) ∧
      c.awaits = none) := by
  have happ : ∀ {cs : List Copy} {x : Copy}, cs.length = w.copies.length → (cs ++ [x])[j]? = some c →
      cs[j]? = some c ∨ (j = w.copies.length ∧ c = x) := by
    intro cs x hlen hc
    rw [List.getElem?_append] at hc
    split at hc
    · exact .inl hc
    · obtain ⟨hlt, heq⟩ := List.getElem?_eq_some_iff.1 hc
      simp only [List.length_singleton, List.getElem_singleton] at hlt heq
      exact .inr ⟨by omega, heq.symm⟩
  have hmod : (w.copies.modify i fun c => { c with awaits := some w.copies.length })[j]? = some c →
      ∃ c0, w.copies[j]? = some c0 ∧ c.vars = c0.vars ∧ c.caller = c0.caller ∧
        (c.awaits = c0.awaits ∨ j = i ∧ c.awaits = some w.copies.length) := by
    intro hc
    rw [List.getElem?_modify] at hc
    rcases h0 : w.copies[j]? with _ | c0
    · simp [h0] at hc
    · rw [h0] at hc
      simp only [Option.map_eq_map, Option.map_some, Option.some.injEq] at hc
      refine ⟨c0, rfl, ?_⟩
      by_cases hij : i = j
      · rw [if_pos hij] at hc; subst hc; exact ⟨rfl, rfl, .inr ⟨hij.symm, rfl⟩⟩
      · rw [if_neg hij] at hc; subst hc; exact ⟨rfl, rfl, .inl rfl⟩
  cases f with
  | task =>
    rcases happ rfl h with hc | ⟨hj, rfl⟩
    · exact .inl ⟨c, hc, rfl, rfl, .inl rfl⟩
    · exact .inr ⟨hj, rfl, .inl rfl, rfl⟩
  | syncToAsync =>
    rcases happ (by simp) h with hc | ⟨hj, rfl⟩
    · exact .inl (hmod hc)
    · exact .inr ⟨hj, rfl, .inr rfl, rfl⟩
  | asyncToSync =>
    rcases happ (by simp) h with hc | ⟨hj, rfl⟩
    · exact .inl (hmod hc)
    · exact .inr ⟨hj, copyInto_init _ _, .inr rfl, rfl⟩

theorem forkFrom_length (i : ℕ) (f : Fork) :
    (w.forkFrom i f).copies.length = w.copies.length + 1 := by
  cases f <;> simp [forkFrom]

@[simp] theorem forkFrom_store (i : ℕ) (f : Fork) : (w.forkFrom i f).store = w.store := by
  cases f <;> rfl

@[simp] theorem forkFrom_issued (i : ℕ) (f : Fork) : (w.forkFrom i f).issued = w.issued := by
  cases f <;> rfl

/-- A copy after a hop came back: the caller has been handed values, no other has. -/
theorem handBack_getElem? {h c j : ℕ} {cancelled : Bool} {x : Copy}
    (hx : (w.handBack h c cancelled).copies[j]? = some x) :
    ∃ x0, w.copies[j]? = some x0 ∧ x.caller = x0.caller ∧
      (j = c ∧ x.vars = w.store.copyInto (w.scope h).vars x0.vars ∧ x.awaits = none ∨
        j ≠ c ∧ x.vars = x0.vars ∧ x.awaits = x0.awaits) := by
  simp only [handBack, List.getElem?_modify] at hx
  rcases h0 : w.copies[j]? with _ | x0
  · simp [h0] at hx
  · rw [h0] at hx
    simp only [Option.map_eq_map, Option.map_some, Option.some.injEq] at hx
    refine ⟨x0, rfl, ?_⟩
    by_cases hc : c = j <;> by_cases hh : h = j
    · simp only [if_pos hc, if_pos hh] at hx; subst hx; exact ⟨rfl, .inl ⟨hc.symm, rfl, rfl⟩⟩
    · simp only [if_pos hc, if_neg hh] at hx; subst hx; exact ⟨rfl, .inl ⟨hc.symm, rfl, rfl⟩⟩
    · simp only [if_neg hc, if_pos hh] at hx; subst hx; exact ⟨rfl, .inr ⟨Ne.symm hc, rfl, rfl⟩⟩
    · simp only [if_neg hc, if_neg hh] at hx; subst hx; exact ⟨rfl, .inr ⟨Ne.symm hc, rfl, rfl⟩⟩

theorem handBack_length (h c : ℕ) (cancelled : Bool) :
    (w.handBack h c cancelled).copies.length = w.copies.length := by simp [handBack]

/-- What each step does, where it is possible. -/
inductive Did (w : Copies) : HopStep → Copies → Prop
  | nothing (st : HopStep) : Did w st w
  | fork (i : ℕ) (f : Fork) : w.Runs i → Did w (.fork i f) (w.forkFrom i f)
  | enter (i : ℕ) (v : Option ContextGucs) : w.Runs i →
      Did w (.enter i v) (w.issue i .block ((w.scope i).setContextGucs v true))
  | processRequest (i : ℕ) (v : ContextGucs) : w.Runs i →
      Did w (.processRequest i v) (w.issue i .processRequest ((w.scope i).setContextGucs (some v) false))
  | hold (i : ℕ) : w.Runs i → Did w (.hold i) (w.issue i .hold (w.scope i).holdContextGucs)
  | exit (k : ℕ) (t : GucsToken) : w.issued[k]? = some ⟨.block, t, false⟩ → w.Runs t.token.context →
      Did w (.exit k)
        (w.use t.token.context k (Scope.resetContextGucs t (w.scope t.token.context)).2)
  | cleanUp (i k : ℕ) (t : GucsToken) : w.issued[k]? = some ⟨.processRequest, t, false⟩ → w.Runs i →
      Did w (.cleanUp i k) (w.use i k (Scope.resetContextGucs t (w.scope i)).2)
  | release (k : ℕ) (t : GucsToken) : w.issued[k]? = some ⟨.hold, t, false⟩ → w.Runs t.token.context →
      Did w (.release k)
        (w.use t.token.context k (Scope.releaseContextGucs t (w.scope t.token.context)).2)
  | comesBack (h c : ℕ) (b : Bool) (x y : Copy) : w.copies[h]? = some x → x.caller = some c →
      w.copies[c]? = some y → y.awaits = some h → Did w (.comesBack h b) (w.handBack h c b)

theorem step_did (w : Copies) (st : HopStep) : Did w st (w.step st) := by
  cases st with
  | fork i f =>
    by_cases hr : w.Runs i
    · rw [step, if_pos hr]; exact .fork i f hr
    · rw [step, if_neg hr]; exact .nothing _
  | enter i v =>
    by_cases hr : w.Runs i
    · rw [step, if_pos hr]; exact .enter i v hr
    · rw [step, if_neg hr]; exact .nothing _
  | processRequest i v =>
    by_cases hr : w.Runs i
    · rw [step, if_pos hr]; exact .processRequest i v hr
    · rw [step, if_neg hr]; exact .nothing _
  | hold i =>
    by_cases hr : w.Runs i
    · rw [step, if_pos hr]; exact .hold i hr
    · rw [step, if_neg hr]; exact .nothing _
  | exit k =>
    simp only [step]
    split
    · rename_i t hk
      by_cases hr : w.Runs t.token.context
      · rw [if_pos hr]; exact .exit k t hk hr
      · rw [if_neg hr]; exact .nothing _
    · exact .nothing _
  | cleanUp i k =>
    simp only [step]
    split
    · rename_i t hk
      by_cases hr : w.Runs i
      · rw [if_pos hr]; exact .cleanUp i k t hk hr
      · rw [if_neg hr]; exact .nothing _
    · exact .nothing _
  | release k =>
    simp only [step]
    split
    · rename_i t hk
      by_cases hr : w.Runs t.token.context
      · rw [if_pos hr]; exact .release k t hk hr
      · rw [if_neg hr]; exact .nothing _
    · exact .nothing _
  | comesBack h b =>
    simp only [step]
    split
    · rename_i c a hh
      split
      · rename_i hp
        rcases hc : w.copies[c]? with _ | y
        · simp [hc] at hp
        · exact .comesBack h c b _ y hh rfl hc (by simpa [hc] using hp.1)
      · exact .nothing _
    · exact .nothing _

/-- Every step keeps `Ok`. -/
theorem Ok.step (h : w.Ok) (st : HopStep) : (w.step st).Ok := by
  have hd := step_did w st
  generalize w.step st = w' at hd ⊢
  cases hd with
  | nothing => exact h
  | fork i f hr =>
    rw [show w.forkFrom i f = { w with copies := (w.forkFrom i f).copies } from by cases f <;> rfl]
    refine h.withCopies (by rw [forkFrom_length]; omega) fun j c hc => ?_
    rcases forkFrom_getElem? hc with ⟨c0, h0, hv, hcall, -⟩ | ⟨rfl, hlive, hcall, -⟩
    · exact ⟨fun l hl => ⟨j, by rw [live_of h0, ← hv]; exact hl⟩, fun k hk => h.later j c0 h0 k (hcall ▸ hk)⟩
    · refine ⟨fun l hl => ⟨i, hlive ▸ hl⟩, fun k hk => ?_⟩
      rcases hcall with h1 | h1 <;> rw [h1] at hk
      · simp at hk
      · exact Option.some.inj hk ▸ hr.lt
  | enter i v hr =>
    exact h.issue hr.lt (Scope.setContextGucs_opens (h.scope i) v true) fun _ => ⟨rfl, by
      simp [Scope.setContextGucs, Scope.setVar, Var.set, Store.isBlock, Store.create]⟩
  | processRequest i v hr =>
    exact h.issue hr.lt (Scope.setContextGucs_opens (h.scope i) (some v) false) fun _ => ⟨rfl, by
      simp [Scope.setContextGucs, Scope.setVar, Var.set, Store.isBlock, Store.create]⟩
  | hold i hr => exact h.issue hr.lt (Scope.holdContextGucs_opens (h.scope i)) fun hp => absurd rfl hp
  | exit k t hk hr =>
    exact h.use hk (Scope.resetContextGucs_closes t _) fun _ => Scope.resetContextGucs_ends t _
  | cleanUp i k t hk hr =>
    exact h.use hk (Scope.resetContextGucs_closes t _) fun _ => Scope.resetContextGucs_ends t _
  | release k t hk hr =>
    exact h.use hk (Scope.releaseContextGucs_closes t _) fun hp => absurd rfl hp
  | comesBack h' c b x y hx hc hy ha =>
    refine h.withCopies (by simp) fun j z hz => ?_
    obtain ⟨z0, h0, hcall, hv⟩ := handBack_getElem? hz
    refine ⟨fun l hl => ?_, fun k hk => h.later j z0 h0 k (hcall ▸ hk)⟩
    rcases hv with ⟨rfl, hv, -⟩ | ⟨-, hv, -⟩ <;> rw [hv] at hl
    · rcases copyInto_live w.store (w.scope h').vars z0.vars with hlive | hlive <;> rw [hlive] at hl
      · exact ⟨h', hl⟩
      · exact ⟨j, by rw [live_of h0]; exact hl⟩
    · exact ⟨j, by rw [live_of h0]; exact hl⟩

theorem start_ok (n : ℕ) : (start n).Ok := by
  have hcopy : ∀ (i : ℕ) (c : Copy), (start n).copies[i]? = some c → c = ⟨Vars.init, none, none, false⟩ :=
    fun i c hc => List.eq_of_mem_replicate (List.mem_of_getElem? hc)
  refine ⟨fun i c hc l hl => ?_, ?_, ?_, ?_, ?_, fun j c hc k hk => ?_, ?_, ?_, ?_⟩ <;> try simp [start]
  · simp [hcopy i c hc, Vars.init] at hl
  · simp [hcopy j c hc] at hk

/-- Holders are only created and ended. -/
theorem step_grows (w : Copies) (st : HopStep) : w.store.Grows (w.step st).store := by
  have hd := step_did w st
  generalize w.step st = w' at hd ⊢
  cases hd with
  | nothing => exact .refl _
  | fork i f => rw [forkFrom_store]; exact .refl _
  | enter i v => exact Scope.setContextGucs_grows v true (w.scope i)
  | processRequest i v => exact Scope.setContextGucs_grows (some v) false (w.scope i)
  | hold i => exact Scope.holdContextGucs_grows (w.scope i)
  | exit k t => exact Scope.resetContextGucs_grows t (w.scope t.token.context)
  | cleanUp i k t => exact Scope.resetContextGucs_grows t (w.scope i)
  | release k t => exact Scope.releaseContextGucs_grows t (w.scope t.token.context)
  | comesBack => exact .refl _

theorem run_grows (w : Copies) (sts : List HopStep) : w.store.Grows (run step w sts).store := by
  induction sts generalizing w with
  | nil => exact .refl _
  | cons st sts ih => exact (step_grows w st).trans (ih (w.step st))

/-! ## What reaches a caller -/

theorem live_handBack {h c : ℕ} {b : Bool} {y : Copy} (hy : w.copies[c]? = some y) :
    (w.handBack h c b).live c = if w.store.pyNe (w.live c) (w.live h) then w.live h else w.live c := by
  have hlt : c < (w.handBack h c b).copies.length := by
    rw [handBack_length]; exact (List.getElem?_eq_some_iff.1 hy).1
  obtain ⟨z0, h0, -, ⟨-, hv, -⟩ | ⟨hne, -⟩⟩ := handBack_getElem? (List.getElem?_eq_getElem hlt)
  · rw [live_of (List.getElem?_eq_getElem hlt), hv, live_of hy]
    rw [hy] at h0
    obtain rfl := Option.some.inj h0
    rfl
  · exact absurd rfl hne

/-- **No other block's holder.** What a hop hands back to a caller that holds a holder
is no other block's. -/
theorem handBack_keeps_holder {h c l l' : ℕ} {b : Bool} {y : Copy} (hy : w.copies[c]? = some y)
    (hl : w.live c = some l) (hl' : (w.handBack h c b).live c = some l')
    (hb : w.store.isBlock l' = true) : l' = l := by
  rw [live_handBack hy, hl] at hl'
  rcases hh : w.live h with _ | m
  · simp [hh, Store.pyNe] at hl'
  · by_cases hne : w.store.pyNe (some l) (some m) = true
    · rw [hh, if_pos hne] at hl'
      obtain rfl := Option.some.inj hl'
      simp [Store.pyNe, hb] at hne
    · rw [hh, if_neg hne] at hl'
      exact (Option.some.inj hl').symm

/-- A holder that is no block's reaches the caller. -/
theorem handBack_replaces {h c p : ℕ} {b : Bool} {y : Copy} (hy : w.copies[c]? = some y)
    (hp : w.live h = some p) (hb : w.store.isBlock p = false) : (w.handBack h c b).live c = some p := by
  rw [live_handBack hy, hp]
  rcases hl : w.live c with _ | l
  · simp [Store.pyNe]
  · by_cases hlp : l = p
    · simp [hlp]
    · simp [Store.pyNe, hlp, hb]

/-! ## A caller inside a block -/

/-- Copies, made as hops since there were `n`, whose values come back to `c`. -/
inductive Feeds (caller : ℕ → Option ℕ) (n c : ℕ) : ℕ → Prop
  | direct {h : ℕ} : n ≤ h → caller h = some c → Feeds caller n c h
  | through {h j : ℕ} : n ≤ h → caller h = some j → Feeds caller n c j → Feeds caller n c h

/-- Who awaits a copy. -/
def caller (w : Copies) (h : ℕ) : Option ℕ := (w.copies[h]?).bind (·.caller)

/-- `c` only makes calls, and the hops that come back to it only enter and exit
blocks; any other copy does what it likes. -/
def HopsOnlyBlocks (n c : ℕ) (w : Copies) : HopStep → Prop
  | .fork _ _ | .comesBack _ _ => True
  | .enter i _ => i ≠ c
  | .exit k => ∀ o, w.issued[k]? = some o → o.token.token.context ≠ c
  | .processRequest i _ | .cleanUp i _ | .hold i => i ≠ c ∧ ¬Feeds w.caller n c i
  | .release k => ∀ o, w.issued[k]? = some o →
      o.token.token.context ≠ c ∧ ¬Feeds w.caller n c o.token.token.context

/-- Only copies made since there were `n` act, and they only enter and exit blocks. -/
def OnlyNewBlocks (n : ℕ) (w : Copies) : HopStep → Prop
  | .fork _ _ | .comesBack _ _ => True
  | .enter i _ => n ≤ i
  | .exit k => ∀ o, w.issued[k]? = some o → n ≤ o.token.token.context
  | _ => False

theorem Feeds.le {caller : ℕ → Option ℕ} {n c h : ℕ} (hf : Feeds caller n c h) : n ≤ h := by
  cases hf <;> assumption

/-- A new copy feeds `c` only as a hop of `c` or of a copy that does. -/
theorem Feeds.of_fork {call call' : ℕ → Option ℕ} {n c m i h : ℕ} (hf : Feeds call' n c h)
    (hold : ∀ j, j ≠ m → call' j = call j) (hnew : call' m = none ∨ call' m = some i) (him : i ≠ m)
    (hlt : ∀ j k, call j = some k → k ≠ m) :
    Feeds call n c h ∨ (h = m ∧ (i = c ∨ Feeds call n c i)) := by
  induction hf with
  | @direct h hn hc =>
    by_cases hm : h = m
    · subst hm
      rcases hnew with h1 | h1 <;> rw [h1] at hc
      · simp at hc
      · exact .inr ⟨rfl, .inl (Option.some.inj hc)⟩
    · exact .inl (.direct hn (by rw [← hold h hm]; exact hc))
  | @through h j hn hj _ ih =>
    by_cases hm : h = m
    · subst hm
      rcases hnew with h1 | h1 <;> rw [h1] at hj
      · simp at hj
      · obtain rfl := Option.some.inj hj
        rcases ih with ih | ⟨rfl, -⟩
        · exact .inr ⟨rfl, .inr ih⟩
        · exact absurd rfl him
    · rw [hold h hm] at hj
      rcases ih with ih | ⟨rfl, -⟩
      · exact .inl (.through hn hj ih)
      · exact absurd rfl (hlt h j hj)

/-- What a hop of a caller inside the block `l` may hold: `l`, or a block's holder. -/
def Fine (w : Copies) (l : ℕ) (x : Option ℕ) : Prop := ∃ m, x = some m ∧ (m = l ∨ w.store.isBlock m = true)

/-- `c` is inside the block `l`, and its hops since there were `n` copies hold nothing
that would replace it. -/
structure Inside (n c l : ℕ) (w : Copies) : Prop where
  ok : w.Ok
  exists' : c < n ∧ n ≤ w.copies.length
  live : w.live c = some l
  awaits : ∀ x, w.copies[c]? = some x → ∀ h, x.awaits = some h → n ≤ h
  hops : ∀ h, Feeds w.caller n c h → Fine w l (w.live h)
  tokens : ∀ (k : ℕ) (o : Issued), w.issued[k]? = some o → Feeds w.caller n c o.token.token.context →
    o.purpose = .block ∧ Fine w l o.token.token.old

theorem Fine.mono {w w' : Copies} {l : ℕ} {x : Option ℕ} (hf : w.Fine l x) (hg : w.store.Grows w'.store) :
    w'.Fine l x := by
  obtain ⟨m, hx, hm | hm⟩ := hf
  · exact ⟨m, hx, .inl hm⟩
  · exact ⟨m, hx, .inr (by rw [hg.isBlock (Store.lt_of_isBlock hm)]; exact hm)⟩

theorem caller_putScope (i : ℕ) (s : Scope) : (w.putScope i s).caller = w.caller := by
  funext j
  simp only [caller, putScope_getElem?]
  split
  · cases w.copies[j]? <;> rfl
  · rfl

theorem caller_handBack (h c : ℕ) (b : Bool) : (w.handBack h c b).caller = w.caller := by
  funext j
  simp only [caller]
  rcases hz : (w.handBack h c b).copies[j]? with _ | z
  · have : w.copies[j]? = none := by
      rw [List.getElem?_eq_none_iff] at hz ⊢
      rwa [handBack_length] at hz
    simp [this]
  · obtain ⟨z0, h0, hcall, -⟩ := handBack_getElem? hz
    simp [h0, hcall]

theorem live_handBack_other {h c j : ℕ} {b : Bool} (hj : j ≠ c) : (w.handBack h c b).live j = w.live j := by
  rcases hz : (w.handBack h c b).copies[j]? with _ | z
  · have : w.copies[j]? = none := by
      rw [List.getElem?_eq_none_iff] at hz ⊢
      rwa [handBack_length] at hz
    rw [live_eq, live_eq, hz, this]
  · obtain ⟨z0, h0, -, ⟨hjc, -⟩ | ⟨-, hv, -⟩⟩ := handBack_getElem? hz
    · exact absurd hjc hj
    · rw [live_of hz, live_of h0, hv]

theorem live_forkFrom {i j : ℕ} {f : Fork} (hj : j < w.copies.length) :
    (w.forkFrom i f).live j = w.live j ∧ (w.forkFrom i f).caller j = w.caller j := by
  have hlt : j < (w.forkFrom i f).copies.length := by rw [forkFrom_length]; omega
  rcases forkFrom_getElem? (List.getElem?_eq_getElem hlt) with ⟨c0, h0, hv, hc, -⟩ | ⟨hj', -⟩
  · rw [live_of (List.getElem?_eq_getElem hlt), live_of h0, hv, caller, caller,
      List.getElem?_eq_getElem hlt, h0]
    exact ⟨rfl, hc⟩
  · omega

theorem Ok.caller_lt (h : w.Ok) {j k : ℕ} (hj : w.caller j = some k) : k < j ∧ j < w.copies.length := by
  rcases hc : w.copies[j]? with _ | c
  · simp [caller, hc] at hj
  · exact ⟨h.later j c hc k (by simpa [caller, hc] using hj), (List.getElem?_eq_some_iff.1 hc).1⟩

theorem Feeds.lt {n c h : ℕ} (hw : w.Ok) (hf : Feeds w.caller n c h) : h < w.copies.length := by
  cases hf with
  | direct _ hc => exact (hw.caller_lt hc).2
  | through _ hc _ => exact (hw.caller_lt hc).2

namespace Inside

variable {n c l : ℕ}

/-- Copy `i` gets a new holder, a fine one if its values come back to `c`. -/
theorem put (h : Inside n c l w) {i : ℕ} {s : Scope} {issued : List Issued}
    (hi : i < w.copies.length) (hic : i ≠ c) (hgrow : w.store.Grows s.store)
    (hok : Ok { w.putScope i s with issued := issued })
    (hf : Feeds w.caller n c i → ∃ m, s.vars.live = some m ∧ (m = l ∨ s.store.isBlock m = true))
    (ht : ∀ (k : ℕ) (o : Issued), issued[k]? = some o → Feeds w.caller n c o.token.token.context →
      o.purpose = .block ∧ w.Fine l o.token.token.old) :
    Inside n c l { w.putScope i s with issued := issued } := by
  set w' : Copies := { w.putScope i s with issued := issued }
  have hcall : w'.caller = w.caller := caller_putScope i s
  have hlive : ∀ j, w'.live j = if i = j then s.vars.live else w.live j := fun j => putScope_live i j s hi
  refine ⟨hok, ⟨h.exists'.1, Nat.le_trans h.exists'.2 (Nat.le_of_eq (putScope_length i s).symm)⟩,
    ?_, fun x hx k hk => ?_, ?_, ?_⟩
  · rw [hlive, if_neg hic]; exact h.live
  · have hx' : (w.putScope i s).copies[c]? = some x := hx
    rw [putScope_getElem?, if_neg hic] at hx'
    exact h.awaits x hx' k hk
  · rw [hcall]
    intro j hj
    rw [hlive]
    split
    · exact hf (by subst j; exact hj)
    · exact (h.hops j hj).mono hgrow
  · rw [hcall]
    intro k o hk hfo
    obtain ⟨hp, hfi⟩ := ht k o hk hfo
    exact ⟨hp, hfi.mono hgrow⟩

theorem issue (h : Inside n c l w) {i : ℕ} {p : Purpose} {e : GucsToken × Scope}
    (hi : i < w.copies.length) (hic : i ≠ c) (he : (w.scope i).Opens e) (hok : (w.issue i p e).Ok)
    (hf : Feeds w.caller n c i → p = .block ∧ e.2.store.isBlock e.1.live = true) :
    Inside n c l (w.issue i p e) := by
  refine h.put hi hic he.grows hok (fun hfi => ⟨e.1.live, he.current, .inr (hf hfi).2⟩) ?_
  intro k o hk hfo
  rcases issue_getElem? (i := i) hk with hk | ⟨-, rfl⟩
  · exact h.tokens k o hk hfo
  · rw [he.made, he.context] at hfo
    exact ⟨(hf hfo).1, by rw [he.old]; exact h.hops i hfo⟩

theorem use (h : Inside n c l w) {i k : ℕ} {o : Issued} {s : Scope} (hi : i < w.copies.length)
    (hic : i ≠ c) (hk : w.issued[k]? = some o) (hs : (w.scope i).Closes o.token s)
    (hok : (w.use i k s).Ok) (hf : Feeds w.caller n c i → o.token.token.context = i) :
    Inside n c l (w.use i k s) := by
  refine h.put hi hic hs.grows hok (fun hfi => ?_) fun j o' hj hfo => ?_
  · have hfine : w.Fine l s.vars.live := by
      rcases hs.current with hc | hc <;> rw [hc]
      · exact h.hops i hfi
      · exact (h.tokens k o hk (by rw [hf hfi]; exact hfi)).2
    obtain ⟨m, hm, hml | hmb⟩ := hfine
    · exact ⟨m, hm, .inl hml⟩
    · exact ⟨m, hm, .inr (by rw [hs.grows.isBlock (Store.lt_of_isBlock hmb)]; exact hmb)⟩
  · obtain ⟨o0, h0, hp, ht, -⟩ := use_getElem? (i := i) (s := s) hj
    rw [ht] at hfo ⊢
    rw [hp]
    exact h.tokens j o0 h0 hfo

theorem forkFrom (h : Inside n c l w) {i : ℕ} {f : Fork} (hi : i < w.copies.length)
    (hok : (w.forkFrom i f).Ok) : Inside n c l (w.forkFrom i f) := by
  have hlen := forkFrom_length (w := w) i f
  have hc : c < w.copies.length := Nat.lt_of_lt_of_le h.exists'.1 h.exists'.2
  have hcallNew : (w.forkFrom i f).caller w.copies.length = none ∨
      (w.forkFrom i f).caller w.copies.length = some i := by
    have hlt : w.copies.length < (w.forkFrom i f).copies.length := by omega
    rcases forkFrom_getElem? (List.getElem?_eq_getElem hlt) with ⟨c0, h0, -⟩ | ⟨-, -, hcall, -⟩
    · simp at h0
    · simpa only [caller, List.getElem?_eq_getElem hlt, Option.bind_some] using hcall
  have hcall : ∀ j, j ≠ w.copies.length → (w.forkFrom i f).caller j = w.caller j := by
    intro j hj
    by_cases hlt : j < w.copies.length
    · exact (live_forkFrom hlt).2
    · rw [caller, caller, List.getElem?_eq_none (by omega), List.getElem?_eq_none (by omega)]
  have hfeeds : ∀ j, Feeds (w.forkFrom i f).caller n c j →
      Feeds w.caller n c j ∨ (j = w.copies.length ∧ (i = c ∨ Feeds w.caller n c i)) := fun j hj =>
    hj.of_fork hcall hcallNew (by omega) fun j k hjk => by have := h.ok.caller_lt hjk; omega
  refine ⟨hok, ⟨h.exists'.1, by have := h.exists'.2; omega⟩, ?_, fun x hx k hk => ?_, fun j hj => ?_, ?_⟩
  · rw [(live_forkFrom hc).1]; exact h.live
  · rcases forkFrom_getElem? hx with ⟨c0, h0, -, -, ha⟩ | ⟨hcl, -⟩
    · rcases ha with ha | ⟨-, ha⟩ <;> rw [ha] at hk
      · exact h.awaits c0 h0 k hk
      · have := Option.some.inj hk
        have := h.exists'.2
        omega
    · omega
  · have hstore : w.store.Grows (w.forkFrom i f).store := by rw [forkFrom_store]; exact .refl _
    rcases hfeeds j hj with hfj | ⟨rfl, hfi⟩
    · rw [(live_forkFrom (hfj.lt h.ok)).1]
      exact (h.hops j hfj).mono hstore
    · have hlt : w.copies.length < (w.forkFrom i f).copies.length := by omega
      have hlive : (w.forkFrom i f).live w.copies.length = w.live i := by
        rcases forkFrom_getElem? (List.getElem?_eq_getElem hlt) with ⟨c0, h0, -⟩ | ⟨-, hl, -⟩
        · simp at h0
        · rw [live_of (List.getElem?_eq_getElem hlt), hl]
      rw [hlive]
      rcases hfi with rfl | hfi
      · exact ⟨l, h.live, .inl rfl⟩
      · exact (h.hops i hfi).mono hstore
  · rw [forkFrom_issued]
    intro k o hk hfo
    have hctx := h.ok.context k o hk
    rcases hfeeds _ hfo with hfo | ⟨hfo, -⟩
    · obtain ⟨hp, m, hm, hml⟩ := h.tokens k o hk hfo
      exact ⟨hp, m, hm, by rw [forkFrom_store]; exact hml⟩
    · omega

theorem handBack (h : Inside n c l w) {h' c' : ℕ} {b : Bool} {x y : Copy} (hx : w.copies[h']? = some x)
    (hc' : x.caller = some c') (hy : w.copies[c']? = some y) (hya : y.awaits = some h')
    (hok : (w.handBack h' c' b).Ok) : Inside n c l (w.handBack h' c' b) := by
  have hcall := caller_handBack (w := w) h' c' b
  have hxc : w.caller h' = some c' := by simp [caller, hx, hc']
  refine ⟨hok, ⟨h.exists'.1, by rw [handBack_length]; exact h.exists'.2⟩, ?_, fun z hz k hk => ?_, ?_, ?_⟩
  · by_cases hcc : c' = c
    · -- the hop was made since, so what it holds does not replace the block
      subst hcc
      obtain ⟨m, hm, hml⟩ := h.hops h' (.direct (h.awaits y hy h' hya) hxc)
      rw [live_handBack hy, h.live, hm]
      rcases hml with rfl | hmb
      · simp
      · simp [Store.pyNe, hmb]
    · rw [live_handBack_other (Ne.symm hcc)]; exact h.live
  · obtain ⟨z0, h0, -, ⟨-, -, ha⟩ | ⟨-, -, ha⟩⟩ := handBack_getElem? hz
    · simp [ha] at hk
    · exact h.awaits z0 h0 k (ha ▸ hk)
  · rw [hcall]
    intro j hj
    by_cases hjc : j = c'
    · subst hjc
      have hh' : Feeds w.caller n c h' :=
        .through (Nat.le_trans hj.le (Nat.le_of_lt (h.ok.caller_lt hxc).1)) hxc hj
      rw [live_handBack hy]
      split
      · exact h.hops h' hh'
      · exact h.hops j hj
    · rw [live_handBack_other hjc]; exact h.hops j hj
  · rw [hcall]; exact h.tokens

/-- Every step that leaves `c` alone, and only lets its hops enter and exit blocks,
leaves `c` inside its block. -/
theorem step (h : Inside n c l w) {st : HopStep} (hst : HopsOnlyBlocks n c w st) :
    Inside n c l (w.step st) := by
  have hok := h.ok.step st
  have hd := step_did w st
  generalize w.step st = w' at hd hok ⊢
  cases hd with
  | nothing => exact h
  | fork i f hr => exact h.forkFrom hr.lt hok
  | enter i v hr =>
    exact h.issue hr.lt hst (Scope.setContextGucs_opens (h.ok.scope i) v true) hok fun _ => ⟨rfl, by
      simp [Scope.setContextGucs, Scope.setVar, Var.set, Store.isBlock, Store.create]⟩
  | processRequest i v hr =>
    exact h.issue hr.lt hst.1 (Scope.setContextGucs_opens (h.ok.scope i) (some v) false) hok
      fun hf => absurd hf hst.2
  | hold i hr =>
    exact h.issue hr.lt hst.1 (Scope.holdContextGucs_opens (h.ok.scope i)) hok fun hf => absurd hf hst.2
  | exit k t hk hr =>
    exact h.use hr.lt (hst _ hk) hk (Scope.resetContextGucs_closes t _) hok fun _ => rfl
  | cleanUp i k t hk hr =>
    exact h.use hr.lt hst.1 hk (Scope.resetContextGucs_closes t _) hok fun hf => absurd hf hst.2
  | release k t hk hr =>
    exact h.use hr.lt (hst _ hk).1 hk (Scope.releaseContextGucs_closes t _) hok fun _ => rfl
  | comesBack h' c' b x y hx hc hy ha => exact h.handBack hx hc hy ha hok

end Inside

/-! ## Results -/

theorem run_ok (n : ℕ) (sts : List HopStep) : (run step (start n) sts).Ok :=
  run_keeps (fun _ st h => h.step st) (start_ok n) sts

/-- **A caller keeps its block.** While `c` only makes calls and its hops only enter and
exit blocks, it keeps its holder. -/
theorem block_kept (hw : w.Ok) {c l : ℕ} (hr : w.Runs c) (hl : w.live c = some l) {sts : List HopStep}
    (hs : Along step (HopsOnlyBlocks w.copies.length c) w sts) :
    (run step w sts).live c = some l := by
  have hfeeds : ∀ h, ¬Feeds w.caller w.copies.length c h := fun h hf => by
    have := hf.lt hw
    have := hf.le
    omega
  have hin : Inside w.copies.length c l w :=
    ⟨hw, ⟨hr.lt, Nat.le_refl _⟩, hl, fun x hx h hh => by
      obtain ⟨y, hy, ha, -⟩ := hr
      rw [hy] at hx
      obtain rfl := Option.some.inj hx
      simp [ha] at hh, fun h hf => absurd hf (hfeeds h), fun k o _ hf => absurd hf (hfeeds _)⟩
  exact (run_keeps_along (I := Inside w.copies.length c l) (fun _ _ h hst => h.step hst) hin hs).live

/-- Its values stay the same while the block lives. -/
theorem contextGucs_kept {c l : ℕ} (hw : w.Ok) (hl : w.live c = some l) {sts : List HopStep}
    (hl' : (run step w sts).live c = some l) (ha : (run step w sts).store.isAlive l = true) :
    (run step w sts).contextGucs c = w.contextGucs c := by
  have hv := (run_grows w sts).valuesOf (hw.live_lt hl) ha
  simp only [contextGucs, Scope.contextGucs]
  rw [show ((run step w sts).scope c).vars.live = some l from hl',
    show (w.scope c).vars.live = some l from hl]
  exact hv

/-- Blocks of copies made since there were `n`: their holders are newer than `l`. -/
structure Newer (n l : ℕ) (w : Copies) : Prop where
  ok : w.Ok
  alive : w.store.isAlive l = true
  tokens : ∀ (k : ℕ) (o : Issued), w.issued[k]? = some o → n ≤ o.token.token.context → l < o.token.live

/-- The exit of a newer block leaves an older holder alone. -/
theorem resetContextGucs_older {s : Scope} {t : GucsToken} {l : ℕ}
    (hu : t.token.id ∉ s.store.ledger.used) (hc : t.token.context = s.context) (hl : l < t.live) :
    (Scope.resetContextGucs t s).2.store.isAlive l = s.store.isAlive l := by
  rw [Scope.resetContextGucs_ok hu hc]
  simp only [Store.isAlive_endIfNewer, Scope.useToken_isAlive, Store.isAlive_endLive]
  simp [show t.live ≠ l from by omega, show ¬t.live < l from by omega]

theorem Newer.step {n l : ℕ} (h : Newer n l w) {st : HopStep}
    (hst : OnlyNewBlocks n w st) : Newer n l (w.step st) := by
  have hok := h.ok.step st
  have hlt := Store.lt_of_isAlive h.alive
  have hd := step_did w st
  generalize w.step st = w' at hd hok ⊢
  cases hd with
  | nothing => exact h
  | fork i f hr =>
    exact ⟨hok, by rw [forkFrom_store]; exact h.alive, by rw [forkFrom_issued]; exact h.tokens⟩
  | enter i v hr =>
    refine ⟨hok, ?_, fun k o hk ho => ?_⟩
    · have : (w.store.create v true).isAlive l = true := by
        rw [Store.isAlive, Store.create_getElem?, if_neg (by omega)]; exact h.alive
      exact this
    · rcases issue_getElem? hk with hk | ⟨-, rfl⟩
      · exact h.tokens k o hk ho
      · exact hlt
  | processRequest => exact absurd hst id
  | hold => exact absurd hst id
  | cleanUp => exact absurd hst id
  | release => exact absurd hst id
  | exit k t hk hr =>
    refine ⟨hok, ?_, fun j o hj ho => ?_⟩
    · have := resetContextGucs_older (s := w.scope t.token.context) (h.ok.fresh k _ hk rfl) rfl
        (h.tokens k _ hk (hst _ hk))
      exact this.trans h.alive
    · obtain ⟨o0, h0, -, ht, -⟩ := use_getElem? hj
      rw [ht] at ho ⊢
      exact h.tokens j o0 h0 ho
  | comesBack => exact ⟨hok, h.alive, h.tokens⟩

/-- **Hops do not end the block** around their caller. -/
theorem block_lives (hw : w.Ok) {l : ℕ} (ha : w.store.isAlive l = true) {sts : List HopStep}
    (hs : Along step (OnlyNewBlocks w.copies.length) w sts) :
    (run step w sts).store.isAlive l = true := by
  have h0 : Newer w.copies.length l w := ⟨hw, ha, fun k o hk ho => by
    have := hw.context k o hk; omega⟩
  exact (run_keeps_along (I := Newer w.copies.length l) (fun _ _ h hst => h.step hst) h0 hs).alive

/-- The end of a request puts back the holder it found, which is older than any holder
that `process_request` set during it. -/
theorem release_puts_back (hw : w.Ok) {k : ℕ} {t : GucsToken} (hk : w.issued[k]? = some ⟨.hold, t, false⟩)
    (hr : w.Runs t.token.context) : (w.step (.release k)).live t.token.context = t.token.old ∧
      ∀ (j : ℕ) (o : Issued), k < j → w.issued[j]? = some o → o.purpose = .processRequest →
        (w.step (.release k)).live t.token.context ≠ some o.token.live := by
  have hlive : (w.step (.release k)).live t.token.context = t.token.old := by
    simp only [step, hk, if_pos hr]
    have := putScope_live (w := w) t.token.context t.token.context
      (Scope.releaseContextGucs t (w.scope t.token.context)).2 hr.lt
    rw [if_pos rfl, Scope.releaseContextGucs_ok (hw.fresh k _ hk rfl) rfl] at this
    rw [Scope.releaseContextGucs_ok (hw.fresh k _ hk rfl) rfl]
    exact this
  refine ⟨hlive, fun j o hkj hj hp => ?_⟩
  rw [hlive]
  intro hold
  have := ((hw.sorted k j _ o hkj hk hj).2 (by rw [hp]; decide)).2 _ hold
  exact absurd this (Nat.lt_irrefl _)

/-- **A block that has ended is over in every copy.** -/
theorem block_over (hw : w.Ok) {k i : ℕ} {o : Issued} (hk : w.issued[k]? = some o) (hd : o.done = true)
    (hp : o.purpose ≠ .hold) (hl : w.live i = some o.token.live) : w.contextGucs i = none := by
  have := Store.valuesOf_ended (hw.ended k o hk hd hp)
  simp only [contextGucs, Scope.contextGucs]
  rw [show (w.scope i).vars.live = some o.token.live from hl]
  exact this

/-- What hops may and may not do to their callers, from the state `w` on. -/
structure HandsBackSafely (w : Copies) : Prop where
  /-- A caller that holds a holder gets no other block's. -/
  never_replaces : ∀ h c b l l', w.caller h = some c → w.live c = some l →
    (w.step (.comesBack h b)).live c = some l' → (w.step (.comesBack h b)).store.isBlock l' = true → l' = l
  /-- A caller whose hops only enter and exit blocks keeps its holder, and the block's
  values as long as no copy that is there already ends the block. -/
  keeps_block : ∀ c l, w.Runs c → w.live c = some l → w.store.isAlive l = true → ∀ sts,
    Along step (HopsOnlyBlocks w.copies.length c) w sts → (run step w sts).live c = some l ∧
      ((run step w sts).store.isAlive l = true → (run step w sts).contextGucs c = w.contextGucs c) ∧
      (Along step (OnlyNewBlocks w.copies.length) w sts →
        (run step w sts).contextGucs c = w.contextGucs c)
  /-- The holder of `process_request` reaches the hop's caller. -/
  processRequest_reaches : ∀ h c b x y, w.copies[h]? = some x → x.caller = some c → x.returned = false →
    w.copies[c]? = some y → y.awaits = some h → (b = true ∨ x.awaits = none) →
    ∀ (k : ℕ) (o : Issued), w.issued[k]? = some o → o.purpose = .processRequest →
      w.live h = some o.token.live → (w.step (.comesBack h b)).live c = some o.token.live
  /-- The end of a request puts back what it found, not a holder set during it. -/
  request_over : ∀ (k : ℕ) (t : GucsToken), w.issued[k]? = some ⟨.hold, t, false⟩ →
    w.Runs t.token.context → (w.step (.release k)).live t.token.context = t.token.old ∧
      ∀ (j : ℕ) (o : Issued), k < j → w.issued[j]? = some o → o.purpose = .processRequest →
        (w.step (.release k)).live t.token.context ≠ some o.token.live
  /-- No copy has the values of a block, or of a request's context, that has ended. -/
  over_everywhere : ∀ (k : ℕ) (o : Issued), w.issued[k]? = some o → o.done = true → o.purpose ≠ .hold →
    ∀ i, w.live i = some o.token.live → w.contextGucs i = none

/-- **Hops hand back safely**, in every state that any steps of any copies lead to. -/
theorem hops_hand_back_safely (n : ℕ) (sts : List HopStep) : HandsBackSafely (run step (start n) sts) := by
  have hw := run_ok n sts
  generalize run step (start n) sts = w at hw ⊢
  constructor
  · intro h c b l l' hc hl hl' hb
    have hd := step_did w (.comesBack h b)
    generalize w.step (.comesBack h b) = w' at hd hl' hb
    cases hd with
    | nothing => rw [hl] at hl'; exact (Option.some.inj hl').symm
    | comesBack _ c' _ x y hx hc' hy ha =>
      have : c' = c := by simpa [caller, hx, hc'] using hc
      subst this
      exact handBack_keeps_holder hy hl hl' hb
  · intro c l hr hl ha sts hs
    have hlive := block_kept hw hr hl hs
    exact ⟨hlive, fun ha' => contextGucs_kept hw hl hlive ha',
      fun hn => contextGucs_kept hw hl hlive (block_lives hw ha hn)⟩
  · intro h c b x y hx hc hret hy ha hb k o hk hp hl
    have hblock : w.store.isBlock o.token.live = false := by
      rw [hw.kind k o hk (by rw [hp]; decide), hp]; rfl
    have hstep : w.step (.comesBack h b) = w.handBack h c b := by
      obtain ⟨v, cl, aw, r⟩ := x
      simp only at hc hret hb
      subst hc; subst hret
      simp only [step, hx]
      exact if_pos ⟨by simp [hy, ha], hb⟩
    rw [hstep]
    exact handBack_replaces hy hl hblock
  · exact fun k t hk hr => release_puts_back hw hk hr
  · exact fun k o hk hd hp i hl => block_over hw hk hd hp hl

end Copies

end RlsTenants
