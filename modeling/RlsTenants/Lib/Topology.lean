import Mathlib.Data.List.Induction
import Mathlib.Data.List.Nodup
import Mathlib.Logic.Relation

/-!
# Dependency orders

Lists that respect a dependency: what a member depends on stands before it.

* `insertNew`, `update`: an insertion-ordered set, as a dictionary's keys are.
* **`Ordered.merge`**: the lists merged one into another respect the dependency if each of
  them does.
* `Ordered.before_of_transGen`: what depends on a member, however far, stands after it.
-/

namespace Topology

variable {α : Type}

/-- `a` stands before `b`. -/
def Before (l : List α) (a b : α) : Prop := ∃ x y, l = x ++ b :: y ∧ a ∈ x

/-- Every member comes after all that it depends on. -/
def Ordered (dep : α → α → Prop) (l : List α) : Prop := ∀ b ∈ l, ∀ a, dep a b → Before l a b

/-- A list without repetitions splits at a member in one way. -/
theorem split_unique {x x' y y' : List α} {b : α} (hnodup : (x ++ b :: y).Nodup) (h : x ++ b :: y = x' ++ b :: y') :
    x = x' := by
  induction x generalizing x' with
  | nil =>
    cases x' with
    | nil => rfl
    | cons c x' =>
      -- then `b` stands twice
      obtain ⟨rfl, rfl⟩ := List.cons.inj h
      simp at hnodup
  | cons c x ih =>
    rw [List.cons_append, List.nodup_cons] at hnodup
    cases x' with
    | nil =>
      obtain ⟨rfl, -⟩ := List.cons.inj h
      simp at hnodup
    | cons c' x' =>
      obtain ⟨rfl, htail⟩ := List.cons.inj h
      rw [ih hnodup.2 htail]

theorem Before.append {l : List α} {a b : α} (h : Before l a b) (more : List α) : Before (l ++ more) a b := by
  obtain ⟨x, y, rfl, ha⟩ := h
  exact ⟨x, y ++ more, by simp, ha⟩

section Merge

variable [DecidableEq α] {dep : α → α → Prop}

/-- A new key goes to the end. -/
def insertNew (l : List α) (a : α) : List α := if l.contains a then l else l ++ [a]

/-- `d.update(dict.fromkeys(new))`. -/
def update (l new : List α) : List α := new.foldl insertNew l

/-- The lists merged one after another. -/
def merge (lists : List (List α)) : List α := lists.foldl update []

theorem mem_insertNew {l : List α} {a b : α} : b ∈ insertNew l a ↔ b ∈ l ∨ b = a := by
  unfold insertNew
  split
  · rename_i ha
    constructor
    · exact .inl
    · rintro (hb | rfl)
      · exact hb
      · exact List.contains_iff_mem.mp ha
  · simp

theorem nodup_insertNew {l : List α} (h : l.Nodup) (a : α) : (insertNew l a).Nodup := by
  unfold insertNew
  split
  · exact h
  · rename_i ha
    rw [List.nodup_append]
    refine ⟨h, List.nodup_singleton a, ?_⟩
    intro b hb c hc
    obtain rfl := List.mem_singleton.mp hc
    rintro rfl
    exact ha (List.contains_iff_mem.mpr hb)

/-- A key whose dependencies are there keeps the order. -/
theorem Ordered.insertNew {l : List α} (h : Ordered dep l) {b : α} (hb : ∀ a, dep a b → a ∈ l) :
    Ordered dep (insertNew l b) := by
  unfold Topology.insertNew
  split
  · exact h
  · intro c hc a ha
    rcases List.mem_append.mp hc with hc | hc
    · exact (h c hc a ha).append [b]
    · obtain rfl := List.mem_singleton.mp hc
      exact ⟨l, [], rfl, hb a ha⟩

theorem mem_update {l new : List α} {b : α} : b ∈ update l new ↔ b ∈ l ∨ b ∈ new := by
  unfold update
  induction new generalizing l with
  | nil => simp
  | cons a new ih => rw [List.foldl_cons, ih, mem_insertNew, List.mem_cons, or_assoc]

theorem nodup_update {l : List α} (h : l.Nodup) (new : List α) : (update l new).Nodup := by
  unfold update
  induction new generalizing l with
  | nil => exact h
  | cons a new ih => exact ih (nodup_insertNew h a)

/-- A list that respects the dependency is merged in its own order: when a key of it comes,
what it depends on is there. -/
theorem Ordered.update {l : List α} (h : Ordered dep l) {new : List α} (hnew : Ordered dep new) (hnodup : new.Nodup) :
    Ordered dep (update l new) := by
  -- the keys of `new` so far have been merged
  suffices hsuffix : ∀ (rest done merged : List α), new = done ++ rest → Ordered dep merged → (∀ a ∈ done, a ∈ merged) →
      Ordered dep (rest.foldl Topology.insertNew merged) from
    hsuffix new [] l rfl h (by simp)
  intro rest
  induction rest with
  | nil =>
    intro done merged _ hmerged _
    exact hmerged
  | cons b rest ih =>
    intro done merged hsplit hmerged hdone
    have hthere : ∀ a, dep a b → a ∈ merged := by
      intro a ha
      obtain ⟨x, y, hxy, hax⟩ := hnew b (by simp [hsplit]) a ha
      have hx : x = done := split_unique (hxy ▸ hnodup) (hxy ▸ hsplit)
      exact hdone a (hx ▸ hax)
    apply ih (done ++ [b]) (Topology.insertNew merged b) (by simp [hsplit]) (hmerged.insertNew hthere)
    intro a ha
    rw [mem_insertNew]
    rcases List.mem_append.mp ha with ha | ha
    · exact .inl (hdone a ha)
    · exact .inr (List.mem_singleton.mp ha)

theorem mem_merge {lists : List (List α)} {b : α} : b ∈ merge lists ↔ ∃ l ∈ lists, b ∈ l := by
  have hfrom : ∀ merged : List α, b ∈ lists.foldl Topology.update merged ↔ b ∈ merged ∨ ∃ l ∈ lists, b ∈ l := by
    induction lists with
    | nil => simp
    | cons l lists ih =>
      intro merged
      rw [List.foldl_cons, ih, mem_update, List.exists_mem_cons_iff, or_assoc]
  rw [merge, hfrom]
  simp

theorem nodup_merge (lists : List (List α)) : (merge lists).Nodup := by
  have hfrom : ∀ merged : List α, merged.Nodup → (lists.foldl Topology.update merged).Nodup := by
    induction lists with
    | nil =>
      intro merged h
      exact h
    | cons l lists ih =>
      intro merged h
      exact ih _ (nodup_update h l)
  exact hfrom [] List.nodup_nil

/-- **Merging keeps the order.** -/
theorem Ordered.merge {lists : List (List α)} (h : ∀ l ∈ lists, Ordered dep l ∧ l.Nodup) : Ordered dep (merge lists) := by
  have hfrom : ∀ merged : List α, Ordered dep merged → Ordered dep (lists.foldl Topology.update merged) := by
    induction lists with
    | nil =>
      intro merged hmerged
      exact hmerged
    | cons l lists ih =>
      intro merged hmerged
      obtain ⟨hl, hnodup⟩ := h l List.mem_cons_self
      exact ih (fun l' hl' => h l' (List.mem_cons_of_mem _ hl')) _ (hmerged.update hl hnodup)
  exact hfrom [] (by simp [Ordered])

end Merge

/-- Without repetitions, a list stands in its own order. -/
theorem pairwise_before {l : List α} (hnodup : l.Nodup) : l.Pairwise (Before l) := by
  induction l using List.reverseRecOn with
  | nil => exact .nil
  | append_singleton l b ih =>
    rw [List.pairwise_append]
    refine ⟨(ih (List.nodup_append.mp hnodup).1).imp fun h => h.append [b], List.pairwise_singleton _ _, ?_⟩
    intro a ha c hc
    obtain rfl := List.mem_singleton.mp hc
    exact ⟨l, [], rfl, ha⟩

/-! ## Far dependencies -/

variable {dep : α → α → Prop}

/-- Standing before is transitive where no key stands twice. -/
theorem Before.trans {l : List α} (hnodup : l.Nodup) {a b c : α} (hab : Before l a b) (hbc : Before l b c) : Before l a c := by
  obtain ⟨x, y, hl, ha⟩ := hab
  obtain ⟨x', y', hl', hb⟩ := hbc
  refine ⟨x', y', hl', ?_⟩
  obtain ⟨u, v, rfl⟩ := List.append_of_mem hb
  -- both splits are around the one place of `b`
  have hx : x = u := by
    apply split_unique (hl ▸ hnodup)
    rw [← hl, hl', List.append_assoc, List.cons_append]
  rw [hx] at ha
  exact List.mem_append_left _ ha

theorem Before.irrefl {l : List α} (hnodup : l.Nodup) (a : α) : ¬ Before l a a := by
  rintro ⟨x, y, rfl, ha⟩
  rw [List.nodup_append] at hnodup
  exact hnodup.2.2 a ha a List.mem_cons_self rfl

theorem Before.mem {l : List α} {a b : α} (h : Before l a b) : a ∈ l ∧ b ∈ l := by
  obtain ⟨x, y, rfl, ha⟩ := h
  exact ⟨List.mem_append_left _ ha, by simp⟩

/-- **What depends on a member stands after it.** -/
theorem Ordered.before_of_transGen {l : List α} (h : Ordered dep l) (hnodup : l.Nodup) {a b : α}
    (hdep : Relation.TransGen dep a b) (hb : b ∈ l) : Before l a b := by
  induction hdep with
  | single hab => exact h _ hb _ hab
  | tail hac hcb ih =>
    have hlast := h _ hb _ hcb
    exact (ih hlast.mem.1).trans hnodup hlast

end Topology
