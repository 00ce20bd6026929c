import Mathlib.Data.List.Basic

/-!
# Generators

A generator over a thread: `next` gives a row, stops or raises, and may change the thread.

* `Views` says what a generator has yet to give: rows, and then an error or the end. Its
  thread does not matter.
* `chunk` pulls up to `size` rows at once, and loses them if a pull raises.
* `chunked` pulls chunk by chunk, each chunk inside a block, and hands the rows out between
  the blocks. `Views.chunked` says which rows: those of the whole chunks before an error,
  and all rows without one (`cut`).
-/

namespace Generator

variable {σ τ α ε : Type}

/-- What a pull gives. -/
inductive Pull (α ε : Type)
  | row (a : α)
  | stop
  | raised (e : ε)
deriving DecidableEq

/-- A generator: its states, and what `next` makes of one on a thread. -/
structure Gen (σ τ α ε : Type) where
  next : σ → τ → Pull α ε × σ × τ

/-! ## What is yet to come -/

/-- Rows, and the error raised after them, if any. -/
structure Rest (α ε : Type) where
  rows : List α
  error : Option ε
deriving DecidableEq

/-- One pull: what it gives, and what is left. A generator that has raised is at its end. -/
def Rest.pull : Rest α ε → Pull α ε × Rest α ε
  | ⟨a :: rows, error⟩ => (.row a, ⟨rows, error⟩)
  | ⟨[], some e⟩ => (.raised e, ⟨[], none⟩)
  | ⟨[], none⟩ => (.stop, ⟨[], none⟩)

/-- The first pulls. -/
def Rest.pulls : ℕ → Rest α ε → List (Pull α ε)
  | 0, _ => []
  | n + 1, rest => rest.pull.1 :: rest.pull.2.pulls n

/-- `view` says what each state of the generator has yet to give. -/
def Gen.Views (g : Gen σ τ α ε) (view : σ → Rest α ε) : Prop :=
  ∀ s t, (g.next s t).1 = (view s).pull.1 ∧ view (g.next s t).2.1 = (view s).pull.2

/-! ## Chunks -/

/-- Pull up to `size` rows. -/
def Gen.chunk (g : Gen σ τ α ε) : ℕ → σ → τ → Except ε (List α) × σ × τ
  | 0, s, t => (.ok [], s, t)
  | size + 1, s, t =>
    match g.next s t with
    | (.row a, s, t) =>
      let (rows, s, t) := g.chunk size s t
      (rows.map (a :: ·), s, t)
    | (.stop, s, t) => (.ok [], s, t)
    | (.raised e, s, t) => (.error e, s, t)

/-- What a chunk is of what is yet to come. -/
def Rest.chunk (size : ℕ) (rest : Rest α ε) : Except ε (List α) :=
  match rest.error with
  | some e => if rest.rows.length < size then .error e else .ok (rest.rows.take size)
  | none => .ok (rest.rows.take size)

/-- What is left after it. -/
def Rest.drop (size : ℕ) (rest : Rest α ε) : Rest α ε :=
  ⟨rest.rows.drop size, if rest.rows.length < size then none else rest.error⟩

theorem Gen.Views.chunk {g : Gen σ τ α ε} {view : σ → Rest α ε} (h : g.Views view) (size : ℕ) (s : σ) (t : τ) :
    (g.chunk size s t).1 = (view s).chunk size ∧ view (g.chunk size s t).2.1 = (view s).drop size := by
  induction size generalizing s t with
  | zero =>
    unfold Gen.chunk Rest.chunk Rest.drop
    cases hv : view s with
    | mk rows error => cases error <;> simp
  | succ size ih =>
    obtain ⟨hpull, hleft⟩ := h s t
    obtain ⟨hrows, hrest⟩ := ih (g.next s t).2.1 (g.next s t).2.2
    unfold Gen.chunk
    rcases hv : view s with ⟨rows, error⟩
    rw [hv] at hpull hleft
    rw [hleft] at hrows hrest
    -- by the next row, or the end
    rcases rows with _ | ⟨a, rows⟩
    · rcases error with _ | e
      · rcases hn : g.next s t with ⟨p, s', t'⟩
        rw [hn] at hpull hleft
        obtain rfl : p = .stop := hpull
        exact ⟨by simp [Rest.chunk], hleft.trans (by simp [Rest.drop, Rest.pull])⟩
      · rcases hn : g.next s t with ⟨p, s', t'⟩
        rw [hn] at hpull hleft
        obtain rfl : p = .raised e := hpull
        exact ⟨by simp [Rest.chunk], hleft.trans (by simp [Rest.drop, Rest.pull])⟩
    · rcases hn : g.next s t with ⟨p, s', t'⟩
      rw [hn] at hpull hrows hrest
      obtain rfl : p = .row a := hpull
      constructor
      · show Except.map (a :: ·) (g.chunk size s' t').1 = _
        rw [hrows]
        unfold Rest.chunk Rest.pull
        cases error with
        | none => simp [Except.map]
        | some e =>
          by_cases hlen : rows.length < size
          · simp [hlen, Except.map]
          · simp [hlen, Except.map]
      · show view (g.chunk size s' t').2.1 = _
        rw [hrest]
        unfold Rest.drop Rest.pull
        simp

/-! ## Handing chunks out -/

/-- A generator of chunks: about to pull one, handing one out (`full` if it has `size`
rows), or at its end. -/
inductive Chunked (σ α : Type)
  | fetch (s : σ)
  | hand (rows : List α) (full : Bool) (s : σ)
  | done

section Chunked

variable (g : Gen σ τ α ε) (size : ℕ) (block : (τ → Except ε (List α) × σ × τ) → τ → Except ε (List α) × σ × τ)

/-- Pull a chunk inside a block, and hand its first row out. -/
def Gen.fetch (s : σ) (t : τ) : Pull α ε × Chunked σ α × τ :=
  match block (g.chunk size s) t with
  | (.error e, _, t) => (.raised e, .done, t)
  | (.ok [], _, t) => (.stop, .done, t)
  | (.ok (a :: rows), s, t) => (.row a, .hand rows (!decide (rows.length + 1 < size)) s, t)

/-- Pull chunk by chunk, each inside a block, and hand the rows out; a chunk that is not
full is the last. -/
def Gen.chunked : Gen (Chunked σ α) τ α ε where
  next
    | .fetch s, t => g.fetch size block s t
    | .hand (a :: rows) full s, t => (.row a, .hand rows full s, t)
    | .hand [] true s, t => g.fetch size block s t
    | .hand [] false _, t => (.stop, .done, t)
    | .done, t => (.stop, .done, t)

end Chunked

/-- The rows of the whole chunks before an error, and all rows without one. -/
def Rest.cut (size : ℕ) (rest : Rest α ε) : Rest α ε :=
  match rest.error with
  | some e => ⟨rest.rows.take (rest.rows.length / size * size), some e⟩
  | none => rest

/-- What a generator of chunks has yet to give. -/
def Chunked.view (view : σ → Rest α ε) (size : ℕ) : Chunked σ α → Rest α ε
  | fetch s => (view s).cut size
  | hand rows true s => ⟨rows ++ ((view s).cut size).rows, ((view s).cut size).error⟩
  | hand rows false _ => ⟨rows, none⟩
  | done => ⟨[], none⟩

theorem Rest.cut_none {size : ℕ} {rest : Rest α ε} (h : rest.error = none) : rest.cut size = rest := by
  unfold Rest.cut
  rw [h]

theorem Rest.cut_short {size : ℕ} {rest : Rest α ε} {e : ε} (h : rest.error = some e)
    (hlen : rest.rows.length < size) : rest.cut size = ⟨[], some e⟩ := by
  unfold Rest.cut
  rw [h]
  have hdiv : rest.rows.length / size = 0 := Nat.div_eq_of_lt hlen
  simp [hdiv]

/-- A full chunk is kept whole. -/
theorem Rest.cut_full {size : ℕ} {rest : Rest α ε} (hsize : 0 < size) (hlen : size ≤ rest.rows.length) :
    rest.cut size = ⟨rest.rows.take size ++ ((rest.drop size).cut size).rows, ((rest.drop size).cut size).error⟩ := by
  have hleft : rest.drop size = ⟨rest.rows.drop size, rest.error⟩ := by
    unfold Rest.drop
    rw [if_neg (by omega)]
  rw [hleft]
  rcases rest with ⟨rows, _ | e⟩
  · simp [Rest.cut]
  · have hdiv : rows.length / size * size = size + (rows.length - size) / size * size := by
      rw [Nat.div_eq_sub_div hsize hlen, Nat.add_mul, Nat.one_mul, Nat.add_comm]
    unfold Rest.cut
    simp only [List.length_drop, hdiv, List.take_add]

/-- Cutting twice is cutting once. -/
theorem Rest.cut_cut (size : ℕ) (rest : Rest α ε) : (rest.cut size).cut size = rest.cut size := by
  rcases rest with ⟨rows, _ | e⟩
  · rfl
  · have hle : rows.length / size * size ≤ rows.length := Nat.div_mul_le_self ..
    unfold Rest.cut
    simp only [List.length_take, Nat.min_eq_left hle]
    rcases Nat.eq_zero_or_pos size with rfl | hsize
    · simp
    · rw [Nat.mul_div_cancel _ hsize, List.take_take, Nat.min_self]

/-- The block runs its body once, on some thread. -/
def Transparent {β : Type} (block : (τ → β × σ × τ) → τ → β × σ × τ) : Prop :=
  ∀ body t, ∃ t', (block body t).1 = (body t').1 ∧ (block body t).2.1 = (body t').2.1

section

variable {g : Gen σ τ α ε} {view : σ → Rest α ε} {size : ℕ}
  {block : (τ → Except ε (List α) × σ × τ) → τ → Except ε (List α) × σ × τ}

theorem Gen.Views.fetch (h : g.Views view) (hsize : 0 < size) (hblock : Transparent block) (s : σ) (t : τ) :
    (g.fetch size block s t).1 = ((view s).cut size).pull.1 ∧
      Chunked.view view size (g.fetch size block s t).2.1 = ((view s).cut size).pull.2 := by
  obtain ⟨t', hresult, hstate⟩ := hblock (g.chunk size s) t
  obtain ⟨hchunk, hleft⟩ := h.chunk size s t'
  rw [hchunk] at hresult
  rw [← hstate] at hleft
  unfold Gen.fetch
  rcases hb : block (g.chunk size s) t with ⟨result, s', t''⟩
  rw [hb] at hresult hleft
  dsimp only at hresult hleft
  by_cases hlen : (view s).rows.length < size
  · cases herror : (view s).error with
    | some e =>
      -- the error comes within this chunk, and takes its rows along
      obtain rfl : result = .error e := by rw [hresult, Rest.chunk, herror]; simp [hlen]
      rw [Rest.cut_short herror hlen]
      exact ⟨rfl, rfl⟩
    | none =>
      -- the last chunk
      obtain rfl : result = .ok (view s).rows := by
        rw [hresult, Rest.chunk, herror]
        simp [List.take_of_length_le (Nat.le_of_lt hlen)]
      rw [Rest.cut_none herror]
      rcases hv : view s with ⟨_ | ⟨a, rows⟩, error⟩
      · rw [hv] at herror
        obtain rfl : error = none := herror
        exact ⟨rfl, rfl⟩
      · rw [hv] at herror hlen
        obtain rfl : error = none := herror
        have hlen' : rows.length + 1 < size := hlen
        exact ⟨rfl, by simp [Chunked.view, Rest.pull, hlen']⟩
  · -- a full chunk
    have hle : size ≤ (view s).rows.length := by omega
    obtain rfl : result = .ok ((view s).rows.take size) := by
      rw [hresult, Rest.chunk]
      cases (view s).error with
      | none => rfl
      | some e => exact if_neg hlen
    rw [Rest.cut_full hsize hle, ← hleft]
    have htake : ((view s).rows.take size).length = size := by
      rw [List.length_take]
      omega
    rcases hrows : (view s).rows.take size with _ | ⟨a, rows⟩
    · rw [hrows, List.length_nil] at htake
      omega
    · rw [hrows, List.length_cons] at htake
      have hfull : ¬rows.length + 1 < size := by omega
      exact ⟨rfl, by simp [Chunked.view, Rest.pull, hfull]⟩

/-- **Chunks.** What a generator of chunks gives: the whole chunks before an error. -/
theorem Gen.Views.chunked (h : g.Views view) (hsize : 0 < size) (hblock : Transparent block) :
    (g.chunked size block).Views (Chunked.view view size) := by
  intro s t
  cases s with
  | fetch s => exact h.fetch hsize hblock s t
  | done => exact ⟨rfl, rfl⟩
  | hand rows full s =>
    cases rows with
    | cons a rows => cases full <;> exact ⟨rfl, rfl⟩
    | nil =>
      cases full with
      | true => exact h.fetch hsize hblock s t
      | false => exact ⟨rfl, rfl⟩

/-! ## Calls -/

/-- The calls of `next`, each on the thread that the consumer has made of the one before:
what each gives, and the threads before and after it. -/
def Gen.calls (g : Gen σ τ α ε) : List (τ → τ) → σ → τ → List (Pull α ε × τ × τ)
  | [], _, _ => []
  | consume :: rest, s, t =>
    ((g.next s (consume t)).1, consume t, (g.next s (consume t)).2.2) ::
      g.calls rest (g.next s (consume t)).2.1 (g.next s (consume t)).2.2

theorem Gen.Views.calls (h : g.Views view) (consumer : List (τ → τ)) (s : σ) (t : τ) :
    (g.calls consumer s t).map Prod.fst = (view s).pulls consumer.length := by
  induction consumer generalizing s t with
  | nil => rfl
  | cons consume rest ih =>
    obtain ⟨hpull, hleft⟩ := h s (consume t)
    rw [Gen.calls, List.map_cons, ih, hleft, hpull]
    rfl

/-- Every call relates the threads before and after it. -/
def Gen.Keeps (g : Gen σ τ α ε) (R : τ → τ → Prop) : Prop := ∀ s t, R t (g.next s t).2.2

theorem Gen.Keeps.calls {R : τ → τ → Prop} (h : g.Keeps R) (consumer : List (τ → τ)) (s : σ) (t : τ) :
    ∀ call ∈ g.calls consumer s t, R call.2.1 call.2.2 := by
  induction consumer generalizing s t with
  | nil => simp [Gen.calls]
  | cons consume rest ih =>
    intro call hcall
    rcases List.mem_cons.1 hcall with rfl | hcall
    · exact h s (consume t)
    · exact ih _ _ call hcall

theorem Gen.Keeps.chunk {R : τ → τ → Prop} (h : g.Keeps R) (hrefl : ∀ t, R t t)
    (htrans : ∀ {t t' t''}, R t t' → R t' t'' → R t t'') (size : ℕ) (s : σ) (t : τ) :
    R t (g.chunk size s t).2.2 := by
  induction size generalizing s t with
  | zero => exact hrefl t
  | succ size ih =>
    have hnext := h s t
    unfold Gen.chunk
    rcases hn : g.next s t with ⟨p, s', t'⟩
    rw [hn] at hnext
    cases p with
    | row a => exact htrans hnext (ih s' t')
    | stop => exact hnext
    | raised e => exact hnext

/-- A generator of chunks keeps what its block keeps. -/
theorem Gen.Keeps.chunked {R R' : τ → τ → Prop} (h : g.Keeps R) (hrefl : ∀ t, R t t)
    (htrans : ∀ {t t' t''}, R t t' → R t' t'' → R t t'') (hrefl' : ∀ t, R' t t)
    (hblock : ∀ body, (∀ t, R t (body t).2.2) → ∀ t, R' t (block body t).2.2) :
    (g.chunked size block).Keeps R' := by
  have hfetch : ∀ s t, R' t (g.fetch size block s t).2.2 := by
    intro s t
    have hb := hblock (g.chunk size s) (h.chunk hrefl htrans size s) t
    unfold Gen.fetch
    rcases hr : block (g.chunk size s) t with ⟨_ | _ | ⟨a, rows⟩, s', t'⟩ <;>
      · rw [hr] at hb
        exact hb
  intro s t
  cases s with
  | fetch s => exact hfetch s t
  | done => exact hrefl' t
  | hand rows full s =>
    cases rows with
    | cons a rows => cases full <;> exact hrefl' t
    | nil =>
      cases full with
      | true => exact hfetch s t
      | false => exact hrefl' t

end

end Generator
