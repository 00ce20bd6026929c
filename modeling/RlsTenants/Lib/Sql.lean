import Mathlib.Logic.Basic
import Mathlib.Data.List.Basic

/-!
# SQL conditions

Conditions over the rows of tables and the session's settings, as a server evaluates
them for each row. `ω` are names as they are written, `ν` names as the server stores
them, `κ` the values of columns.

* Truth has three values (`Truth`); an expression that fails to cast raises an error.
* A column belongs to the innermost table that has it, or to the innermost one that
  goes by the name it is written with (`find`).
* The order in which the operands of OR and AND are evaluated is the server's choice,
  and so is whether it evaluates one that no longer matters; CASE evaluates the branch
  it takes. `Cond.Gives` is what a condition may give.
-/

namespace RowSql

/-- A truth value; `none` is NULL. -/
abbrev Truth : Type := Option Bool

/-- Three-valued OR. -/
def Truth.or : Truth → Truth → Truth
  | some true, _ => some true
  | _, some true => some true
  | some false, some false => some false
  | _, _ => none

/-- Three-valued AND. -/
def Truth.and : Truth → Truth → Truth
  | some false, _ => some false
  | _, some false => some false
  | some true, some true => some true
  | _, _ => none

/-- Equality of two values; NULL with anything is NULL. -/
def Truth.equal {α : Type} [DecidableEq α] : Option α → Option α → Truth
  | some a, some b => some (decide (a = b))
  | _, _ => none

/-- What a condition gives. -/
inductive Outcome
  | value (t : Truth)
  | error
deriving DecidableEq

/-! ## Expressions -/

/-- A text read from the session's settings. -/
inductive Scalar
  | setting (name : String)
  | nullif (s : Scalar) (text : String)
deriving DecidableEq

/-- A value to compare. -/
inductive Operand (ω : Type)
  | column (table : Option ω) (name : ω)
  | cast (s : Scalar) (type : String)
deriving DecidableEq

/-- A condition. `label` is the name a subquery's table goes by, if not its own. -/
inductive Cond (ω : Type)
  | equal (a b : Operand ω)
  | textEqual (s : Scalar) (text : String)
  | or (a b : Cond ω)
  | and (a b : Cond ω)
  | group (a : Cond ω)
  | caseTrue (c otherwise : Cond ω)
  | exists (table : ω) (label : Option ω) (filter : Cond ω)
deriving DecidableEq

/-- The first condition OR the others. -/
def Cond.anyOf {ω : Type} (c : Cond ω) : List (Cond ω) → Cond ω
  | [] => c
  | d :: ds => .or c (anyOf d ds)

/-- The first condition AND the others. -/
def Cond.allOf {ω : Type} (c : Cond ω) : List (Cond ω) → Cond ω
  | [] => c
  | d :: ds => .and c (allOf d ds)

/-! ## Evaluation -/

/-- What a condition is evaluated in: how names are read, the settings, the casts (`none`
for a text that is no value of the type), and the tables. -/
structure Server (ω ν κ : Type) where
  name : ω → ν
  setting : String → Option String
  cast : String → String → Option κ
  columns : ν → List ν
  rows : ν → List (ν → Option κ)

/-- A row in scope, and the name its table goes by. -/
structure RowFrame (ν κ : Type) where
  name : ν
  columns : List ν
  row : ν → Option κ

variable {ω ν κ : Type} [DecidableEq ν]

/-- The column a name stands for, innermost frame first. -/
def find (scope : List (RowFrame ν κ)) (table : Option ν) (column : ν) : Option (Option κ) :=
  match table with
  | none => (scope.find? fun f => decide (column ∈ f.columns)).map fun f => f.row column
  | some t => (scope.find? fun f => decide (f.name = t)).bind fun f =>
    if column ∈ f.columns then some (f.row column) else none

/-- The text of a scalar. -/
def Scalar.eval (setting : String → Option String) : Scalar → Option String
  | .setting name => setting name
  | .nullif s text => (s.eval setting).filter (· ≠ text)

/-- The value of an operand; `none` is an error. -/
def Operand.eval (D : Server ω ν κ) (scope : List (RowFrame ν κ)) : Operand ω → Option (Option κ)
  | .column table c => find scope (table.map D.name) (D.name c)
  | .cast s type =>
    match s.eval D.setting with
    | none => some none
    | some text => (D.cast type text).map some

/-- A row of a table, under the name the table goes by. -/
def Server.frame (D : Server ω ν κ) (table : ω) (label : Option ω) (row : ν → Option κ) : RowFrame ν κ :=
  ⟨D.name (label.getD table), D.columns (D.name table), row⟩

variable [DecidableEq κ]

/-- The condition may give `o`. -/
def Cond.Gives (D : Server ω ν κ) : List (RowFrame ν κ) → Cond ω → Outcome → Prop
  | scope, .equal a b, o =>
    o = match a.eval D scope, b.eval D scope with
      | some x, some y => .value (Truth.equal x y)
      | _, _ => .error
  | _, .textEqual s text, o => o = .value (Truth.equal (s.eval D.setting) (some text))
  | scope, .or a b, o =>
    (o = .value (some true) ∧ (a.Gives D scope o ∨ b.Gives D scope o)) ∨
      (o = .error ∧ (a.Gives D scope o ∨ b.Gives D scope o)) ∨
      ∃ x y, a.Gives D scope (.value x) ∧ b.Gives D scope (.value y) ∧ o = .value (Truth.or x y)
  | scope, .and a b, o =>
    (o = .value (some false) ∧ (a.Gives D scope o ∨ b.Gives D scope o)) ∨
      (o = .error ∧ (a.Gives D scope o ∨ b.Gives D scope o)) ∨
      ∃ x y, a.Gives D scope (.value x) ∧ b.Gives D scope (.value y) ∧ o = .value (Truth.and x y)
  | scope, .group a, o => a.Gives D scope o
  | scope, .caseTrue c otherwise, o =>
    (c.Gives D scope .error ∧ o = .error) ∨ (c.Gives D scope (.value (some true)) ∧ o = .value (some true)) ∨
      ∃ x, x ≠ some true ∧ c.Gives D scope (.value x) ∧ otherwise.Gives D scope o
  | scope, .exists table label filter, o =>
    (o = .value (some true) ∧
        ∃ row ∈ D.rows (D.name table), filter.Gives D (D.frame table label row :: scope) (.value (some true))) ∨
      (o = .error ∧ ∃ row ∈ D.rows (D.name table), filter.Gives D (D.frame table label row :: scope) .error) ∨
      (o = .value (some false) ∧ ∀ row ∈ D.rows (D.name table),
        ∃ x, x ≠ some true ∧ filter.Gives D (D.frame table label row :: scope) (.value x))

/-- The condition may let a row through. -/
def Cond.Passes (D : Server ω ν κ) (scope : List (RowFrame ν κ)) (c : Cond ω) : Prop :=
  c.Gives D scope (.value (some true))

/-- The condition may raise an error. -/
def Cond.Raises (D : Server ω ν κ) (scope : List (RowFrame ν κ)) (c : Cond ω) : Prop := c.Gives D scope .error

/-- Every name in the condition stands for a column (`columns`: of the tables in scope). -/
def Cond.Bound (D : Server ω ν κ) : List (RowFrame ν κ) → Cond ω → Prop
  | scope, .equal a b => Names D scope a ∧ Names D scope b
  | _, .textEqual _ _ => True
  | scope, .or a b => a.Bound D scope ∧ b.Bound D scope
  | scope, .and a b => a.Bound D scope ∧ b.Bound D scope
  | scope, .group a => a.Bound D scope
  | scope, .caseTrue c otherwise => c.Bound D scope ∧ otherwise.Bound D scope
  | scope, .exists table label filter => filter.Bound D (D.frame table label (fun _ => none) :: scope)
where
  /-- The operand's name stands for a column. -/
  Names (D : Server ω ν κ) (scope : List (RowFrame ν κ)) : Operand ω → Prop
    | .column table c => (find scope (table.map D.name) (D.name c)).isSome
    | .cast _ _ => True

omit [DecidableEq κ] in
/-- A column's name stands for a column where the column has a value. -/
theorem names_column {D : Server ω ν κ} {scope : List (RowFrame ν κ)} {table : Option ω} {n : ω} :
    Cond.Bound.Names D scope (.column table n) ↔ ((Operand.column table n).eval D scope).isSome :=
  Iff.rfl

/-! ## What lets a row through, and what raises an error -/

section Rules

variable {D : Server ω ν κ} {scope : List (RowFrame ν κ)} {a b : Cond ω}

attribute [local simp] Cond.Gives

theorem Truth.or_eq_true {x y : Truth} : Truth.or x y = some true ↔ x = some true ∨ y = some true := by
  rcases x with _ | _ | _ <;> rcases y with _ | _ | _ <;> simp [Truth.or]

theorem Truth.and_eq_true {x y : Truth} : Truth.and x y = some true ↔ x = some true ∧ y = some true := by
  rcases x with _ | _ | _ <;> rcases y with _ | _ | _ <;> simp [Truth.and]

theorem Truth.equal_eq_true {α : Type} [DecidableEq α] {x y : Option α} :
    Truth.equal x y = some true ↔ ∃ v, x = some v ∧ y = some v := by
  rcases x with _ | v <;> rcases y with _ | w <;> simp [Truth.equal, eq_comm]

@[simp] theorem passes_equal (x y : Operand ω) : (Cond.equal x y).Passes D scope ↔
    ∃ v, x.eval D scope = some (some v) ∧ y.eval D scope = some (some v) := by
  simp only [Cond.Passes, Cond.Gives]
  rcases x.eval D scope with _ | u <;> rcases y.eval D scope with _ | w <;>
    simp [eq_comm (a := some true), Truth.equal_eq_true]

@[simp] theorem raises_equal (x y : Operand ω) : (Cond.equal x y).Raises D scope ↔
    x.eval D scope = none ∨ y.eval D scope = none := by
  simp only [Cond.Raises, Cond.Gives]
  rcases x.eval D scope with _ | u <;> rcases y.eval D scope with _ | w <;> simp

@[simp] theorem passes_textEqual (s : Scalar) (text : String) : (Cond.textEqual s text).Passes D scope ↔
    s.eval D.setting = some text := by
  simp only [Cond.Passes, Cond.Gives, Outcome.value.injEq]
  rw [eq_comm, Truth.equal_eq_true]
  simp

@[simp] theorem raises_textEqual (s : Scalar) (text : String) : ¬(Cond.textEqual s text).Raises D scope := by
  simp [Cond.Raises, Cond.Gives]

@[simp] theorem passes_group : (Cond.group a).Passes D scope ↔ a.Passes D scope := by
  simp [Cond.Passes, Cond.Gives]

@[simp] theorem raises_group : (Cond.group a).Raises D scope ↔ a.Raises D scope := by
  simp [Cond.Raises, Cond.Gives]

@[simp] theorem passes_or : (Cond.or a b).Passes D scope ↔ a.Passes D scope ∨ b.Passes D scope := by
  simp only [Cond.Passes, Cond.Gives]
  constructor
  · rintro (⟨-, h⟩ | ⟨h, -⟩ | ⟨x, y, hx, hy, h⟩)
    · exact h
    · simp at h
    · rw [Outcome.value.injEq, eq_comm, Truth.or_eq_true] at h
      rcases h with rfl | rfl
      · exact .inl hx
      · exact .inr hy
  · exact fun h => .inl ⟨trivial, h⟩

@[simp] theorem raises_or : (Cond.or a b).Raises D scope ↔ a.Raises D scope ∨ b.Raises D scope := by
  simp [Cond.Raises, Cond.Gives]

theorem passes_and : (Cond.and a b).Passes D scope ↔ a.Passes D scope ∧ b.Passes D scope := by
  simp only [Cond.Passes, Cond.Gives]
  constructor
  · rintro (⟨h, -⟩ | ⟨h, -⟩ | ⟨x, y, hx, hy, h⟩)
    · simp at h
    · simp at h
    · rw [Outcome.value.injEq, eq_comm, Truth.and_eq_true] at h
      obtain ⟨rfl, rfl⟩ := h
      exact ⟨hx, hy⟩
  · rintro ⟨hx, hy⟩
    exact .inr (.inr ⟨_, _, hx, hy, by simp [Truth.and]⟩)

@[simp] theorem raises_and : (Cond.and a b).Raises D scope ↔ a.Raises D scope ∨ b.Raises D scope := by
  simp [Cond.Raises, Cond.Gives]

@[simp] theorem passes_exists (table : ω) (label : Option ω) (filter : Cond ω) :
    (Cond.exists table label filter).Passes D scope ↔
      ∃ row ∈ D.rows (D.name table), filter.Passes D (D.frame table label row :: scope) := by
  simp [Cond.Passes, Cond.Gives]

/-- The condition has one value, whatever the order of evaluation, and raises no error. -/
def Cond.Settled (D : Server ω ν κ) (scope : List (RowFrame ν κ)) (c : Cond ω) : Prop :=
  ∃ x, ∀ o, c.Gives D scope o ↔ o = .value x

theorem settled_textEqual (s : Scalar) (text : String) : (Cond.textEqual s text : Cond ω).Settled D scope :=
  ⟨_, fun _ => Iff.rfl⟩

theorem settled_or (ha : a.Settled D scope) (hb : b.Settled D scope) : (Cond.or a b).Settled D scope := by
  obtain ⟨x, hx⟩ := ha
  obtain ⟨y, hy⟩ := hb
  refine ⟨Truth.or x y, fun o => ?_⟩
  simp only [Cond.Gives, hx, hy, Outcome.value.injEq]
  constructor
  · rintro (⟨rfl, h⟩ | ⟨rfl, h⟩ | ⟨x', y', rfl, rfl, rfl⟩)
    · rw [Outcome.value.injEq, eq_comm, Truth.or_eq_true]
      simpa [eq_comm] using h
    · simp at h
    · rfl
  · rintro rfl
    exact .inr (.inr ⟨x, y, rfl, rfl, rfl⟩)

theorem settled_anyOf {cs : List (Cond ω)} (ha : a.Settled D scope) (hcs : ∀ c ∈ cs, c.Settled D scope) :
    (a.anyOf cs).Settled D scope := by
  induction cs generalizing a with
  | nil => exact ha
  | cons c cs ih =>
    refine settled_or ha (ih (hcs c List.mem_cons_self) fun d hd => hcs d (List.mem_cons_of_mem _ hd))

/-- **CASE.** The other branch counts where the condition does not pass. -/
theorem passes_caseTrue (h : a.Settled D scope) :
    (Cond.caseTrue a b).Passes D scope ↔ a.Passes D scope ∨ b.Passes D scope := by
  obtain ⟨x, hx⟩ := h
  simp only [Cond.Passes, Cond.Gives, hx]
  constructor
  · rintro (⟨-, h⟩ | ⟨h, -⟩ | ⟨y, -, -, hb⟩)
    · cases h
    · exact .inl h
    · exact .inr hb
  · intro h
    by_cases ht : x = some true
    · exact .inr (.inl ⟨by rw [ht], trivial⟩)
    · rcases h with h | hb
      · exact absurd (Outcome.value.inj h).symm ht
      · exact .inr (.inr ⟨x, ht, rfl, hb⟩)

theorem raises_caseTrue (h : a.Settled D scope) :
    (Cond.caseTrue a b).Raises D scope ↔ ¬a.Passes D scope ∧ b.Raises D scope := by
  obtain ⟨x, hx⟩ := h
  simp only [Cond.Passes, Cond.Raises, Cond.Gives, hx]
  constructor
  · rintro (⟨h, -⟩ | ⟨-, h⟩ | ⟨y, hy, h, hb⟩)
    · cases h
    · cases h
    · refine ⟨fun ht => hy ?_, hb⟩
      exact (Outcome.value.inj h).trans (Outcome.value.inj ht).symm
  · rintro ⟨ht, hb⟩
    have hx' : x ≠ some true := fun h => ht (by rw [h])
    exact .inr (.inr ⟨x, hx', rfl, hb⟩)

theorem passes_anyOf {cs : List (Cond ω)} : (a.anyOf cs).Passes D scope ↔
    ∃ c ∈ a :: cs, c.Passes D scope := by
  induction cs generalizing a with
  | nil => simp [Cond.anyOf]
  | cons c cs ih => simp [Cond.anyOf, ih]

theorem raises_anyOf {cs : List (Cond ω)} : (a.anyOf cs).Raises D scope ↔
    ∃ c ∈ a :: cs, c.Raises D scope := by
  induction cs generalizing a with
  | nil => simp [Cond.anyOf]
  | cons c cs ih => simp [Cond.anyOf, ih]

theorem passes_allOf {cs : List (Cond ω)} : (a.allOf cs).Passes D scope ↔
    ∀ c ∈ a :: cs, c.Passes D scope := by
  induction cs generalizing a with
  | nil => simp [Cond.allOf]
  | cons c cs ih => simp [Cond.allOf, ih, passes_and]

theorem raises_allOf {cs : List (Cond ω)} : (a.allOf cs).Raises D scope ↔
    ∃ c ∈ a :: cs, c.Raises D scope := by
  induction cs generalizing a with
  | nil => simp [Cond.allOf]
  | cons c cs ih => simp [Cond.allOf, ih]

omit [DecidableEq κ] in
theorem bound_anyOf {cs : List (Cond ω)} : (a.anyOf cs).Bound D scope ↔ ∀ c ∈ a :: cs, c.Bound D scope := by
  induction cs generalizing a with
  | nil => simp [Cond.anyOf]
  | cons c cs ih => simp [Cond.anyOf, Cond.Bound, ih]

omit [DecidableEq κ] in
theorem bound_allOf {cs : List (Cond ω)} : (a.allOf cs).Bound D scope ↔ ∀ c ∈ a :: cs, c.Bound D scope := by
  induction cs generalizing a with
  | nil => simp [Cond.allOf]
  | cons c cs ih => simp [Cond.allOf, Cond.Bound, ih]

end Rules

end RowSql
