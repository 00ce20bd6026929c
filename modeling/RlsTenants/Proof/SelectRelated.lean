import Mathlib.Data.List.Induction
import Mathlib.Data.List.Infix
import RlsTenants.Spec.SelectRelated

/-!
# The filters of `select_related()` drop no row

* `reach_visible`: what the policies hide is not on the selected paths.
* `foldl_joinStep`: the joins of a row are the rows that its paths reach, once.
* `filters_hold`: a selected path's filter is true of the tenant's rows.
* `select_related_drops_nothing`: the instances are the same with and without.
-/

namespace RlsTenants

namespace SelectRelated

variable {μ κ : Type} {schema : Schema μ} {model mid target : μ} {path rest : Path} {hop : String} {n : Bool}

/-! ## Paths of a schema -/

/-- A path leads to a model; the flag is whether a hop of it is nullable. -/
inductive Walk (schema : Schema μ) (model : μ) : Path → μ → Bool → Prop where
  | nil : Walk schema model [] model false
  | snoc {path mid n hop field related} : Walk schema model path mid n → schema.getField mid hop = some field →
      field.relatedModel = some related → Walk schema model (path ++ [hop]) related (n || field.null)

theorem Walk.nil_eq (h : Walk schema model [] target n) : target = model ∧ n = false := by
  generalize hpath : ([] : Path) = path at h
  cases h with
  | nil => exact ⟨rfl, rfl⟩
  | snoc _ _ _ => simp at hpath

theorem Walk.snoc_inv (h : Walk schema model (path ++ [hop]) target n) :
    ∃ mid n' field, Walk schema model path mid n' ∧ schema.getField mid hop = some field ∧
      field.relatedModel = some target ∧ n = (n' || field.null) := by
  generalize hpath : path ++ [hop] = whole at h
  cases h with
  | nil => simp at hpath
  | snoc hwalk hfield hrelated =>
    obtain ⟨rfl, hhop⟩ := List.append_inj' hpath rfl
    obtain rfl : hop = _ := by simpa using hhop
    exact ⟨_, _, _, hwalk, hfield, hrelated, rfl⟩

/-- Each prefix of a path is a path, and no more nullable. -/
theorem Walk.of_prefix {whole : Path} (h : Walk schema model whole target n) (hpath : path <+: whole) :
    ∃ mid n', Walk schema model path mid n' ∧ (n = false → n' = false) := by
  obtain ⟨rest, rfl⟩ := hpath
  induction rest using List.reverseRecOn generalizing target n with
  | nil =>
    rw [List.append_nil] at h
    exact ⟨target, n, h, id⟩
  | append_singleton rest hop ih =>
    rw [← List.append_assoc] at h
    obtain ⟨mid, n', field, hwalk, -, -, rfl⟩ := h.snoc_inv
    obtain ⟨mid', n'', hwalk', hn⟩ := ih hwalk
    refine ⟨mid', n'', hwalk', ?_⟩
    intro hnull
    exact hn (Bool.or_eq_false_iff.mp hnull).1

/-- A path of relations: its hops lead to a model. -/
def Schema.IsPath (schema : Schema μ) (model : μ) (path : Path) : Prop :=
  path ≠ [] ∧ ∃ target n, resolveRelatedPath schema model false path = (some target, n)

/-- What `_resolve_related_path` returns is a path's model and nullability. -/
theorem walk_of_resolve {done : Path} {n' : Bool} (hdone : Walk schema model done mid n)
    (h : resolveRelatedPath schema mid n rest = (some target, n')) : Walk schema model (done ++ rest) target n' := by
  induction rest generalizing done mid n with
  | nil =>
    obtain ⟨rfl, rfl⟩ : mid = target ∧ n = n' := by simpa [resolveRelatedPath] using h
    rwa [List.append_nil]
  | cons hop rest ih =>
    rw [resolveRelatedPath] at h
    cases hfield : schema.getField mid hop with
    | none => simp [hfield] at h
    | some field =>
      rw [hfield] at h
      dsimp only at h
      cases hrelated : field.relatedModel with
      | none => simp [hrelated] at h
      | some related =>
        rw [hrelated] at h
        have hstep := ih (hdone.snoc hfield hrelated) h
        rwa [List.append_assoc] at hstep

/-! ## Rows along a path -/

variable [DecidableEq κ]

/-- The row that a hop reaches. -/
def follow (schema : Schema μ) (tables : Tables μ κ) (current : μ × κ) (hop : String) : Option (μ × κ) :=
  ((schema.getField current.1 hop).map (tables.matchRows current.1 current.2)).bind List.head?

/-- The row that a path reaches. -/
def reach (schema : Schema μ) (tables : Tables μ κ) (start : μ × κ) (path : Path) : Option (μ × κ) :=
  path.foldl (fun current hop => current.bind fun row => follow schema tables row hop) (some start)

variable {tables : Tables μ κ} {start found : μ × κ} {row : κ}

@[simp] theorem reach_nil : reach schema tables start [] = some start := rfl

theorem reach_snoc : reach schema tables start (path ++ [hop]) =
    (reach schema tables start path).bind fun row => follow schema tables row hop := by
  unfold reach
  rw [List.foldl_append]
  rfl

theorem mem_matchRows {field : Field μ} (h : found ∈ tables.matchRows model row field) :
    field.relatedModel = some found.1 ∧ found.2 ∈ tables.rows found.1 := by
  cases field with
  | column => simp [Tables.matchRows] at h
  | lazy target => simp [Tables.matchRows] at h
  | foreignKey attname target null =>
    rw [Tables.matchRows] at h
    cases hcell : tables.cell model row attname with
    | none => simp [hcell] at h
    | some key =>
      simp only [hcell, List.mem_map, List.mem_filter] at h
      obtain ⟨other, ⟨hmem, -⟩, rfl⟩ := h
      exact ⟨rfl, hmem⟩
  | reverseOneToOne source attname =>
    simp only [Tables.matchRows, List.mem_map, List.mem_filter] at h
    obtain ⟨other, ⟨hmem, -⟩, rfl⟩ := h
    exact ⟨rfl, hmem⟩

theorem follow_mem {current : μ × κ} (h : follow schema tables current hop = some found) :
    ∃ field, schema.getField current.1 hop = some field ∧ found ∈ tables.matchRows current.1 current.2 field := by
  unfold follow at h
  cases hfield : schema.getField current.1 hop with
  | none => simp [hfield] at h
  | some field =>
    rw [hfield] at h
    exact ⟨field, rfl, List.mem_of_mem_head? h⟩

/-- A path reaches a row of its model. -/
theorem reach_walk (hwalk : Walk schema model path target n) (hrow : row ∈ tables.rows model)
    (h : reach schema tables (model, row) path = some found) : found.1 = target ∧ found.2 ∈ tables.rows target := by
  induction hwalk generalizing found with
  | nil =>
    obtain rfl := Option.some.inj h
    exact ⟨rfl, hrow⟩
  | snoc hwalk hfield hrelated ih =>
    rw [reach_snoc] at h
    obtain ⟨current, hcurrent, hfollow⟩ := Option.bind_eq_some_iff.mp h
    obtain ⟨hmodel, -⟩ := ih hcurrent
    obtain ⟨field', hfield', hmem⟩ := follow_mem hfollow
    rw [hmodel, hfield] at hfield'
    obtain rfl := Option.some.inj hfield'
    obtain ⟨htarget, hrows⟩ := mem_matchRows hmem
    obtain rfl := Option.some.inj (hrelated.symm.trans htarget)
    exact ⟨rfl, hrows⟩

/-! ## Databases -/

variable {db : Database schema κ} {field : Field μ}

omit [DecidableEq κ] in
theorem nodup_length {l : List κ} (hnodup : l.Nodup) (h : ∀ a ∈ l, ∀ b ∈ l, a = b) : l.length ≤ 1 := by
  rcases l with _ | ⟨a, _ | ⟨b, l⟩⟩
  · simp
  · simp
  · have hab : a = b := h a List.mem_cons_self b (List.mem_cons_of_mem _ List.mem_cons_self)
    subst hab
    simp at hnodup

/-- A hop reaches at most one row. -/
theorem matchRows_length (hfield : schema.getField model hop = some field) :
    (db.matchRows model row field).length ≤ 1 := by
  cases field with
  | column => simp [Tables.matchRows]
  | lazy target => simp [Tables.matchRows]
  | foreignKey attname target null =>
    rw [Tables.matchRows]
    cases hcell : db.cell model row attname with
    | none => simp
    | some key =>
      rw [List.length_map]
      apply nodup_length ((db.nodup target).filter _)
      intro a ha b hb
      have ha' : a = key := by simpa using (List.mem_filter.mp ha).2
      have hb' : b = key := by simpa using (List.mem_filter.mp hb).2
      rw [ha', hb']
  | reverseOneToOne source attname =>
    rw [Tables.matchRows, List.length_map]
    apply nodup_length ((db.nodup source).filter _)
    intro a ha b hb
    obtain ⟨ha, hacell⟩ := List.mem_filter.mp ha
    obtain ⟨hb, hbcell⟩ := List.mem_filter.mp hb
    exact db.unique hfield ha hb (by simpa using hacell) (by simpa using hbcell)

/-- A path of non-null foreign keys reaches a row. -/
theorem reach_nonNull (hwalk : Walk schema model path target false) (hrow : row ∈ db.rows model) :
    ∃ found, reach schema db.toTables (model, row) path = some found := by
  generalize hn : false = n at hwalk
  induction hwalk with
  | nil => exact ⟨_, rfl⟩
  | @snoc path mid n hop field related hwalk hfield hrelated ih =>
    obtain ⟨hnull, hfieldNull⟩ := Bool.or_eq_false_iff.mp hn.symm
    obtain ⟨current, hcurrent⟩ := ih hnull.symm
    obtain ⟨hmodel, hmem⟩ := reach_walk hwalk hrow hcurrent
    rw [reach_snoc, hcurrent]
    -- A reverse relation is nullable.
    cases field with
    | column => cases hrelated
    | lazy target => cases hrelated
    | foreignKey attname target null =>
      obtain rfl : null = false := hfieldNull
      cases hcell : db.cell mid current.2 attname with
      | none => exact absurd hcell (db.notNull hfield hmem)
      | some key =>
        have hkey := db.references hfield hmem hcell
        refine ⟨(target, key), ?_⟩
        have hne : (target, key) ∈ db.matchRows mid current.2 (.foreignKey attname target false) := by
          simp [Tables.matchRows, hcell, hkey]
        have hlength : (db.matchRows mid current.2 _).length ≤ 1 := matchRows_length hfield
        rw [Option.bind_some, follow, hmodel, hfield, Option.map_some, Option.bind_some]
        rcases hmatch : db.matchRows mid current.2 (.foreignKey attname target false) with _ | ⟨first, _ | ⟨second, rest⟩⟩
        · rw [hmatch] at hne
          cases hne
        · rw [hmatch, List.mem_singleton] at hne
          rw [hne]
          rfl
        · rw [hmatch] at hlength
          simp at hlength
    | reverseOneToOne source attname => cases hfieldNull

/-! ## Visible rows -/

variable {extra : μ → κ → Bool} {tenantId : κ}

/-- Whether the policies show a row. -/
def shows (schema : Schema μ) (tables : Tables μ κ) (extra : μ → κ → Bool) (tenantId : κ) (found : μ × κ) : Bool :=
  !schema.isRlsProtected found.1 || tables.tenantOf found.1 found.2 == some tenantId || extra found.1 found.2

theorem matchRows_visible : (tables.visible schema extra tenantId).matchRows model row field =
    (tables.matchRows model row field).filter (shows schema tables extra tenantId) := by
  have hmap : ∀ (target : μ) (p : κ → Bool),
      (((tables.visible schema extra tenantId).rows target).filter p).map (fun other => (target, other)) =
        (((tables.rows target).filter p).map fun other => (target, other)).filter
          (shows schema tables extra tenantId) := by
    intro target p
    rw [List.filter_map, List.filter_filter]
    unfold Tables.visible
    dsimp only
    rw [List.filter_filter]
    congr 1
    apply List.filter_congr
    intro other _
    rw [Bool.and_comm]
    rfl
  cases field with
  | column => rfl
  | lazy target => rfl
  | foreignKey attname target null =>
    rw [Tables.matchRows, Tables.matchRows]
    have hcell : (tables.visible schema extra tenantId).cell model row attname = tables.cell model row attname := rfl
    rw [hcell]
    cases tables.cell model row attname with
    | none => rfl
    | some key => exact hmap target _
  | reverseOneToOne source attname => exact hmap source _

/-- On the rows that a path reaches, protected rows are the tenant's. -/
def Own (schema : Schema μ) (tables : Tables μ κ) (tenantId : κ) (start : μ × κ) (path : Path) : Prop :=
  ∀ done, done <+: path → done ≠ [] → ∀ found, reach schema tables start done = some found →
    schema.isRlsProtected found.1 = true → tables.tenantOf found.1 found.2 = some tenantId

/-- **What the policies hide** is not on a path that reaches the tenant's rows only. -/
theorem reach_visible {whole : Path} (hown : Own schema db.toTables tenantId start whole) (hpath : path <+: whole) :
    reach schema (db.visible schema extra tenantId) start path = reach schema db.toTables start path := by
  induction path using List.reverseRecOn with
  | nil => rfl
  | append_singleton path hop ih =>
    have ih := ih ((List.prefix_append path [hop]).trans hpath)
    have hreach : reach schema db.toTables start (path ++ [hop]) =
        (reach schema db.toTables start path).bind fun row => follow schema db.toTables row hop := reach_snoc
    rw [reach_snoc, ih, hreach]
    cases hcurrent : reach schema db.toTables start path with
    | none => rfl
    | some current =>
      rw [hcurrent] at hreach
      rw [Option.bind_some, Option.bind_some]
      rw [Option.bind_some] at hreach
      unfold follow at hreach ⊢
      cases hfield : schema.getField current.1 hop with
      | none => rfl
      | some field =>
        rw [hfield] at hreach
        simp only [Option.map_some, Option.bind_some] at hreach ⊢
        rw [matchRows_visible]
        have hlength : (db.matchRows current.1 current.2 field).length ≤ 1 := matchRows_length hfield
        rcases hmatch : db.matchRows current.1 current.2 field with _ | ⟨first, _ | ⟨second, rest⟩⟩
        · rfl
        · rw [hmatch] at hreach
          have hshows : shows schema db.toTables extra tenantId first = true := by
            unfold shows
            cases hprotected : schema.isRlsProtected first.1 with
            | false => rfl
            | true => simp [hown (path ++ [hop]) hpath (by simp) first hreach hprotected]
          rw [List.filter_cons_of_pos hshows]
          rfl
        · rw [hmatch] at hlength
          simp at hlength

/-! ## Joins -/

/-- A list of paths in which each comes after its parent. -/
inductive Closed : List Path → Prop where
  | nil : Closed []
  | snoc {paths done hop} : Closed paths → done = [] ∨ done ∈ paths → Closed (paths ++ [done ++ [hop]])

theorem Closed.snoc_inv {paths : List Path} (h : Closed (paths ++ [path])) :
    Closed paths ∧ ∃ done hop, path = done ++ [hop] ∧ (done = [] ∨ done ∈ paths) := by
  generalize hwhole : paths ++ [path] = whole at h
  cases h with
  | nil => simp at hwhole
  | snoc hclosed hdone =>
    obtain ⟨rfl, hlast⟩ := List.append_inj' hwhole rfl
    obtain rfl := List.singleton_inj.mp hlast
    exact ⟨hclosed, _, _, rfl, hdone⟩

/-- The tables that are joined, with the rows that their paths reach. -/
def joined (schema : Schema μ) (tables : Tables μ κ) (start : μ × κ) (paths : List Path) : Env μ κ :=
  fun path => if ([] :: paths).contains path then reach schema tables start path else none

theorem joined_eq {paths : List Path} (h : path = [] ∨ path ∈ paths) :
    joined schema tables start paths path = reach schema tables start path :=
  if_pos (List.contains_iff_mem.mpr (List.mem_cons.mpr h))

theorem joined_snoc {paths : List Path} :
    (fun other => if other = path then reach schema tables start path else joined schema tables start paths other) =
      joined schema tables start (paths ++ [path]) := by
  funext other
  unfold joined
  by_cases hother : other = path
  · simp [hother]
  · simp [hother]

/-- One join gives the row that the path reaches. -/
theorem joinStep_joined {paths : List Path} {join : Join} {done : Path}
    (hone : ∀ {model row hop field}, schema.getField model hop = some field →
      (tables.matchRows model row field).length ≤ 1)
    (hpath : join.path = done ++ [hop]) (hdone : done = [] ∨ done ∈ paths) :
    joinStep schema tables [joined schema tables start paths] join =
      if (join.outer || (reach schema tables start join.path).isSome) = true then
        [joined schema tables start (paths ++ [join.path])] else [] := by
  unfold joinStep
  rw [List.flatMap_singleton]
  have hreach : reach schema tables start join.path =
      (reach schema tables start done).bind fun row => follow schema tables row hop := by
    rw [hpath, reach_snoc]
  rw [← joined_snoc, hreach]
  have hparent : join.path.dropLast = done := by simp [hpath]
  have hlast : join.path.getLast? = some hop := by simp [hpath]
  rw [hparent, hlast, joined_eq hdone]
  cases hcurrent : reach schema tables start done with
  | none => simp
  | some current =>
    obtain ⟨model, row⟩ := current
    simp only [Option.bind_some]
    unfold follow
    dsimp only
    cases hfield : schema.getField model hop with
    | none => simp
    | some field =>
      have hlength : (tables.matchRows model row field).length ≤ 1 := hone hfield
      rcases hmatch : tables.matchRows model row field with _ | ⟨first, _ | ⟨second, rest⟩⟩
      · simp [hmatch]
      · simp [hmatch]
      · rw [hmatch] at hlength
        simp at hlength

/-- **The joins of a row** give it once, with the rows that the paths reach, or not at all
when an inner join reaches none. -/
theorem foldl_joinStep {joins : List Join}
    (hone : ∀ {model row hop field}, schema.getField model hop = some field →
      (tables.matchRows model row field).length ≤ 1)
    (hclosed : Closed (joins.map (·.path))) :
    joins.foldl (joinStep schema tables) [joined schema tables start []] =
      if joins.all (fun join => join.outer || (reach schema tables start join.path).isSome) = true then
        [joined schema tables start (joins.map (·.path))] else [] := by
  induction joins using List.reverseRecOn with
  | nil => simp
  | append_singleton joins join ih =>
    rw [List.map_append] at hclosed
    obtain ⟨hbefore, done, hop, hpath, hdone⟩ := hclosed.snoc_inv
    rw [List.foldl_append, ih hbefore, List.all_append]
    by_cases hall : joins.all (fun join => join.outer || (reach schema tables start join.path).isSome) = true
    · rw [if_pos hall, hall]
      simp only [List.foldl_cons, List.foldl_nil, Bool.true_and, List.all_cons, List.all_nil, Bool.and_true]
      rw [joinStep_joined hone hpath hdone, List.map_append]
      rfl
    · rw [if_neg hall]
      simp [joinStep, hall]

/-! ## Join types -/

omit [DecidableEq κ] in
theorem Walk.unique {target' : μ} {n' : Bool} (h : Walk schema model path target n)
    (h' : Walk schema model path target' n') : target = target' ∧ n = n' := by
  induction h generalizing target' n' with
  | nil =>
    obtain ⟨rfl, rfl⟩ := h'.nil_eq
    exact ⟨rfl, rfl⟩
  | snoc _ hfield hrelated ih =>
    obtain ⟨mid', n'', field', hwalk', hfield', hrelated', rfl⟩ := h'.snoc_inv
    obtain ⟨rfl, rfl⟩ := ih hwalk'
    obtain rfl := Option.some.inj (hfield.symm.trans hfield')
    exact ⟨Option.some.inj (hrelated.symm.trans hrelated'), rfl⟩

/-- Joins as `select_related()` and its filters make them: only paths without a nullable
hop are joined inner. -/
structure Good (schema : Schema μ) (model : μ) (selected : List Path) (joins : List Join) : Prop where
  closed : Closed (joins.map (·.path))
  inner : ∀ join ∈ joins, join.outer = false → ∃ target, Walk schema model join.path target false
  sub : ∀ join ∈ joins, ∃ field ∈ selected, join.path <+: field

variable {selected : List Path} {joins : List Join}

omit [DecidableEq κ] in
/-- A new join is inner only where its path has no nullable hop. -/
theorem Good.add {done : Path} {field : Field μ} {related : μ} (hgood : Good schema model selected joins)
    (hdone : Walk schema model done mid n) (hjoined : done = [] ∨ done ∈ joins.map (·.path))
    (hfield : schema.getField mid hop = some field) (hrelated : field.relatedModel = some related)
    (hsub : ∃ field ∈ selected, done ++ [hop] <+: field) :
    Good schema model selected (joins ++ [⟨done ++ [hop], field.null, field.null || isOuter joins done⟩]) := by
  obtain ⟨hclosed, hinner, hsubs⟩ := hgood
  refine ⟨?_, ?_, ?_⟩
  · rw [List.map_append]
    exact hclosed.snoc hjoined
  · intro join hjoin houter
    rcases List.mem_append.mp hjoin with hjoin | hjoin
    · exact hinner join hjoin houter
    · obtain rfl := List.mem_singleton.mp hjoin
      obtain ⟨hnull, hparent⟩ := Bool.or_eq_false_iff.mp houter
      -- The parent is inner, so its own path has no nullable hop.
      have hn : n = false := by
        rcases hjoined with rfl | hjoined
        · exact hdone.nil_eq.2
        · obtain ⟨parent, hmem, hpath⟩ := List.mem_map.mp hjoined
          have hparentOuter : parent.outer = false := by
            cases houter' : parent.outer with
            | false => rfl
            | true =>
              have : isOuter joins done = true := by
                rw [isOuter, List.any_eq_true]
                exact ⟨parent, hmem, by simp [hpath, houter']⟩
              rw [this] at hparent
              cases hparent
          obtain ⟨target, hwalk⟩ := hinner parent hmem hparentOuter
          rw [hpath] at hwalk
          exact (hdone.unique hwalk).2
      have hwalk := hdone.snoc hfield hrelated
      rw [hn, hnull] at hwalk
      exact ⟨related, hwalk⟩
  · intro join hjoin
    rcases List.mem_append.mp hjoin with hjoin | hjoin
    · exact hsubs join hjoin
    · obtain rfl := List.mem_singleton.mp hjoin
      exact hsub

omit [DecidableEq κ] in
theorem setupJoins_good {done : Path} (hgood : Good schema model selected joins) (hdone : Walk schema model done mid n)
    (hjoined : done = [] ∨ done ∈ joins.map (·.path)) (hsub : ∃ field ∈ selected, done ++ rest <+: field) :
    Good schema model selected (setupJoins schema done mid joins rest) := by
  induction rest generalizing done mid n joins with
  | nil => exact hgood
  | cons hop rest ih =>
    rw [setupJoins]
    split
    next => exact hgood
    next field hfield =>
      split
      next => exact hgood
      next related hrelated =>
        have hsub' : ∃ field ∈ selected, done ++ [hop] ++ rest <+: field := by simpa using hsub
        dsimp only
        split
        next hthere =>
          have hmem : done ++ [hop] ∈ joins.map (·.path) := by simpa using hthere
          exact ih hgood (hdone.snoc hfield hrelated) (.inr hmem) hsub'
        next =>
          obtain ⟨whole, hwhole, hbegins⟩ := hsub'
          have hadd := hgood.add hdone hjoined hfield hrelated ⟨whole, hwhole, (List.prefix_append _ _).trans hbegins⟩
          exact ih hadd (hdone.snoc hfield hrelated) (.inr (by simp)) ⟨whole, hwhole, hbegins⟩

omit [DecidableEq κ] in
theorem setupJoins_subset {done : Path} (h : path ∈ joins.map (·.path)) :
    path ∈ (setupJoins schema done mid joins rest).map (·.path) := by
  induction rest generalizing done mid joins with
  | nil => exact h
  | cons hop rest ih =>
    rw [setupJoins]
    split
    · exact h
    · split
      · exact h
      · apply ih
        split
        · exact h
        · rw [List.map_append]
          exact List.mem_append_left _ h

omit [DecidableEq κ] in
/-- Each hop of a path gets its join. -/
theorem setupJoins_mem {done done' : Path} {n' : Bool} (h : resolveRelatedPath schema mid n rest = (some target, n'))
    (hbegins : done' <+: rest) (hne : done' ≠ []) :
    done ++ done' ∈ (setupJoins schema done mid joins rest).map (·.path) := by
  induction rest generalizing done done' mid n joins with
  | nil => exact absurd (List.prefix_nil.mp hbegins) hne
  | cons hop rest ih =>
    obtain ⟨first, done', rfl⟩ := List.exists_cons_of_ne_nil hne
    obtain ⟨rfl, hbegins'⟩ := List.cons_prefix_cons.mp hbegins
    rw [resolveRelatedPath] at h
    cases hfield : schema.getField mid first with
    | none => simp [hfield] at h
    | some field =>
      rw [hfield] at h
      dsimp only at h
      cases hrelated : field.relatedModel with
      | none => simp [hrelated] at h
      | some related =>
        rw [hrelated] at h
        rw [setupJoins, hfield]
        dsimp only
        rw [hrelated]
        dsimp only
        by_cases hdone' : done' = []
        · subst hdone'
          apply setupJoins_subset
          split
          next hthere => simpa using hthere
          next => simp
        · have hsplit : done ++ first :: done' = done ++ [first] ++ done' := by simp
          rw [hsplit]
          exact ih h hbegins' hdone'

omit [DecidableEq κ] in
theorem demote_paths {tables : List Path} : (demote tables joins).map (·.path) = joins.map (·.path) := by
  unfold demote
  rw [List.map_map]
  apply List.map_congr_left
  intro join _
  dsimp only [Function.comp]
  split <;> rfl

omit [DecidableEq κ] in
/-- Promotion adds and removes no join, and makes none inner. -/
theorem promote_spec (tables : List Path) (joins : List Join) : (promote tables joins).map (·.path) = joins.map (·.path) ∧
    ∀ join ∈ promote tables joins, ∃ before ∈ joins, before.path = join.path ∧ (join.outer = false → before.outer = false) := by
  unfold promote
  induction joins using List.reverseRecOn with
  | nil => simp
  | append_singleton joins join ih =>
    obtain ⟨hpaths, hbefore⟩ := ih
    rw [List.foldl_append]
    refine ⟨?_, ?_⟩
    · rw [List.foldl_cons, List.foldl_nil, List.map_append, List.map_append, hpaths]
      rfl
    · intro promoted hmem
      rw [List.foldl_cons, List.foldl_nil] at hmem
      rcases List.mem_append.mp hmem with hmem | hmem
      · obtain ⟨before, hin, hpath, houter⟩ := hbefore promoted hmem
        exact ⟨before, List.mem_append_left _ hin, hpath, houter⟩
      · obtain rfl := List.mem_singleton.mp hmem
        refine ⟨join, by simp, rfl, ?_⟩
        intro houter
        exact (Bool.or_eq_false_iff.mp (Bool.or_eq_false_iff.mp houter).1).1

omit [DecidableEq κ] in
/-- **A filter keeps the joins good** when all of its operands vote for paths without a
nullable hop only. -/
theorem filter_good {q : Query μ κ} {conds : List (Cond κ)} (hgood : Good schema q.model selected q.joins)
    (htable : ∀ cond ∈ conds, ∃ field ∈ selected, cond.table (fieldAt schema q.model) <+: field)
    (hall : ∀ table, table ∈ conds.flatMap Cond.votes → (∀ cond ∈ conds, table ∈ cond.votes) →
      ∃ target, Walk schema q.model table target false) :
    Good schema q.model selected (q.filter schema conds).joins := by
  have hsetup : Good schema q.model selected (conds.foldl (fun joins cond =>
      setupJoins schema [] q.model joins (cond.table (fieldAt schema q.model))) q.joins) := by
    clear hall
    generalize q.joins = joins at hgood
    induction conds generalizing joins with
    | nil => exact hgood
    | cons cond conds ih =>
      rw [List.foldl_cons]
      have hstep := setupJoins_good hgood .nil (.inl rfl) (htable cond List.mem_cons_self)
      exact ih (fun cond hcond => htable cond (List.mem_cons_of_mem _ hcond)) _ hstep
  unfold Query.filter
  dsimp only
  obtain ⟨hclosed, hinner, hsub⟩ := hsetup
  generalize conds.foldl (fun joins cond =>
    setupJoins schema [] q.model joins (cond.table (fieldAt schema q.model))) q.joins = joins at *
  obtain ⟨hpaths, hbefore⟩ := promote_spec
    ((conds.flatMap Cond.votes).filter fun table => !conds.all fun cond => decide (table ∈ cond.votes))
    (demote ((conds.flatMap Cond.votes).filter fun table =>
      conds.all fun cond => decide (table ∈ cond.votes)) joins)
  have hold : ∀ join ∈ demote ((conds.flatMap Cond.votes).filter fun table =>
      conds.all fun cond => decide (table ∈ cond.votes)) joins, ∃ before ∈ joins, before.path = join.path ∧
        (join.outer = false → before.outer = false ∨ ∃ target, Walk schema q.model before.path target false) := by
    intro join hjoin
    obtain ⟨before, hin, rfl⟩ := List.mem_map.mp hjoin
    refine ⟨before, hin, ?_, ?_⟩
    · split <;> rfl
    · split
      next hdemoted =>
        intro _
        obtain ⟨hvotes, hvote⟩ := List.mem_filter.mp hdemoted
        exact .inr (hall _ hvotes (by simpa using hvote))
      next => exact .inl
  refine ⟨?_, ?_, ?_⟩
  · rw [hpaths, demote_paths]
    exact hclosed
  · intro join hjoin houter
    obtain ⟨demoted, hdemoted, hpath, hlow⟩ := hbefore join hjoin
    obtain ⟨before, hin, hpath', hlow'⟩ := hold demoted hdemoted
    rw [← hpath, ← hpath']
    rcases hlow' (hlow houter) with h | h
    · exact hinner before hin h
    · exact h
  · intro join hjoin
    obtain ⟨demoted, hdemoted, hpath, -⟩ := hbefore join hjoin
    obtain ⟨before, hin, hpath', -⟩ := hold demoted hdemoted
    rw [← hpath, ← hpath']
    exact hsub before hin

/-! ## Filtered querysets -/

/-- The queries of an auto-scoped queryset: the tenant's rows, filtered on the paths. -/
structure Scoped (schema : Schema μ) (tenantFkField : String) (tenantId : κ) (selected : List Path) (model : μ)
    (q : Query μ κ) : Prop where
  root : q.model = model
  joins : Good schema model selected q.joins
  where_ : ∃ filters, q.where_ = [.equals [] (tenantFkField ++ "_id") tenantId] :: filters ∧
    ∀ conds ∈ filters, ∃ path ∈ selected, tenantFilter schema model tenantId path = some conds

variable {tenantFkField : String} {q : Query μ κ}

omit [DecidableEq κ] in
theorem tenantFilter_spec {conds : List (Cond κ)} (h : tenantFilter schema model tenantId path = some conds) :
    ∃ target n attname, Walk schema model path target n ∧ schema.isRlsProtected target = true ∧
      schema.tenantAttname target = some attname ∧
      conds = .equals path attname tenantId :: if n then [.isNull path] else [] := by
  unfold tenantFilter at h
  rcases hresolve : resolveRelatedPath schema model false path with ⟨_ | target, n⟩
  · simp [hresolve] at h
  · rw [hresolve] at h
    dsimp only at h
    cases hprotected : schema.isRlsProtected target with
    | false => simp [hprotected] at h
    | true =>
      cases hattname : schema.tenantAttname target with
      | none => simp [hprotected, hattname] at h
      | some attname =>
        have hwalk := walk_of_resolve .nil hresolve
        refine ⟨target, n, attname, hwalk, hprotected, hattname, ?_⟩
        simp only [hprotected, hattname, Bool.not_true, Bool.false_eq_true, if_false] at h
        exact (Option.some.inj h).symm

omit [DecidableEq κ] in
theorem Scoped.filter {conds : List (Cond κ)} (hq : Scoped schema tenantFkField tenantId selected model q)
    (hpath : path ∈ selected) (h : tenantFilter schema model tenantId path = some conds) :
    Scoped schema tenantFkField tenantId selected model (q.filter schema conds) := by
  obtain ⟨target, n, attname, hwalk, -, -, hconds⟩ := tenantFilter_spec h
  obtain ⟨rfl, hjoins, filters, hwhere, hfilters⟩ := hq
  refine ⟨rfl, filter_good hjoins ?_ ?_, filters ++ [conds], ?_, ?_⟩
  · intro cond hcond
    rw [hconds] at hcond
    rcases List.mem_cons.mp hcond with rfl | hcond
    · exact ⟨path, hpath, List.prefix_rfl⟩
    · obtain ⟨-, rfl⟩ : n = true ∧ cond = .isNull path := by
        cases n <;> simp_all
      refine ⟨path, hpath, ?_⟩
      simp only [Cond.table]
      split
      next => exact List.prefix_rfl
      next => exact List.dropLast_prefix path
  · intro table _ hvotes
    cases n with
    | true =>
      -- `isnull` votes for no table.
      have hnone := hvotes (.isNull path) (by simp [hconds])
      cases hnone
    | false =>
      have hbegins := hvotes (.equals path attname tenantId) (by simp [hconds])
      have hbegins' : table <+: path := (List.mem_inits table path).mp (List.mem_of_mem_tail hbegins)
      obtain ⟨mid, n', hmid, hn⟩ := hwalk.of_prefix hbegins'
      rw [hn rfl] at hmid
      exact ⟨mid, hmid⟩
  · rw [Query.filter]
    dsimp only
    rw [hwhere]
    rfl
  · intro conds' hmem
    rcases List.mem_append.mp hmem with hmem | hmem
    · exact hfilters conds' hmem
    · rw [List.mem_singleton.mp hmem]
      exact ⟨path, hpath, h⟩

omit [DecidableEq κ] in
theorem scoped_getQueryset : Scoped schema tenantFkField tenantId selected model
    (getQueryset schema tenantFkField (some tenantId) model).query :=
  ⟨rfl, ⟨.nil, fun _ h => absurd h List.not_mem_nil, fun _ h => absurd h List.not_mem_nil⟩, [], rfl,
    fun _ h => absurd h List.not_mem_nil⟩

/-- The paths that arguments of `select_related()` select. -/
def Fields.followed (schema : Schema μ) (model : μ) : Fields → List Path
  | .clear => []
  | .everything => nonNullPaths schema 5 model
  | .paths first rest => first :: rest

omit [DecidableEq κ] in
/-- Each path that is named adds its filters, if it has any. -/
theorem selectRelated_paths (first : Path) (rest : List Path) :
    selectRelated schema (some tenantId) (getQueryset schema tenantFkField (some tenantId) model) (.paths first rest) =
      (first :: rest).foldl (fun qs fieldPath =>
        (tenantFilter schema qs.query.model tenantId fieldPath).elim qs fun conds =>
          { qs with query := qs.query.filter schema conds })
        { getQueryset schema tenantFkField (some tenantId) model with
          selection := addSelectRelated (first :: rest)
            (getQueryset schema tenantFkField (some tenantId) model).selection } := by
  unfold selectRelated
  refine List.foldl_ext _ _ _ fun qs fieldPath _ => ?_
  cases tenantFilter schema qs.query.model tenantId fieldPath <;> rfl

omit [DecidableEq κ] in
theorem scoped_selectRelated (fields : Fields) : Scoped schema tenantFkField tenantId (fields.followed schema model) model
    (selectRelated schema (some tenantId) (getQueryset schema tenantFkField (some tenantId) model) fields).query := by
  cases fields with
  | clear => exact scoped_getQueryset
  | everything => exact scoped_getQueryset
  | paths first rest =>
    rw [selectRelated_paths]
    -- The filters are added one by one, for paths that are selected.
    have hfold : ∀ (paths : List Path) (qs : QuerySet μ κ), (∀ path ∈ paths, path ∈ first :: rest) →
        Scoped schema tenantFkField tenantId (first :: rest) model qs.query →
        Scoped schema tenantFkField tenantId (first :: rest) model (paths.foldl (fun qs fieldPath =>
          (tenantFilter schema qs.query.model tenantId fieldPath).elim qs fun conds =>
            { qs with query := qs.query.filter schema conds }) qs).query := by
      intro paths
      induction paths with
      | nil => exact fun _ _ hqs => hqs
      | cons path paths ih =>
        intro qs hpaths hqs
        rw [List.foldl_cons]
        apply ih _ fun path hpath => hpaths path (List.mem_cons_of_mem _ hpath)
        rw [hqs.root]
        cases hconds : tenantFilter schema model tenantId path with
        | none => exact hqs
        | some conds => exact hqs.filter (hpaths path List.mem_cons_self) hconds
    exact hfold (first :: rest) _ (fun _ hpath => hpath) scoped_getQueryset

omit [DecidableEq κ] in
theorem followed_selectRelated (fields : Fields) :
    (selectRelated schema (some tenantId) (getQueryset schema tenantFkField (some tenantId) model) fields).selection.followed
      schema model = fields.followed schema model := by
  cases fields with
  | clear => rfl
  | everything => rfl
  | paths first rest =>
    rw [selectRelated_paths]
    have hfold : ∀ (paths : List Path) (qs : QuerySet μ κ), (paths.foldl (fun qs fieldPath =>
        (tenantFilter schema qs.query.model tenantId fieldPath).elim qs fun conds =>
          { qs with query := qs.query.filter schema conds }) qs).selection = qs.selection := by
      intro paths
      induction paths with
      | nil => exact fun _ => rfl
      | cons path paths ih =>
        intro qs
        rw [List.foldl_cons, ih]
        cases tenantFilter schema qs.query.model tenantId path <;> rfl
    exact congrArg (Selection.followed schema model) (hfold (first :: rest) _)

/-! ## Results -/

/-- Every hop of the selected paths is joined. -/
def Joined (selected : List Path) (joins : List Join) : Prop :=
  ∀ field ∈ selected, ∀ path, path <+: field → path = [] ∨ path ∈ joins.map (·.path)

theorem Joined.env {field : Path} (hjoined : Joined selected joins) (hfield : field ∈ selected) (hpath : path <+: field) :
    joined schema tables start (joins.map (·.path)) path = reach schema tables start path :=
  joined_eq (hjoined field hfield path hpath)

omit [DecidableEq κ] in
/-- Compiling the selection joins every hop. -/
theorem compiled_scoped {qs : QuerySet μ κ} (hscoped : Scoped schema tenantFkField tenantId selected model qs.query)
    (hfollowed : qs.selection.followed schema model = selected)
    (hpaths : ∀ path ∈ selected, schema.IsPath model path) :
    Scoped schema tenantFkField tenantId selected model (qs.compiled schema) ∧
      Joined selected (qs.compiled schema).joins := by
  obtain ⟨hroot, hjoins, hwhere⟩ := hscoped
  have hfold : ∀ (paths : List Path) (joins : List Join), (∀ path ∈ paths, path ∈ selected) →
      Good schema model selected joins →
      Good schema model selected (paths.foldl (setupJoins schema [] model) joins) ∧
        (∀ path, path ∈ joins.map (·.path) → path ∈ (paths.foldl (setupJoins schema [] model) joins).map (·.path)) ∧
        Joined paths (paths.foldl (setupJoins schema [] model) joins) := by
    intro paths
    induction paths with
    | nil => exact fun joins _ hgood => ⟨hgood, fun _ h => h, fun _ h => absurd h List.not_mem_nil⟩
    | cons first paths ih =>
      intro joins hsub hgood
      have hfirst := hsub first List.mem_cons_self
      have hgood' := setupJoins_good hgood .nil (.inl rfl) ⟨first, hfirst, List.prefix_rfl⟩
      obtain ⟨hall, hkept, hjoined⟩ := ih _ (fun path hpath => hsub path (List.mem_cons_of_mem _ hpath)) hgood'
      rw [List.foldl_cons]
      refine ⟨hall, fun path hpath => hkept path (setupJoins_subset hpath), ?_⟩
      intro field hfield path hbegins
      rcases List.mem_cons.mp hfield with rfl | hfield
      · by_cases hne : path = []
        · exact .inl hne
        · obtain ⟨-, target, n, hresolve⟩ := hpaths _ hfirst
          have hmem : [] ++ path ∈ (setupJoins schema [] model joins field).map (·.path) :=
            setupJoins_mem hresolve hbegins hne
          exact .inr (hkept path hmem)
      · exact hjoined field hfield path hbegins
  subst hroot
  obtain ⟨hgood, -, hjoined⟩ := hfold selected qs.query.joins (fun _ h => h) hjoins
  rw [← hfollowed] at hgood hjoined ⊢
  exact ⟨⟨rfl, hgood, by rw [hfollowed]; exact hwhere⟩, hjoined⟩

/-- **The filters hold** of the rows from which the selected paths reach the tenant's rows. -/
theorem filters_hold {conds : List (Cond κ)} (hrow : row ∈ db.rows model) (hne : path ≠ [])
    (hown : Own schema db.toTables tenantId (model, row) path) (hjoined : Joined selected joins) (hpath : path ∈ selected)
    (h : tenantFilter schema model tenantId path = some conds) :
    conds.any (Cond.holds schema (db.visible schema extra tenantId)
      (joined schema (db.visible schema extra tenantId) (model, row) (joins.map (·.path)))) = true := by
  obtain ⟨target, n, attname, hwalk, hprotected, hattname, rfl⟩ := tenantFilter_spec h
  have henv : ∀ done, done <+: path →
      joined schema (db.visible schema extra tenantId) (model, row) (joins.map (·.path)) done =
        reach schema db.toTables (model, row) done := by
    intro done hdone
    rw [hjoined.env hpath hdone, reach_visible hown hdone]
  rw [List.any_cons, Bool.or_eq_true]
  cases hreach : reach schema db.toTables (model, row) path with
  | some found =>
    -- The path reaches a row, which is the tenant's.
    left
    obtain ⟨hmodel, hmem⟩ := reach_walk hwalk hrow hreach
    have htenant := hown path List.prefix_rfl hne found hreach (by rw [hmodel]; exact hprotected)
    rw [hmodel] at htenant
    have hcell := (db.tenant hattname hmem).trans htenant
    rw [Cond.holds, henv path List.prefix_rfl, hreach]
    dsimp only
    rw [hmodel]
    exact beq_iff_eq.mpr hcell
  | none =>
    right
    cases n with
    | false =>
      obtain ⟨found, hfound⟩ := reach_nonNull hwalk hrow
      rw [hreach] at hfound
      cases hfound
    | true =>
      rw [if_pos rfl, List.any_cons, List.any_nil, Bool.or_false]
      obtain ⟨done, hop, rfl⟩ : ∃ done hop, path = done ++ [hop] :=
        ⟨path.dropLast, path.getLast hne, (List.dropLast_append_getLast hne).symm⟩
      rw [Cond.holds]
      have hdone : (done ++ [hop]).dropLast = done := by simp
      have hlast : (done ++ [hop]).getLast? = some hop := by simp
      rw [hdone, hlast, henv done (List.prefix_append _ _), henv _ List.prefix_rfl, hreach]
      cases hcurrent : reach schema db.toTables (model, row) done with
      | none => rfl
      | some current =>
        obtain ⟨mid, n', field, hmid, hfield, hrelated, -⟩ := hwalk.snoc_inv
        obtain ⟨hmodel, hmem⟩ := reach_walk hmid hrow hcurrent
        rw [reach_snoc, hcurrent, Option.bind_some, follow, hmodel, hfield] at hreach
        dsimp only
        rw [hmodel, Option.bind_some, hfield]
        cases field with
        | column => cases hrelated
        | lazy target => cases hrelated
        | reverseOneToOne source attname => rfl
        | foreignKey attname' target' null =>
          -- A value would refer to a row that the path reaches.
          cases hcell : db.cell mid current.2 attname' with
          | none =>
            dsimp only
            rw [Option.isNone_iff_eq_none]
            exact hcell
          | some key =>
            have hkey := db.references hfield hmem hcell
            simp only [Option.map_some, Option.bind_some, Tables.matchRows, hcell, List.head?_eq_none_iff,
              List.map_eq_nil_iff, List.filter_eq_nil_iff] at hreach
            exact absurd (beq_self_eq_true key) (hreach key hkey)

theorem visible_matchRows_length (hfield : schema.getField model hop = some field) :
    ((db.visible schema extra tenantId).matchRows model row field).length ≤ 1 := by
  rw [matchRows_visible]
  exact (List.length_filter_le _ _).trans (matchRows_length hfield)

/-- **What a filtered query returns**: each row of the tenant's once, with the rows that its
paths reach. -/
theorem results_spec (hscoped : Scoped schema tenantFkField tenantId selected model q)
    (hjoined : Joined selected q.joins) (hpaths : ∀ path ∈ selected, schema.IsPath model path)
    (hown : ∀ row ∈ db.rows model, db.cell model row (tenantFkField ++ "_id") = some tenantId →
      ∀ path ∈ selected, Own schema db.toTables tenantId (model, row) path) :
    q.results schema (db.visible schema extra tenantId) =
      ((db.visible schema extra tenantId).rows model).flatMap fun row =>
        if db.cell model row (tenantFkField ++ "_id") = some tenantId then
          [(row, joined schema (db.visible schema extra tenantId) (model, row) (q.joins.map (·.path)))] else [] := by
  obtain ⟨rfl, hjoins, filters, hwhere, hfilters⟩ := hscoped
  unfold Query.results
  rw [List.flatMap_def, List.flatMap_def]
  congr 1
  apply List.map_congr_left
  intro row hvisible
  have hrow : row ∈ db.rows q.model := (List.mem_filter.mp hvisible).1
  have hstart : (fun path => if path = [] then some (q.model, row) else none) =
      joined schema (db.visible schema extra tenantId) (q.model, row) [] := by
    funext path
    unfold joined
    by_cases hpath : path = []
    · simp [hpath]
    · simp [hpath]
  dsimp only
  rw [hstart, foldl_joinStep visible_matchRows_length hjoins.closed, hwhere]
  -- The first condition reads the row itself.
  have hfirst : [Cond.equals [] (tenantFkField ++ "_id") tenantId].any (Cond.holds schema
      (db.visible schema extra tenantId)
      (joined schema (db.visible schema extra tenantId) (q.model, row) (q.joins.map (·.path)))) =
      (db.cell q.model row (tenantFkField ++ "_id") == some tenantId) := by
    rw [List.any_cons, List.any_nil, Bool.or_false, Cond.holds, joined_eq (.inl rfl)]
    rfl
  by_cases hcell : db.cell q.model row (tenantFkField ++ "_id") = some tenantId
  · have hall : q.joins.all (fun join => join.outer ||
        (reach schema (db.visible schema extra tenantId) (q.model, row) join.path).isSome) = true := by
      rw [List.all_eq_true]
      intro join hjoin
      cases houter : join.outer with
      | true => rfl
      | false =>
        obtain ⟨target, hwalk⟩ := hjoins.inner join hjoin houter
        obtain ⟨path, hpath, hbegins⟩ := hjoins.sub join hjoin
        obtain ⟨found, hfound⟩ := reach_nonNull hwalk hrow
        rw [reach_visible (hown row hrow hcell path hpath) hbegins, hfound]
        rfl
    have htrue : ∀ conds ∈ filters, conds.any (Cond.holds schema (db.visible schema extra tenantId)
        (joined schema (db.visible schema extra tenantId) (q.model, row) (q.joins.map (·.path)))) = true := by
      intro conds hconds
      obtain ⟨path, hpath, hfilter⟩ := hfilters conds hconds
      exact filters_hold hrow (hpaths path hpath).1 (hown row hrow hcell path hpath) hjoined hpath hfilter
    rw [if_pos hall, if_pos hcell, List.filter_cons_of_pos]
    · rfl
    · rw [List.all_cons, hfirst, Bool.and_eq_true, List.all_eq_true]
      exact ⟨beq_iff_eq.mpr hcell, htrue⟩
  · rw [if_neg hcell]
    split
    · rw [List.filter_cons_of_neg]
      · rfl
      · rw [List.all_cons, hfirst]
        simp [hcell]
    · rfl

/-- Attributes give the rows that their paths reach, selected or fetched. -/
theorem access_eq {env : Env μ κ} {done : Path}
    (henv : ∀ field ∈ selected, ∀ path, path <+: field → env path = reach schema tables start path) :
    access schema tables selected env done (reach schema tables start done) rest =
      reach schema tables start (done ++ rest) := by
  induction rest generalizing done with
  | nil => simp [access]
  | cons hop rest ih =>
    have hsplit : done ++ hop :: rest = done ++ [hop] ++ rest := by simp
    rw [hsplit, ← ih]
    cases hcurrent : reach schema tables start done with
    | none =>
      have hnone : reach schema tables start (done ++ [hop]) = none := by
        rw [reach_snoc, hcurrent]
        rfl
      rw [hnone]
      cases rest <;> rfl
    | some current =>
      obtain ⟨model, row⟩ := current
      rw [access]
      have hnext : (if (selected.any fun field => (done ++ [hop]).isPrefixOf field) = true then env (done ++ [hop])
          else ((schema.getField model hop).map (tables.matchRows model row)).bind List.head?) =
          reach schema tables start (done ++ [hop]) := by
        split
        next hselected =>
          obtain ⟨field, hfield, hbegins⟩ := List.any_eq_true.mp hselected
          exact henv field hfield _ (List.isPrefixOf_iff_prefix.mp hbegins)
        next =>
          rw [reach_snoc, hcurrent]
          rfl
      rw [hnext]

omit [DecidableEq κ] in
theorem nonNullPaths_isPath {depth : ℕ} (h : path ∈ nonNullPaths schema depth model) : schema.IsPath model path := by
  induction depth generalizing model path with
  | zero => cases h
  | succ depth ih =>
    rw [nonNullPaths] at h
    obtain ⟨name, -, hname⟩ := List.mem_flatMap.mp h
    split at hname
    next attname target hfield =>
      rcases List.mem_cons.mp hname with rfl | hname
      · exact ⟨by simp, target, false, by simp [resolveRelatedPath, hfield, Field.relatedModel, Field.null]⟩
      · obtain ⟨rest, hrest, rfl⟩ := List.mem_map.mp hname
        obtain ⟨-, target', n, hresolve⟩ := ih hrest
        refine ⟨by simp, target', n, ?_⟩
        rw [resolveRelatedPath, hfield]
        exact hresolve
    next => cases hname

/-- The paths among the arguments are paths of relations. -/
def Fields.Valid (schema : Schema μ) (model : μ) : Fields → Prop
  | .clear => True
  | .everything => True
  | .paths first rest => ∀ path ∈ first :: rest, schema.IsPath model path

omit [DecidableEq κ] in
theorem followed_isPath {fields : Fields} (h : fields.Valid schema model) :
    ∀ path ∈ fields.followed schema model, schema.IsPath model path := by
  intro path hpath
  cases fields with
  | clear => cases hpath
  | everything => exact nonNullPaths_isPath hpath
  | paths first rest => exact h path hpath

/-- The instances of a filtered queryset: the tenant's rows, and what their paths reach. -/
theorem instances_spec {qs : QuerySet μ κ} (hscoped : Scoped schema tenantFkField tenantId selected model qs.query)
    (hfollowed : qs.selection.followed schema model = selected) (hpaths : ∀ path ∈ selected, schema.IsPath model path)
    (hown : ∀ row ∈ db.rows model, db.cell model row (tenantFkField ++ "_id") = some tenantId →
      ∀ path ∈ selected, Own schema db.toTables tenantId (model, row) path) :
    qs.instances schema (db.visible schema extra tenantId) =
      ((db.visible schema extra tenantId).rows model).flatMap fun row =>
        if db.cell model row (tenantFkField ++ "_id") = some tenantId then
          [(row, reach schema (db.visible schema extra tenantId) (model, row))] else [] := by
  obtain ⟨hcompiled, hjoined⟩ := compiled_scoped hscoped hfollowed hpaths
  unfold QuerySet.instances
  rw [results_spec hcompiled hjoined hpaths hown, List.map_flatMap, hscoped.root, hfollowed]
  congr 1
  funext row
  split
  · rw [List.map_singleton]
    congr 2
    funext path
    have haccess : access schema (db.visible schema extra tenantId) selected
        (joined schema (db.visible schema extra tenantId) (model, row) ((qs.compiled schema).joins.map (·.path))) []
        (reach schema (db.visible schema extra tenantId) (model, row) []) path =
        reach schema (db.visible schema extra tenantId) (model, row) ([] ++ path) :=
      access_eq fun field hfield path hpath => hjoined.env hfield hpath
    exact haccess
  · rfl

/-- **`select_related()` drops no row.** In the tenant's context, whatever the arguments: if
the selected paths reach, from each row of the tenant's, nothing or at protected models the
tenant's rows, then the auto-scoped queryset gives the same instances, once each and with
the same related objects, as without `select_related()`. -/
theorem select_related_drops_nothing (schema : Schema μ) (db : Database schema κ) (extra : μ → κ → Bool) (tenantId : κ)
    (tenantFkField : String) (model : μ) (fields : Fields) (hvalid : fields.Valid schema model)
    (hown : ∀ row ∈ db.rows model, db.cell model row (tenantFkField ++ "_id") = some tenantId →
      ∀ path ∈ fields.followed schema model, Own schema db.toTables tenantId (model, row) path) :
    (selectRelated schema (some tenantId) (getQueryset schema tenantFkField (some tenantId) model) fields).instances schema
        (db.visible schema extra tenantId) =
      (getQueryset schema tenantFkField (some tenantId) model).instances schema (db.visible schema extra tenantId) := by
  rw [instances_spec (scoped_selectRelated fields) (followed_selectRelated fields) (followed_isPath hvalid) hown,
    instances_spec scoped_getQueryset (rfl : _ = ([] : List Path)) (fun _ h => absurd h List.not_mem_nil)
      fun _ _ _ _ h => absurd h List.not_mem_nil]

/-! ## A shop -/

inductive ShopModel where
  | item
  | order
  | customer
deriving DecidableEq

/-- Items may have an order, each order has a customer. -/
def shop : Schema ShopModel where
  getField
    | .item, hop => if hop = "order" then some (.foreignKey "order_id" .order true) else none
    | .order, hop => if hop = "customer" then some (.foreignKey "customer_id" .customer false) else none
    | .customer, _ => none
  foreignKeys
    | .item => ["order"]
    | .order => ["customer"]
    | .customer => []
  isRlsProtected _ := true
  tenantAttname _ := some "tenant_id"

/-- Two items of tenant 1, one without an order, and an item of tenant 2. -/
def shopTables : Tables ShopModel ℕ where
  rows
    | .item => [1, 2, 3]
    | .order => [1, 3]
    | .customer => [1, 3]
  cell model row attname :=
    if attname = "tenant_id" then some (if row = 3 then 2 else 1)
    else if attname = "order_id" ∧ model = .item ∧ row ≠ 2 then some row
    else if attname = "customer_id" ∧ model = .order then some row
    else none
  tenantOf _ row := some (if row = 3 then 2 else 1)

def shopDatabase : Database shop ℕ where
  toTables := shopTables
  nodup model := by cases model <;> decide
  references := by
    intro model hop attname target null row key hfield hrow hcell
    cases model with
    | item =>
      obtain ⟨rfl, rfl, rfl, rfl⟩ : hop = "order" ∧ "order_id" = attname ∧ ShopModel.order = target ∧ true = null := by
        simpa [shop] using hfield
      revert hcell
      revert hrow
      simp [shopTables]
      omega
    | order =>
      obtain ⟨rfl, rfl, rfl, rfl⟩ : hop = "customer" ∧ "customer_id" = attname ∧ ShopModel.customer = target ∧ false = null := by
        simpa [shop] using hfield
      revert hcell
      revert hrow
      simp [shopTables]
      omega
    | customer => cases hfield
  notNull := by
    intro model hop attname target row hfield hrow
    cases model with
    | item => simp [shop] at hfield
    | order =>
      obtain ⟨rfl, rfl, rfl⟩ : hop = "customer" ∧ "customer_id" = attname ∧ ShopModel.customer = target := by
        simpa [shop] using hfield
      simp [shopTables]
    | customer => cases hfield
  unique := by
    intro model hop source attname key row row' hfield
    cases model <;> simp [shop] at hfield
  tenant := by
    intro model attname row hattname _
    obtain rfl : "tenant_id" = attname := Option.some.inj hattname
    rfl

/-- The items of tenant 1 keep both of their rows. -/
theorem shop_drops_nothing :
    (selectRelated shop (some 1) (getQueryset shop "tenant" (some 1) .item)
        (.paths ["order", "customer"] [["order"]])).instances shop (shopDatabase.visible shop (fun _ _ => false) 1) =
      (getQueryset shop "tenant" (some 1) .item).instances shop (shopDatabase.visible shop (fun _ _ => false) 1) := by
  refine select_related_drops_nothing shop shopDatabase (fun _ _ => false) 1 "tenant" .item
    (.paths ["order", "customer"] [["order"]]) ?_ ?_
  · intro path hpath
    rcases List.mem_cons.mp hpath with rfl | hpath
    · exact ⟨by decide, .customer, true, by decide⟩
    · obtain rfl := List.mem_singleton.mp hpath
      exact ⟨by decide, .order, true, by decide⟩
  · have hrows : ∀ row ∈ shopDatabase.rows .item, shopDatabase.cell .item row ("tenant" ++ "_id") = some 1 →
        ∀ path ∈ [["order", "customer"], ["order"]], ∀ done ∈ path.inits,
          ∀ found ∈ (reach shop shopDatabase.toTables (.item, row) done).toList,
            shopDatabase.tenantOf found.1 found.2 = some 1 := by
      decide
    intro row hrow hcell path hpath done hdone _ found hreach _
    exact hrows row hrow hcell path hpath done ((List.mem_inits done path).mpr hdone) found (by simp [hreach])

end SelectRelated

end RlsTenants
