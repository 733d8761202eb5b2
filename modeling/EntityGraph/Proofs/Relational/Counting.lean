import EntityGraph.Proofs.Relational.NamedColumns
import EntityGraph.Proofs.Relational.Scope

/-!
# How many rows a selection selects

The number of rows that come out of a selection depends on its columns only where repeated rows are
left out. If the rows of its source are told apart by a column that is selected, and nothing else
than columns of the source is, then as many rows are left as there are different rows of the source:
as many as there are different values of that column.
-/

set_option autoImplicit false

namespace EntityGraph

variable {E : Engine} {db : Database} {outer : Env}

/-! ## Windows -/

/-- A limit and an offset leave at least one of so many rows. -/
def WindowShows (limit offset : Option Nat) (n : Nat) : Prop :=
  limit ≠ some 0 ∧ offset.getD 0 < n

instance (limit offset : Option Nat) (n : Nat) : Decidable (WindowShows limit offset n) :=
  inferInstanceAs (Decidable (limit ≠ some 0 ∧ offset.getD 0 < n))

theorem windowShows_none {n : Nat} : WindowShows none none n ↔ n ≠ 0 := by
  simp [WindowShows, Nat.pos_iff_ne_zero]

/-- Five rows behind the first show one of two rows, five rows behind the second none. -/
example : WindowShows (some 5) (some 1) 2 ∧ ¬WindowShows (some 5) (some 2) 2 := by decide

namespace Shape

/-- How many of so many rows a window shows. -/
def shown (shape : Shape) (n : Nat) : Nat :=
  match shape.limit with
  | some limit => min limit (n - shape.offset.getD 0)
  | none => n - shape.offset.getD 0

/-- The number of rows before the window is cut out. -/
def total (E : Engine) (outer : Env) (shape : Shape) (levels : List Level) : Nat :=
  match shape.projection with
  | .rowCount | .distinctCount _ => 1
  | .columns false _ => levels.length
  | .columns true names =>
    (distinctRows E ((levels.mergeSort (inOrder E outer shape.order)).map fun level =>
      names.flatMap (projected outer level))).length

theorem length_window (shape : Shape) (rows : List OutRow) :
    (shape.window rows).length = shape.shown rows.length := by
  unfold window shown
  cases shape.limit <;> simp

theorem length_result (shape : Shape) (levels : List Level) :
    (shape.result E outer levels).length = shape.shown (shape.total E outer levels) := by
  unfold result total
  dsimp only
  rw [length_window]
  cases shape.projection with
  | rowCount => rfl
  | distinctCount names => rfl
  | columns distinct names =>
    cases distinct with
    | false => simp only [List.length_map, List.length_mergeSort]
    | true => rfl

theorem shown_pos {shape : Shape} {n : Nat} :
    0 < shape.shown n ↔ WindowShows shape.limit shape.offset n := by
  unfold shown WindowShows
  cases shape.limit with
  | none =>
    simp only [ne_eq, reduceCtorEq, not_false_eq_true, true_and]
    omega
  | some limit =>
    simp only [ne_eq, Option.some_inj]
    omega

end Shape

/-! ## Rows beside each other -/

namespace Selector

/-- The rows of the sources of a selection that stand side by side and meet its condition. -/
def levels (E : Engine) (db : Database) (outer : Env) (s : Selector) : List Level :=
  (joinsLevels E db s.joins outer ((s.source.frames E db outer).map fun f => [f])).filter
    fun level => (conditionTruth E db s.predicate (level :: outer)).isYes

/-- What a selection does with its rows. -/
def itsShape (s : Selector) : Shape :=
  shape s.columns s.order s.limit s.offset s.distinct s.count

theorem outRows_eq (s : Selector) :
    s.outRows E db outer = s.itsShape.result E outer (s.levels E db outer) := by
  obtain ⟨columns, source, joins, predicate, order, limit, offset, distinct, count⟩ := s
  rw [outRows]
  rfl

end Selector

/-- Joined rows stand behind those that they are joined to. -/
theorem mem_joinsLevels {js : List Join} {levels : List Level} {level : Level}
    (h : level ∈ joinsLevels E db js outer levels) : ∃ l ∈ levels, l <+: level := by
  induction js generalizing levels with
  | nil =>
    rw [joinsLevels] at h
    exact ⟨level, h, List.prefix_rfl⟩
  | cons j js ih =>
    obtain ⟨table, left, right⟩ := j
    rw [joinsLevels] at h
    obtain ⟨mid, hmid, hprefix⟩ := ih h
    obtain ⟨l, hl, hjoined⟩ := List.mem_flatMap.mp hmid
    obtain ⟨f, -, rfl⟩ := List.mem_map.mp (List.mem_filter.mp hjoined).1
    exact ⟨l, hl, (List.prefix_append l [f]).trans hprefix⟩

/-- Each row of a selection begins with one of its source. -/
theorem Selector.mem_levels {s : Selector} {level : Level} (h : level ∈ s.levels E db outer) :
    ∃ f ∈ s.source.frames E db outer, ∃ rest, level = f :: rest := by
  obtain ⟨l, hl, rest, rfl⟩ := mem_joinsLevels (List.mem_filter.mp h).1
  obtain ⟨f, hf, rfl⟩ := List.mem_map.mp hl
  exact ⟨f, hf, rest, rfl⟩

/-! ## Columns of the source -/

/-- Each value that is there is the same as itself. -/
def Engine.Reflexive (E : Engine) : Prop := ∀ v : Value, v.isNull = false → E.same v v = true

theorem Engine.Reflexive.alike_self (hE : E.Reflexive) (v : Value) : E.alike v v = true := by
  unfold Engine.alike
  cases hv : v.isNull with
  | true => rfl
  | false => simpa [hv] using hE v hv

/-- A name, given by its parts, stands for one column of a source. -/
def Source.Supplies (source : Source) (name : List String) : Prop :=
  source.has name = true ∧ name.getLastD "" ≠ "*"

theorem projected_of_supplies {f : Frame} {rest : Level} {name : List String}
    (h : f.source.Supplies name) :
    projected outer (f :: rest) name = [(name.getLastD "", f.tuple (name.getLastD ""))] := by
  obtain ⟨hhas, hstar⟩ := h
  have hvalue : f.value? name.dropLast (name.getLastD "") = some (f.tuple (name.getLastD "")) :=
    if_pos hhas
  have hlookup : Env.lookup ((f :: rest) :: outer) name = f.tuple (name.getLastD "") := by
    rw [Env.lookup, List.flatten_cons, List.cons_append, List.findSome?_cons_of_isSome]
    · rw [hvalue]
      rfl
    · rw [hvalue]
      rfl
  rw [projected, if_neg hstar, hlookup]

/-- What is selected of a row that begins with one of the source. -/
theorem flatMap_projected {f : Frame} {rest : Level} {names : List (List String)}
    (h : ∀ name ∈ names, f.source.Supplies name) :
    names.flatMap (projected outer (f :: rest)) =
      names.map fun name => (name.getLastD "", f.tuple (name.getLastD "")) := by
  rw [List.map_eq_flatMap]
  exact List.flatMap_congr fun name hname => projected_of_supplies (h name hname)

theorem alike_map {names : List (List String)} {f g : List String → Value} :
    OutRow.alike E (names.map fun name => (name.getLastD "", f name))
      (names.map fun name => (name.getLastD "", g name)) =
        names.all fun name => E.alike (f name) (g name) := by
  induction names with
  | nil => rfl
  | cons name names ih => rw [List.map_cons, List.map_cons, OutRow.alike, ih, List.all_cons]

/-- A column tells the rows of the source of a selection apart. -/
structure Selector.IsIdentifiedBy (E : Engine) (db : Database) (s : Selector) (name : String) :
    Prop where
  supplied : (s.source.sourceOf db).Supplies (nameParts name)
  present : ∀ f ∈ s.source.frames E db [], (f.tuple (columnName name)).isNull = false
  unique : (s.source.frames E db []).Pairwise fun f g =>
    E.equal (f.tuple (columnName name)) (g.tuple (columnName name)) = false

namespace Selector.IsIdentifiedBy

variable {s : Selector} {name : String}

/-- Rows with the same value are one row. -/
theorem eq_of_alike (h : s.IsIdentifiedBy E db name) {f g : Frame}
    (hf : f ∈ s.source.frames E db []) (hg : g ∈ s.source.frames E db [])
    (halike : E.alike (f.tuple (columnName name)) (g.tuple (columnName name)) = true) : f = g := by
  by_contra hne
  have hsymm : Std.Symm fun f g : Frame =>
      E.equal (f.tuple (columnName name)) (g.tuple (columnName name)) = false :=
    ⟨fun a b hab => by rwa [Engine.equal_comm]⟩
  have hapart := h.unique.forall hf hg hne
  simp only [Engine.equal, Engine.alike, h.present f hf, h.present g hg, Bool.or_false,
    Bool.false_eq_true, if_false, Bool.not_false, Bool.true_and] at hapart halike
  rw [halike] at hapart
  cases hapart

/-- Where the column is selected, and only columns of the source are, two rows are alike if they
begin with the same row of the source. -/
theorem alike_iff (hE : E.Reflexive) (h : s.IsIdentifiedBy E db name) {names : List (List String)}
    (hname : nameParts name ∈ names)
    (hnames : ∀ n ∈ names, (s.source.sourceOf db).Supplies n) {a b : Level}
    (ha : a ∈ s.levels E db []) (hb : b ∈ s.levels E db []) :
    OutRow.alike E (names.flatMap (projected [] a)) (names.flatMap (projected [] b)) = true ↔
      a.head? = b.head? := by
  obtain ⟨f, hf, rest, rfl⟩ := mem_levels ha
  obtain ⟨g, hg, rest', rfl⟩ := mem_levels hb
  have hsource := source_frames E db s.source []
  rw [flatMap_projected (by rwa [hsource f hf]), flatMap_projected (by rwa [hsource g hg]),
    alike_map, List.all_eq_true, List.head?_cons, List.head?_cons, Option.some_inj]
  constructor
  · exact fun halike => h.eq_of_alike hf hg (halike _ hname)
  · rintro rfl n -
    exact hE.alike_self _

end Selector.IsIdentifiedBy

/-! ## Repeated rows -/

theorem distinctRows_eq_nil {rows : List OutRow} : distinctRows E rows = [] ↔ rows = [] := by
  constructor
  · intro h
    cases rows with
    | nil => rfl
    | cons r rows =>
      have hkept : distinctRows E (r :: rows) ≠ [] := by
        refine List.foldlRecOn (motive := (· ≠ [])) rows _ (List.cons_ne_nil r [])
          fun kept hkept r _ => ?_
        split
        case isTrue => exact hkept
        case isFalse => simp
      exact absurd h hkept
  · rintro rfl
    rfl

/-- Leaving out repeated rows leaves as many of one selection as of another in which the same rows
are repeated. -/
theorem length_distinctRows_eq {α κ : Type} {f g : α → OutRow} (key : α → κ) {l l' : List α}
    (hperm : l.Perm l')
    (hf : ∀ a ∈ l, ∀ b ∈ l, OutRow.alike E (f a) (f b) = true ↔ key a = key b)
    (hg : ∀ a ∈ l', ∀ b ∈ l', OutRow.alike E (g a) (g b) = true ↔ key a = key b) :
    (distinctRows E (l.map f)).length = (distinctRows E (l'.map g)).length := by
  obtain ⟨kept, hsub, hnodup, hkeys, hkept⟩ := distinctRows_map_key key hf
  obtain ⟨kept', hsub', hnodup', hkeys', hkept'⟩ := distinctRows_map_key key hg
  have hkeysPerm : (kept.map key).Perm (kept'.map key) := by
    rw [List.perm_ext_iff_of_nodup hnodup hnodup']
    intro k
    constructor
    · intro hk
      obtain ⟨a, ha, rfl⟩ := List.mem_map.mp hk
      exact hkeys' a (hperm.subset (hsub ha))
    · intro hk
      obtain ⟨a, ha, rfl⟩ := List.mem_map.mp hk
      exact hkeys a (hperm.symm.subset (hsub' ha))
  rw [hkept, hkept', List.length_map, List.length_map, ← List.length_map (f := key),
    hkeysPerm.length_eq, List.length_map]

/-! ## Selections that count -/

namespace Shape

variable {levels : List Level} {order : List (List String × Direction)}

theorem result_rowCount :
    Shape.result E outer ⟨.rowCount, order, none, none⟩ levels =
      [[("count", .int (Int64.ofNat levels.length))]] := by
  simp only [result, window, Option.getD_none, List.drop_zero, List.length_mergeSort]

/-- Where no selected value is absent, all rows are counted, each once. -/
theorem result_distinctCount {names : List (List String)}
    (hpresent : ∀ level ∈ levels, ∀ c ∈ names.flatMap (projected outer level), c.2.isNull = false) :
    Shape.result E outer ⟨.distinctCount names, order, none, none⟩ levels =
      [[("count", .int (Int64.ofNat (distinctRows E
        ((levels.mergeSort (inOrder E outer order)).map fun level =>
          names.flatMap (projected outer level))).length))]] := by
  have hknown : ((levels.mergeSort (inOrder E outer order)).map fun level =>
      names.flatMap (projected outer level)).filter (fun r => r.all fun c => !c.2.isNull) =
        (levels.mergeSort (inOrder E outer order)).map fun level =>
          names.flatMap (projected outer level) := by
    refine List.filter_eq_self.mpr fun r hr => ?_
    obtain ⟨level, hlevel, rfl⟩ := List.mem_map.mp hr
    rw [List.all_eq_true]
    intro c hc
    rw [hpresent level (List.mem_mergeSort.mp hlevel) c hc]
    rfl
  simp only [result, window, hknown, Option.getD_none, List.drop_zero]

end Shape

/-! ## Rows without a window -/

namespace Selector

variable {s : Selector}

/-- The number of rows that a selection would have without its window. -/
def rowsInAll (E : Engine) (db : Database) (s : Selector) : Nat :=
  s.itsShape.total E [] (s.levels E db [])

theorem outRows_pos : 0 < (s.outRows E db []).length ↔
    WindowShows s.limit s.offset (s.rowsInAll E db) := by
  -- A selection with an offset alone gets a limit, though not a limit of no rows.
  have hlimit : s.itsShape.limit ≠ some 0 ↔ s.limit ≠ some 0 := by
    unfold itsShape shape
    cases s.limit <;> cases s.offset <;> simp [limitMax]
  rw [outRows_eq, Shape.length_result, Shape.shown_pos, WindowShows, hlimit]
  rfl

/-- A selection has rows if its sources have any, whatever columns are selected; a number is always
selected. -/
theorem rowsInAll_eq_zero :
    s.rowsInAll E db = 0 ↔ s.count = false ∧ s.levels E db [] = [] := by
  unfold rowsInAll itsShape shape projection Shape.total
  dsimp only
  cases s.count with
  | true => cases s.distinct && !s.columns.isEmpty <;> simp
  | false =>
    cases s.distinct with
    | false => simp
    | true =>
      dsimp only
      rw [List.length_eq_zero_iff, distinctRows_eq_nil, List.map_eq_nil_iff,
        ← List.length_eq_zero_iff, List.length_mergeSort, List.length_eq_zero_iff]
      simp

end Selector

end EntityGraph
