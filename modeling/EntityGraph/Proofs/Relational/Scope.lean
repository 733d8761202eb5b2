import EntityGraph.Proofs.Relational.Selection

/-!
# Names in scope

A name in a condition is looked up in the innermost selection first and then further out, so the
rows around a condition can decide it even where it does not mean to speak of them. A condition is
in scope if all of its names, and those of the selections in it, are columns of the sources at hand;
which these are is known before any row is. What is in scope does not depend on what is further out.
-/

set_option autoImplicit false

namespace EntityGraph

/-! ## Sources and their columns -/

/-- The name and the columns of a source. -/
structure Source where
  name : List String
  columns : List String

/-- The sources of the selections around a condition, the innermost first. -/
abbrev Scope := List (List Source)

/-- The source that a frame is a row of. -/
def Frame.source (f : Frame) : Source := ⟨f.name, f.columns⟩

/-- The sources of a level. -/
def Level.sources (level : Level) : List Source := level.map Frame.source

/-- The sources of the levels around a condition. -/
def Env.scope (env : Env) : Scope := env.map Level.sources

/-- A source has a column of this name. -/
def Source.has (s : Source) (name : List String) : Bool :=
  name.dropLast.isSuffixOf s.name && s.columns.contains (name.getLastD "")

/-- A name, given by its parts, is a column of a source in scope. -/
def Scope.has (scope : Scope) (name : List String) : Bool :=
  scope.flatten.any fun s => s.has name

/-- A name is a column of a source in scope. -/
def Scope.knows (scope : Scope) (name : String) : Bool := scope.has (nameParts name)

/-- The columns that a selected name stands for. -/
def projectedColumns (sources : List Source) (name : List String) : List String :=
  if name.getLastD "" = "*" then
    (sources.filter fun s => name.dropLast.isSuffixOf s.name).flatMap Source.columns
  else [name.getLastD ""]

mutual

/-- The source that rows are taken from. -/
def TableRef.sourceOf (db : Database) : TableRef → Source
  | .table name none => ⟨nameParts name, (db (nameParts name)).columns⟩
  | .table name (some asName) => ⟨nameParts asName, (db (nameParts name)).columns⟩
  | .select select asName => ⟨nameParts asName, select.outColumns db⟩

/-- Some sources with those that are joined to them. -/
def joinedSources (db : Database) : List Join → List Source → List Source
  | [], sources => sources
  | ⟨table, _, _⟩ :: rest, sources => joinedSources db rest (sources ++ [table.sourceOf db])

/-- The columns of the rows that a selection selects. -/
def Selector.outColumns (db : Database) : Selector → List String
  | ⟨columns, source, joins, _, _, _, _, distinct, count⟩ =>
    match Selector.projection columns distinct count with
    | .rowCount | .distinctCount _ => ["count"]
    | .columns _ names =>
      names.flatMap (projectedColumns (joinedSources db joins [source.sourceOf db]))

end

/-! ## What is in scope -/

mutual

/-- All names of a condition are columns in scope. -/
def Predicate.InScope (db : Database) : Predicate → Scope → Prop
  | .compare column _ _, scope => scope.knows column = true
  | .isIn column _, scope => scope.knows column = true
  | .notIn column _, scope => scope.knows column = true
  | .isNull column, scope => scope.knows column = true
  | .notNull column, scope => scope.knows column = true
  | .like column _, scope => scope.knows column = true
  | .inSelect column select, scope => scope.knows column = true ∧ select.InScope db scope
  | .anyRow select, scope => select.InScope db scope
  | .conj preds, scope => predicatesInScope db preds scope
  | .disj preds, scope => predicatesInScope db preds scope
  | .neg pred, scope => pred.InScope db scope

/-- All names of the conditions of a list are columns in scope. -/
def predicatesInScope (db : Database) : List Predicate → Scope → Prop
  | [], _ => True
  | p :: rest, scope => p.InScope db scope ∧ predicatesInScope db rest scope

/-- All names of an optional condition are columns in scope. -/
def conditionInScope (db : Database) : Option Predicate → Scope → Prop
  | some p, scope => p.InScope db scope
  | none, _ => True

/-- All names in a source are columns in scope. -/
def TableRef.InScope (db : Database) : TableRef → Scope → Prop
  | .table _ _, _ => True
  | .select select _, outer => select.InScope db outer

/-- All names in joins to some sources are columns of these, of the joined ones or in scope. -/
def joinsInScope (db : Database) : List Join → Scope → List Source → Prop
  | [], _, _ => True
  | ⟨table, left, right⟩ :: rest, outer, sources =>
    table.InScope db outer ∧
      Scope.knows ((sources ++ [table.sourceOf db]) :: outer) left = true ∧
      Scope.knows ((sources ++ [table.sourceOf db]) :: outer) right = true ∧
      joinsInScope db rest outer (sources ++ [table.sourceOf db])

/-- All names of a selection, but for stars, are columns of its own sources or in scope. -/
def Selector.InScope (db : Database) : Selector → Scope → Prop
  | ⟨columns, source, joins, predicate, order, _, _, _, _⟩, outer =>
    source.InScope db outer ∧ joinsInScope db joins outer [source.sourceOf db] ∧
      conditionInScope db predicate (joinedSources db joins [source.sourceOf db] :: outer) ∧
      (∀ c ∈ columns, (nameParts c).getLastD "" = "*" ∨
        Scope.knows (joinedSources db joins [source.sourceOf db] :: outer) c = true) ∧
      ∀ t ∈ order,
        Scope.knows (joinedSources db joins [source.sourceOf db] :: outer) t.column = true

end

/-- The scope of a condition on the rows of a table. -/
def Database.scopeOf (db : Database) (table : String) : Scope :=
  [[⟨nameParts table, (db (nameParts table)).columns⟩]]

/-! ## Wider scopes -/

section Wider

variable {db : Database}

theorem Scope.has_append {scope : Scope} {name : List String} (h : scope.has name = true)
    (outer : Scope) : Scope.has (scope ++ outer) name = true := by
  rw [has, List.flatten_append, List.any_append]
  exact Bool.or_eq_true_iff.mpr (.inl h)

mutual

/-- What is in scope is so, too, where there is more around it. -/
theorem inScope_append (db : Database) : (p : Predicate) → (scope outer : Scope) →
    p.InScope db scope → p.InScope db (scope ++ outer)
  | .compare column op v, scope, outer, h => by
    rw [Predicate.InScope] at h ⊢
    exact Scope.has_append h outer
  | .isIn column vs, scope, outer, h => by
    rw [Predicate.InScope] at h ⊢
    exact Scope.has_append h outer
  | .notIn column vs, scope, outer, h => by
    rw [Predicate.InScope] at h ⊢
    exact Scope.has_append h outer
  | .isNull column, scope, outer, h => by
    rw [Predicate.InScope] at h ⊢
    exact Scope.has_append h outer
  | .notNull column, scope, outer, h => by
    rw [Predicate.InScope] at h ⊢
    exact Scope.has_append h outer
  | .like column pattern, scope, outer, h => by
    rw [Predicate.InScope] at h ⊢
    exact Scope.has_append h outer
  | .inSelect column select, scope, outer, h => by
    rw [Predicate.InScope] at h ⊢
    exact ⟨Scope.has_append h.1 outer, selectorInScope_append db select scope outer h.2⟩
  | .anyRow select, scope, outer, h => by
    rw [Predicate.InScope] at h ⊢
    exact selectorInScope_append db select scope outer h
  | .conj preds, scope, outer, h => by
    rw [Predicate.InScope] at h ⊢
    exact predicatesInScope_append db preds scope outer h
  | .disj preds, scope, outer, h => by
    rw [Predicate.InScope] at h ⊢
    exact predicatesInScope_append db preds scope outer h
  | .neg pred, scope, outer, h => by
    rw [Predicate.InScope] at h ⊢
    exact inScope_append db pred scope outer h

theorem predicatesInScope_append (db : Database) : (ps : List Predicate) →
    (scope outer : Scope) → predicatesInScope db ps scope →
    predicatesInScope db ps (scope ++ outer)
  | [], scope, outer, _ => by
    rw [predicatesInScope]
    trivial
  | p :: rest, scope, outer, h => by
    rw [predicatesInScope] at h ⊢
    exact ⟨inScope_append db p scope outer h.1, predicatesInScope_append db rest scope outer h.2⟩

theorem conditionInScope_append (db : Database) : (p : Option Predicate) →
    (scope outer : Scope) → conditionInScope db p scope → conditionInScope db p (scope ++ outer)
  | some p, scope, outer, h => by
    rw [conditionInScope] at h ⊢
    exact inScope_append db p scope outer h
  | none, scope, outer, _ => by
    rw [conditionInScope]
    trivial

theorem sourceInScope_append (db : Database) : (t : TableRef) → (scope outer : Scope) →
    t.InScope db scope → t.InScope db (scope ++ outer)
  | .table name asName, scope, outer, _ => by
    rw [TableRef.InScope]
    trivial
  | .select select asName, scope, outer, h => by
    rw [TableRef.InScope] at h ⊢
    exact selectorInScope_append db select scope outer h

theorem joinsInScope_append (db : Database) : (js : List Join) → (scope outer : Scope) →
    (sources : List Source) → joinsInScope db js scope sources →
    joinsInScope db js (scope ++ outer) sources
  | [], scope, outer, sources, _ => by
    rw [joinsInScope]
    trivial
  | ⟨table, left, right⟩ :: rest, scope, outer, sources, h => by
    rw [joinsInScope] at h ⊢
    obtain ⟨htable, hleft, hright, hrest⟩ := h
    exact ⟨sourceInScope_append db table scope outer htable, Scope.has_append hleft outer,
      Scope.has_append hright outer, joinsInScope_append db rest scope outer _ hrest⟩

theorem selectorInScope_append (db : Database) : (s : Selector) → (scope outer : Scope) →
    s.InScope db scope → s.InScope db (scope ++ outer)
  | ⟨columns, source, joins, predicate, order, _, _, _, _⟩, scope, outer, h => by
    rw [Selector.InScope] at h ⊢
    obtain ⟨hsource, hjoins, hpredicate, hcolumns, horder⟩ := h
    have hown : ∀ name, Scope.knows (joinedSources db joins [source.sourceOf db] :: scope) name →
        Scope.knows (joinedSources db joins [source.sourceOf db] :: (scope ++ outer)) name :=
      fun _ hknown => @Scope.has_append (_ :: scope) _ hknown outer
    exact ⟨sourceInScope_append db source scope outer hsource,
      joinsInScope_append db joins scope outer _ hjoins,
      conditionInScope_append db predicate (_ :: scope) outer hpredicate,
      fun c hc => (hcolumns c hc).imp_right fun hknown => hown _ hknown,
      fun t ht => hown _ (horder t ht)⟩

end

end Wider

/-! ## Rows have the columns of their selection -/

section OutColumns

variable {E : Engine} {db : Database}

theorem map_fst_projected (outer : Env) (level : Level) (name : List String) :
    (projected outer level name).map (·.1) = projectedColumns level.sources name := by
  have hfields : ∀ f : Frame, f.fields.map (·.1) = f.columns := fun f => by
    simp [Frame.fields, Function.comp_def]
  unfold projected projectedColumns
  split
  case isTrue =>
    simp only [Level.sources, List.filter_map, List.flatMap_map, List.map_flatMap, hfields]
    rfl
  case isFalse => rfl

/-- Leaving out repeated rows adds none. -/
theorem mem_of_mem_distinctRows {rows : List OutRow} {r : OutRow} (h : r ∈ distinctRows E rows) :
    r ∈ rows := by
  have hkept : ∀ (rows kept : List OutRow), r ∈ rows.foldl (fun kept r =>
      if kept.any (OutRow.alike E r) then kept else kept ++ [r]) kept → r ∈ kept ∨ r ∈ rows := by
    intro rows
    induction rows with
    | nil => exact fun kept hr => .inl hr
    | cons x rows ih =>
      intro kept hr
      rcases ih _ hr with hr | hr
      · dsimp only at hr
        split at hr
        case isTrue => exact .inl hr
        case isFalse =>
          rcases List.mem_append.mp hr with hr | hr
          · exact .inl hr
          · exact .inr (List.mem_singleton.mp hr ▸ List.mem_cons_self)
      · exact .inr (List.mem_cons_of_mem x hr)
  exact (hkept rows [] h).elim (fun hr => absurd hr List.not_mem_nil) id

/-- A window shows rows that are there. -/
theorem Shape.mem_of_mem_window {shape : Shape} {rows : List OutRow} {r : OutRow}
    (h : r ∈ shape.window rows) : r ∈ rows := by
  unfold window at h
  dsimp only at h
  split at h
  case h_1 => exact List.mem_of_mem_drop (List.mem_of_mem_take h)
  case h_2 => exact List.mem_of_mem_drop h

/-- The columns of the rows that come out of a selection. -/
theorem Shape.map_fst_result {shape : Shape} {outer : Env} {levels : List Level}
    {sources : List Source} (hlevels : ∀ l ∈ levels, l.sources = sources) {r : OutRow}
    (h : r ∈ shape.result E outer levels) :
    r.map (·.1) = match shape.projection with
      | .rowCount | .distinctCount _ => ["count"]
      | .columns _ names => names.flatMap (projectedColumns sources) := by
  have hrows : ∀ names : List (List String),
      ∀ r ∈ (levels.mergeSort (inOrder E outer shape.order)).map
        (fun level => names.flatMap (projected outer level)),
      r.map (·.1) = names.flatMap (projectedColumns sources) := by
    intro names r hr
    obtain ⟨level, hlevel, rfl⟩ := List.mem_map.mp hr
    rw [List.map_flatMap, ← hlevels level (List.mem_mergeSort.mp hlevel)]
    exact List.flatMap_congr fun name _ => map_fst_projected outer level name
  have hmem := mem_of_mem_window h
  split at hmem
  case h_1 hprojection =>
    rw [hprojection, List.mem_singleton.mp hmem]
    rfl
  case h_2 hprojection =>
    rw [hprojection, List.mem_singleton.mp hmem]
    rfl
  case h_3 names hprojection =>
    rw [hprojection]
    exact hrows names r hmem
  case h_4 names hprojection =>
    rw [hprojection]
    exact hrows names r (mem_of_mem_distinctRows hmem)

/-- A row that is joined to others comes from their source. -/
theorem sources_joined {outer : Env} {levels : List Level} {frames : List Frame}
    {left right : List String} {sources : List Source} {source : Source}
    (hlevels : ∀ l ∈ levels, l.sources = sources) (hframes : ∀ f ∈ frames, f.source = source) :
    ∀ l ∈ joined E outer levels frames left right, l.sources = sources ++ [source] := by
  intro l hl
  obtain ⟨level, hlevel, hl⟩ := List.mem_flatMap.mp hl
  obtain ⟨f, hf, rfl⟩ := List.mem_map.mp (List.mem_filter.mp hl).1
  rw [Level.sources, List.map_append, ← hlevels level hlevel, ← hframes f hf]
  rfl

theorem source_frame (r : OutRow) (name : List String) :
    (r.frame name).source = ⟨name, r.map (·.1)⟩ := rfl

mutual

theorem source_frames (E : Engine) (db : Database) : (t : TableRef) → (outer : Env) →
    ∀ f ∈ t.frames E db outer, f.source = t.sourceOf db
  | .table name none, outer => by
    intro f hf
    rw [TableRef.frames] at hf
    obtain ⟨r, -, rfl⟩ := List.mem_map.mp hf
    rfl
  | .table name (some asName), outer => by
    intro f hf
    rw [TableRef.frames] at hf
    obtain ⟨r, -, rfl⟩ := List.mem_map.mp hf
    rfl
  | .select select asName, outer => by
    intro f hf
    rw [TableRef.frames] at hf
    obtain ⟨r, hr, rfl⟩ := List.mem_map.mp hf
    rw [source_frame, map_fst_outRows E db select outer r hr, TableRef.sourceOf]

theorem sources_joinsLevels (E : Engine) (db : Database) : (js : List Join) → (outer : Env) →
    (levels : List Level) → (sources : List Source) → (∀ l ∈ levels, l.sources = sources) →
    ∀ l ∈ joinsLevels E db js outer levels, l.sources = joinedSources db js sources
  | [], outer, levels, sources, h => by
    rw [joinsLevels, joinedSources]
    exact h
  | ⟨table, left, right⟩ :: rest, outer, levels, sources, h => by
    rw [joinsLevels, joinedSources]
    exact sources_joinsLevels E db rest outer _ _
      (sources_joined h (source_frames E db table outer))

theorem map_fst_outRows (E : Engine) (db : Database) : (s : Selector) → (outer : Env) →
    ∀ r ∈ s.outRows E db outer, r.map (·.1) = s.outColumns db
  | ⟨columns, source, joins, predicate, order, limit, offset, distinct, count⟩, outer => by
    intro r hr
    rw [Selector.outRows] at hr
    have hframes : ∀ l ∈ (source.frames E db outer).map (fun f => [f]),
        Level.sources l = [source.sourceOf db] := by
      intro l hl
      obtain ⟨f, hf, rfl⟩ := List.mem_map.mp hl
      rw [Level.sources, List.map_singleton, source_frames E db source outer f hf]
    have hlevels := sources_joinsLevels E db joins outer _ _ hframes
    rw [Selector.outColumns]
    exact Shape.map_fst_result (fun l hl => hlevels l (List.mem_filter.mp hl).1) hr

end

end OutColumns

/-! ## What is further out does not matter -/

section Independence

variable {E : Engine} {db : Database} {env outer : Env}

/-- A name that is in scope is not looked up further out. -/
theorem lookup_append_of_has (env outer : Env) {name : List String}
    (h : env.scope.has name = true) :
    Env.lookup (env ++ outer) name = env.lookup name := by
  obtain ⟨source, hsource, hhas⟩ := List.any_eq_true.mp h
  have hfound : (env.flatten.findSome? fun f =>
      f.value? name.dropLast (name.getLastD "")).isSome = true := by
    obtain ⟨sources, hsources, hsource⟩ := List.mem_flatten.mp hsource
    obtain ⟨level, hlevel, rfl⟩ := List.mem_map.mp hsources
    obtain ⟨f, hf, rfl⟩ := List.mem_map.mp hsource
    refine List.findSome?_isSome_iff.mpr ⟨f, List.mem_flatten.mpr ⟨level, hlevel, hf⟩, ?_⟩
    have hvalue : f.value? name.dropLast (name.getLastD "") =
        some (f.tuple (name.getLastD "")) := if_pos hhas
    rw [hvalue]
    rfl
  unfold Env.lookup
  rw [List.flatten_append, List.findSome?_append]
  obtain ⟨v, hv⟩ := Option.isSome_iff_exists.mp hfound
  rw [hv]
  rfl

/-- The names of what is taken from the rows. -/
def Projection.names : Projection → List (List String)
  | .rowCount => []
  | .distinctCount names => names
  | .columns _ names => names

theorem Projection.mem_names {columns : List String} {distinct count : Bool} {name : List String}
    (h : name ∈ (Selector.projection columns distinct count).names) :
    name ∈ columns.map nameParts ∨ name = ["*"] := by
  unfold Selector.projection at h
  split at h
  case h_1 => exact .inl h
  case h_2 => cases h
  case h_3 =>
    cases columns with
    | nil => exact .inr (List.mem_singleton.mp h)
    | cons c rest => exact .inl h

/-- Selected columns do not depend on what is further out. -/
theorem projected_append {level : Level} {name : List String}
    (h : name.getLastD "" = "*" ∨ Scope.has (level.sources :: env.scope) name = true) :
    projected (env ++ outer) level name = projected env level name := by
  unfold projected
  split
  case isTrue => rfl
  case isFalse hstar =>
    have hlookup : Env.lookup (level :: (env ++ outer)) name = Env.lookup (level :: env) name :=
      lookup_append_of_has (level :: env) outer (h.resolve_left hstar)
    rw [hlookup]

/-- Nor does an order. -/
theorem inOrder_append {terms : List (List String × Direction)} {a b : Level}
    {sources : List Source} (ha : a.sources = sources) (hb : b.sources = sources)
    (h : ∀ t ∈ terms, Scope.has (sources :: env.scope) t.1 = true) :
    inOrder E (env ++ outer) terms a b = inOrder E env terms a b := by
  induction terms with
  | nil => rfl
  | cons t rest ih =>
    obtain ⟨ht, hrest⟩ := List.forall_mem_cons.mp h
    have hlookup : ∀ l : Level, l.sources = sources →
        Env.lookup (l :: (env ++ outer)) t.1 = Env.lookup (l :: env) t.1 := by
      rintro l rfl
      exact lookup_append_of_has (l :: env) outer ht
    simp only [inOrder, hlookup a ha, hlookup b hb, ih hrest]

/-- Nor does what a selection makes of its rows. -/
theorem Shape.result_append {shape : Shape} {levels : List Level} {sources : List Source}
    (hlevels : ∀ l ∈ levels, l.sources = sources)
    (horder : ∀ t ∈ shape.order, Scope.has (sources :: env.scope) t.1 = true)
    (hnames : ∀ name ∈ shape.projection.names,
      name.getLastD "" = "*" ∨ Scope.has (sources :: env.scope) name = true) :
    shape.result E (env ++ outer) levels = shape.result E env levels := by
  have hsorted : levels.mergeSort (inOrder E (env ++ outer) shape.order) =
      levels.mergeSort (inOrder E env shape.order) := by
    have h := List.map_mergeSort (f := id) (l := levels)
      (r := inOrder E (env ++ outer) shape.order) (s := inOrder E env shape.order)
      fun a ha b hb => inOrder_append (hlevels a ha) (hlevels b hb) horder
    simpa using h
  have hrows : ∀ names : List (List String),
      (∀ name ∈ names, name.getLastD "" = "*" ∨ Scope.has (sources :: env.scope) name = true) →
      (levels.mergeSort (inOrder E env shape.order)).map
          (fun level => names.flatMap (projected (env ++ outer) level)) =
        (levels.mergeSort (inOrder E env shape.order)).map
          fun level => names.flatMap (projected env level) := by
    intro names hnames
    refine List.map_congr_left fun level hlevel => List.flatMap_congr fun name hname => ?_
    refine projected_append ?_
    rw [hlevels level (List.mem_mergeSort.mp hlevel)]
    exact hnames name hname
  unfold result
  rw [hsorted]
  cases hprojection : shape.projection with
  | rowCount => rfl
  | distinctCount names =>
    rw [hprojection] at hnames
    dsimp only
    rw [hrows names hnames]
  | columns distinct names =>
    rw [hprojection] at hnames
    cases distinct <;> (dsimp only; rw [hrows names hnames])

/-- Nor do joins. -/
theorem joined_append {levels : List Level} {frames : List Frame} {left right : List String}
    {sources : List Source} {source : Source} (hlevels : ∀ l ∈ levels, l.sources = sources)
    (hframes : ∀ f ∈ frames, f.source = source)
    (hleft : Scope.has ((sources ++ [source]) :: env.scope) left = true)
    (hright : Scope.has ((sources ++ [source]) :: env.scope) right = true) :
    joined E (env ++ outer) levels frames left right = joined E env levels frames left right := by
  refine List.flatMap_congr fun level hlevel => List.filter_congr fun l hl => ?_
  obtain ⟨f, hf, rfl⟩ := List.mem_map.mp hl
  have hsources : Level.sources (level ++ [f]) = sources ++ [source] := by
    rw [Level.sources, List.map_append, ← hlevels level hlevel, ← hframes f hf]
    rfl
  have hlookup : ∀ name, Scope.has ((sources ++ [source]) :: env.scope) name = true →
      Env.lookup ((level ++ [f]) :: (env ++ outer)) name =
        Env.lookup ((level ++ [f]) :: env) name := by
    intro name hname
    rw [← hsources] at hname
    exact lookup_append_of_has ((level ++ [f]) :: env) outer hname
  rw [hlookup left hleft, hlookup right hright]

mutual

/-- A condition that is in scope does not depend on what is further out. -/
theorem truth_append (E : Engine) (db : Database) : (p : Predicate) → (env outer : Env) →
    p.InScope db env.scope → p.truth E db (env ++ outer) = p.truth E db env
  | .compare column op v, env, outer, h => by
    rw [Predicate.InScope] at h
    have hlookup := lookup_append_of_has env outer h
    cases op <;> cases v <;> simp only [Predicate.truth, hlookup]
  | .isIn column vs, env, outer, h => by
    rw [Predicate.InScope] at h
    rw [Predicate.truth, Predicate.truth, lookup_append_of_has env outer h]
  | .notIn column vs, env, outer, h => by
    rw [Predicate.InScope] at h
    rw [Predicate.truth, Predicate.truth, lookup_append_of_has env outer h]
  | .isNull column, env, outer, h => by
    rw [Predicate.InScope] at h
    rw [Predicate.truth, Predicate.truth, lookup_append_of_has env outer h]
  | .notNull column, env, outer, h => by
    rw [Predicate.InScope] at h
    rw [Predicate.truth, Predicate.truth, lookup_append_of_has env outer h]
  | .like column pattern, env, outer, h => by
    rw [Predicate.InScope] at h
    rw [Predicate.truth, Predicate.truth, lookup_append_of_has env outer h]
  | .inSelect column select, env, outer, h => by
    rw [Predicate.InScope] at h
    rw [Predicate.truth, Predicate.truth, lookup_append_of_has env outer h.1,
      outRows_append E db select env outer h.2]
  | .anyRow select, env, outer, h => by
    rw [Predicate.InScope] at h
    rw [Predicate.truth, Predicate.truth, outRows_append E db select env outer h]
  | .conj preds, env, outer, h => by
    rw [Predicate.InScope] at h
    rw [Predicate.truth, Predicate.truth, conjTruth_append_env E db preds env outer h]
  | .disj preds, env, outer, h => by
    rw [Predicate.InScope] at h
    rw [Predicate.truth, Predicate.truth, disjTruth_append_env E db preds env outer h]
  | .neg pred, env, outer, h => by
    rw [Predicate.InScope] at h
    rw [Predicate.truth, Predicate.truth, truth_append E db pred env outer h]

theorem conjTruth_append_env (E : Engine) (db : Database) : (ps : List Predicate) →
    (env outer : Env) → predicatesInScope db ps env.scope →
    conjTruth E db ps (env ++ outer) = conjTruth E db ps env
  | [], env, outer, _ => by rw [conjTruth, conjTruth]
  | p :: rest, env, outer, h => by
    rw [predicatesInScope] at h
    rw [conjTruth, conjTruth, truth_append E db p env outer h.1,
      conjTruth_append_env E db rest env outer h.2]

theorem disjTruth_append_env (E : Engine) (db : Database) : (ps : List Predicate) →
    (env outer : Env) → predicatesInScope db ps env.scope →
    disjTruth E db ps (env ++ outer) = disjTruth E db ps env
  | [], env, outer, _ => by rw [disjTruth, disjTruth]
  | p :: rest, env, outer, h => by
    rw [predicatesInScope] at h
    rw [disjTruth, disjTruth, truth_append E db p env outer h.1,
      disjTruth_append_env E db rest env outer h.2]

theorem conditionTruth_append (E : Engine) (db : Database) : (p : Option Predicate) →
    (env outer : Env) → conditionInScope db p env.scope →
    conditionTruth E db p (env ++ outer) = conditionTruth E db p env
  | some p, env, outer, h => by
    rw [conditionInScope] at h
    rw [conditionTruth, conditionTruth, truth_append E db p env outer h]
  | none, env, outer, _ => by rw [conditionTruth, conditionTruth]

theorem frames_append (E : Engine) (db : Database) : (t : TableRef) → (env outer : Env) →
    t.InScope db env.scope → t.frames E db (env ++ outer) = t.frames E db env
  | .table name none, env, outer, _ => by rw [TableRef.frames, TableRef.frames]
  | .table name (some asName), env, outer, _ => by rw [TableRef.frames, TableRef.frames]
  | .select select asName, env, outer, h => by
    rw [TableRef.InScope] at h
    rw [TableRef.frames, TableRef.frames, outRows_append E db select env outer h]

theorem joinsLevels_append (E : Engine) (db : Database) : (js : List Join) → (env outer : Env) →
    (levels : List Level) → (sources : List Source) → (∀ l ∈ levels, l.sources = sources) →
    joinsInScope db js env.scope sources →
    joinsLevels E db js (env ++ outer) levels = joinsLevels E db js env levels
  | [], env, outer, levels, sources, _, _ => by rw [joinsLevels, joinsLevels]
  | ⟨table, left, right⟩ :: rest, env, outer, levels, sources, hlevels, h => by
    rw [joinsInScope] at h
    obtain ⟨htable, hleft, hright, hrest⟩ := h
    have hframes := source_frames E db table env
    rw [joinsLevels, joinsLevels, frames_append E db table env outer htable,
      joined_append hlevels hframes hleft hright]
    exact joinsLevels_append E db rest env outer _ _ (sources_joined hlevels hframes) hrest

/-- Nor does a selection that is in scope. -/
theorem outRows_append (E : Engine) (db : Database) : (s : Selector) → (env outer : Env) →
    s.InScope db env.scope → s.outRows E db (env ++ outer) = s.outRows E db env
  | ⟨columns, source, joins, predicate, order, limit, offset, distinct, count⟩, env, outer, h => by
    rw [Selector.InScope] at h
    obtain ⟨hsource, hjoins, hpredicate, hcolumns, horder⟩ := h
    have hframes : ∀ l ∈ (source.frames E db env).map (fun f => [f]),
        Level.sources l = [source.sourceOf db] := by
      intro l hl
      obtain ⟨f, hf, rfl⟩ := List.mem_map.mp hl
      rw [Level.sources, List.map_singleton, source_frames E db source env f hf]
    have hlevels := sources_joinsLevels E db joins env _ _ hframes
    rw [Selector.outRows, Selector.outRows, frames_append E db source env outer hsource,
      joinsLevels_append E db joins env outer _ _ hframes hjoins]
    have hfilter : (joinsLevels E db joins env ((source.frames E db env).map fun f => [f])).filter
          (fun level => (conditionTruth E db predicate (level :: (env ++ outer))).isYes) =
        (joinsLevels E db joins env ((source.frames E db env).map fun f => [f])).filter
          fun level => (conditionTruth E db predicate (level :: env)).isYes := by
      refine List.filter_congr fun level hlevel => ?_
      rw [← hlevels level hlevel] at hpredicate
      have h := conditionTruth_append E db predicate (level :: env) outer hpredicate
      rw [← h]
      rfl
    rw [hfilter]
    refine Shape.result_append (fun l hl => hlevels l (List.mem_filter.mp hl).1) ?_ ?_
    · intro t ht
      obtain ⟨term, hterm, rfl⟩ := List.mem_map.mp ht
      exact horder term hterm
    · have hnamed : ∀ name ∈ columns.map nameParts, name.getLastD "" = "*" ∨
          Scope.has (joinedSources db joins [source.sourceOf db] :: env.scope) name = true := by
        intro name hname
        obtain ⟨c, hc, rfl⟩ := List.mem_map.mp hname
        exact hcolumns c hc
      intro name hname
      rcases Projection.mem_names hname with hname | rfl
      · exact hnamed name hname
      · exact .inl rfl

end

end Independence

end EntityGraph
