import EntityGraph.Proofs.Graph.QuerySelections
import EntityGraph.Proofs.Graph.StepConditions
import EntityGraph.Proofs.Relational.Resolution

/-!
# The names in the query of a step

A step joins the table where it leads with linking rows, which have one column. The columns that a
query selects are qualified with the table, but its conditions and its order are taken as they are.
So a bare name in them stands for columns of two sources if the column of the linking rows has the
same name. `Inquiry.step_names_resolved_iff` says that nothing else can make a name ambiguous but a
table that is called like the linking rows.
-/

set_option autoImplicit false

namespace EntityGraph

open Program

variable {d : Dialect} {db : Database} {table name c : String}

/-! ## Names of one table -/

/-- A column of the only source is what its name stands for. -/
theorem resolves_of_knows (h : db.knows table name = true) :
    (⟨name, []⟩ : ScopedName).Resolves (db.scopeOf table) := by
  have hhas : Source.has ⟨nameParts table, (db (nameParts table)).columns⟩ (nameParts name) =
      true := h
  refine ⟨⟨nameParts table, (db (nameParts table)).columns⟩, ?_⟩
  simp [ScopedName.sources, Database.scopeOf, ScopedName.sources_single, hhas]

/-- Selected columns and columns to order by are columns of the table. -/
theorem resolves_of_mem_outputNames {columns : List String} {order : List OrderTerm}
    {distinct count : Bool} (hcolumns : ∀ c ∈ columns, db.knows table c = true)
    (horder : ∀ t ∈ order, db.knows table t.column = true) :
    ∀ r ∈ Selector.outputNames d columns order distinct count,
      r.Resolves (db.scopeOf table) := by
  intro r hr
  rcases List.mem_append.mp hr with hr | hr
  · obtain ⟨c, hc, rfl⟩ := List.mem_map.mp hr
    refine resolves_of_knows (hcolumns c ?_)
    unfold Selector.namedColumns at hc
    split at hc
    case isTrue => cases hc
    case isFalse => exact (List.mem_filter.mp hc).1
  · obtain ⟨t, ht, rfl⟩ := List.mem_map.mp hr
    apply resolves_of_knows
    unfold OrderTerm.resolved
    split
    case isTrue => exact horder t ht
    case isFalse =>
      -- the name is that of a selected column, or it is looked up as it is
      cases hfound : (if count then [] else columns).find? fun c =>
          nameParts t.column == [(nameParts c).getLastD ""] with
      | none => exact horder t ht
      | some c =>
        have hc := List.mem_of_find?_eq_some hfound
        split at hc
        case isTrue => cases hc
        case isFalse => exact hcolumns c hc

/-- A selection of a table alone. -/
theorem isResolved_table {x : Selector} (hsource : x.source = .table table none)
    (hjoins : x.joins = []) :
    x.IsResolved d db ↔ ∀ r ∈ x.ownNames d db, r.Resolves (db.scopeOf table) := by
  have hsources : x.sources db = [⟨nameParts table, (db (nameParts table)).columns⟩] := by
    rw [Selector.sources, hsource, hjoins, joinedSources, TableRef.sourceOf]
  rw [Selector.IsResolved, Selector.scopedNames_eq, hsource, hjoins, TableRef.scopedNames,
    joinsScopedNames, hsources, List.append_nil, List.nil_append, List.forall_mem_map]
  refine forall₂_congr fun r _ => ?_
  rw [ScopedName.Resolves, ScopedName.sources_within]
  rfl

/-- The names in a selection of a column of a table, with a condition on another column. -/
theorem ofColumn_isResolved {own ownName : String} {v : Value} (hcolumn : db.Denotes table name c)
    (hown : db.Denotes table ownName own) :
    (Selector.ofColumn table name (some (.eq ownName v))).IsResolved d db := by
  refine (isResolved_table rfl rfl).mpr fun r hr => ?_
  rcases List.mem_append.mp hr with hr | hr
  · obtain rfl : r = ⟨ownName, []⟩ := by
      simpa [Selector.ofColumn, conditionScopedNames, Predicate.eq, Predicate.scopedNames] using hr
    exact resolves_of_knows hown.knows
  · refine resolves_of_mem_outputNames (fun c hc => ?_) (fun t ht => absurd ht List.not_mem_nil)
      r hr
    obtain rfl := List.mem_singleton.mp hc
    exact hcolumn.knows

theorem outColumns_ofColumn {q : Option Predicate} (h : db.Denotes table name c) :
    (Selector.ofColumn table name q).outColumns db = [c] := by
  have hlast : (nameParts name).getLastD "" = c := h.column
  rw [Selector.ofColumn, Selector.outColumns]
  show List.flatMap _ [nameParts name] = [c]
  rw [List.flatMap_singleton, projectedColumns, hlast, if_neg h.notStar]

namespace Step

variable {s : Step}

/-! ## The linking rows -/

/-- The column of the linking rows that refers to a neighbor. -/
def linkColumn (s : Step) : String :=
  match s.layout with
  | .joinTable => s.goalColumn
  | .startOwner | .goalOwner => s.column 0

/-- The source that the linking rows are. -/
def linkSource (s : Step) : Source := ⟨nameParts linkAlias, [s.linkColumn]⟩

/-- The source where a step leads. -/
def goalSource (db : Database) (s : Step) : Source :=
  ⟨nameParts s.goal.table, (db (nameParts s.goal.table)).columns⟩

/-- The column of the linking rows, qualified with their name, is not also a column of the table
where the step leads. -/
def LinksApart (db : Database) (s : Step) : Prop :=
  nameParts linkAlias <:+ nameParts s.goal.table →
    s.linkColumn ∉ (db (nameParts s.goal.table)).columns

theorem HasColumns.linkColumn_plain (hs : s.HasColumns db) :
    nameParts s.linkColumn = [s.linkColumn] := by
  unfold linkColumn
  cases hlayout : s.layout with
  | joinTable => exact (hs.joinTable hlayout).2.plain
  | startOwner => exact (hs.startOwner hlayout).2.plain
  | goalOwner => exact (hs.goalOwner hlayout).plain

section Linked

variable (hs : s.HasColumns db)
include hs

theorem nameParts_linked :
    nameParts (qualify linkAlias s.linkColumn) = nameParts linkAlias ++ [s.linkColumn] := by
  rw [qualify, nameParts_qualified, hs.linkColumn_plain]

/-- The column of the linking rows has two names. -/
theorem linkSource_has : s.linkSource.has (nameParts name) = true ↔
    name = s.linkColumn ∨ name = qualify linkAlias s.linkColumn := by
  have halias : nameParts linkAlias = ["t1"] := by decide
  constructor
  · intro h
    obtain ⟨hqualifier, hcolumn⟩ := Bool.and_eq_true_iff.mp h
    have hlast : (nameParts name).getLastD "" = s.linkColumn := by
      simpa [linkSource] using hcolumn
    have hparts : nameParts name = (nameParts name).dropLast ++ [s.linkColumn] := by
      rw [← hlast, List.getLastD_eq_getLast?,
        List.getLast?_eq_some_getLast (nameParts_ne_nil name), Option.getD_some,
        List.dropLast_append_getLast]
    have hsuffix : (nameParts name).dropLast <:+ ["t1"] := by
      simpa [linkSource, halias] using hqualifier
    rcases List.suffix_cons_iff.mp hsuffix with hfull | hbare
    · right
      apply nameParts_injective
      rw [nameParts_linked hs, hparts, hfull, halias]
    · left
      apply nameParts_injective
      rw [hs.linkColumn_plain, hparts, List.suffix_nil.mp hbare, List.nil_append]
  · rintro (rfl | rfl)
    · simp [Source.has, linkSource, hs.linkColumn_plain]
    · simp [Source.has, linkSource, nameParts_linked hs]

/-- Beside the linking rows the only name of a column of the table that can stand for their column,
too, is the bare one. -/
theorem linkSource_has_iff (hapart : s.LinksApart db) {r : ScopedName}
    (hr : r.Resolves (db.scopeOf s.goal.table)) (hfree : r.IsFree) :
    s.linkSource.has (nameParts r.name) = false ↔ r.name ≠ s.linkColumn := by
  have hgoal : (s.goalSource db).has (nameParts r.name) = true := by
    obtain ⟨x, hx⟩ := hr
    by_contra hnot
    rw [ScopedName.sources_of_isFree hfree, Database.scopeOf, ScopedName.sources_single] at hx
    simp_all [goalSource]
  have hqualified : r.name ≠ qualify linkAlias s.linkColumn := by
    intro hname
    rw [hname, nameParts_linked hs] at hgoal
    obtain ⟨halias, hmem⟩ := Bool.and_eq_true_iff.mp hgoal
    exact hapart (by simpa [goalSource] using halias) (by simpa [goalSource] using hmem)
  rw [← Bool.not_eq_true, linkSource_has hs]
  simp [hqualified]

theorem resolves_beside_iff (hapart : s.LinksApart db) {r : ScopedName}
    (hr : r.Resolves (db.scopeOf s.goal.table)) :
    r.Resolves [[s.goalSource db, s.linkSource]] ↔ (r.IsFree → r.name ≠ s.linkColumn) :=
  (ScopedName.resolves_beside_iff hr).trans
    (forall_congr' fun hfree => linkSource_has_iff hs hapart hr hfree)

/-- The columns by which the linking rows are joined. -/
theorem link_resolves_iff : (⟨qualify linkAlias s.linkColumn, []⟩ : ScopedName).Resolves
    [[s.goalSource db, s.linkSource]] ↔ s.LinksApart db := by
  have hlink : s.linkSource.has (nameParts (qualify linkAlias s.linkColumn)) = true :=
    (linkSource_has hs).mpr (.inr rfl)
  have hgoal : (s.goalSource db).has (nameParts (qualify linkAlias s.linkColumn)) = true ↔
      nameParts linkAlias <:+ nameParts s.goal.table ∧
        s.linkColumn ∈ (db (nameParts s.goal.table)).columns := by
    rw [nameParts_linked hs]
    simp [Source.has, goalSource]
  rw [ScopedName.Resolves, ScopedName.sources, List.nil_append, ScopedName.sources_single]
  cases hboth : (s.goalSource db).has (nameParts (qualify linkAlias s.linkColumn)) with
  | true =>
    obtain ⟨halias, hmem⟩ := hgoal.mp hboth
    simp [hboth, hlink, LinksApart, halias, hmem]
  | false =>
    have hapart : s.LinksApart db := fun halias hmem => by simp [hgoal.mpr ⟨halias, hmem⟩] at hboth
    simp [hboth, hlink, hapart]

theorem goal_resolves (hapart : s.LinksApart db) :
    (⟨qualify s.goal.table s.goal.column, []⟩ : ScopedName).Resolves
      [[s.goalSource db, s.linkSource]] := by
  refine (resolves_beside_iff hs hapart (resolves_of_knows hs.goal.denotes_qualified.knows)).mpr
    fun _ hname => ?_
  have hlength := congrArg (fun name => (nameParts name).length) hname
  dsimp only at hlength
  rw [qualify, nameParts_qualified, hs.goal.plain, hs.linkColumn_plain,
    List.length_append] at hlength
  have hpos := List.length_pos_iff.mpr (nameParts_ne_nil s.goal.table)
  simp only [List.length_singleton] at hlength
  omega

/-- The linking rows have one column, and all of the names in their selection are clear. -/
theorem joins_of_linked (hlayout : s.layout ≠ .goalOwner) : ∃ links : Selector,
    s.neighbors.joins = [⟨.select links linkAlias, qualify s.goal.table s.goal.column,
      qualify linkAlias s.linkColumn⟩] ∧
    links.outColumns db = [s.linkColumn] ∧ links.IsResolved d db := by
  cases h : s.layout with
  | goalOwner => exact absurd h hlayout
  | joinTable =>
    have hlink : s.linkColumn = s.goalColumn := by simp [linkColumn, h]
    obtain ⟨hstart, hgoal⟩ := hs.joinTable h
    rw [neighbors_of_joinTable h, hlink]
    exact ⟨.ofColumn s.edge.table (qualify s.edge.table s.goalColumn)
      (some (.eq (qualify s.edge.table s.startColumn) s.start.value)), rfl,
      outColumns_ofColumn hgoal.denotes_qualified,
      ofColumn_isResolved hgoal.denotes_qualified hstart.denotes_qualified⟩
  | startOwner =>
    have hlink : s.linkColumn = s.column 0 := by simp [linkColumn, h]
    obtain ⟨hstart, hkey⟩ := hs.startOwner h
    rw [neighbors_of_startOwner h, hlink]
    exact ⟨.ofColumn s.edge.table (s.column 0) (some (.eq s.start.column s.start.value)), rfl,
      outColumns_ofColumn hkey.denotes, ofColumn_isResolved hkey.denotes hstart.denotes⟩

/-- The names in a selection from the table and the linking rows. -/
theorem isResolved_linked {x : Selector} (hsource : x.source = .table s.goal.table none)
    (hjoins : x.joins = s.neighbors.joins) (hlayout : s.layout ≠ .goalOwner) :
    x.sources db = [s.goalSource db, s.linkSource] ∧
    (x.IsResolved d db ↔
      ((⟨qualify s.goal.table s.goal.column, []⟩ : ScopedName).Resolves
          [[s.goalSource db, s.linkSource]] ∧
        (⟨qualify linkAlias s.linkColumn, []⟩ : ScopedName).Resolves
          [[s.goalSource db, s.linkSource]]) ∧
      ∀ r ∈ x.ownNames d db, r.Resolves [[s.goalSource db, s.linkSource]]) := by
  obtain ⟨links, hlinks, hcolumns, hclear⟩ := joins_of_linked (d := d) hs hlayout
  have hlinkSource : (TableRef.select links linkAlias).sourceOf db = s.linkSource := by
    rw [TableRef.sourceOf, hcolumns]
    rfl
  have hgoalSource : (TableRef.table s.goal.table none).sourceOf db = s.goalSource db := by
    rw [TableRef.sourceOf]
    rfl
  have hsources : x.sources db = [s.goalSource db, s.linkSource] := by
    rw [Selector.sources, hsource, hjoins, hlinks, hgoalSource, joinedSources, hlinkSource,
      joinedSources]
    rfl
  refine ⟨hsources, ?_⟩
  rw [Selector.IsResolved, Selector.scopedNames_eq, hsources, hsource, hjoins, hlinks,
    TableRef.scopedNames, joinsScopedNames, joinsScopedNames, TableRef.scopedNames, hlinkSource,
    hgoalSource]
  simp only [List.nil_append, List.singleton_append, List.forall_mem_append, List.forall_mem_cons,
    List.forall_mem_map, List.not_mem_nil, false_implies, implies_true, and_true]
  constructor
  · rintro ⟨⟨-, hgoal, hlink⟩, hown⟩
    refine ⟨⟨hgoal, hlink⟩, fun r hr => ?_⟩
    rw [ScopedName.Resolves, ← ScopedName.sources_within]
    exact hown r hr
  · rintro ⟨⟨hgoal, hlink⟩, hown⟩
    refine ⟨⟨hclear, hgoal, hlink⟩, fun r hr => ?_⟩
    rw [ScopedName.Resolves, ScopedName.sources_within]
    exact hown r hr

/-- In a selection from what a step selects from, with names of columns of the table where the step
leads, all names are clear and stand for these columns unless linking rows are joined whose column
has one of the names. -/
theorem isResolved_iff {x : Selector} (hsource : x.source = .table s.goal.table none)
    (hjoins : x.joins = s.neighbors.joins)
    (hown : ∀ r ∈ x.ownNames d db, r.Resolves (db.scopeOf s.goal.table)) :
    (x.IsResolved d db ∧ ∀ r ∈ x.ownNames d db,
        r.sources [x.sources db] = r.sources (db.scopeOf s.goal.table)) ↔
      (s.layout ≠ .goalOwner → s.LinksApart db ∧
        ∀ r ∈ x.ownNames d db, r.IsFree → r.name ≠ s.linkColumn) := by
  by_cases hlayout : s.layout = .goalOwner
  case pos =>
    -- nothing is joined, so the names are looked up in the table alone
    have hnone : x.joins = [] := by
      rw [hjoins]
      unfold neighbors
      rw [hlayout]
      rfl
    have hsources : x.sources db = [s.goalSource db] := by
      rw [Selector.sources, hsource, hnone, joinedSources, TableRef.sourceOf]
      rfl
    refine iff_of_true ⟨(isResolved_table hsource hnone).mpr hown, fun r _ => ?_⟩
      (fun h => absurd hlayout h)
    rw [hsources]
    rfl
  case neg =>
    -- the second name in ON is clear only if the table and the linking rows are apart
    obtain ⟨hsources, hresolved⟩ := isResolved_linked hs (d := d) hsource hjoins hlayout
    rw [hresolved, hsources, link_resolves_iff hs]
    constructor
    · rintro ⟨⟨⟨-, hapart⟩, hbeside⟩, -⟩ -
      exact ⟨hapart, fun r hr => (resolves_beside_iff hs hapart (hown r hr)).mp (hbeside r hr)⟩
    · intro h
      obtain ⟨hapart, hnames⟩ := h hlayout
      refine ⟨⟨⟨goal_resolves hs hapart, hapart⟩, fun r hr =>
        (resolves_beside_iff hs hapart (hown r hr)).mpr (hnames r hr)⟩, fun r hr => ?_⟩
      exact ScopedName.sources_beside fun hfree =>
        (linkSource_has_iff hs hapart (hown r hr) hfree).mpr (hnames r hr hfree)

end Linked

end Step

/-! ## The query of a step -/

theorem Selector.filterOpt_rest (x : Selector) (p : Option Predicate) :
    (x.filterOpt p).source = x.source ∧ (x.filterOpt p).joins = x.joins ∧
      (x.filterOpt p).columns = x.columns ∧ (x.filterOpt p).order = x.order := by
  cases p <;> exact ⟨rfl, rfl, rfl, rfl⟩

namespace NodeQuery

variable {q : NodeQuery} {s : Step} {x : Selector}

/-- A query of the nodes where a step leads names columns of their table. In selections that are in
its condition there may be names of their own. -/
structure NamesGoal (d : Dialect) (db : Database) (s : Step) (q : NodeQuery) : Prop where
  source : q.source = some s.neighbors
  id : (db (nameParts s.goal.table)).HasColumn q.node.id.column
  columns : ∀ c ∈ q.projection, (db (nameParts s.goal.table)).HasColumn c
  condition : ∀ r ∈ conditionScopedNames d db q.predicate, r.Resolves (db.scopeOf s.goal.table)
  order : ∀ t ∈ q.order, db.knows s.goal.table t.column = true

/-- A selection from what the query of a step starts from, with columns of the table where the step
leads. -/
structure SelectsGoal (db : Database) (s : Step) (q : NodeQuery) (x : Selector) : Prop where
  source : x.source = .table s.goal.table none
  joins : x.joins = s.neighbors.joins
  condition : x.predicate = (s.neighbors.filterOpt q.predicate).predicate
  columns : ∀ c ∈ x.columns, db.knows s.goal.table c = true
  order : ∀ t ∈ x.order, db.knows s.goal.table t.column = true

theorem neighbors_plain (s : Step) : s.neighbors.source = .table s.goal.table none ∧
    s.neighbors.columns = [] ∧ s.neighbors.order = [] := by
  unfold Step.neighbors
  cases s.layout <;> exact ⟨rfl, rfl, rfl⟩

section Goal

variable (h : q.NamesGoal d db s)
include h

theorem base_goal : q.base = s.neighbors.filterOpt q.predicate := by
  rw [base, h.source, Option.getD_some]

theorem selectsGoal_base : q.SelectsGoal db s q.base := by
  obtain ⟨hsource, hjoins, hcolumns, horder⟩ := s.neighbors.filterOpt_rest q.predicate
  obtain ⟨hgoal, hnone, hunordered⟩ := neighbors_plain s
  rw [base_goal h]
  refine ⟨hsource.trans hgoal, hjoins, rfl, ?_, ?_⟩
  · rw [hcolumns, hnone]
    exact fun _ hc => absurd hc List.not_mem_nil
  · rw [horder, hunordered]
    exact fun _ ht => absurd ht List.not_mem_nil

theorem knows_qualified {columns : List String}
    (hcolumns : ∀ c ∈ columns, (db (nameParts s.goal.table)).HasColumn c) :
    ∀ c ∈ columns.map q.base.qualify, db.knows s.goal.table c = true := by
  exact List.forall_mem_map.mpr fun c hc =>
    (denotes_qualify_base (selectsGoal_base h).source (hcolumns c hc)).knows

theorem selectsGoal_selector {columns : List String} {limit : Option Nat}
    (hcolumns : ∀ c ∈ columns, (db (nameParts s.goal.table)).HasColumn c) :
    q.SelectsGoal db s (q.selector columns limit) := by
  obtain ⟨hsource, hjoins, hcondition, -, horder⟩ := selectsGoal_base h
  rw [selector_eq]
  refine ⟨hsource, hjoins, hcondition, knows_qualified h hcolumns, fun t ht => ?_⟩
  exact (List.mem_append.mp ht).elim (horder t) (h.order t)

theorem selectsGoal_counter (hwindowed : q.isWindowed = false) :
    q.SelectsGoal db s q.counter := by
  obtain ⟨hsource, hjoins, hcondition, hcolumns, -⟩ := selectsGoal_base h
  have hcounter : q.counter = if q.unique then
      ((q.base.withColumns [q.base.qualify q.node.id.column]).makeDistinct).makeCount
    else q.base.makeCount := if_neg (by simpa [isWindowed] using hwindowed)
  rw [hcounter]
  split
  case isTrue =>
    have hid : ∀ c ∈ [q.node.id.column], (db (nameParts s.goal.table)).HasColumn c :=
      fun c hc => List.mem_singleton.mp hc ▸ h.id
    exact ⟨hsource, hjoins, hcondition, knows_qualified h hid,
      fun t ht => absurd ht List.not_mem_nil⟩
  case isFalse =>
    exact ⟨hsource, hjoins, hcondition, hcolumns, fun t ht => absurd ht List.not_mem_nil⟩

/-- The names in the condition of the step are columns of the table where it leads, as well. -/
theorem ownNames_resolve (hs : s.HasColumns db) (hx : q.SelectsGoal db s x) :
    ∀ r ∈ x.ownNames d db, r.Resolves (db.scopeOf s.goal.table) := by
  intro r hr
  rcases List.mem_append.mp hr with hr | hr
  · rw [hx.condition, conditionScopedNames_filterOpt] at hr
    rcases List.mem_append.mp hr with hr | hr
    · cases hlayout : s.layout with
      | joinTable =>
        rw [Step.neighbors_of_joinTable hlayout] at hr
        cases hr
      | startOwner =>
        rw [Step.neighbors_of_startOwner hlayout] at hr
        cases hr
      | goalOwner =>
        have hneighbors : s.neighbors = (Selector.ofTable s.goal.table).filter
            (.eq (Step.qualify s.goal.table (s.column 0)) s.start.value) := by
          unfold Step.neighbors
          rw [hlayout]
        rw [hneighbors] at hr
        obtain rfl : r = ⟨Step.qualify s.goal.table (s.column 0), []⟩ := by
          simpa [Selector.filter, Selector.ofTable, Selector.ofRef, Predicate.conjoin,
            conditionScopedNames, Predicate.eq, Predicate.scopedNames] using hr
        exact resolves_of_knows (hs.goalOwner hlayout).denotes_qualified.knows
    · exact h.condition r hr
  · exact resolves_of_mem_outputNames hx.columns hx.order r hr

end Goal

end NodeQuery

/-! ## Questions about the query of a step -/

namespace Inquiry

variable {i : Inquiry} {q : NodeQuery} {s : Step} {x rows : Selector}

/-- A window that is counted adds no names to those of its selection. -/
theorem scopedNames_rows (hx : i.selection? = some x) (hrows : i.rows? = some rows) :
    x.scopedNames d db = rows.scopedNames d db := by
  cases i with
  | nodes _ | first _ | only _ | ids _ | firstId _ | onlyId _ =>
    obtain rfl := Option.some.inj hx
    obtain rfl := Option.some.inj hrows
    rfl
  | count q =>
    obtain rfl := Option.some.inj hx
    obtain rfl := Option.some.inj hrows
    split
    case isTrue hwindowed =>
      have hcounter : q.counter = ⟨[], .select (q.selector [q.node.id.column] none) "t", [], none,
          [], none, none, false, true⟩ := if_pos hwindowed
      rw [hcounter, Selector.scopedNames, TableRef.scopedNames, joinsScopedNames,
        conditionScopedNames]
      simp [Selector.outputNames, Selector.namedColumns]
    case isFalse => rfl
  | exist _ | edges _ | load _ _ => cases hx

theorem rows_selectsGoal (hq : i.query? = some q) (hrows : i.rows? = some rows)
    (h : q.NamesGoal d db s) : q.SelectsGoal db s rows := by
  have hid : ∀ c ∈ [q.node.id.column], (db (nameParts s.goal.table)).HasColumn c :=
    fun c hc => List.mem_singleton.mp hc ▸ h.id
  cases i with
  | nodes _ | first _ | only _ =>
    obtain rfl := Option.some.inj hq
    obtain rfl := Option.some.inj hrows
    exact NodeQuery.selectsGoal_selector h h.columns
  | ids _ | firstId _ | onlyId _ =>
    obtain rfl := Option.some.inj hq
    obtain rfl := Option.some.inj hrows
    exact NodeQuery.selectsGoal_selector h hid
  | count _ =>
    obtain rfl := Option.some.inj hq
    obtain rfl := Option.some.inj hrows
    split
    case isTrue => exact NodeQuery.selectsGoal_selector h hid
    case isFalse hwindowed =>
      exact NodeQuery.selectsGoal_counter h (Bool.not_eq_true _ ▸ hwindowed)
  | exist _ | edges _ | load _ _ => cases hq

/-- A question about the query of a step is answered by one selection and then by loads of
neighbors. Let the names that the query gives be columns of the table where the step leads. Then
every name in the selection stands for one source, and a given one for what it stands for in this
table alone, if and only if no linking rows are joined, or their column, qualified with their name,
is not also a column of the table, and none of the given names that are looked up beside the linking
rows is the bare name of their column. -/
theorem step_names_resolved_iff (hq : i.query? = some q) (hx : i.selection? = some x)
    (hrows : i.rows? = some rows) (hs : s.HasColumns db) (h : q.NamesGoal d db s) :
    (∀ log result, (i.program d).Run log result → ∃ live reply rest,
        log = ⟨.query false (.select x), live, reply⟩ :: rest ∧ OnlySends q.MayLoad rest) ∧
      ((x.IsResolved d db ∧ ∀ r ∈ rows.ownNames d db,
          r.sources [rows.sources db] = r.sources (db.scopeOf s.goal.table)) ↔
        (s.layout ≠ .goalOwner → s.LinksApart db ∧
          ∀ r ∈ rows.ownNames d db, r.IsFree → r.name ≠ s.linkColumn)) := by
  have hgoal := rows_selectsGoal hq hrows h
  refine ⟨fun log result hrun => sends_selection hq hx hrun, ?_⟩
  rw [Selector.IsResolved, scopedNames_rows hx hrows]
  exact Step.isResolved_iff hs hgoal.source hgoal.joins (NodeQuery.ownNames_resolve h hs hgoal)

end Inquiry

/-! ## Parents of a user, filtered by a column -/

/-- The step from a user to the parent. -/
def userParent : Step := (parentStep "users").startingAt (.int 2)

/-- The parent of a user, if a column of the parent has a value. -/
def parentWhere (column : String) : NodeQuery :=
  { NodeQuery.ofStep { userNode with columns := ["parent_id"] } userParent with
    predicate := some (.eq column (.int 1)) }

theorem userParent_hasColumns : userParent.HasColumns (family "users") where
  goal := family_hasColumn List.mem_cons_self
  joinTable h := by cases h
  startOwner _ := ⟨family_hasColumn List.mem_cons_self, family_hasColumn (by decide)⟩
  goalOwner h := by cases h

theorem parentWhere_condition (d : Dialect) (column : String) :
    conditionScopedNames d (family "users") (parentWhere column).predicate = [⟨column, []⟩] := by
  simp [parentWhere, conditionScopedNames, Predicate.eq, Predicate.scopedNames]

theorem parentWhere_namesGoal (d : Dialect) {column : String} (h : column ∈ ["id", "parent_id"]) :
    (parentWhere column).NamesGoal d (family "users") userParent where
  source := rfl
  id := family_hasColumn List.mem_cons_self
  columns := fun _ hc => family_hasColumn hc
  condition := by
    rw [parentWhere_condition]
    exact List.forall_mem_singleton.mpr (resolves_of_knows (family_hasColumn h).knows)
  order := fun _ ht => absurd ht List.not_mem_nil

/-- The ID of the parent is the only column of that name. -/
theorem step_names_resolved_iff_id :
    userParent.HasColumns (family "users") ∧
      (parentWhere "id").NamesGoal .sqlite (family "users") userParent ∧
      ((parentWhere "id").selector (parentWhere "id").projection none).IsResolved .sqlite
        (family "users") := by
  have hnames := @parentWhere_namesGoal .sqlite "id" List.mem_cons_self
  have hown : ((parentWhere "id").selector (parentWhere "id").projection none).ownNames .sqlite
      (family "users") = [⟨"id", []⟩, ⟨"users.id", []⟩, ⟨"users.parent_id", []⟩] :=
    congrArg (· ++ _) (parentWhere_condition .sqlite "id")
  refine ⟨userParent_hasColumns, hnames, ((Inquiry.step_names_resolved_iff
    (i := .nodes (parentWhere "id")) rfl rfl rfl userParent_hasColumns hnames).2.mpr ?_).1⟩
  rw [hown]
  refine fun _ => ⟨fun halias => absurd halias (by decide), ?_⟩
  simp only [List.forall_mem_cons, List.not_mem_nil, false_implies, implies_true, and_true]
  exact ⟨fun _ => by decide, fun _ => by decide, fun _ => by decide⟩

/-- The parent of a parent is a column of the users and of the linking rows, so its bare name is
not clear. -/
theorem parent_id_ambiguous :
    userParent.HasColumns (family "users") ∧
      (parentWhere "parent_id").NamesGoal .sqlite (family "users") userParent ∧
      ((Inquiry.ids (parentWhere "parent_id")).program .sqlite).Run
        [⟨.query false (.select ((parentWhere "parent_id").selector ["id"] none)), true,
          (.done ⟨["id"], []⟩ : Outcome Rows)⟩] (.ok ([] : List Value)) ∧
      ((Command.select ((parentWhere "parent_id").selector ["id"] none)).statement .sqlite).sql =
        "SELECT DISTINCT \"users\".\"id\" FROM \"users\" " ++
          "JOIN (SELECT \"parent_id\" FROM \"users\" WHERE \"id\" = ?) AS \"t1\" " ++
          "ON \"users\".\"id\" = \"t1\".\"parent_id\" WHERE \"parent_id\" = ?" ∧
      ⟨"parent_id", []⟩ ∈ ((parentWhere "parent_id").selector ["id"] none).ownNames .sqlite
        (family "users") ∧
      (⟨"parent_id", []⟩ : ScopedName).sources
          [((parentWhere "parent_id").selector ["id"] none).sources (family "users")] =
        [⟨["users"], ["id", "parent_id"]⟩, ⟨["t1"], ["parent_id"]⟩] ∧
      ¬((parentWhere "parent_id").selector ["id"] none).IsResolved .sqlite (family "users") := by
  have hmem : ⟨"parent_id", []⟩ ∈ ((parentWhere "parent_id").selector ["id"] none).ownNames .sqlite
      (family "users") := by
    refine List.mem_append_left _ ?_
    have hcondition := parentWhere_condition .sqlite "parent_id"
    exact hcondition ▸ List.mem_singleton_self _
  have hgoal : userParent.goalSource (family "users") = ⟨["users"], ["id", "parent_id"]⟩ := by
    unfold Step.goalSource
    exact congrArg (fun t => (⟨["users"], t.columns⟩ : Source)) family_table
  have hlink : userParent.linkSource = ⟨["t1"], ["parent_id"]⟩ := rfl
  have hboth : Scope.sources [[⟨["users"], ["id", "parent_id"]⟩, ⟨["t1"], ["parent_id"]⟩]]
      "parent_id" = [⟨["users"], ["id", "parent_id"]⟩, ⟨["t1"], ["parent_id"]⟩] := rfl
  obtain ⟨hsources, hresolved⟩ := Step.isResolved_linked (d := .sqlite) userParent_hasColumns
    (x := (parentWhere "parent_id").selector ["id"] none) rfl rfl (by decide)
  rw [hgoal, hlink] at hsources hresolved
  refine ⟨userParent_hasColumns, parentWhere_namesGoal .sqlite (by decide), .call _ _ (.done _),
    by decide +kernel, hmem, by rw [hsources]; exact hboth, fun hclear => ?_⟩
  obtain ⟨x, hx⟩ := (hresolved.mp hclear).2 _ hmem
  exact absurd (hboth.symm.trans hx) (by simp)

end EntityGraph
