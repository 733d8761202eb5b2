import EntityGraph.Entity.Query
import EntityGraph.Proofs.Graph.EagerLoading
import EntityGraph.Proofs.Program.Collecting
import EntityGraph.Proofs.Sql.Lexing

/-!
# Queries of entities as queries of nodes

`EntityQuery.untyped` is the query of nodes with the settings of a query of entities, and with a
load of rows for each of its loads of entities. `EntityQuery.take` is a caller of it who reads rows
as entities and attaches each neighbor when it comes, so that what the caller has in the end is what
the query of entities returns. The two find neighbors differently: one keeps the values of the
fetched rows, the other asks the entities for them, after earlier neighbors have been attached.
`EntityQuery.KeepsKeys` says when this is the same.
-/

set_option autoImplicit false

namespace EntityGraph

open Program
open Sql (number? number?_toString)

/-! ## The query of nodes -/

/-- The load of the neighbors' rows, named by a position. -/
def EdgeLoader.namedLoad {P : Type} (l : EdgeLoader P) (i : Nat) : EdgeLoad :=
  { l.edgeLoad with name := some (toString i) }

namespace EntityQuery

variable {E : Type}

/-- The query of nodes with the same settings and the corresponding loads. -/
def untyped (q : EntityQuery E) : NodeQuery :=
  { q.nodeQuery with
    columns := q.columns
    edges := q.loaders.zipIdx.map fun l => l.1.namedLoad l.2
    scan := some q.type.scan
    delivers := true }

/-- The column by whose values a load finds neighbors. -/
def keyColumn (q : EntityQuery E) (l : EdgeLoader E) : String := l.edge.keyColumn q.type.node

/-- The entities have the values by which neighbors are found: the columns are among those of the
entity type, and an entity that has been read from a row has the row's values in them, with their
types restored. -/
structure ReadsKeys (q : EntityQuery E) : Prop where
  selected : ∀ l ∈ q.loaders, q.keyColumn l ∈ q.type.idColumn :: q.type.columns
  read : ∀ l ∈ q.loaders, ∀ stored row e,
    readRow q.untyped.projection (q.type.scanTypes q.untyped.projection) stored = .ok row →
      q.type.ofRow q.untyped.projection row = .ok e →
        q.type.value e (q.keyColumn l) =
          row[q.untyped.projection.idxOf (q.keyColumn l)]?.getD .null

/-- Attaching the neighbors of a load keeps the value by which another load finds neighbors. -/
def KeepsKeyOf (q : EntityQuery E) (l other : EdgeLoader E) : Prop :=
  ∀ child e, q.type.value (l.attach child e) (q.keyColumn other) =
    q.type.value e (q.keyColumn other)

/-- The entities have these values and keep them for later loads when neighbors are attached. -/
structure KeepsKeys (q : EntityQuery E) : Prop extends q.ReadsKeys where
  attached : q.loaders.Pairwise q.KeepsKeyOf

/-- The load of a name. -/
def loader? (q : EntityQuery E) (load : Option String) : Option (EdgeLoader E) :=
  load.bind fun name => (number? name.toList).bind fun i => q.loaders[i]?

/-- Takes a row as an entity, and attaches a neighbor to the entities that it belongs to. -/
def take (q : EntityQuery E) (found : List E) : Delivery → Except Error (List E)
  | .row columns row => do
    let entity ← q.type.ofRow columns row
    pure (found ++ [entity])
  | .neighbor load positions columns row =>
    match q.loader? load with
    | some l => do
      let child ← l.childType.ofRow columns row
      pure (l.attachAt found (positions, child))
    | none => .ok found
  | .link _ _ => .ok found

variable {q : EntityQuery E} {d : Dialect} {l : EdgeLoader E} {i : Nat}

theorem loader?_toString (h : q.loaders[i]? = some l) : q.loader? (some (toString i)) = some l := by
  rw [loader?, Option.bind_some, number?_toString, Option.bind_some, h]

/-- The caller finds the load whose neighbor is delivered by its name. -/
theorem take_neighbor (h : q.loaders[i]? = some l) (found : List E) (positions : List Nat)
    (columns : List String) (row : List Value) :
    q.take found (.neighbor (l.namedLoad i).name positions columns row) =
      l.childType.ofRow columns row >>= fun child =>
        .ok (l.attachAt found (positions, child)) := by
  have hname : (l.namedLoad i).name = some (toString i) := rfl
  rw [take, hname, loader?_toString h]
  rfl

/-! ## Projections -/

/-- Further columns, each unless it is there. -/
def addColumns (columns keys : List String) : List String :=
  keys.foldl (fun columns key => if columns.contains key then columns else columns ++ [key]) columns

theorem addColumns_of_mem {columns keys : List String} (h : ∀ key ∈ keys, key ∈ columns) :
    addColumns columns keys = columns := by
  induction keys with
  | nil => rfl
  | cons key keys ih =>
    obtain ⟨hkey, hkeys⟩ := List.forall_mem_cons.mp h
    rw [addColumns, List.foldl_cons, if_pos (by simpa using hkey)]
    exact ih hkeys

theorem prefix_addColumns (columns keys : List String) : columns <+: addColumns columns keys := by
  induction keys generalizing columns with
  | nil => exact List.prefix_rfl
  | cons key keys ih =>
    rw [addColumns, List.foldl_cons]
    refine List.IsPrefix.trans ?_ (ih _)
    split
    case isTrue => exact List.prefix_rfl
    case isFalse => exact List.prefix_append _ _

theorem addColumns_ne_nil {columns : List String} (h : columns ≠ []) (keys : List String) :
    addColumns columns keys ≠ [] :=
  fun hnil => h (List.prefix_nil.mp (hnil ▸ prefix_addColumns columns keys))

theorem projection_untyped_eq (q : EntityQuery E) : q.untyped.projection =
    addColumns (if q.columns.isEmpty then q.type.node.selectColumns else q.columns)
      (q.loaders.map q.keyColumn) := by
  have hkeys : q.loaders.map q.keyColumn =
      q.untyped.edges.map fun l => l.edge.keyColumn q.untyped.node := by
    show _ = (q.loaders.zipIdx.map fun l => l.1.namedLoad l.2).map _
    rw [List.map_map]
    conv_lhs => rw [← List.zipIdx_map_fst 0 q.loaders, List.map_map]
    rfl
  rw [hkeys, addColumns, List.foldl_map]
  rfl

/-- Both queries select the same columns. -/
theorem projection_untyped (h : q.KeepsKeys) : q.untyped.projection = q.nodeQuery.projection := by
  have htyped : q.nodeQuery.projection =
      if q.projection.isEmpty then q.type.node.selectColumns else q.projection := rfl
  rw [projection_untyped_eq, htyped]
  by_cases hcolumns : q.columns = []
  · have hprojection : q.projection = [] := if_pos (by simp [hcolumns])
    rw [hprojection, hcolumns]
    refine addColumns_of_mem fun key hkey => ?_
    obtain ⟨l, hl, rfl⟩ := List.mem_map.mp hkey
    have hmem : q.keyColumn l ∈ q.type.node.id.column :: q.type.node.columns := h.selected l hl
    show q.keyColumn l ∈ q.type.node.selectColumns
    rw [Node.selectColumns, List.mem_cons, List.mem_filter]
    by_cases hid : q.keyColumn l = q.type.node.id.column
    · exact .inl hid
    · exact .inr ⟨(List.mem_cons.mp hmem).resolve_left hid, by simpa using hid⟩
  · have hprojection : q.projection = addColumns q.columns (q.loaders.map q.keyColumn) := by
      rw [projection, if_neg (by simpa using hcolumns), addColumns, List.foldl_map]
      rfl
    have hne := addColumns_ne_nil hcolumns (q.loaders.map q.keyColumn)
    rw [hprojection, if_neg (by simpa using hcolumns), if_neg (by simpa using hne)]

/-! ## Fetching and reading rows -/

/-- A query of nodes delivers nothing while it fetches. -/
theorem collecting_fetch {σ : Type} {A : σ → Delivery → Except Error σ} (q : NodeQuery)
    (limit : Option Nat) (s : σ) :
    collecting A s (q.fetch d limit) = (fun rows => (rows, s)) <$> q.fetch d limit := by
  unfold NodeQuery.fetch
  rw [Connection.run, if_neg (by simp), collecting_bind, collecting_query, bind_map_left, map_bind]
  refine bind_congr fun rows => ?_
  dsimp only
  split
  case isTrue => rfl
  case isFalse =>
    simp only [liftM_eq_ofExcept]
    rw [collecting_bind, collecting_ofExcept, bind_map_left, map_bind]
    exact bind_congr fun types => collecting_ofExcept _

/-- Queries of nodes fetch the same rows if they select the same and read it as the same types. -/
theorem fetch_congr {q q' : NodeQuery} {limit limit' : Option Nat}
    (hprojection : q.projection = q'.projection)
    (hselector : ∀ columns, q.selector columns limit = q'.selector columns limit')
    (hscan : q.scan = q'.scan) : q.fetch d limit = q'.fetch d limit' := by
  unfold NodeQuery.fetch
  simp only [hprojection, hselector, hscan]

/-- Reads rows as entities. -/
def readRows (q : EntityQuery E) (rows : List (List Value)) : Except Error (List E) :=
  rows.foldlM (fun found row => q.take found (.row q.untyped.projection row)) []

/-- The rows of a query of nodes without loads are read as entities when they are delivered. -/
theorem collecting_rows {rows : List (List Value)} {plain : NodeQuery}
    (hprojection : plain.projection = q.untyped.projection) (hdelivers : plain.delivers = true)
    (hedges : plain.edges = []) :
    collecting q.absorb [] (plain.deliver d rows) =
      (fun found => (rows.length, found)) <$> Program.ofExcept (q.readRows rows) := by
  have hloads : ((if (!rows.isEmpty) = true then
      plain.edges.forM fun l => discard (l.run d (plain.keysFor rows l))
        else pure PUnit.unit) : Program PUnit) = .done PUnit.unit := by
    rw [hedges]
    exact ite_self _
  rw [NodeQuery.deliver_eq, hdelivers, if_pos rfl, hprojection, hloads, collecting_bind,
    collecting_forM_deliver]
  change (fun found => ((), found)) <$> Program.ofExcept (q.readRows rows) >>= _ = _
  cases q.readRows rows <;> rfl

/-- The entities of a query are read from the rows that the query of nodes fetches. -/
theorem collect_eq (h : q.KeepsKeys) (cap : Option Nat) : q.collect d cap =
    (q.untyped.fetch d (cap.bind q.untyped.capped) >>= fun rows =>
      Program.ofExcept (q.readRows rows)) := by
  have hall : ∀ plain : NodeQuery, plain.projection = q.untyped.projection →
      (∀ columns, plain.selector columns none =
        q.untyped.selector columns (cap.bind q.untyped.capped)) →
      plain.scan = q.untyped.scan → plain.delivers = true → plain.edges = [] →
      (collecting q.absorb [] (plain.all d) >>= fun r => Program.done r.2) =
        (q.untyped.fetch d (cap.bind q.untyped.capped) >>= fun rows =>
          Program.ofExcept (q.readRows rows)) := by
    intro plain hprojection hselector hscan hdelivers hedges
    unfold NodeQuery.all
    rw [collecting_bind, collecting_fetch, bind_map_left, fetch_congr hprojection hselector hscan,
      bind_assoc]
    refine bind_congr fun rows => ?_
    dsimp only
    rw [collecting_rows hprojection hdelivers hedges, bind_map_left]
    exact bind_pure _
  refine hall _ (projection_untyped h).symm (fun columns => ?_) rfl rfl rfl
  cases cap <;> rfl

/-! ## Loading neighbors -/

/-- The values of the rows in the columns by which some loads find neighbors are those that the
entities have. -/
def SameKeys (q : EntityQuery E) (loaders : List (EdgeLoader E)) (rows : List (List Value))
    (es : List E) : Prop :=
  ∀ l ∈ loaders, es.map (fun e => q.type.value e (q.keyColumn l)) =
    rows.map fun row => row[q.untyped.projection.idxOf (q.keyColumn l)]?.getD .null

/-- A change of a member that a function does not see. -/
theorem map_modify_of_fixed {α β : Type} {f : α → α} {g : α → β} (h : ∀ a, g (f a) = g a)
    (xs : List α) (i : Nat) : (xs.modify i f).map g = xs.map g := by
  refine List.ext_getElem? fun j => ?_
  rw [List.getElem?_map, List.getElem?_map, List.getElem?_modify]
  cases xs[j]? with
  | none => rfl
  | some a =>
    show some (g (if i = j then f a else a)) = some (g a)
    split
    case isTrue => rw [h]
    case isFalse => rfl

/-- Attaching neighbors leaves the keys of entities for later loads as they are. -/
theorem SameKeys.attachAt {loaders : List (EdgeLoader E)} {rows : List (List Value)} {es : List E}
    (hl : ∀ other ∈ loaders, q.KeepsKeyOf l other) (hkeys : q.SameKeys loaders rows es)
    (found : List Nat × l.Child) : q.SameKeys loaders rows (l.attachAt es found) := by
  intro l' hl'
  rw [← hkeys l' hl', EdgeLoader.attachAt]
  clear hkeys
  induction found.1 generalizing es with
  | nil => rfl
  | cons i positions ih =>
    rw [List.foldl_cons, ih, map_modify_of_fixed fun e => hl l' hl' found.2 e]

theorem SameKeys.attachAll {loaders : List (EdgeLoader E)} {rows : List (List Value)} {es : List E}
    (hl : ∀ other ∈ loaders, q.KeepsKeyOf l other) (hkeys : q.SameKeys loaders rows es)
    (found : List (List Nat × l.Child)) : q.SameKeys loaders rows (found.foldl l.attachAt es) := by
  induction found generalizing es with
  | nil => exact hkeys
  | cons first found ih => exact ih (hkeys.attachAt hl first)

section Mimicry

variable {column : String} {keys : List Value} {es : List E}

/-- A neighbor that comes as a row is attached to the entities at the same positions. -/
theorem mimics_deliverRow (hl : q.loaders[i]? = some l) (types : List FieldType) (parents : Keyed)
    (row : List Value) :
    Mimics l.absorb q.take (fun found => found.foldl l.attachAt es)
      (l.edgeLoad.deliverRow column types parents row)
      ((l.namedLoad i).deliverRow column types parents row) := by
  have hcolumns : (l.namedLoad i).columns column = l.edgeLoad.columns column := rfl
  rw [EdgeLoad.deliverRow, EdgeLoad.deliverRow, hcolumns]
  refine (mimics_ofExcept _).bind fun values => ?_
  dsimp only
  cases parents.find? (values[(l.edgeLoad.columns column).idxOf column]?.getD .null) with
  | none => exact mimics_done 0
  | some positions =>
    refine (mimics_deliver fun found => ?_).bind fun _ => mimics_done 1
    rw [take_neighbor hl]
    show _ = _ <$> (l.childType.ofRow (l.edgeLoad.columns column) values >>= fun child =>
      pure (found ++ [(positions.foldr insertPosition [], child)]))
    cases l.childType.ofRow (l.edgeLoad.columns column) values with
    | error e => rfl
    | ok child => exact congrArg Except.ok (by simp)

theorem mimics_loadTargets (hl : q.loaders[i]? = some l) (conn : Connection) (parents : Keyed) :
    Mimics l.absorb q.take (fun found => found.foldl l.attachAt es)
      (l.edgeLoad.loadTargets conn column parents)
      ((l.namedLoad i).loadTargets conn column parents) := by
  refine (mimics_query conn _).bind fun rows => ?_
  split
  case isTrue => exact mimics_done 0
  case isFalse =>
    refine (mimics_ofExcept _).bind fun types => ?_
    exact (mimics_mapM (fun row => mimics_deliverRow hl types parents row) rows.rows).bind
      fun counts => mimics_done _

/-- A load of rows, when they are attached as they come, does to entities what the load of entities
does. -/
theorem mimics_run (hl : q.loaders[i]? = some l) (es : List E) (keys : List Value) :
    Mimics l.absorb q.take (fun found => found.foldl l.attachAt es)
      (l.edgeLoad.run d keys) ((l.namedLoad i).run d keys) := by
  by_cases hnone : (Keyed.ofValues keys).values = []
  · have hempty : (Keyed.ofValues keys).values.isEmpty = true := List.isEmpty_iff.mpr hnone
    rw [EdgeLoad.run, EdgeLoad.run, if_pos hempty, if_pos hempty]
    exact mimics_done 0
  · rw [EdgeLoad.run_eq_loadFor hnone, EdgeLoad.run_eq_loadFor hnone, EdgeLoad.loadFor,
      EdgeLoad.loadFor]
    show Mimics _ _ _ (if l.edge.isManyToMany = true then _ else _)
      (if l.edge.isManyToMany = true then _ else _)
    split
    case isTrue =>
      refine (mimics_ofExcept _).bind fun columns => (mimics_query _ _).bind fun rows => ?_
      dsimp only
      split
      case isTrue => exact mimics_done 0
      case isFalse => exact mimics_loadTargets hl _ _
    case isFalse =>
      show Mimics _ _ _ (if l.edge.writesOwnColumn = true then _ else _)
        (if l.edge.writesOwnColumn = true then _ else _)
      split
      case isTrue => exact mimics_loadTargets hl _ _
      case isFalse => exact (mimics_ofExcept _).bind fun fk => mimics_loadTargets hl _ _

end Mimicry

/-- The keys that the query of nodes hands to a load. -/
theorem keysFor_namedLoad (hl : q.loaders[i]? = some l) (rows : List (List Value)) :
    q.untyped.keysFor rows (l.namedLoad i) =
      rows.map fun row => row[q.untyped.projection.idxOf (q.keyColumn l)]?.getD .null := by
  have hmem : l.namedLoad i ∈ q.untyped.edges :=
    List.mem_map.mpr ⟨(l, i), List.mk_mem_zipIdx_iff_getElem?.mpr hl, rfl⟩
  exact NodeQuery.keysFor_eq hmem rows

/-- The loads of rows, when they are attached as they come, do to entities what the loads of
entities do. -/
theorem collecting_loads {rows : List (List Value)} {es : List E}
    {loaders : List (EdgeLoader E)} {k : Nat} (hloaders : loaders = q.loaders.drop k)
    (hattached : loaders.Pairwise q.KeepsKeyOf) (hkeys : q.SameKeys loaders rows es) :
    collecting q.take es (((loaders.zipIdx k).map fun l => l.1.namedLoad l.2).forM fun l =>
        discard (l.run d (q.untyped.keysFor rows l))) =
      (fun es => ((), es)) <$> loaders.foldlM (EdgeLoader.run d q.type) es := by
  induction loaders generalizing es k with
  | nil => rfl
  | cons l loaders ih =>
    have hl : q.loaders[k]? = some l := by
      rw [← List.head?_drop, ← hloaders]
      rfl
    have hrest : loaders = q.loaders.drop (k + 1) := by
      rw [← List.tail_drop, ← hloaders]
      rfl
    -- The keys of the first load are those of the rows still; what it attaches leaves them so for
    -- the loads that follow.
    obtain ⟨hkept, hattached⟩ := List.pairwise_cons.mp hattached
    obtain ⟨hsame, hkeys⟩ := List.forall_mem_cons.mp hkeys
    have hload := mimics_run (d := d) hl es
      (es.map fun e => q.type.value e (q.keyColumn l)) []
    dsimp only [List.foldl_nil] at hload
    show collecting q.take es (((l.namedLoad k).run d
      (q.untyped.keysFor rows (l.namedLoad k)) >>= fun _ => Program.done PUnit.unit) >>= fun _ =>
        ((loaders.zipIdx (k + 1)).map fun l => l.1.namedLoad l.2).forM fun l =>
          discard (l.run d (q.untyped.keysFor rows l))) = _
    rw [keysFor_namedLoad hl, ← hsame, bind_assoc, collecting_bind, hload, bind_map_left,
      List.foldlM_cons, EdgeLoader.run, map_bind, bind_assoc]
    refine bind_congr fun r => ?_
    exact ih hrest hattached (SameKeys.attachAll hkept hkeys r.2)

/-! ## Rows that have been fetched -/

theorem readRows_eq (q : EntityQuery E) (rows : List (List Value)) :
    q.readRows rows = rows.mapM (q.type.ofRow q.untyped.projection) := by
  have hfrom : ∀ found, rows.foldlM (fun found row =>
      q.take found (.row q.untyped.projection row)) found =
        (found ++ ·) <$> rows.mapM (q.type.ofRow q.untyped.projection) := by
    induction rows with
    | nil => exact fun found => congrArg Except.ok (List.append_nil found).symm
    | cons row rows ih =>
      intro found
      rw [List.foldlM_cons, List.mapM_cons, take]
      cases q.type.ofRow q.untyped.projection row with
      | error e => rfl
      | ok e =>
        refine (ih (found ++ [e])).trans ?_
        show _ = (found ++ ·) <$> (rows.mapM (q.type.ofRow q.untyped.projection) >>= fun es =>
          pure (e :: es))
        cases rows.mapM (q.type.ofRow q.untyped.projection) with
        | error e => rfl
        | ok es => exact congrArg Except.ok (by simp)
  refine (hfrom []).trans ?_
  cases rows.mapM (q.type.ofRow q.untyped.projection) <;> rfl

theorem forall₂_of_readRows {rows : List (List Value)} {es : List E}
    (h : q.readRows rows = .ok es) :
    List.Forall₂ (fun row e => q.type.ofRow q.untyped.projection row = .ok e) rows es :=
  mapM_eq_ok.mp (q.readRows_eq rows ▸ h)

/-- The entities of fetched rows have the keys of the rows. -/
theorem sameKeys_of_fetch (h : q.KeepsKeys) {limit : Option Nat} {log : List Exchange}
    {rows : List (List Value)} {es : List E}
    (hfetch : (q.untyped.fetch d limit).Run log (.ok rows)) (hread : q.readRows rows = .ok es) :
    q.SameKeys q.loaders rows es := by
  obtain ⟨live, reported, -, hrows⟩ :=
    NodeQuery.reaches_fetch_recording (reaches_recording hfetch [])
  have hstored : ∀ row ∈ rows, ∃ stored,
      readRow q.untyped.projection (q.type.scanTypes q.untyped.projection) stored = .ok row := by
    rcases hrows with ⟨-, rfl⟩ | ⟨types, htypes, hread⟩
    · exact fun row hrow => absurd hrow List.not_mem_nil
    · obtain rfl : q.type.scanTypes q.untyped.projection = types := Except.ok.inj htypes
      intro row hrow
      obtain ⟨stored, -, hstored⟩ := exists_of_forall₂ hread.flip hrow
      exact ⟨stored, hstored⟩
  intro l hl
  have hforall := forall₂_of_readRows hread
  clear hfetch hrows hread
  induction hforall with
  | nil => rfl
  | cons hrow _ ih =>
    obtain ⟨⟨stored, hfirst⟩, hrest⟩ := List.forall_mem_cons.mp hstored
    rw [List.map_cons, List.map_cons, ih hrest, h.read l hl stored _ _ hfirst hrow]

/-! ## The whole query -/

/-- Delivered rows become entities, and then neighbors are attached to them. -/
theorem collecting_deliver_untyped (h : q.KeepsKeys) {rows : List (List Value)}
    (hkeys : ∀ es, q.readRows rows = .ok es → q.SameKeys q.loaders rows es) :
    collecting q.take [] (q.untyped.deliver d rows) =
      (fun es => (rows.length, es)) <$> (Program.ofExcept (q.readRows rows) >>=
        q.loadNeighbors d) := by
  rw [NodeQuery.deliver_eq, if_pos (show q.untyped.delivers = true from rfl), collecting_bind,
    collecting_forM_deliver]
  change (fun found => ((), found)) <$> Program.ofExcept (q.readRows rows) >>= _ = _
  cases hread : q.readRows rows with
  | error e => rfl
  | ok es =>
    have hlength : es.length = rows.length := (forall₂_of_readRows hread).length_eq.symm
    show collecting q.take es ((if (!rows.isEmpty) = true then
      q.untyped.edges.forM fun l => discard (l.run d (q.untyped.keysFor rows l))
        else pure PUnit.unit) >>= fun _ => Program.done rows.length) =
          (fun es => (rows.length, es)) <$> q.loadNeighbors d es
    rw [collecting_bind, loadNeighbors]
    by_cases hempty : rows = []
    · have hnone : es = [] := List.length_eq_zero_iff.mp (by rw [hlength, hempty]; rfl)
      rw [hempty, hnone]
      rfl
    · have hsome : ¬es.isEmpty = true := by
        rw [List.isEmpty_iff, ← List.length_eq_zero_iff, hlength, List.length_eq_zero_iff]
        exact hempty
      have hloads := collecting_loads (d := d) (k := 0) rfl h.attached (hkeys es hread)
      rw [if_pos (by simpa using hempty), if_neg hsome]
      change collecting q.take es (q.untyped.edges.forM fun l =>
        discard (l.run d (q.untyped.keysFor rows l))) = _ at hloads
      rw [hloads, bind_map_left]
      exact bind_pure_comp _ _

/-- All entities are what a caller has taken of the query of nodes. -/
theorem all_eq (h : q.KeepsKeys) :
    q.all d = (fun r => r.2) <$> collecting q.take [] (q.untyped.all d) := by
  unfold all NodeQuery.all
  rw [collect_eq h, collecting_bind, collecting_fetch, bind_map_left, map_bind, bind_assoc]
  refine bind_congr_of_run fun log rows hfetch => ?_
  dsimp only
  rw [collecting_deliver_untyped h fun es => sameKeys_of_fetch h hfetch, Functor.map_map]
  exact (id_map _).symm

/-- The first entity is the last one that a caller has taken of the query of the first node. -/
theorem first_eq (h : q.KeepsKeys) : q.first d =
    (collecting q.take [] (q.untyped.first d) >>= fun r => Program.ofExcept (q.last r.2)) := by
  unfold first NodeQuery.first
  rw [collect_eq h, collecting_bind, collecting_fetch, bind_map_left, bind_assoc, bind_assoc]
  refine bind_congr_of_run fun log rows hfetch => ?_
  dsimp only
  by_cases hempty : rows = []
  · subst hempty
    rfl
  · have hdeliver := collecting_deliver_untyped (d := d) h fun es => sameKeys_of_fetch h hfetch
    rw [if_neg (by simpa using hempty)]
    change _ = (collecting q.take [] (q.untyped.deliver d rows >>= fun _ =>
      Program.done PUnit.unit) >>= _)
    rw [collecting_bind, hdeliver, bind_map_left, bind_assoc, bind_assoc]
    rfl

/-- The results are the same, but more than one row may be reported as such or as a row that is not
an entity. -/
def SameUnlessMany (q : EntityQuery E) (x y : Except Error E) : Prop :=
  x = y ∨ y = .error (.notSingular q.type.label) ∧ ∃ e, x = .error e

/-- The only entity is what a caller has taken of the query of the only node. -/
theorem only_alike (h : q.KeepsKeys) : Alike q.SameUnlessMany (q.only d)
    (collecting q.take [] (q.untyped.only d) >>= fun r => Program.ofExcept (q.last r.2)) := by
  unfold only NodeQuery.only
  rw [collect_eq h, collecting_bind, collecting_fetch, bind_map_left, bind_assoc, bind_assoc]
  refine alike_bind (fun _ => .inl rfl) fun log rows hfetch => ?_
  match rows with
  | [] => exact alike_refl (fun _ => .inl rfl) _
  | [row] =>
    have hdeliver := collecting_deliver_untyped (d := d) h fun es => sameKeys_of_fetch h hfetch
    change Alike _ _ (collecting q.take [] (q.untyped.deliver d [row] >>= fun _ =>
      Program.done PUnit.unit) >>= _)
    rw [collecting_bind, hdeliver, bind_map_left, bind_assoc, bind_assoc]
    cases hread : q.readRows [row] with
    | error e => exact alike_refl (fun _ => .inl rfl) _
    | ok es =>
      match es, forall₂_of_readRows hread with
      | [_], _ => exact alike_refl (fun _ => .inl rfl) _
  | first :: second :: rest =>
    cases hread : q.readRows (first :: second :: rest) with
    | error e => exact alike_fail (.inr ⟨rfl, e, rfl⟩)
    | ok es =>
      match es, forall₂_of_readRows hread with
      | _ :: _ :: _, _ => exact alike_refl (fun _ => .inl rfl) _

end EntityQuery

end EntityGraph
