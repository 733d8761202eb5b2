import EntityGraph.Proofs.Graph.AddedLinks

/-!
# Values of join tables under their columns

A row of a join table is made for an edge, one of its nodes and one of its targets, or is the mirror
image of such a row. `JoinTable.Entry.cells` says what is to stand in it under which column. All rows
of one table are sent by one INSERT, which names the columns as its first edge does, while each row
has its values in the order of its own edge. So a row puts its values under their columns if its edge
names the columns in the same order, and otherwise it does not, unless values happen to be the same.
-/

set_option autoImplicit false

namespace EntityGraph

open Program

/-- The columns that an edge names for its rows in a join table, in its own order. -/
def Edge.joinNames (e : Edge) : List String := e.columns ++ e.target.fields.map Field.column

namespace JoinTable

/-- A row of a join table that an edge asks for: that of a node and a target, or its mirror image. -/
structure Entry where
  edge : Edge
  node : Value
  target : Value
  mirrored : Bool

namespace Entry

/-- The values that a row is to have, each with its column: the node stands under the column that the
edge calls its own and the target under the other, or the other way round in a mirror image, and each
further value stands under the column of its field. -/
def cells (x : Entry) : Except Error (List (String × Value)) := do
  let (own, other) ← x.edge.joinColumns
  let extra ← x.edge.target.fields.mapM fun f => do
    let v ← f.bindValue
    pure (f.column, v)
  let (atOwn, atOther) := if x.mirrored then (x.target, x.node) else (x.node, x.target)
  pure ((own, atOwn) :: (other, atOther) :: extra)

/-- The values of a row in the order in which the edge names its columns. -/
def values (x : Entry) (extra : List Value) : List Value :=
  if x.edge.inverse == x.mirrored then x.node :: x.target :: extra
  else x.target :: x.node :: extra

end Entry

/-- The rows for a node and a target of an edge. -/
def entriesOf (e : Edge) (node target : Value) : List Entry :=
  ⟨e, node, target, false⟩ :: if e.bidi then [⟨e, node, target, true⟩] else []

/-- The rows for an edge of some nodes, owner by owner. -/
def entries (link : List Value × Edge) : List Entry :=
  let e := link.2
  if e.inverse then e.target.nodes.flatMap fun t => link.1.flatMap fun i => entriesOf e i t
  else link.1.flatMap fun i => e.target.nodes.flatMap fun t => entriesOf e i t

/-- A row has its values under the columns that its edge wants them under, and no other columns. -/
def Entry.LandsIn (x : Entry) (columns : List String) (row : List Value) : Prop :=
  ∃ cells, x.cells = .ok cells ∧ columns.length = row.length ∧ (columns.zip row).Perm cells

/-! ## Rows of an edge -/

/-- Further values stand with the columns of their fields. -/
theorem extraCells_eq_ok {fields : List Field} {extra : List Value}
    (h : fields.mapM Field.bindValue = .ok extra) :
    (fields.mapM fun f => do
      let v ← f.bindValue
      pure (f.column, v) : Except Error (List (String × Value))) =
        .ok ((fields.map Field.column).zip extra) := by
  refine mapM_eq_ok.mpr ?_
  induction mapM_eq_ok.mp h with
  | nil => exact .nil
  | cons hbind _ ih => exact .cons (bind_eq_ok.mpr ⟨_, hbind, rfl⟩) (ih (mapM_eq_ok.mpr ‹_›))

/-- The values of a row under the columns that its edge names, in the order of the edge, are those
that it is to have. -/
theorem Entry.cells_perm {x : Entry} {extra : List Value} {c₁ c₂ : String}
    (hcolumns : x.edge.columns = [c₁, c₂])
    (hextra : x.edge.target.fields.mapM Field.bindValue = .ok extra) :
    x.edge.joinNames.length = (x.values extra).length ∧
      ∃ cells, x.cells = .ok cells ∧ (x.edge.joinNames.zip (x.values extra)).Perm cells := by
  have hlength : x.edge.target.fields.length = extra.length := (mapM_eq_ok.mp hextra).length_eq
  constructor
  · unfold values Edge.joinNames
    split <;> simp [hcolumns, hlength]
  · unfold cells
    rw [extraCells_eq_ok hextra, Edge.joinColumns, hcolumns]
    refine ⟨_, rfl, ?_⟩
    unfold values Edge.joinNames
    rw [hcolumns]
    cases x.edge.inverse <;> cases x.mirrored
    case false.false | false.true => exact .refl _
    case true.false | true.true => exact .swap _ _ _

/-- The rows of an edge are those that it asks for, in their order. -/
theorem edgeRows_eq_entries {ids : List Value} {e : Edge} {rows : List (List Value)}
    (h : edgeRows ids e = .ok rows) : ∃ extra, e.target.fields.mapM Field.bindValue = .ok extra ∧
      rows = (entries (ids, e)).map fun x => x.values extra := by
  obtain ⟨extra, hextra, hrows⟩ := bind_eq_ok.mp h
  refine ⟨extra, hextra, ?_⟩
  have hentries : ∀ i t, (entriesOf e i t).map (fun x => x.values extra) =
      (if e.inverse then t :: i :: extra else i :: t :: extra) ::
        if e.bidi then [if e.inverse then i :: t :: extra else t :: i :: extra] else [] := by
    intro i t
    unfold entriesOf Entry.values
    cases hbidi : e.bidi <;> cases hinverse : e.inverse <;> simp [hinverse]
  unfold entries
  cases hinverse : e.inverse
  all_goals
    rw [hinverse] at hrows
    obtain rfl := Except.ok.inj hrows
    simp [hinverse, List.map_flatMap, hentries]

/-! ## Names and values -/

/-- Lists of names that give different values the same names are the same. -/
theorem eq_of_zip_perm {α β : Type} {names names' : List α} {values : List β}
    (hlength : names.length = values.length) (hlength' : names'.length = values.length)
    (hnodup : values.Nodup) (h : (names.zip values).Perm (names'.zip values)) : names = names' := by
  refine List.ext_getElem (hlength.trans hlength'.symm) fun i hi hi' => ?_
  have hlt : i < values.length := hlength ▸ hi
  have hmem : (names[i], values[i]) ∈ names'.zip values := by
    refine h.mem_iff.mp (List.mem_iff_getElem.mpr ⟨i, by simp [hi, hlt], ?_⟩)
    exact List.getElem_zip
  obtain ⟨j, hj, heq⟩ := List.mem_iff_getElem.mp hmem
  rw [List.getElem_zip] at heq
  obtain ⟨hname, hvalue⟩ := Prod.mk.inj heq
  obtain rfl : j = i := hnodup.getElem_inj_iff.mp hvalue
  exact hname.symm

section

variable {x : Entry} {extra : List Value} {columns : List String}
  (hedge : x.edge.columns.length = 2)
  (hextra : x.edge.target.fields.mapM Field.bindValue = .ok extra)

include hedge hextra

/-- A row lands where the columns are named as its edge names them. -/
theorem Entry.landsIn_joinNames : x.LandsIn x.edge.joinNames (x.values extra) := by
  obtain ⟨c₁, c₂, hcolumns⟩ := List.length_eq_two.mp hedge
  obtain ⟨hlength, cells, hcells, hperm⟩ := x.cells_perm hcolumns hextra
  exact ⟨cells, hcells, hlength, hperm⟩

/-- If its values are all different, a row lands nowhere else. -/
theorem Entry.joinNames_of_landsIn (hnodup : (x.values extra).Nodup)
    (h : x.LandsIn columns (x.values extra)) : x.edge.joinNames = columns := by
  obtain ⟨c₁, c₂, hcolumns⟩ := List.length_eq_two.mp hedge
  obtain ⟨hlength, cells, hcells, hperm⟩ := x.cells_perm hcolumns hextra
  obtain ⟨cells', hcells', hlength', hperm'⟩ := h
  obtain rfl : cells = cells' := Except.ok.inj (hcells.symm.trans hcells')
  exact eq_of_zip_perm hlength hlength' hnodup (hperm.trans hperm'.symm)

end

/-! ## INSERTs -/

/-- An INSERT is that of the rows of some edges, which share a join table. Its columns are those of
the first edge. A row lands under its columns if its edge names them in the same order, and if its
values are all different, only then. -/
structure InsertsEntries (group : List (List Value × Edge)) (s : InsertStatement) : Prop where
  joined : ∀ link ∈ group, link.2.isManyToMany = true ∧ link.2.table = s.table
  columns : ∃ first, group.head? = some first ∧ s.columns = first.2.joinNames
  rows : List.Forall₂ (fun x row =>
    (x.edge.joinNames = s.columns → x.LandsIn s.columns row) ∧
      (row.Nodup → x.LandsIn s.columns row → x.edge.joinNames = s.columns))
    (group.flatMap entries) s.rows

theorem edge_of_mem_entries {link : List Value × Edge} {x : Entry} (h : x ∈ entries link) :
    x.edge = link.2 := by
  have hof : ∀ {i t}, x ∈ entriesOf link.2 i t → x.edge = link.2 := by
    intro i t hx
    unfold entriesOf at hx
    rcases List.mem_cons.mp hx with rfl | hx
    · rfl
    · split at hx
      case isTrue => rw [List.mem_singleton.mp hx]
      case isFalse => cases hx
  unfold entries at h
  dsimp only at h
  split at h
  all_goals
    obtain ⟨_, -, h⟩ := List.mem_flatMap.mp h
    obtain ⟨_, -, h⟩ := List.mem_flatMap.mp h
    exact hof h

/-- Each row of an edge with two columns lands exactly where the columns are named alike. -/
theorem lands_of_edgeRows {link : List Value × Edge} {rows : List (List Value)}
    (h : edgeRows link.1 link.2 = .ok rows) (hedge : link.2.columns.length = 2)
    (columns : List String) : List.Forall₂ (fun x row =>
      (x.edge.joinNames = columns → x.LandsIn columns row) ∧
        (row.Nodup → x.LandsIn columns row → x.edge.joinNames = columns)) (entries link) rows := by
  obtain ⟨extra, hextra, rfl⟩ := edgeRows_eq_entries h
  refine List.forall₂_map_right_iff.mpr (List.forall₂_same.mpr fun x hx => ?_)
  rw [← edge_of_mem_entries hx] at hedge hextra
  constructor
  · rintro rfl
    exact Entry.landsIn_joinNames hedge hextra
  · exact Entry.joinNames_of_landsIn hedge hextra

/-- The INSERT of complete edges of a join table is that of their rows. -/
theorem insertsEntries_of_insertOf {d : Dialect} {group : List (List Value × Edge)} {i : Insert}
    {s : InsertStatement} (hne : group ≠ [])
    (hjoined : ∀ link ∈ group, link.2.isManyToMany = true ∧ link.2.table = s.table)
    (hcomplete : ∀ link ∈ group, link.2.IsComplete) (hinsert : insertOf s.table group = .ok i)
    (hcompile : i.compile d = .ok s) : InsertsEntries group s := by
  obtain ⟨rowss, hrowss, hi⟩ := bind_eq_ok.mp hinsert
  obtain ⟨-, conflict, -, hs⟩ := Sql.compile_eq_ok.mp hcompile
  have hrows : s.rows = rowss.flatten := by rw [hs, ← Except.ok.inj hi]; rfl
  refine ⟨hjoined, ?_, ?_⟩
  · cases group with
    | nil => exact absurd rfl hne
    | cons first rest =>
      refine ⟨first, rfl, ?_⟩
      rw [hs, ← Except.ok.inj hi]
      show (insertFor s.table first.2).columns = _
      rw [insertFor_eq]
      rfl
  -- row by row, each of an edge that is complete and has two columns
  have hedges : ∀ link ∈ group, link.2.columns.length = 2 := by
    intro link hlink
    have hmany : link.2.relation = .manyToMany := beq_iff_eq.mp (hjoined link hlink).1
    rw [(hcomplete link hlink).columns, hmany]
    rfl
  rw [hrows]
  have hall := mapM_eq_ok.mp hrowss
  clear hrows hs hi hinsert hjoined hcomplete hne hrowss
  induction hall with
  | nil => exact .nil
  | cons hrow _ ih =>
    obtain ⟨hlink, hothers⟩ := List.forall_mem_cons.mp hedges
    rw [List.flatMap_cons, List.flatten_cons]
    exact List.rel_append (lands_of_edgeRows hrow hlink s.columns) (ih hothers)

end JoinTable

/-! ## Mutations -/

/-- Values of join tables under their columns. Each INSERT that a mutation with a result sends is that
of own rows of its nodes, or of the rows of some of its edges that share a join table. A row of an
edge lands, with the node, the target and each further value under the column that its edge has for
it and with no other column, if the edge names its columns in the order of the first edge in that
INSERT. If the values of the row are all different, it lands only then. -/
theorem Mutation.join_values_land_iff_named_alike {d : Dialect} {m : Mutation} {a : m.Result}
    {log : List Exchange} (h : (m.program d).Run log (.ok a)) :
    ∃ links, m.Adds log a links ∧ ∀ x ∈ log, ∀ s, x.call.statement? = some (.insert s) →
      m.WritesRows d (.insert s) ∨ ∃ group ⊆ links, JoinTable.InsertsEntries group s := by
  obtain ⟨conn, links, -, hadds, hcomplete, hsends, -⟩ := sends_links h
  refine ⟨links, hadds, fun x hx s hs => ?_⟩
  rcases hsends x hx _ hs with hread | hrows | hlinks
  · cases hread
  · exact .inl hrows
  · cases hlinks with
    | pairs hne hmem hjoined hinsert hcompiled =>
      exact .inr ⟨_, hmem, JoinTable.insertsEntries_of_insertOf hne hjoined
        (fun link hlink => hcomplete link (hmem hlink)) hinsert hcompiled⟩

/-! ## A user in two groups -/

/-- The edge from a user to a group, with further columns. -/
def groupEdge (group : Int64) (fields : List Field) : Edge :=
  let e := Edge.manyToMany "memberships" "user_id" "group_id"
  { e with target := { e.target with nodes := [.int group], fields } }

/-- The field for the role of a user in a group. -/
def roleField (role : String) : Field := ⟨"role", .string, .string role⟩

/-- The field for the year in which a user has joined a group. -/
def yearField (year : Int64) : Field := ⟨"since", .int, .int year⟩

/-- A new user in two groups. The further columns of the second edge are given. -/
def groupMember (fields : List Field) : NodeCreation :=
  { NodeCreation.ofNode userNode with
    edges := [groupEdge 7 [roleField "owner", yearField 2019], groupEdge 8 fields] }

/-- The INSERT of the user into the groups. The last two values are those of the second edge. -/
def insertGroups (first second : Value) : InsertStatement :=
  { table := "memberships", columns := ["user_id", "group_id", "role", "since"]
    rows := [[.int 1, .int 7, .string "owner", .int 2019], [.int 1, .int 8, first, second]]
    conflict := none, returning := [] }

/-- The call that sends it. -/
def sendGroups (first second : Value) : Exchange :=
  ⟨.exec true (.insert (insertGroups first second)), true, (.done ⟨2, none⟩ : Outcome ExecResult)⟩

/-- The run that creates the user. -/
def groupMemberRun (first second : Value) : List Exchange :=
  let noColumns : InsertStatement :=
    { table := "users", columns := [], rows := [], conflict := none, returning := ["id"] }
  [⟨.begin, true, (.done () : Outcome Unit)⟩,
    ⟨.query true (.insert noColumns), true, (.done ⟨["id"], [[.int 1]]⟩ : Outcome Rows)⟩,
    ⟨.revise 0 (.id (.int 1)), true, ()⟩, sendGroups first second,
    ⟨.check, true, (.ok () : Except Interruption Unit)⟩,
    ⟨.commit, true, (.ok () : Except Failure Unit)⟩]

/-- Where both edges name the role first, the values of each land under their columns. -/
theorem join_values_land_group_member :
    ((groupMember [roleField "guest", yearField 2020]).run .sqlite).Run
        (groupMemberRun (.string "guest") (.int 2020)) (.ok (.int 1)) ∧
      ∀ row ∈ (insertGroups (.string "guest") (.int 2020)).rows, ∃ x : JoinTable.Entry,
        x.edge ∈ (groupMember [roleField "guest", yearField 2020]).edges ∧
          x.LandsIn (insertGroups (.string "guest") (.int 2020)).columns row := by
  have hrun : ((groupMember [roleField "guest", yearField 2020]).run .sqlite).Run
      (groupMemberRun (.string "guest") (.int 2020)) (.ok (.int 1)) := by
    repeat apply Run.call
    exact .done _
  refine ⟨hrun, fun row hrow => ?_⟩
  obtain ⟨links, hadds, hinserts⟩ := Mutation.join_values_land_iff_named_alike
    (m := .createNode (groupMember [roleField "guest", yearField 2020])) hrun
  rcases hinserts (sendGroups (.string "guest") (.int 2020)) (by simp [groupMemberRun]) _ rfl with
    ⟨supplied, i, returning, statement, hi, hcompile, hs⟩ | ⟨group, hsub, hgroup⟩
  · -- the INSERT is not into the table of the users
    obtain ⟨own, -, htable, -⟩ := NodeCreation.insertion_ok hi
    have hsame := JoinTable.compile_table hcompile
    rw [← Command.insert.inj hs] at hsame
    exact absurd (hsame.trans htable) (by decide)
  · obtain ⟨x, hx, hlands, -⟩ := exists_of_forall₂ hgroup.rows.flip hrow
    obtain ⟨link, hlink, hx⟩ := List.mem_flatMap.mp hx
    have hlink := hsub hlink
    rw [show links = _ from hadds] at hlink
    obtain ⟨e, he, rfl⟩ := List.mem_map.mp hlink
    have hedge := JoinTable.edge_of_mem_entries hx
    refine ⟨x, hedge ▸ he, hlands ?_⟩
    rw [hedge]
    have hnames : ∀ e ∈ (groupMember [roleField "guest", yearField 2020]).edges,
        e.joinNames = ["user_id", "group_id", "role", "since"] := by decide
    exact hnames e he

/-- Where the second edge names the year first, its role lands under the year, and its year under the
role. -/
theorem guest_in_wrong_column :
    ((groupMember [yearField 2020, roleField "guest"]).run .sqlite).Run
        (groupMemberRun (.int 2020) (.string "guest")) (.ok (.int 1)) ∧
      sendGroups (.int 2020) (.string "guest") ∈ groupMemberRun (.int 2020) (.string "guest") ∧
      ∃ x ∈ JoinTable.entries ([.int 1], groupEdge 8 [yearField 2020, roleField "guest"]),
        ¬x.LandsIn (insertGroups (.int 2020) (.string "guest")).columns
          [.int 1, .int 8, .int 2020, .string "guest"] := by
  refine ⟨?_, by simp [groupMemberRun], _, List.mem_cons_self, fun hlands => ?_⟩
  · repeat apply Run.call
    exact .done _
  · have hnames := @JoinTable.Entry.joinNames_of_landsIn _ [.int 2020, .string "guest"] _ rfl rfl
      (by simp [JoinTable.Entry.values, groupEdge, Edge.manyToMany, Edge.ofRelation]) hlands
    exact absurd hnames (by decide)

end EntityGraph
