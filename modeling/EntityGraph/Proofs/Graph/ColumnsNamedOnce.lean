import EntityGraph.Proofs.Graph.AddedEdges
import EntityGraph.Proofs.Graph.AlignedRows

/-!
# Columns that a statement names twice

The columns of one statement come from several sources, and not all pairs of sources are kept apart.
Fields and the edges of own rows are: a node that sets a column by two of them is malformed. But the
ID column may be one of them as well, and then an INSERT names it twice. An UPDATE names a column
twice if the column is incremented twice, or is incremented and also set or cleared through an edge,
or is cleared as a field and set through an edge. `columns_named_once_iff` says of every statement of
every run that there are no other cases.
-/

set_option autoImplicit false

namespace EntityGraph

open Program

variable {d : Dialect} {conn : Connection} {log : List Exchange}

/-- The columns that a statement writes, each as often as it is named. -/
def Command.writtenColumns : Command → List String
  | .insert i => i.columns
  | .update w => w.nulls ++ w.sets.map (·.1)
  | .select _ | .anyRow _ | .delete _ => []

/-! ## The columns of an INSERT -/

namespace NodeCreation

variable {c : NodeCreation} {i : InsertStatement}

/-- An INSERT has the columns of a node: the ID column, if the node has an ID, and its own. -/
def Inserts (c : NodeCreation) (i : InsertStatement) : Prop :=
  i.table = c.node.table ∧
    ((c.HasId ∧ i.columns = c.node.id.column :: c.ownNames) ∨ (¬c.HasId ∧ i.columns = c.ownNames))

/-- A node has an ID and sets the ID column too. -/
def SetsId (c : NodeCreation) : Prop := c.HasId ∧ c.node.id.column ∈ c.ownNames

/-- The INSERT of a node whose own columns differ names the ID column twice if the node sets it. -/
theorem Inserts.nodup_iff (h : c.Inserts i) (hown : c.ownNames.Nodup) :
    i.columns.Nodup ↔ ¬c.SetsId := by
  rcases h with ⟨-, ⟨hid, hcolumns⟩ | ⟨hid, hcolumns⟩⟩
  · rw [hcolumns, List.nodup_cons, and_iff_left hown, SetsId, and_iff_right hid]
  · rw [hcolumns, iff_true_left hown, SetsId]
    exact fun h => hid h.1

/-- A node that has its turn is inserted with its columns. -/
theorem inserts_of_turn {t : Turn} (h : t.Conforms conn) :
    ∃ i, t.own.call.statement? = some (.insert i) ∧ t.creation.Inserts i ∧
      t.creation.ownNames.Nodup := by
  obtain ⟨own, i, hown, hi, htable, hcolumns⟩ := h.inserts
  obtain ⟨hnames, hnodup⟩ := names_of_ownColumns hown
  refine ⟨i, hi, ⟨htable, ?_⟩, hnodup⟩
  rw [hcolumns, ← hnames, hasId_iff h.supplied, insertedColumns]
  cases t.supplied with
  | none => exact .inr ⟨not_not.mpr rfl, rfl⟩
  | some id => exact .inl ⟨Option.some_ne_none id, rfl⟩

end NodeCreation

namespace BatchCreation

/-- A node of a batch has the same columns with its references resolved. -/
theorem ownNames_resolved (b : BatchCreation) (idOf : Nat → Value) (c : NodeCreation) :
    (b.resolved idOf c).ownNames = c.ownNames := by
  unfold NodeCreation.ownNames Node.ownNames resolved
  rw [List.filter_map, List.flatMap_map]
  rfl

variable {b : BatchCreation} {columns : List String} {idColumn : String}

/-- Some node of the batch has an ID, and some node sets the ID column. -/
def SetsId (b : BatchCreation) (idColumn : String) : Prop :=
  (∃ c ∈ b.nodes, c.HasId) ∧ ∃ c ∈ b.nodes, idColumn ∈ c.ownNames

/-- The INSERT of all nodes of a batch names the ID column twice if a node sets it. -/
theorem Lists.nodup_iff (h : b.Lists idColumn columns) (hnodes : b.nodes ≠ []) :
    columns.Nodup ↔ ¬b.SetsId idColumn := by
  obtain ⟨names, hsorted, hmem, hids⟩ := h
  have hnames : names.Nodup := hsorted.imp fun {m n} hless hsame => by
    subst hsame
    exact String.lt_irrefl m hless
  obtain ⟨c, hc⟩ := List.exists_mem_of_ne_nil _ hnodes
  rcases hids with ⟨hhave, rfl⟩ | ⟨hlack, rfl⟩
  · rw [List.nodup_cons, and_iff_left hnames, hmem, SetsId, and_iff_right ⟨c, hc, hhave c hc⟩]
  · rw [iff_true_left hnames, SetsId]
    rintro ⟨⟨c, hc, hid⟩, -⟩
    exact hlack c hc hid

end BatchCreation

/-! ## The columns of an UPDATE -/

namespace NodeUpdate

variable {u : NodeUpdate} {own w : Update}

/-- The foreign keys in own rows whose edges are cleared. -/
def clearedKeys (u : NodeUpdate) : List String :=
  (u.edges.clear.filter Edge.writesOwnColumn).flatMap (·.columns)

/-- The foreign keys in own rows that are set. -/
def linkedKeys (u : NodeUpdate) : List String :=
  (u.edges.add.filter Edge.writesOwnColumn).flatMap (·.columns)

/-- An UPDATE has the columns of an update: those that are cleared and not set are there once, then
those that are set, then those that are incremented. -/
structure Updates (u : NodeUpdate) (w : Update) : Prop where
  table : w.table = u.node.table
  nulls : w.nulls.Nodup
  cleared : ∀ n, n ∈ w.nulls ↔ n ∈ u.fields.clear ∨
    n ∈ u.clearedKeys ∧ n ∉ Node.ownNames u.fields.set u.edges.add
  sets : w.sets.map (·.1) =
    Node.ownNames u.fields.set u.edges.add ++ u.fields.add.map (·.column)

/-- An update assigns to a column more than once: it increments a column twice, or one that it sets
or whose edge it clears, or it clears a column that it sets through an edge. -/
def AssignsTwice (u : NodeUpdate) : Prop :=
  ¬(u.fields.add.map (·.column)).Nodup ∨
    (∃ n ∈ u.fields.add.map (·.column),
      n ∈ Node.ownNames u.fields.set u.edges.add ∨ n ∈ u.clearedKeys) ∨
    ∃ n ∈ u.fields.clear, n ∈ u.linkedKeys

theorem nodup_foldl_setNull {columns : List String} (h : w.nulls.Nodup) :
    (columns.foldl Update.setNull w).nulls.Nodup := by
  induction columns generalizing w with
  | nil => exact h
  | cons column columns ih =>
    refine ih ?_
    unfold Update.setNull
    split
    case isTrue => exact h
    case isFalse hnew =>
      refine List.nodup_append.mpr ⟨h, List.nodup_singleton column, fun n hn n' hn' hsame => ?_⟩
      rw [List.mem_singleton] at hn'
      exact hnew (by simpa [← hn', ← hsame] using hn)

theorem mem_clearedKeys {n : String} (h : ∀ e ∈ u.edges.clear.filter Edge.writesOwnColumn,
      ∃ fk, e.columns = [fk]) :
    n ∈ u.clearedKeys ↔ ∃ e ∈ u.edges.clear, e.writesOwnColumn = true ∧ e.columns = [n] := by
  unfold clearedKeys
  rw [List.mem_flatMap]
  constructor
  · rintro ⟨e, he, hn⟩
    obtain ⟨fk, hfk⟩ := h e he
    obtain rfl : n = fk := by simpa [hfk] using hn
    exact ⟨e, (List.mem_filter.mp he).1, (List.mem_filter.mp he).2, hfk⟩
  · rintro ⟨e, he, hown, hcolumns⟩
    exact ⟨e, List.mem_filter.mpr ⟨he, hown⟩, by simp [hcolumns]⟩

/-- The UPDATE of own rows has the columns of the update, and the columns that it sets differ. -/
theorem updates_of_ownUpdate (hown : u.ownUpdate = .ok own) :
    u.Updates own ∧ (Node.ownNames u.fields.set u.edges.add).Nodup := by
  have hnulls := fun n => @mem_nulls_iff n u own hown
  obtain ⟨sets, hsets, h⟩ := bind_eq_ok.mp hown
  obtain ⟨_, -, h⟩ := bind_eq_ok.mp h
  obtain ⟨keys, hkeys, h⟩ := bind_eq_ok.mp h
  obtain ⟨adds, hadds, h⟩ := bind_eq_ok.mp h
  obtain rfl := Except.ok.inj h
  obtain ⟨hnames, hnodup⟩ := Node.names_of_ownColumns hsets
  obtain ⟨htable, hnone, -⟩ :=
    Update.foldl_setNull (u.fields.clear ++ keys.flatten) (.ofTable u.node.table)
  have hnone : ((u.fields.clear ++ keys.flatten).foldl Update.setNull
    (.ofTable u.node.table)).sets = [] := hnone
  -- only the first fold clears columns, the other two append to those that are set
  rw [Update.foldl_add, Update.foldl_set] at hnulls ⊢
  simp only [hnone, List.nil_append] at hnulls ⊢
  refine ⟨⟨htable, nodup_foldl_setNull List.nodup_nil, fun n => (hnulls n).trans ?_, ?_⟩, hnodup⟩
  · have hunset : (∀ v, (n, Assignment.value v) ∉ sets.map (fun s => (s.1, .value s.2)) ++
        adds.map fun a => (a.1, .add a.2)) ↔ n ∉ Node.ownNames u.fields.set u.edges.add := by
      rw [← hnames]
      simp
    have hsingle : ∀ e ∈ u.edges.clear.filter Edge.writesOwnColumn, ∃ fk, e.columns = [fk] := by
      intro e he
      obtain ⟨ks, -, hclear⟩ := exists_of_forall₂ (mapM_eq_ok.mp hkeys) he
      obtain ⟨fk, hfk, -⟩ := bind_eq_ok.mp hclear
      exact ⟨fk, Edge.foreignKey_eq_ok.mp hfk⟩
    simp only [hunset, mem_clearedKeys hsingle]
    refine or_congr_right ⟨?_, ?_⟩
    · rintro ⟨e, he, hown, hcolumns, hnot⟩
      exact ⟨⟨e, he, hown, hcolumns⟩, hnot⟩
    · rintro ⟨⟨e, he, hown, hcolumns⟩, hnot⟩
      exact ⟨e, he, hown, hcolumns, hnot⟩
  · have hincrements : adds.map (·.1) = u.fields.add.map (·.column) := by
      rw [← List.forall₂_eq_eq_eq, List.forall₂_map_left_iff, List.forall₂_map_right_iff]
      exact (mapM_eq_ok.mp hadds).flip.imp fun column f hf => (Node.fieldColumn_eq_ok.mp hf).2.2
    rw [List.map_append, List.map_map, List.map_map, ← hnames, ← hincrements]
    rfl

/-- No column that an update clears as a field is set or incremented. -/
theorem unset_of_check (h : u.check = .ok ()) {f : Field} (hf : f ∈ u.fields.set ++ u.fields.add) :
    f.column ∉ u.fields.clear := by
  obtain ⟨_, -, h⟩ := bind_eq_ok.mp h
  obtain ⟨_, -, h⟩ := bind_eq_ok.mp h
  dsimp only at h
  split at h
  case h_1 => cases h
  case h_2 hnone => simpa using List.find?_eq_none.mp hnone f hf

/-- The UPDATE of own rows names a column twice if the update assigns to it twice. -/
theorem Updates.nodup_iff (h : u.Updates w) (hset : (Node.ownNames u.fields.set u.edges.add).Nodup)
    (hcheck : u.check = .ok ()) :
    (Command.update w).writtenColumns.Nodup ↔ ¬u.AssignsTwice := by
  have hfields : ∀ n ∈ u.fields.clear, n ∈ Node.ownNames u.fields.set u.edges.add →
      n ∈ u.linkedKeys := by
    intro n hn hmem
    refine (List.mem_append.mp hmem).resolve_left fun hmem => ?_
    obtain ⟨f, hf, rfl⟩ := List.mem_map.mp hmem
    exact unset_of_check hcheck (List.mem_append_left _ hf) hn
  have hadds : ∀ n ∈ u.fields.clear, n ∉ u.fields.add.map (·.column) := by
    intro n hn hmem
    obtain ⟨f, hf, rfl⟩ := List.mem_map.mp hmem
    exact unset_of_check hcheck (List.mem_append_right _ hf) hn
  have hlinked : ∀ n ∈ u.linkedKeys, n ∈ Node.ownNames u.fields.set u.edges.add := fun n hn =>
    List.mem_append_right _ hn
  show (w.nulls ++ w.sets.map (·.1)).Nodup ↔ _
  rw [h.sets, List.nodup_append', List.nodup_append', and_iff_right h.nulls, and_iff_right hset,
    AssignsTwice, not_or, not_or, not_not]
  constructor
  · rintro ⟨⟨hnodup, hapart⟩, hcleared⟩
    refine ⟨hnodup, ?_, ?_⟩
    · rintro ⟨n, hn, hmem | hmem⟩
      · exact hapart hmem hn
      · by_cases hmem' : n ∈ Node.ownNames u.fields.set u.edges.add
        · exact hapart hmem' hn
        · exact hcleared ((h.cleared n).mpr (.inr ⟨hmem, hmem'⟩)) (List.mem_append_right _ hn)
    · rintro ⟨n, hn, hmem⟩
      exact hcleared ((h.cleared n).mpr (.inl hn)) (List.mem_append_left _ (hlinked n hmem))
  · rintro ⟨hnodup, hincrements, hkeys⟩
    refine ⟨⟨hnodup, fun n hmem hn => hincrements ⟨n, hn, .inl hmem⟩⟩, fun n hn hmem => ?_⟩
    -- a cleared key gives way to a column that is set, a cleared field does not
    rcases (h.cleared n).mp hn with hclear | ⟨hkey, hunset⟩
    · rcases List.mem_append.mp hmem with hmem | hmem
      · exact hkeys ⟨n, hclear, hfields n hclear hmem⟩
      · exact hadds n hclear hmem
    · rcases List.mem_append.mp hmem with hmem | hmem
      · exact hunset hmem
      · exact hincrements ⟨n, hmem, .inr hkey⟩

end NodeUpdate

/-! ## Statements about edges -/

namespace Mutation

/-- The statements of a mutation that do not write own rows: they write edges that it adds, in which
IDs may stand for references, or unlink targets of edges, or delete rows. -/
inductive WritesEdges (d : Dialect) (m : Mutation) : Command → Prop
  | adds {links : List (List Value × Edge)} {s : Command} (writes : WritesLinks d links s)
      (added : ∀ link ∈ links, ∃ edges ∈ m.addedEdges, ∃ e ∈ edges,
        link.2 = e ∨ ∃ idOf, link.2 = e.withIds idOf) : WritesEdges d m s
  | unlinks {ids : List Value} {e : Edge} {w : Update}
      (clears : ForeignKey.clearing ids e = .ok w) : WritesEdges d m (.update w)
  | deletes (x : Delete) : WritesEdges d m (.delete x)

/-- An UPDATE of the targets of an edge names one column. -/
theorem WritesEdges.nodup_update {m : Mutation} {w : Update} (h : m.WritesEdges d (.update w)) :
    (Command.update w).writtenColumns.Nodup := by
  generalize hs : Command.update w = s at h
  cases h with
  | adds hwrites =>
    cases hwrites with
    | pairs => cases hs
    | targets =>
      exact List.nodup_singleton _
  | unlinks hclears =>
    obtain ⟨fk, -, hw⟩ := bind_eq_ok.mp hclears
    obtain rfl := Except.ok.inj hw
    exact List.nodup_singleton _
  | deletes => cases hs

/-- The statements of a mutation that write own rows, with the condition under which they name a
column twice. -/
inductive WritesOwn : Mutation → Command → Prop → Prop
  | created {c : NodeCreation} {i : InsertStatement} (inserts : c.Inserts i) :
      WritesOwn (.createNode c) (.insert i) c.SetsId
  | chained {b : BatchCreation} {c : NodeCreation} {i : InsertStatement}
      (references : ∃ c ∈ b.nodes, c.dependencies ≠ []) (mem : c ∈ b.nodes) (inserts : c.Inserts i) :
      WritesOwn (.batchCreate b) (.insert i) c.SetsId
  | singly {b : BatchCreation} {c : NodeCreation} {i : InsertStatement}
      (bare : ∀ c ∈ b.nodes, ¬c.HasId ∧ c.ownNames = []) (mem : c ∈ b.nodes) (inserts : c.Inserts i) :
      WritesOwn (.batchCreate b) (.insert i) False
  | together {b : BatchCreation} {first : NodeCreation} {i : InsertStatement}
      (direct : ∀ c ∈ b.nodes, c.dependencies = []) (head : b.nodes.head? = some first)
      (table : i.table = first.node.table) (lists : b.Lists first.node.id.column i.columns) :
      WritesOwn (.batchCreate b) (.insert i) (b.SetsId first.node.id.column)
  | named {u : NodeUpdate} {w : Update} (updates : u.Updates w) :
      WritesOwn (.updateNode u) (.update w) u.AssignsTwice
  | found {u : NodeUpdate} {w : Update} (updates : u.Updates w) :
      WritesOwn (.updateNodes u) (.update w) u.AssignsTwice

/-- A statement of a mutation writes edges, where an UPDATE names one column, or it writes own rows
and names a column twice under the condition for it. -/
def Names (d : Dialect) (m : Mutation) (s : Command) : Prop :=
  (m.WritesEdges d s ∧ ∀ w, s = .update w → s.writtenColumns.Nodup) ∨
    ∃ repeats, m.WritesOwn s repeats ∧ (s.writtenColumns.Nodup ↔ ¬repeats)

theorem WritesEdges.names {m : Mutation} {s : Command} (h : m.WritesEdges d s) : m.Names d s := by
  refine .inl ⟨h, ?_⟩
  rintro w rfl
  exact h.nodup_update

/-! ## Creations -/

theorem names_created {c : NodeCreation} {result : Except Error Value}
    (h : (NodeCreation.write conn 0 c).Run log result) :
    OnlySends ((Mutation.createNode c).Names conn.dialect) (writing log) := by
  rcases NodeCreation.run_write h with ⟨hnone, -⟩ | ⟨t, -, rfl, rfl, hconforms, -⟩
  · rw [hnone]
    exact onlySends_nil
  rw [hconforms.writing]
  obtain ⟨i, hi, hinserts, hnodup⟩ := NodeCreation.inserts_of_turn hconforms
  refine List.forall_mem_cons.mpr ⟨fun s hs => ?_, fun x hx s hs => ?_⟩
  · obtain rfl := Option.some.inj (hi.symm.trans hs)
    exact .inr ⟨_, .created hinserts, hinserts.nodup_iff hnodup⟩
  · obtain ⟨links, hwrites, hmem⟩ := hconforms.writesLinks
    refine WritesEdges.names (.adds (hwrites x hx s hs) fun link hlink => ?_)
    exact ⟨_, List.mem_singleton_self _, _, hmem link hlink, .inl rfl⟩

theorem names_batch {b : BatchCreation} {p : Plan (List Value)} {result : Except Error (List Value)}
    (hplan : b.Planned p) (h : (p.body conn).Run log result) :
    OnlySends ((Mutation.batchCreate b).Names conn.dialect) (writing log) := by
  obtain ⟨rounds, hwrites, hrounds⟩ := BatchCreation.rounds_of_plan hplan h
  have hlinks : ∀ r ∈ rounds, OnlySends ((Mutation.batchCreate b).Names conn.dialect) r.links := by
    intro r hr x hx s hs
    obtain ⟨links, hlinks, hmem⟩ := hrounds.writesLinks hr
    refine WritesEdges.names (.adds (hlinks x hx s hs) fun link hlink => ?_)
    obtain ⟨c, hc, e, he, hids⟩ := hmem link hlink
    exact ⟨c.edges, List.mem_map_of_mem hc, e, he, .inr hids⟩
  have hown : ∀ r ∈ rounds, OnlySends ((Mutation.batchCreate b).Names conn.dialect) [r.own] := by
    intro r hr x hx s hs
    obtain rfl := List.mem_singleton.mp hx
    cases hrounds with
    | none => cases hr
    | chained hrefers _ htakes =>
      obtain ⟨t, ht, rfl⟩ := List.mem_map.mp hr
      obtain ⟨i, hi, hinserts, hnodup⟩ := NodeCreation.inserts_of_turn (htakes.conforms t ht)
      obtain rfl := Option.some.inj (hi.symm.trans hs)
      -- the node has its turn with its references resolved, which changes no column
      obtain ⟨c, hc, hcreation, -⟩ := htakes.resolved t ht
      have hnames : t.creation.ownNames = c.ownNames :=
        hcreation ▸ b.ownNames_resolved (BatchCreation.idsOf _) c
      have hinserts : c.Inserts i := by
        unfold NodeCreation.Inserts at hinserts ⊢
        rw [hnames, hcreation] at hinserts
        exact hinserts
      exact .inr ⟨_, .chained hrefers (List.mem_of_getElem? hc) hinserts,
        hinserts.nodup_iff (hnames ▸ hnodup)⟩
    | singly _ hbare hcreations hconforms =>
      obtain ⟨t, ht, rfl⟩ := List.mem_map.mp hr
      obtain ⟨i, hi, hinserts, hnodup⟩ := NodeCreation.inserts_of_turn (hconforms t ht)
      obtain rfl := Option.some.inj (hi.symm.trans hs)
      have hbare : ∀ c ∈ b.nodes, ¬c.HasId ∧ c.ownNames = [] := fun c hc =>
        ⟨(hbare c hc).1.not_hasId, (NodeCreation.names_of_ownColumns (hbare c hc).2).1.symm⟩
      have hc : t.creation ∈ b.nodes := hcreations.subset (List.mem_map_of_mem ht)
      refine .inr ⟨_, .singly hbare hc hinserts, iff_of_true ?_ not_false⟩
      exact (hinserts.nodup_iff hnodup).mpr fun h => (hbare _ hc).1 h.1
    | together hdirect hshares =>
      obtain rfl := List.mem_singleton.mp hr
      obtain ⟨returning, i, hi, -⟩ := hshares.own
      obtain rfl := Option.some.inj (hi.symm.trans hs)
      obtain ⟨htable, hlists⟩ := hshares.lists hi
      refine .inr ⟨_, .together hdirect hshares.head htable hlists, hlists.nodup_iff ?_⟩
      exact List.ne_nil_of_mem (List.mem_of_head? hshares.head)
  rw [hwrites]
  intro x hx s hs
  obtain ⟨r, hr, hx⟩ := List.mem_flatMap.mp hx
  rcases List.mem_cons.mp hx with rfl | hx
  · exact hown r hr r.own List.mem_cons_self s hs
  · exact hlinks r hr x hx s hs

/-! ## Updates -/

section Updates

variable {u : NodeUpdate}

/-- What an update writes names own columns, and columns of targets. -/
theorem names_of_writesRows {m : Mutation} {s : Command} (hcheck : u.check = .ok ())
    (hm : ∀ w, u.Updates w → m.WritesOwn (.update w) u.AssignsTwice) (h : u.WritesRows s) :
    m.Names d s := by
  cases h with
  | @own own rows hown =>
    obtain ⟨hupdates, hset⟩ := NodeUpdate.updates_of_ownUpdate hown
    have hrows : u.Updates { own with predicate := rows } :=
      ⟨hupdates.table, hupdates.nulls, hupdates.cleared, hupdates.sets⟩
    exact .inr ⟨_, hm _ hrows, hrows.nodup_iff hset hcheck⟩
  | clearsPairs => exact WritesEdges.names (.deletes _)
  | clearsTargets _ hclears => exact WritesEdges.names (.unlinks hclears)

theorem names_of_writesLinks {m : Mutation} {s : Command} {ids : List Value}
    (hm : u.edges.add ∈ m.addedEdges)
    (h : WritesLinks d (u.edges.add.map fun e => (ids, e)) s) : m.Names d s := by
  refine WritesEdges.names (.adds h fun link hlink => ?_)
  obtain ⟨e, he, rfl⟩ := List.mem_map.mp hlink
  exact ⟨_, hm, e, he, .inl rfl⟩

/-- An update of all nodes that meet a condition reads, writes rows, and adds edges to the nodes that
it finds. -/
theorem writeMany_issues : (u.writeMany conn).Issues fun s => s.IsRead ∨ u.WritesRows s ∨
    ∃ ids, WritesLinks conn.dialect (u.edges.add.map fun e => (ids, e)) s := by
  have hchange : ∀ ids, (ExternalEdges.change conn ids u.edges >>= fun _ =>
      Program.done ids.length).Issues fun s => s.IsRead ∨ u.WritesRows s ∨
        ∃ ids, WritesLinks conn.dialect (u.edges.add.map fun e => (ids, e)) s := fun ids =>
    (NodeUpdate.issues_change.mono fun s h => .inr (h.imp_right fun h => ⟨ids, h⟩)).bind fun _ =>
      issues_done _
  refine Issues.bind ((issues_query (.inl rfl)).bind fun rows => issues_lift _) fun ids => ?_
  refine issues_ite (fun _ => issues_done _) fun _ => Issues.bind ?_ fun _ => ?_
  · exact issues_ite (fun _ => issues_ite (fun _ => issues_fail _) fun _ =>
      Partner.issues_check fun s => .inl rfl) fun _ => issues_done _
  refine issues_lift_bind fun own hown => issues_ite (fun _ => ?_) fun _ => hchange ids
  refine (Maintains.discard (issues_exec ?_)).bind (fun _ => hchange ids) fun _ h => h
  exact .inr (.inl (NodeUpdate.writesRows_of_own hown ⟨_, rfl⟩ none))

theorem names_named {id : Value} {result : Except Error Unit} (hcheck : u.check = .ok ())
    (h : (u.writeOne conn id).Run log result) :
    OnlySends ((Mutation.updateNode u).Names conn.dialect) (writing log) := by
  refine OnlySends.writing fun x hx s hs => ?_
  refine (NodeUpdate.writeOne_sends.onlySends h x hx s hs).imp_right fun hs => ?_
  rcases hs with hrows | hlinks
  · exact names_of_writesRows hcheck (fun _ => .named) hrows
  · exact names_of_writesLinks (List.mem_singleton_self _) hlinks

theorem names_found {result : Except Error Nat} (hcheck : u.check = .ok ())
    (h : (u.writeMany conn).Run log result) :
    OnlySends ((Mutation.updateNodes u).Names conn.dialect) (writing log) := by
  refine OnlySends.writing fun x hx s hs => ?_
  refine (writeMany_issues.onlySends h x hx s hs).imp_right fun hs => ?_
  rcases hs with hrows | ⟨ids, hlinks⟩
  · exact names_of_writesRows hcheck (fun _ => .found) hrows
  · exact names_of_writesLinks (List.mem_singleton_self _) hlinks

theorem names_rows {result : Except Error Nat} (hcheck : u.check = .ok ())
    (h : (u.writeRows conn).Run log result) :
    OnlySends ((Mutation.updateNodes u).Names conn.dialect) (writing log) := by
  have hissues : (u.writeRows conn).Issues u.WritesRows := by
    refine issues_lift_bind fun own hown => issues_ite (fun _ => issues_done _) fun _ => ?_
    exact (issues_exec (NodeUpdate.writesRows_of_own hown ⟨own.predicate, rfl⟩ u.predicate)).bind
      fun _ => issues_done _
  refine OnlySends.writing fun x hx s hs => .inr ?_
  exact names_of_writesRows hcheck (fun _ => .found) (hissues.onlySends h x hx s hs)

end Updates

/-! ## All mutations -/

/-- A deletion writes one DELETE. -/
theorem names_deleted {α : Type} {m : Mutation} {x : Delete} {count : ExecResult → Program α}
    {result : Except Error α} (hcount : ∀ r, (count r).Issues (m.Names conn.dialect))
    (h : (conn.exec (.delete x) >>= count).Run log result) :
    OnlySends (m.Names conn.dialect) (writing log) := by
  refine OnlySends.writing fun y hy s hs => .inr ?_
  exact ((issues_exec (WritesEdges.names (.deletes x))).bind hcount).onlySends h y hy s hs

/-- What a plan writes on its connection. -/
theorem names_plan {m : Mutation} {p : Plan m.Result} {result : Except Error m.Result}
    (hplan : m.plan = .ok p) (h : (p.body conn).Run log result) :
    OnlySends (m.Names conn.dialect) (writing log) := by
  cases planned hplan with
  | createNode => exact names_created h
  | batchCreate hbatch => exact names_batch hbatch h
  | updateNode _ _ hcheck => exact names_named hcheck h
  | updateFound hcheck => exact names_found hcheck h
  | updateRows hcheck => exact names_rows hcheck h
  | deleteNode =>
    exact names_deleted (fun _ => issues_ite (fun _ => issues_fail _) fun _ => issues_done _) h
  | deleteNodes => exact names_deleted (fun _ => issues_done _) h

/-- Every statement that changes rows in a run of a mutation either writes edges, and then an UPDATE
names one column, or writes own rows. A statement on own rows names each column once, except if the
ID column is set by a node that is inserted with its ID, or if an update assigns to a column by two
of its sources. -/
theorem columns_named_once_iff {m : Mutation} {result : Except Error m.Result}
    (hrun : (m.program d).Run log result) {x : Exchange} (hx : x ∈ writing log) {s : Command}
    (hs : x.call.statement? = some s) :
    (m.WritesEdges d s ∧ ∀ w, s = .update w → s.writtenColumns.Nodup) ∨
      ∃ repeats, m.WritesOwn s repeats ∧ (s.writtenColumns.Nodup ↔ ¬repeats) := by
  rcases run_body hrun with ⟨rfl, -⟩ | ⟨live, r, e, rfl, -, -⟩ |
    ⟨p, conn, inner, outcome, hplan, rfl, -, hwriting, hbody, -, -⟩
  · cases hx
  · cases hx
  · rw [hwriting] at hx
    exact names_plan hplan hbody x hx s hs

end Mutation

/-- A user with the ID 1 who sets the ID column to 2. -/
def renumbered : NodeCreation :=
  { NodeCreation.ofNode (.ofTable "users" ⟨"id", .int, .int 1⟩) with
    fields := [⟨"id", .int, .int 2⟩] }

/-- The INSERT of the user writes both IDs. -/
def renumberedInsert : Exchange :=
  ⟨.exec false (.insert
      { table := "users", columns := ["id", "id"], rows := [[.int 1, .int 2]], conflict := none
        returning := [] }), true, (.done ⟨1, none⟩ : Outcome ExecResult)⟩

theorem renumbered_run : ((Mutation.createNode renumbered).program .sqlite).Run
    [renumberedInsert, ⟨.revise 0 (.id (.int 1)), true, ()⟩] (.ok (.int 1)) := by
  repeat apply Run.call
  exact .done _

theorem renumbered_setsId : renumbered.SetsId :=
  ⟨.inl rfl, List.mem_singleton_self _⟩

/-- The INSERT of the user is not about edges, and the user sets the ID column. -/
theorem columns_named_once_iff_renumbered :
    ((Mutation.createNode renumbered).program .sqlite).Run
        [renumberedInsert, ⟨.revise 0 (.id (.int 1)), true, ()⟩] (.ok (.int 1)) ∧
      renumberedInsert ∈ writing [renumberedInsert, ⟨.revise 0 (.id (.int 1)), true, ()⟩] ∧
      renumbered.SetsId ∧ ¬["id", "id"].Nodup := by
  have hmem : renumberedInsert ∈
      writing [renumberedInsert, ⟨.revise 0 (.id (.int 1)), true, ()⟩] := List.mem_cons_self
  refine ⟨renumbered_run, hmem, renumbered_setsId, fun hnodup => ?_⟩
  rcases Mutation.columns_named_once_iff renumbered_run hmem rfl with
    ⟨hedges, -⟩ | ⟨repeats, hown, hiff⟩
  · cases hedges with
    | adds hwrites hadded =>
      cases hwrites with
      | pairs hsome hgroup =>
        -- the user adds no edges, so there are no links to insert
        obtain ⟨link, hlink⟩ := List.exists_mem_of_ne_nil _ hsome
        obtain ⟨edges, hedges, e, he, -⟩ := hadded link (hgroup hlink)
        obtain rfl : edges = [] := List.mem_singleton.mp hedges
        cases he
  · cases hown
    exact hiff.mp hnodup renumbered_setsId

/-- A change of the user with the ID 1. -/
def changedUser (fields : FieldChanges) (added : List Edge) : NodeUpdate :=
  { NodeUpdate.ofNode (.ofTable "users" ⟨"id", .int, .int 1⟩) with
    fields := fields, edges := ⟨added, []⟩ }

/-- The UPDATE of the user's row. -/
def userUpdate (nulls : List String) (sets : List (String × Assignment)) : Command :=
  .update ⟨"users", nulls, sets, some (.eq "id" (.int 1))⟩

/-- The run of a change of the user that has a result. -/
def changedUserRun (statement : Command) : List Exchange :=
  [⟨.begin, true, (.done () : Outcome Unit)⟩,
    ⟨.exec true statement, true, (.done ⟨1, none⟩ : Outcome ExecResult)⟩,
    ⟨.check, true, (.ok () : Except Interruption Unit)⟩,
    ⟨.commit, true, (.ok () : Except Failure Unit)⟩]

/-- The creation of a user that sets the ID column has a result, and the INSERT names this column
twice. So have an update that sets an age and increments it, one that increments it twice, and one
that clears a parent as a field and sets it as an edge. -/
theorem columns_named_twice :
    (((Mutation.createNode renumbered).program .sqlite).Run
        [renumberedInsert, ⟨.revise 0 (.id (.int 1)), true, ()⟩] (.ok (.int 1)) ∧
      ∃ s, renumberedInsert.call.statement? = some s ∧ ¬s.writtenColumns.Nodup) ∧
    ∀ change ∈ [
      (changedUser ⟨[⟨"age", .int, .int 30⟩], [⟨"age", .int, .int 1⟩], []⟩ [],
        userUpdate [] [("age", .value (.int 30)), ("age", .add (.int 1))]),
      (changedUser ⟨[], [⟨"age", .int, .int 1⟩, ⟨"age", .int, .int 1⟩], []⟩ [],
        userUpdate [] [("age", .add (.int 1)), ("age", .add (.int 1))]),
      (changedUser ⟨[], [], ["parent_id"]⟩ [parentEdge [.int 2]],
        userUpdate ["parent_id"] [("parent_id", .value (.int 2))])],
      ((Mutation.updateNode change.1).program .sqlite).Run (changedUserRun change.2) (.ok ()) ∧
        ¬change.2.writtenColumns.Nodup := by
  refine ⟨⟨renumbered_run, _, rfl, by decide⟩, List.forall_mem_cons.mpr ⟨⟨?_, by decide⟩,
    List.forall_mem_cons.mpr ⟨⟨?_, by decide⟩, List.forall_mem_singleton.mpr ⟨?_, by decide⟩⟩⟩⟩
  all_goals
    repeat apply Run.call
    exact .done _

end EntityGraph
