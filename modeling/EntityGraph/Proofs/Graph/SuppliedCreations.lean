import EntityGraph.Proofs.Graph.BulkInserts
import EntityGraph.Proofs.Graph.JoinTableRows
import EntityGraph.Proofs.Graph.LinkedRows

/-!
# Creations of nodes that have their IDs

Nodes that are created one after another with supplied IDs leave a database that is known from the
one before: it has the own rows of the nodes, the rows of their edges in the join tables, and the
targets of their other edges are linked. `Grows` says so, and each creation extends it. From the
success of a creation it follows that the node `Fits` the first of these databases, where none of the
nodes is there yet.
-/

set_option autoImplicit false

namespace EntityGraph

open Program

variable {E : Engine} {S : Schema} {s s' : Session} {conn : Connection} {d : Dialect}
  {db db' : Database} {x : Value}

/-- Where the nodes of a batch are stored, and their edges of many to many. -/
structure Layout where
  table : String
  idColumn : String
  joinTables : List String
  /-- The INSERT into each join table, without rows. -/
  shapes : String → InsertStatement

namespace Layout

/-- The name is that of a join table. -/
def IsJoin (L : Layout) (name : List String) : Prop := ∃ t ∈ L.joinTables, nameParts t = name

theorem isJoin_iff {L : Layout} {t : String} : L.IsJoin (nameParts t) ↔ t ∈ L.joinTables := by
  constructor
  · rintro ⟨t', ht', hname⟩
    rwa [← nameParts_injective hname]
  · intro ht
    exact ⟨t, ht, rfl⟩

/-- Join tables are tables of their own, whose stored rows no INSERT changes; no column is left to
the database but the ID column. -/
structure IsSound (S : Schema) (L : Layout) : Prop where
  apart : L.table ∉ L.joinTables
  filled : ∀ k, S.identity L.table = some k → k = L.idColumn
  inert : ∀ t ∈ L.joinTables, ∀ clause, (L.shapes t).conflict = some clause → clause.IsInert
  unfilled : ∀ t ∈ L.joinTables, (L.shapes t).WritesIdentity S

end Layout

/-- A creation has an ID and no conflict policy, and its node and edges are stored as a layout
says. Its targets are stored in the database. -/
structure NodeCreation.IsLaidOut (E : Engine) (S : Schema) (d : Dialect) (L : Layout)
    (db : Database) (c : NodeCreation) : Prop where
  policy : c.policy = none
  table : c.node.table = L.table
  idColumn : c.node.id.column = L.idColumn
  supplied : c.node.id.value.isNull = false
  joins : ∀ e ∈ c.edges, e.isManyToMany = true → e.table ∈ L.joinTables
  shapes : ∀ id, JoinTable.HaveShapes d L.shapes (c.edges.map fun e => ([id], e))
  targets : ∀ e ∈ c.edges, e.isForeignKeyEdge = true →
    e.HasTargets E S db ∧ e.table ∉ L.joinTables
  present : ∀ e ∈ c.edges, ∀ t ∈ e.target.nodes, t.isNull = false

/-! ## Created nodes -/

/-- A creation with the ID of its node and the columns of its own row. -/
structure CreatedNode where
  creation : NodeCreation
  id : Value
  columns : List (String × Value)

namespace CreatedNode

/-- The own row of the node. -/
def row (n : CreatedNode) : BatchCreation.OwnRow := ⟨some n.id, n.columns⟩

/-- What the node has in each column of its table. -/
def tuple (n : CreatedNode) : Tuple := n.row.valueIn n.creation.node.id.column

/-- The edges of the node, with its ID. -/
def joins (n : CreatedNode) : List (List Value × Edge) := n.creation.edges.map fun e => ([n.id], e)

/-- The edges of the node that are stored in their targets' rows. -/
def foreign (n : CreatedNode) : List Edge :=
  n.creation.edges.filter fun e => e.isForeignKeyEdge && !e.target.nodes.isEmpty

/-- The links of targets to the node. -/
def links (n : CreatedNode) : List (Value × Edge) := n.foreign.map fun e => (n.id, e)

/-- The node can be inserted into a database: its columns are there, and the targets of its edges of
one to one are free. -/
structure Fits (E : Engine) (db : Database) (n : CreatedNode) : Prop where
  checked : ∀ e ∈ n.creation.edges, e.checkDirect = .ok ()
  bound : n.creation.node.id.bindValue = .ok n.id
  columns : n.creation.node.ownColumns n.creation.fields n.creation.edges = .ok n.columns
  known : ∀ c ∈ n.creation.node.id.column :: n.columns.map (·.1),
    (db (nameParts n.creation.node.table)).HasColumn c
  nodup : (n.creation.node.id.column :: n.columns.map (·.1)).Nodup
  unclaimed : ∀ e ∈ n.creation.edges, e.isOneToOne = true →
    Partner.Unclaimed E db n.creation.node none e

/-- The row that an INSERT of the node's columns has added. -/
theorem tuple_eq {n : CreatedNode} {own : Tuple}
    (hfilled : ∀ k, S.identity n.creation.node.table = some k → k = n.creation.node.id.column)
    (h : AddsRow E S n.creation.node.table (n.creation.insertedColumns (some n.id) n.columns) db db'
      own) : own = n.tuple := by
  funext c
  by_cases hid : c = n.creation.node.id.column
  · subst hid
    refine (h.written (n.creation.node.id.column, n.id) List.mem_cons_self).trans ?_
    exact (BatchCreation.OwnRow.valueIn_id rfl).symm
  · refine Eq.trans ?_ (BatchCreation.OwnRow.valueIn_of_ne hid).symm
    show own c = (n.columns.lookup c).getD .null
    cases hfound : n.columns.lookup c with
    | some v =>
      obtain ⟨before, after, hsplit, -⟩ := List.lookup_eq_some_iff.mp hfound
      refine h.written (c, v) (List.mem_cons_of_mem _ ?_)
      rw [hsplit]
      simp
    | none =>
      refine h.unwritten c (fun p hp hname => ?_) fun hidentity => hid (hfilled c hidentity)
      rcases List.mem_cons.mp hp with rfl | hp
      · exact hid hname.symm
      · have hne := List.lookup_eq_none_iff.mp hfound p hp
        rw [hname, bne_self_eq_false] at hne
        cases hne

end CreatedNode

/-! ## What creations leave -/

/-- The database has got the own rows of some nodes and all their edges. -/
structure Grows (E : Engine) (S : Schema) (L : Layout) (nodes : List CreatedNode)
    (db db' : Database) : Prop where
  grown : db.Grown E L.IsJoin L.table (nodes.map CreatedNode.tuple)
    (nodes.flatMap CreatedNode.links) db'
  joined : ∀ t ∈ L.joinTables, JoinTable.Adds E S (L.shapes t)
    (JoinTable.linksOn t (nodes.flatMap CreatedNode.joins)) (db (nameParts t)) (db' (nameParts t))
  linked : CanLinkAll E db [] (nodes.flatMap CreatedNode.links)
  isSound : db'.IsSound E S

namespace Grows

variable {L : Layout} {nodes : List CreatedNode} {db₁ db₂ : Database} {node : Node} {e : Edge}

theorem refl (hs : db.IsSound E S) : Grows E S L [] db db where
  grown := .refl db
  joined _ _ := JoinTable.adds_nil
  linked := canLinkAll_nil
  isSound := hs

/-- The tables are determined by the nodes, but for the order of their rows. -/
theorem same (hL : L.IsSound S) (h₁ : Grows E S L nodes db db₁) (h₂ : Grows E S L nodes db db₂)
    (name : List String) :
    (db₁ name).columns = (db₂ name).columns ∧ (db₁ name).rows.Perm (db₂ name).rows := by
  refine ⟨(h₁.grown.columns name).trans (h₂.grown.columns name).symm, ?_⟩
  by_cases hname : L.IsJoin name
  · obtain ⟨t, ht, rfl⟩ := hname
    exact (h₁.joined t ht).perm (hL.inert t ht) (hL.unfilled t ht) (h₂.joined t ht)
  · exact (h₁.grown.rows name hname).trans (h₂.grown.rows name hname).symm

/-- Rows that have been there are still there, filled in. -/
theorem exists_filled (hL : L.IsSound S) (h : Grows E S L nodes db db') {name : List String}
    {r : Tuple} (hr : r ∈ (db name).rows) : ∃ r' ∈ (db' name).rows, Fills r r' := by
  by_cases hname : L.IsJoin name
  · obtain ⟨t, ht, rfl⟩ := hname
    exact ⟨r, (h.joined t ht).subset (hL.inert t ht) hr, .refl r⟩
  · exact h.grown.exists_filled hname hr

/-- A target that no row refers to now was free before. -/
theorem unclaimed (hL : L.IsSound S) (h : Grows E S L nodes db db')
    (hpresent : ∀ t ∈ e.target.nodes, t.isNull = false)
    (hfree : Partner.Unclaimed E db' node none e) : Partner.Unclaimed E db node none e := by
  intro target rest fk htarget hfk q hq
  have hempty := hfree target rest fk htarget hfk q hq
  unfold Partner.questions at hq
  split at hq
  case isFalse => simp at hq
  case isTrue =>
    have hrows : q.rows = (Selector.ofTable e.table).filter (.eq fk target) := by
      obtain rfl : q = _ := by simpa using hq
      rfl
    rw [hrows, isEmpty_outRows_filter, Bool.not_eq_true', List.any_eq_false] at hempty ⊢
    intro r hr hmeets
    obtain ⟨r', hr', hfills⟩ := h.exists_filled hL hr
    have htarget' : target.isNull = false := hpresent target (by simp [htarget])
    exact hempty r' hr' (meets_eq_of_fills hfills (h.grown.columns _) htarget' hmeets)

end Grows

/-! ## One creation after the other -/

/-- Linking the targets of a node goes through its edges that are stored in their rows. -/
theorem ForeignKey.add_eq {id : Value} {edges : List Edge} : ForeignKey.add conn [id] edges =
    (edges.filter fun e => e.isForeignKeyEdge && !e.target.nodes.isEmpty).forM (link conn id) := by
  unfold add
  cases edges.filter fun e => e.isForeignKeyEdge && !e.target.nodes.isEmpty with
  | nil => rfl
  | cons e es => rfl

theorem JoinTable.AddsLinks.columns_eq {shapes : String → InsertStatement}
    {links : List (List Value × Edge)} (h : AddsLinks E S shapes links s s') (name : List String) :
    (s'.current name).columns = (s.current name).columns := by
  by_cases hname : ∃ link ∈ links, link.2.isManyToMany = true ∧ nameParts link.2.table = name
  · obtain ⟨link, -, -, rfl⟩ := hname
    exact (h.adds link.2.table).1
  · rw [h.others name fun link hlink hmany hparts => hname ⟨link, hlink, hmany, hparts⟩]

namespace NodeCreation

variable {c : NodeCreation} {L : Layout} {nodes : List CreatedNode}

/-- A node that has an ID is inserted with it. -/
theorem reaches_supplyId {R : Answering Session} {position : Nat} {node : Node}
    {supplied : Option Value} (hid : node.id.value.isNull = false)
    (h : (supplyId position node).Reaches R s supplied s') :
    ∃ id, node.id.bindValue = .ok id ∧ supplied = some id ∧ s' = s := by
  unfold supplyId at h
  rw [if_pos (by simp [hid])] at h
  obtain ⟨id, mid, hbind, hdone⟩ := reaches_bind.mp h
  obtain ⟨hok, hmid⟩ := reaches_ofExcept.mp hbind
  obtain ⟨rfl, rfl⟩ := reaches_done.mp hdone
  exact ⟨id, hok, rfl, hmid⟩

/-- The INSERT of a node with its ID has added its own row. -/
theorem reaches_insertRow_supplied {columns : List (String × Value)} {id : Value}
    (hpolicy : c.policy = none)
    (h : (insertRow conn c (some id) ((c.insertedColumns (some id) columns).foldl
      (fun i c => i.set c.1 c.2) (Insert.into c.node.table))).Reaches (Call.Performs E S) s x s') :
    x = id ∧ (∃ own, AddsRow E S c.node.table (c.insertedColumns (some id) columns) s.current
      s'.current own) ∧
        (c.node.id.column :: columns.map (·.1)).Nodup ∧ s'.current.IsSound E S := by
  rw [Insert.foldl_set] at h
  unfold insertRow at h
  rw [hpolicy] at h
  obtain ⟨_, mid, hdiscard, hdone⟩ := reaches_bind.mp h
  obtain ⟨rfl, rfl⟩ := reaches_done.mp hdone
  obtain ⟨r, hexec⟩ := reaches_discard.mp hdiscard
  obtain ⟨statement, hcompile, -, ⟨⟨hcarried, -⟩, reported, hinserts, -⟩, hnodup, -, hsound⟩ :=
    reaches_execInsert.mp hexec
  obtain ⟨own, -, hadds⟩ := addsRow_of_inserts hcompile hcarried hinserts
  obtain ⟨-, _, -, rfl⟩ := Sql.compile_eq_ok.mp hcompile
  exact ⟨rfl, ⟨own, hadds⟩, hnodup, hsound⟩

/-- A creation that has a result has found the node fitting, and adds it to those before. -/
theorem grows_of_run (hL : L.IsSound S) (hc : c.IsLaidOut E S d L db)
    (h : Grows E S L nodes db s.current)
    (hrun : (c.run d).Reaches (Call.Performs E S) s x s') :
    ∃ n : CreatedNode, n.creation = c ∧ n.id = x ∧ n.Fits E db ∧
      Grows E S L (nodes ++ [n]) db s'.current := by
  have hanswers : ∀ c r s s', Call.Performs E S c r s s' → c.Answers E S.keys r s s' :=
    fun _ _ _ _ h => h.answers
  obtain ⟨_, checked, hlift, hbody⟩ := reaches_bind.mp hrun
  obtain ⟨hchecks, hchecked⟩ := reaches_ofExcept.mp hlift
  rw [hchecked] at hbody
  obtain ⟨inside, start, mid, hstart, hwrite, hs'⟩ := reaches_connection hanswers hbody
  obtain ⟨probed, supplied, drawn, i, inserted, revised, hcheck, hsupply, hinsertion, hinserted,
    hrevise, hcreate⟩ := reaches_write hwrite
  obtain ⟨columns, hcolumns, rfl⟩ := insertion_eq_ok hc.policy hinsertion
  obtain ⟨hprobed, hunclaimed⟩ := Partner.leads_check (hcheck.leads hanswers)
  obtain ⟨id, hbound, rfl, hdrawn⟩ := reaches_supplyId hc.supplied hsupply
  rw [hdrawn, hprobed] at hinserted
  obtain ⟨rfl, ⟨own, hadds⟩, hnodup, hsound⟩ := reaches_insertRow_supplied hc.policy hinserted
  have hrevised : revised = inserted := hrevise.answers
  rw [hrevised] at hcreate
  obtain ⟨_, joined, hjoin, hadd⟩ := reaches_bind.mp hcreate
  rw [ForeignKey.add_eq] at hadd
  rw [← hstart] at h
  let n : CreatedNode := ⟨c, x, columns⟩
  have hown : own = n.tuple := CreatedNode.tuple_eq (fun k hk => by
    rw [hc.idColumn]
    exact hL.filled k (hc.table ▸ hk)) hadds
  have hknown : ∀ k ∈ c.node.id.column :: columns.map (·.1),
      (db (nameParts c.node.table)).HasColumn k := by
    intro k hk
    obtain ⟨p, hp, rfl⟩ := List.mem_map.mp (show k ∈ (c.insertedColumns (some x) columns).map (·.1)
      from hk)
    have hcolumn := hadds.known p hp
    exact ⟨hcolumn.plain, hcolumn.notStar, h.grown.columns _ ▸ hcolumn.mem⟩
  rw [hc.table, hown] at hadds
  have hlinks := JoinTable.reaches_add_links (hc.shapes x) hsound hjoin
  have hapart : ¬L.IsJoin (nameParts L.table) := fun hname => hL.apart (Layout.isJoin_iff.mp hname)
  -- the own row, the join tables and the links, one after the other
  have hrow : db.Grown E L.IsJoin L.table (nodes.map CreatedNode.tuple ++ [n.tuple])
      (nodes.flatMap CreatedNode.links) inserted.current :=
    h.grown.inserted hadds.others hadds.sameColumns hadds.rows
  have hgrown := hrow.joined hlinks.columns_eq fun name hname => hlinks.others name fun link hlink hmany hparts => by
      obtain ⟨e, he, rfl⟩ := List.mem_map.mp hlink
      exact hname ⟨e.table, hc.joins e he hmany, hparts⟩
  obtain ⟨hcan, hlinked, hkept, hafter⟩ := hgrown.reaches_links (fun e he => by
    obtain ⟨he, hforeign⟩ := List.mem_filter.mp he
    obtain ⟨htargets, hjoin⟩ := hc.targets e he (Bool.and_eq_true_iff.mp hforeign).1
    exact ⟨htargets, fun hname => hjoin (Layout.isJoin_iff.mp hname)⟩) hlinks.isSound hadd
  refine ⟨n, rfl, rfl, ⟨forM_eq_ok.mp hchecks, hbound, hcolumns, hknown, hnodup, fun e he hone =>
    h.unclaimed hL (hc.present e he) (hunclaimed e he hone rfl)⟩, ?_⟩
  rw [hs']
  refine ⟨?_, fun t ht => ?_, ?_, hafter⟩
  · rw [List.map_append, List.flatMap_append, List.flatMap_singleton]
    exact hlinked
  · rw [List.flatMap_append, List.flatMap_singleton, JoinTable.linksOn_append]
    have hne : nameParts t ≠ nameParts L.table := by
      intro hname
      rw [nameParts_injective hname] at ht
      exact hL.apart ht
    refine (h.joined t ht).append ?_
    rw [hkept _ ⟨t, ht, rfl⟩, ← hadds.others _ hne]
    exact hlinks.adds t
  · rw [List.flatMap_append, List.flatMap_singleton]
    exact h.linked.append hcan

/-- The edges of creations that all have results have been checked. -/
theorem checked_of_runs {R : Answering Session} {cs : List NodeCreation} {ids : List Value}
    (h : (cs.mapM (run d)).Reaches R s ids s') : ∀ c ∈ cs, ∀ e ∈ c.edges, e.checkDirect = .ok () := by
  induction cs generalizing s ids with
  | nil => simp
  | cons c cs ih =>
    obtain ⟨x, xs, mid, -, hfirst, hothers⟩ := reaches_mapM_cons.mp h
    obtain ⟨_, checked, hlift, -⟩ := reaches_bind.mp hfirst
    exact List.forall_mem_cons.mpr ⟨forM_eq_ok.mp (reaches_ofExcept.mp hlift).1, ih hothers⟩

/-- Creations that all have results have found their nodes fitting the first database. -/
theorem grows_of_runs {cs : List NodeCreation} {ids : List Value} (hL : L.IsSound S)
    (hcs : ∀ c ∈ cs, c.IsLaidOut E S d L db) (h : Grows E S L nodes db s.current)
    (hrun : (cs.mapM (run d)).Reaches (Call.Performs E S) s ids s') :
    ∃ more : List CreatedNode, more.map CreatedNode.creation = cs ∧
      more.map CreatedNode.id = ids ∧ (∀ n ∈ more, n.Fits E db) ∧
        Grows E S L (nodes ++ more) db s'.current := by
  induction cs generalizing nodes s ids with
  | nil =>
    obtain ⟨rfl, rfl⟩ := reaches_done.mp hrun
    exact ⟨[], rfl, rfl, by simp, by simpa using h⟩
  | cons c cs ih =>
    obtain ⟨hc, hrest⟩ := List.forall_mem_cons.mp hcs
    obtain ⟨x, xs, mid, rfl, hfirst, hothers⟩ := reaches_mapM_cons.mp hrun
    obtain ⟨n, rfl, rfl, hfits, hgrows⟩ := grows_of_run hL hc h hfirst
    obtain ⟨more, rfl, rfl, hall, hgrown⟩ := ih hrest hgrows hothers
    refine ⟨n :: more, rfl, rfl, List.forall_mem_cons.mpr ⟨hfits, hall⟩, ?_⟩
    rwa [List.append_assoc] at hgrown

end NodeCreation

end EntityGraph
