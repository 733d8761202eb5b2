import EntityGraph.Proofs.Graph.ReferenceLinks

/-!
# Partners of one to one edges after a creation

A creation gives a foreign key of one to one new values by at most one edge: in the node's own row
the target, which the probe has not found there, and in the target's row the new node, to which no
row refers yet. So the column still has no value twice.
-/

set_option autoImplicit false

namespace EntityGraph

open Program

variable {E : Engine} {S : Schema} {s s' inserted joined : Session} {conn : Connection}
  {d : Dialect} {f : Reference} {c : NodeCreation} {x v : Value} {e : Edge}

/-- What is read as it is stored afterwards was so before. -/
theorem Database.Extends.readsAs {db db' : Database} (h : db.Extends S.keys db') {table k : String}
    (hk : (table, k) ∈ S.keys) {type : FieldType}
    (hreads : (db' (nameParts table)).ReadsAs k type) : (db (nameParts table)).ReadsAs k type := by
  intro r hr w hw
  obtain ⟨r', hr', hsame⟩ := h (table, k) hk r hr
  have hsame : r' k = r k := hsame
  rw [← hsame] at hw ⊢
  exact hreads r' hr' w hw

/-- The ID that is found for a row is the same to the database as the one that the row has. -/
theorem Node.equal_of_readId {node : Node} {t : Table} {row : Tuple} (hE : E.ByKey)
    (hkey : t.HasKey E node.id.column) (hrow : row ∈ t.rows)
    (hreads : t.ReadsAs node.id.column node.id.type)
    (hid : row node.id.column = x ∨ node.readId (row node.id.column) = .ok x) :
    E.equal (row node.id.column) x = true := by
  have hpresent := hkey.present row hrow
  rcases hid with hx | hread
  · rw [hx] at hpresent ⊢
    exact hE.equal_self hpresent
  · have hsame := hreads row hrow x (readColumn_eq_ok.mp hread)
    obtain ⟨key, hrowKey⟩ := Value.exists_key hpresent
    exact (hE _ _).mpr ⟨key, hrowKey, hsame.trans hrowKey⟩

/-! ## What is asked of a creation -/

namespace Edge

theorem isStoredIn_of_foreignKey {node : Node} (hforeign : e.isForeignKeyEdge = true)
    (hthere : e.isStoredThere f = true) : e.isStoredIn node f.table f.column = true := by
  unfold isStoredThere at hthere
  unfold isStoredIn
  rw [Bool.and_eq_true] at hthere
  rw [hthere.1, hthere.2, hforeign]
  simp

theorem isStoredIn_of_own {node : Node} (hown : e.writesOwnColumn = true)
    (hnode : node.table = f.table) (hcolumn : f.column ∈ e.columns.map columnName) :
    e.isStoredIn node f.table f.column = true := by
  unfold isStoredIn
  rw [List.contains_iff_mem.mpr hcolumn, hown, hnode]
  simp

end Edge

namespace NodeCreation

/-- The edges of a creation that are stored in a foreign key, in the node's own row or in others. -/
def edgesIn (c : NodeCreation) (f : Reference) : List Edge :=
  c.edges.filter (Edge.isStoredIn c.node f.table f.column)

/-- A creation writes a foreign key by at most one edge, which is of its one to one relation, and in
no other way. -/
structure LinksOnce (c : NodeCreation) (f : Reference) : Prop where
  fields : c.node.table = f.table → ∀ y ∈ c.fields, y.column ≠ f.column
  id : c.node.table = f.table → c.node.id.column ≠ f.column
  joins : ∀ e ∈ c.edges, e.isManyToMany = true → e.table ≠ f.table
  once : (c.edgesIn f).length ≤ 1
  relation : ∀ e ∈ c.edgesIn f, e.isOneToOne = true ∧ e.table = f.table ∧ e.columns = [f.column]

/-- The database and a creation without a conflict policy agree about a foreign key: it refers to the
nodes that are created, if they are linked in other rows, and targets have keys. -/
structure Respects (S : Schema) (d : Dialect) (c : NodeCreation) (f : Reference) : Prop where
  policy : c.policy = none
  key : (c.node.table, c.node.id.column) ∈ S.keys
  tellsId : c.TellsId S d
  goal : ∀ e ∈ c.edgesIn f, e.isForeignKeyEdge = true →
    c.node.table = f.goal ∧ c.node.id.column = f.key
  targetKey : ∀ e ∈ c.edgesIn f, e.isForeignKeyEdge = true →
    (f.table, e.target.id.column) ∈ S.keys

/-- The targets that a creation writes into a foreign key of the node's own row are stored nodes. -/
def HasTargets (E : Engine) (c : NodeCreation) (f : Reference) (db : Database) : Prop :=
  ∀ e ∈ c.edgesIn f, e.writesOwnColumn = true → ∀ t ∈ e.target.nodes, f.Reaches E db t

theorem mem_edgesIn : e ∈ c.edgesIn f ↔
    e ∈ c.edges ∧ e.isStoredIn c.node f.table f.column = true :=
  List.mem_filter

/-- The edges by which targets are linked to the node are stored in the foreign key only once. -/
theorem LinksOnce.links_once (h : c.LinksOnce f) :
    ((c.edges.filter fun e => e.isForeignKeyEdge && !e.target.nodes.isEmpty).filter
      (Edge.isStoredThere f)).length ≤ 1 := by
  refine le_trans (List.Sublist.length_le ?_) h.once
  rw [List.filter_filter]
  refine List.monotone_filter_right c.edges fun e he => ?_
  simp only [Bool.and_eq_true] at he
  exact Edge.isStoredIn_of_foreignKey he.2.1 he.1

/-- What a new row of a node has in a foreign key: nothing, or the target of an edge. -/
def Refers (c : NodeCreation) (f : Reference) (row : Tuple) : Prop :=
  (row f.column).isNull = true ∨ ∃ e ∈ c.edgesIn f, e.isOneToOne = true ∧
    e.writesOwnColumn = true ∧ e.table = f.table ∧ e.columns = [f.column] ∧
      row f.column ∈ e.target.nodes

/-- A value that is set in the column in a node's own row is the target of an edge. -/
theorem LinksOnce.exists_edge (h : c.LinksOnce f) (hnode : c.node.table = f.table)
    {columns : List (String × Value)} (hcolumns : c.node.ownColumns c.fields c.edges = .ok columns)
    {p : String × Value} (hp : p ∈ columns) (hname : p.1 = f.column)
    (hplain : columnName p.1 = p.1) :
    ∃ e ∈ c.edgesIn f, e.writesOwnColumn = true ∧ p.2 ∈ e.target.nodes := by
  rcases Node.mem_ownColumns hcolumns hp with ⟨y, hy, -, hcolumn⟩ | ⟨e, he, hown, hlinked⟩
  · exact absurd (hcolumn.symm.trans hname) (h.fields hnode y hy)
  · obtain ⟨hfk, rest, hnodes⟩ := hlinked
    refine ⟨e, mem_edgesIn.mpr ⟨he, Edge.isStoredIn_of_own hown hnode ?_⟩, hown, ?_⟩
    · rw [hfk, List.map_singleton, hplain, hname]
      exact List.mem_singleton.mpr rfl
    · rw [hnodes]
      exact List.mem_cons_self

/-- The ID of the node is not set there. -/
theorem LinksOnce.exists_edge_of_inserted (h : c.LinksOnce f) (hnode : c.node.table = f.table)
    {supplied : Option Value} {columns : List (String × Value)}
    (hcolumns : c.node.ownColumns c.fields c.edges = .ok columns) {p : String × Value}
    (hp : p ∈ c.insertedColumns supplied columns) (hname : p.1 = f.column)
    (hplain : columnName p.1 = p.1) :
    ∃ e ∈ c.edgesIn f, e.writesOwnColumn = true ∧ p.2 ∈ e.target.nodes := by
  rcases List.mem_append.mp hp with hp | hp
  · obtain ⟨id, -, rfl⟩ := List.mem_map.mp hp
    exact absurd hname (h.id hnode)
  · exact h.exists_edge hnode hcolumns hp hname hplain

theorem LinksOnce.refers_of_edge (h : c.LinksOnce f) {row : Tuple}
    (hedge : ∃ e ∈ c.edgesIn f, e.writesOwnColumn = true ∧ row f.column ∈ e.target.nodes) :
    c.Refers f row := by
  obtain ⟨e, he, hown, hmem⟩ := hedge
  obtain ⟨hone, htable, hcolumns⟩ := h.relation e he
  exact .inr ⟨e, he, hone, hown, htable, hcolumns, hmem⟩

/-- The columns that are set in a node's own row let it refer to the target of an edge. -/
theorem LinksOnce.refers_of_column (h : c.LinksOnce f) (hnode : c.node.table = f.table)
    {columns : List (String × Value)} (hcolumns : c.node.ownColumns c.fields c.edges = .ok columns)
    {p : String × Value} (hp : p ∈ columns) (hname : p.1 = f.column) (hplain : columnName p.1 = p.1)
    {row : Tuple} (hvalue : row f.column = p.2) : c.Refers f row :=
  h.refers_of_edge (hvalue ▸ h.exists_edge hnode hcolumns hp hname hplain)

/-- The row that is made of the columns that an INSERT writes refers to the target of an edge, or to
nothing. -/
theorem LinksOnce.refers (h : c.LinksOnce f) (hnode : c.node.table = f.table)
    {supplied : Option Value} {columns : List (String × Value)}
    (hcolumns : c.node.ownColumns c.fields c.edges = .ok columns) {row : Tuple}
    (hplain : ∀ p ∈ c.insertedColumns supplied columns, nameParts p.1 = [p.1])
    (hwritten : ∀ p ∈ c.insertedColumns supplied columns, row p.1 = p.2)
    (hunwritten : (∀ p ∈ c.insertedColumns supplied columns, p.1 ≠ f.column) →
      row f.column = .null) : c.Refers f row := by
  by_cases hset : ∃ p ∈ c.insertedColumns supplied columns, p.1 = f.column
  · obtain ⟨p, hp, hname⟩ := hset
    have hvalue : row f.column = p.2 := hname ▸ hwritten p hp
    have hplain := columnName_plain (hplain p hp)
    exact h.refers_of_edge (hvalue ▸ h.exists_edge_of_inserted hnode hcolumns hp hname hplain)
  · left
    rw [hunwritten fun p hp hname => hset ⟨p, hp, hname⟩]
    rfl

/-- A value to which a new row refers is the key of a node that is stored before. -/
theorem Refers.reaches {row : Tuple} (h : c.Refers f row) {db : Database}
    (htargets : c.HasTargets E f db) (hpresent : (row f.column).isNull = false) :
    f.Reaches E db (row f.column) := by
  rcases h with hnull | ⟨e, he, -, hown, -, -, hmem⟩
  · rw [hnull] at hpresent
    cases hpresent
  · exact htargets e he hown _ hmem

/-- A value to which a new row refers is in no row, if the probe has not found it. -/
theorem Refers.not_holds {row : Tuple} (h : c.Refers f row) {db : Database}
    (hsingle : ∀ e ∈ c.edges, e.isOneToOne = true → ∃ t, e.target.nodes = [t])
    (hprobed : ∀ e ∈ c.edges, e.isOneToOne = true → Partner.Unclaimed E db c.node none e)
    (hcolumn : (db (nameParts f.table)).HasColumn f.column) : ¬f.Holds E db (row f.column) := by
  rintro ⟨r, hr, hequal⟩
  rcases h with hnull | ⟨e, he, hone, hown, htable, hcolumns, hmem⟩
  · rw [Engine.equal_null _ hnull] at hequal
    cases hequal
  · have he := (mem_edgesIn.mp he).1
    obtain ⟨t, ht⟩ := hsingle e he hone
    rw [ht, List.mem_singleton] at hmem
    rw [hmem] at hequal
    have hasked : (⟨(Selector.ofTable e.table).filter (.eq f.column t),
        .targetTaken t c.node.label f.column⟩ : Partner.Question) ∈
          Partner.questions c.node none e f.column t := by
      unfold Partner.questions
      dsimp only
      rw [if_pos hown]
      exact List.mem_append_left _ List.mem_cons_self
    have hnone := hprobed e he hone t [] f.column ht hcolumns _ hasked
    rw [isEmpty_outRows_filter, htable, Bool.not_eq_true', List.any_eq_false] at hnone
    have hmeets := hnone r hr
    rw [meets_eq hcolumn.knows, columnName_plain hcolumn.plain] at hmeets
    exact hmeets (Engine.picks_of_equal hequal)

/-! ## One creation -/

namespace Writes

variable {supplied : Option Value} {columns : List (String × Value)} {own : Tuple}

theorem inserted_extends (w : c.Writes E S conn x supplied columns own s inserted joined s') :
    s.current.Extends S.keys inserted.current := by
  refine .of_subset fun name r hr => ?_
  by_cases hname : name = nameParts c.node.table
  · subst hname
    exact w.row.rows.mem_iff.mpr (List.mem_cons_of_mem own hr)
  · rwa [w.row.others name hname]

theorem joined_extends (w : c.Writes E S conn x supplied columns own s inserted joined s') :
    inserted.current.Extends S.keys joined.current :=
  .of_subset (JoinTable.reaches_add_subset w.joins)

theorem linked_extends (w : c.Writes E S conn x supplied columns own s inserted joined s') :
    joined.current.Extends S.keys s'.current ∧ s'.current.Obeys E S.keys :=
  ForeignKey.leads_links_extends w.links w.joined_obeys

/-- The node's own row keeps its ID while the edges are written. -/
theorem extends_after (w : c.Writes E S conn x supplied columns own s inserted joined s') :
    inserted.current.Extends S.keys s'.current :=
  w.joined_extends.trans w.linked_extends.1

theorem mem_inserted (w : c.Writes E S conn x supplied columns own s inserted joined s') :
    own ∈ (inserted.current (nameParts c.node.table)).rows :=
  w.row.rows.mem_iff.mpr List.mem_cons_self

/-- The result of a creation is the same to the database as the ID of the node's row. -/
theorem equal_id (hE : E.ByKey) (hkey : (c.node.table, c.node.id.column) ∈ S.keys)
    (w : c.Writes E S conn x supplied columns own s inserted joined s')
    (hreads : (s'.current (nameParts c.node.table)).ReadsAs c.node.id.column c.node.id.type) :
    E.equal (own c.node.id.column) x = true := by
  exact Node.equal_of_readId hE (w.obeys _ hkey) w.mem_inserted
    (w.extends_after.readsAs hkey hreads) w.id

theorem refers (hf : f.IsDeclared S) (hlinks : c.LinksOnce f)
    (w : c.Writes E S conn x supplied columns own s inserted joined s')
    (hnode : c.node.table = f.table) : c.Refers f own :=
  hlinks.refers hnode w.ownColumns (fun p hp => (w.row.known p hp).plain) w.row.written
    fun hnone => w.row.unwritten f.column hnone (hnode ▸ hf.unfilled)

/-- Until targets are linked, all values of the column are keys of nodes that are stored before. -/
theorem reaches_of_holds (hf : f.IsDeclared S) (hlinks : c.LinksOnce f)
    (htargets : c.HasTargets E f s.current) (h : f.IsPaired E s.current)
    (w : c.Writes E S conn x supplied columns own s inserted joined s')
    (hv : f.Holds E joined.current v) : f.Reaches E s.current v := by
  have hjoined : joined.current (nameParts f.table) = inserted.current (nameParts f.table) :=
    w.joined_eq fun e he hmany => hlinks.joins e he hmany
  unfold Reference.Holds at hv
  rw [hjoined] at hv
  by_cases hnode : c.node.table = f.table
  · obtain ⟨r, hr, hequal⟩ := hv
    rw [← hnode] at hr
    rcases List.mem_cons.mp (w.row.rows.mem_iff.mp hr) with rfl | hr
    · have hpresent := Engine.isNull_of_equal hequal
      exact ((w.refers hf hlinks hnode).reaches htargets hpresent).congr hequal
    · exact h.reaches ⟨r, hnode ▸ hr, hequal⟩
  · rw [w.row.others _ fun hname => hnode (nameParts_injective hname).symm] at hv
    exact h.reaches hv

/-- A creation keeps a foreign key one of one to one. -/
theorem paired (hf : f.IsDeclared S) (hlinks : c.LinksOnce f) (hrespects : c.Respects S d f)
    (htargets : c.HasTargets E f s.current)
    (hprobed : ∀ e ∈ c.edges, e.isOneToOne = true → Partner.Unclaimed E s.current c.node none e)
    (w : c.Writes E S conn x supplied columns own s inserted joined s')
    (hx : E.equal (own c.node.id.column) x = true) (h : f.IsPaired E s.current) :
    f.IsPaired E s'.current := by
  have hsingle : ∀ e ∈ c.edges, e.isOneToOne = true → ∃ t, e.target.nodes = [t] :=
    fun e he hone => (w.complete e he).single (.inl hone)
  have hinserted : f.IsPaired E inserted.current := by
    by_cases hnode : c.node.table = f.table
    · have hrefers := w.refers hf hlinks hnode
      have hrows : (inserted.current (nameParts f.table)).rows.Perm
          ([own] ++ (s.current (nameParts f.table)).rows) := by
        rw [← hnode]
        exact w.row.rows
      refine h.of_added hf w.inserted_extends ?_ hrows ?_ ?_ ?_
      · rw [← hnode]
        exact w.row.sameColumns
      · intro y hy
        rw [List.mem_singleton.mp hy]
        exact hrefers.not_holds hsingle hprobed h.column
      · exact List.pairwise_singleton _ _
      · intro y hy hpresent
        rw [List.mem_singleton.mp hy] at hpresent ⊢
        exact hrefers.reaches htargets hpresent
    · exact h.of_table_eq hf (w.row.others _ fun hname => hnode (nameParts_injective hname).symm)
        w.inserted_extends
  have hjoined : f.IsPaired E joined.current :=
    hinserted.of_table_eq hf (w.joined_eq fun e he hmany => hlinks.joins e he hmany)
      w.joined_extends
  refine (ForeignKey.leads_links_paired hjoined hf w.joined_obeys hlinks.links_once ?_ w.links).1
  intro e he hthere
  obtain ⟨he, hforeign⟩ := w.mem_links.mp he
  have hstored : e ∈ c.edgesIn f :=
    mem_edgesIn.mpr ⟨he, Edge.isStoredIn_of_foreignKey hforeign hthere⟩
  obtain ⟨hone, -, hcolumns⟩ := hlinks.relation e hstored
  obtain ⟨hgoal, hid⟩ := hrespects.goal e hstored hforeign
  refine ⟨hcolumns, hrespects.targetKey e hstored hforeign, hsingle e he hone, ?_, ?_⟩
  · intro hheld
    obtain ⟨q, hq, hequal⟩ := w.reaches_of_holds hf hlinks htargets h hheld
    rw [← hgoal] at hq
    rw [← hid] at hequal
    have hfresh := w.row.fresh _ hrespects.key q hq
    rw [Engine.equal_trans hequal (Engine.equal_symm hx)] at hfresh
    cases hfresh
  · unfold Reference.Reaches
    rw [← hgoal, ← hid]
    exact w.joined_extends.holds hrespects.key ⟨own, w.mem_inserted, hx⟩

end Writes

theorem HasTargets.mono (h : c.HasTargets E f s.current) (hf : f.IsDeclared S)
    (hextends : s.current.Extends S.keys s'.current) : c.HasTargets E f s'.current :=
  fun e he hown t ht => hextends.holds hf.key (h e he hown t ht)

/-- Writing a node leaves keys as they are. If IDs are read as they are stored, the node is stored
then, and a foreign key of one to one is still one. -/
theorem reaches_write_keeps {position : Nat} (hE : E.ByKey) (hf : f.IsDeclared S)
    (hlinks : c.LinksOnce f) (hrespects : c.Respects S conn.dialect f)
    (hcomplete : ∀ e ∈ c.edges, e.IsComplete) (hs : s.current.Obeys E S.keys)
    (h : (write conn position c).Reaches (Call.Records E S) s x s') :
    s'.current.Obeys E S.keys ∧ s.current.Extends S.keys s'.current ∧
      ((s'.current (nameParts c.node.table)).ReadsAs c.node.id.column c.node.id.type →
        (s'.current (nameParts c.node.table)).Holds E c.node.id.column x ∧
          (c.HasTargets E f s.current → f.IsPaired E s.current → f.IsPaired E s'.current)) := by
  obtain ⟨hprobed, supplied, columns, own, inserted, joined, w⟩ := reaches_write_steps
    hrespects.policy hcomplete (hs _ hrespects.key).toHasColumn hrespects.tellsId h
  refine ⟨w.linked_extends.2, w.inserted_extends.trans w.extends_after, fun hreads => ?_⟩
  have hx := w.equal_id hE hrespects.key hreads
  refine ⟨w.extends_after.holds hrespects.key ⟨own, w.mem_inserted, hx⟩, ?_⟩
  intro htargets hpaired
  exact w.paired hf hlinks hrespects htargets hprobed hx hpaired

end NodeCreation

/-- The IDs of a type of node are read as they are stored. -/
def NodeCreation.ReadsIds (c : NodeCreation) (db : Database) : Prop :=
  (db (nameParts c.node.table)).ReadsAs c.node.id.column c.node.id.type

/-- Creations one after another, each on its own. -/
theorem BatchCreation.reaches_createEach {nodes : List NodeCreation} {position : Nat}
    {ids : List Value} (hE : E.ByKey) (hf : f.IsDeclared S)
    (hnodes : ∀ c ∈ nodes, c.LinksOnce f ∧ c.Respects S conn.dialect f ∧
      ∀ e ∈ c.edges, e.IsComplete) (hs : s.current.Obeys E S.keys)
    (h : (createEach conn position nodes).Reaches (Call.Records E S) s ids s') :
    s'.current.Obeys E S.keys ∧ s.current.Extends S.keys s'.current ∧
      ((∀ c ∈ nodes, c.ReadsIds s'.current) → (∀ c ∈ nodes, c.HasTargets E f s.current) →
        f.IsPaired E s.current → f.IsPaired E s'.current) := by
  induction nodes generalizing s position ids with
  | nil =>
    obtain ⟨-, rfl⟩ := reaches_done.mp h
    exact ⟨hs, .refl _, fun _ _ hpaired => hpaired⟩
  | cons c rest ih =>
    obtain ⟨⟨hlinks, hrespects, hcomplete⟩, hrest⟩ := List.forall_mem_cons.mp hnodes
    obtain ⟨x, mid, hwrite, hothers⟩ := reaches_bind.mp h
    obtain ⟨xs, _, hothers, hdone⟩ := reaches_bind.mp hothers
    obtain ⟨-, rfl⟩ := reaches_done.mp hdone
    obtain ⟨hmid, hextends, hwritten⟩ :=
      NodeCreation.reaches_write_keeps hE hf hlinks hrespects hcomplete hs hwrite
    obtain ⟨hs', hextends', hall⟩ := ih hrest hmid hothers
    refine ⟨hs', hextends.trans hextends', fun hreads htargets hpaired => ?_⟩
    obtain ⟨hread, hreads⟩ := List.forall_mem_cons.mp hreads
    obtain ⟨htarget, htargets⟩ := List.forall_mem_cons.mp htargets
    refine hall hreads (fun c hc => (htargets c hc).mono hf hextends) ?_
    exact (hwritten (hextends'.readsAs hrespects.key hread)).2 htarget hpaired

end EntityGraph
