import EntityGraph.Proofs.Graph.CreationRuns

/-!
# How a creation stores its edges

After a creation that has a result each relation that its edges name is stored somewhere: in the
node's own row, in the foreign keys of other rows, or in the pairs of a join table. `Stored` says
which rows this links to the node: those of the targets of the relation and no others. `Fits` is
what that takes of the creation and of the database before it.
-/

set_option autoImplicit false

namespace EntityGraph

open Program

variable {E : Engine} {S : Schema} {s s' inserted joined : Session} {conn : Connection}
  {d : Dialect} {x v w : Value}

/-! ## Edges of one relation -/

namespace Edge

variable {e f : Edge}

theorem sameRelation_self (e : Edge) : e.sameRelation e = true :=
  sameRelation_iff.mpr ⟨rfl, rfl, rfl, rfl⟩

theorem writesOwnColumn_congr (h : e.sameRelation f = true) (hbidi : e.bidi = f.bidi) :
    e.writesOwnColumn = f.writesOwnColumn := by
  obtain ⟨hrelation, hinverse, -⟩ := sameRelation_iff.mp h
  unfold writesOwnColumn
  rw [hrelation, hinverse, hbidi]

theorem isForeignKeyEdge_congr (h : e.sameRelation f = true) :
    e.isForeignKeyEdge = f.isForeignKeyEdge := by
  obtain ⟨hrelation, hinverse, -⟩ := sameRelation_iff.mp h
  unfold isForeignKeyEdge
  rw [hrelation, hinverse]

theorem isManyToMany_congr (h : e.sameRelation f = true) : e.isManyToMany = f.isManyToMany := by
  unfold isManyToMany
  rw [(sameRelation_iff.mp h).1]

theorem pair_congr (h : e.sameRelation f = true) : e.pair = f.pair := by
  funext v w
  unfold pair
  rw [(sameRelation_iff.mp h).2.1]

@[simp]
theorem ownEnd_pair (e : Edge) (v w : Value) : e.ownEnd (e.pair v w) = v := by
  unfold ownEnd pair
  cases e.inverse <;> rfl

@[simp]
theorem ownEnd_swap_pair (e : Edge) (v w : Value) : e.ownEnd (e.pair v w).swap = w := by
  unfold ownEnd pair
  cases e.inverse <;> rfl

/-- An edge of a node links the node to its targets. -/
theorem links_pair_iff (hx : E.equal x x = true) :
    e.Links E (· ∈ [x]) (e.pair x v) ↔ ∃ t ∈ e.target.nodes, E.equal v t = true := by
  unfold Links
  simp only [samePair_pair, Prod.swap_swap, ownEnd_pair, ownEnd_swap_pair, List.mem_singleton,
    exists_eq_left, hx, true_and]
  constructor
  · rintro ⟨t, ht, h | ⟨-, hvx, hxt⟩⟩
    · exact ⟨t, ht, h⟩
    · exact ⟨t, ht, Engine.equal_trans hvx hxt⟩
  · rintro ⟨t, ht, h⟩
    exact ⟨t, ht, .inl h⟩

/-- The column by which rows other than the node's refer to the node. -/
def RefersBy (e : Edge) (k : String) : Prop :=
  (e.isForeignKeyEdge = true ∧ e.columns = [k]) ∨
    (e.isManyToMany = true ∧ ∃ other, e.joinColumns = .ok (k, other))

end Edge

theorem Table.links_iff_hasPair {t : Table} {e : Edge} {c₁ c₂ own other : String}
    (hcolumns : e.columns = [c₁, c₂]) (hjoin : e.joinColumns = .ok (own, other)) :
    t.links E own other v w = true ↔ t.HasPair E c₁ c₂ (e.pair v w) := by
  unfold Table.links Table.HasPair Engine.SamePair pairOf Edge.pair
  rw [List.any_eq_true]
  refine exists_congr fun r => and_congr_right fun _ => ?_
  rw [Bool.and_eq_true, Engine.equal_comm w]
  unfold Edge.joinColumns at hjoin
  rw [hcolumns] at hjoin
  cases hinverse : e.inverse with
  | true =>
    rw [hinverse] at hjoin
    cases hjoin
    exact And.comm
  | false =>
    rw [hinverse] at hjoin
    cases hjoin
    exact Iff.rfl

/-! ## What is asked of a creation -/

namespace NodeCreation

/-- The nodes to which a creation links its node over the relation of an edge. -/
def targetsOf (c : NodeCreation) (e : Edge) : List Value :=
  (c.edges.filter e.sameRelation).flatMap fun f => f.target.nodes

theorem mem_targetsOf {c : NodeCreation} {e : Edge} {t : Value} :
    t ∈ c.targetsOf e ↔ ∃ f ∈ c.edges, e.sameRelation f = true ∧ t ∈ f.target.nodes := by
  simp only [targetsOf, List.mem_flatMap, List.mem_filter, and_assoc]

/-- A value is the ID of a stored node of the type that is created. -/
def IsStored (E : Engine) (c : NodeCreation) (db : Database) (v : Value) : Prop :=
  ∃ q ∈ (db (nameParts c.node.table)).rows, E.equal (q c.node.id.column) v = true

/-- The creation and the database before it are such that its edges can be found again. -/
structure Fits (E : Engine) (S : Schema) (d : Dialect) (c : NodeCreation) (db : Database) :
    Prop where
  policy : c.policy = none
  key : (c.node.table, c.node.id.column) ∈ S.keys
  tellsId : c.TellsId S d
  /-- Edges that are stored in the same place are of the same relation. -/
  agree : ∀ e ∈ c.edges, ∀ f ∈ c.edges, e.table = f.table →
    e.columns = f.columns ∨ e.isManyToMany = true ∧ f.isManyToMany = true →
      e.sameRelation f = true ∧ e.bidi = f.bidi
  /-- An edge that is stored in the node's own row names the table of the node. -/
  ownTable : ∀ e ∈ c.edges, e.writesOwnColumn = true → e.table = c.node.table
  /-- A field of the node that is a foreign key by which other nodes are linked to it refers to a
  node that is there. -/
  ownFields : ∀ e ∈ c.edges, e.isForeignKeyEdge = true → e.table = c.node.table →
    ∀ f ∈ c.fields, e.columns = [f.column] → ∀ v, f.bindValue = .ok v → v.isNull = false →
      c.IsStored E db v
  columns : ∀ e ∈ c.edges, ∀ k ∈ e.columns, (db (nameParts e.table)).HasColumn k
  targets : ∀ e ∈ c.edges, ∀ t ∈ e.target.nodes, t.isNull = false
  targetKey : ∀ e ∈ c.edges, e.isForeignKeyEdge = true →
    (e.table, e.target.id.column) ∈ S.keys
  /-- Where an edge is stored at both of its ends, the targets are nodes of the same table. -/
  partners : ∀ e ∈ c.edges, e.isForeignKeyEdge = true → e.writesOwnColumn = true →
    ∀ t ∈ e.target.nodes, c.IsStored E db t
  /-- A join table is no table of nodes, and its keys are on pairs. -/
  joinTable : ∀ e ∈ c.edges, e.isManyToMany = true → e.table ≠ c.node.table ∧
    (∀ f ∈ c.edges, f.isForeignKeyEdge = true → f.table ≠ e.table) ∧
      ∀ c₁ c₂, e.columns = [c₁, c₂] → S.IsJoinTable e.table c₁ c₂
  /-- Rows refer to nodes that are there. -/
  integrity : ∀ e ∈ c.edges, ∀ k, e.RefersBy k → ∀ r ∈ (db (nameParts e.table)).rows,
    (r k).isNull = false → c.IsStored E db (r k)

/-- The edges of a node are stored in the tables of a database. -/
structure Stored (E : Engine) (c : NodeCreation) (x : Value) (own : Tuple) (db : Database) :
    Prop where
  mem : own ∈ (db (nameParts c.node.table)).rows
  id : E.equal (own c.node.id.column) x = true
  complete : ∀ e ∈ c.edges, e.IsComplete
  /-- The node's own row has the only target. -/
  ownColumns : ∀ e ∈ c.edges, e.writesOwnColumn = true → ∀ fk, e.columns = [fk] →
    own fk ∈ c.targetsOf e ∧ ∀ t ∈ c.targetsOf e, t = own fk
  /-- The rows that refer to the node are those of the targets. -/
  foreignKeys : ∀ e ∈ c.edges, e.isForeignKeyEdge = true → ∀ fk, e.columns = [fk] → ∀ k,
    (∀ f ∈ c.edges, e.sameRelation f = true → f.target.id.column = k) →
      ∀ r ∈ (db (nameParts e.table)).rows,
        E.equal (r fk) x = (c.targetsOf e).any (E.equal (r k))
  /-- The join table links the node to the targets. -/
  joinTables : ∀ e ∈ c.edges, e.isManyToMany = true → ∀ own other,
    e.joinColumns = .ok (own, other) → ∀ v,
      (db (nameParts e.table)).links E own other x v = (c.targetsOf e).any (E.equal v)
  /-- If it serves both directions, it links the targets to the node. -/
  exchanged : ∀ e ∈ c.edges, e.isManyToMany = true → e.bidi = true → ∀ own other,
    e.joinColumns = .ok (own, other) → ∀ t ∈ c.targetsOf e,
      (db (nameParts e.table)).links E own other t x = true

end NodeCreation

/-! ## The steps of a creation -/

/-- Writing join tables keeps the keys, and changes the columns of no table. -/
theorem JoinTable.reaches_add_keeps {links : List (List Value × Edge)}
    (hs : s.current.Obeys E S.keys)
    (h : (JoinTable.add conn links).Reaches (Call.Records E S) s () s') :
    s'.current.Obeys E S.keys ∧ ∀ name, (s'.current name).columns = (s.current name).columns := by
  refine reaches_add_invariant (fun _ _ _ _ => Call.Records.answers)
    (fun t => t.current.Obeys E S.keys ∧
      ∀ name, (t.current name).columns = (s.current name).columns)
    (fun g _ i r t t' _ hexec hkeep => ?_) h ⟨hs, fun _ => rfl⟩
  obtain ⟨statement, -, ⟨hcarried, -, hobeys, -⟩, reported, hinserts, -⟩ :=
    reaches_execInsert.mp hexec
  refine ⟨hobeys, fun name => Eq.trans ?_ (hkeep.2 name)⟩
  by_cases hname : name = nameParts statement.table
  · rw [hname]
    exact hinserts.sameColumns
  · exact congrArg Table.columns (hcarried name hname)

namespace NodeCreation

section Steps

variable {c : NodeCreation} {supplied : Option Value} {columns : List (String × Value)}
  {own : Tuple} {e f : Edge} {fk k table : String}

namespace Fits

theorem plain (h : c.Fits E S d s.current) (he : e ∈ c.edges) (hfk : e.columns = [fk]) :
    nameParts fk = [fk] :=
  (h.columns e he fk (by simp [hfk])).plain

theorem isKeyed (h : c.Fits E S d s.current) (he : e ∈ c.edges)
    (hforeign : e.isForeignKeyEdge = true) : e.IsKeyed S.keys where
  key := h.targetKey e he hforeign
  plain _ hfk := h.plain he hfk
  present := h.targets e he

/-- Edges that are stored in the same column are of the same relation. -/
theorem agree_column (h : c.Fits E S d s.current) (he : e ∈ c.edges) (hf : f ∈ c.edges)
    (htable : f.table = e.table) (hcolumns : f.columns = e.columns) :
    e.sameRelation f = true ∧ e.bidi = f.bidi :=
  h.agree e he f hf htable.symm (.inl hcolumns.symm)

end Fits

namespace Writes

/-- Writing join tables leaves other tables as they are. -/
theorem joined_eq (w : c.Writes E S conn x supplied columns own s inserted joined s')
    (hne : ∀ e ∈ c.edges, e.isManyToMany = true → e.table ≠ table) :
    joined.current (nameParts table) = inserted.current (nameParts table) := by
  refine (JoinTable.leads_add (fun link hlink => ?_)
    (w.joins.leads fun _ _ _ _ => Call.Records.answers) w.obeys).1
  obtain ⟨e, he, rfl⟩ := List.mem_map.mp hlink
  exact fun hmany hname => hne e he hmany (nameParts_injective hname)

theorem joined_obeys (w : c.Writes E S conn x supplied columns own s inserted joined s') :
    joined.current.Obeys E S.keys :=
  (JoinTable.reaches_add_keeps w.obeys w.joins).1

/-- The edges whose targets are linked. -/
theorem mem_links (w : c.Writes E S conn x supplied columns own s inserted joined s') :
    (e ∈ c.edges.filter fun e => e.isForeignKeyEdge && !e.target.nodes.isEmpty) ↔
      e ∈ c.edges ∧ e.isForeignKeyEdge = true := by
  rw [List.mem_filter, Bool.and_eq_true]
  refine and_congr_right fun he => and_iff_left ?_
  have hnodes := (w.complete e he).nodes
  simpa [List.isEmpty_iff] using hnodes

theorem links_isKeyed (h : c.Fits E S d s.current)
    (w : c.Writes E S conn x supplied columns own s inserted joined s') :
    ∀ e ∈ c.edges.filter fun e => e.isForeignKeyEdge && !e.target.nodes.isEmpty,
      e.IsKeyed S.keys := by
  intro e he
  obtain ⟨he, hforeign⟩ := w.mem_links.mp he
  exact h.isKeyed he hforeign

/-- A foreign key over which targets have been linked is no key. -/
theorem not_key (h : c.Fits E S d s.current)
    (w : c.Writes E S conn x supplied columns own s inserted joined s') (he : e ∈ c.edges)
    (hforeign : e.isForeignKeyEdge = true) (hfk : e.columns = [fk]) : (e.table, fk) ∉ S.keys :=
  ForeignKey.not_key_of_links (w.links_isKeyed h) w.joined_obeys w.links
    (w.mem_links.mpr ⟨he, hforeign⟩) hfk (w.complete e he).nodes

/-- Linking targets keeps the keys, and the IDs of the node's table. -/
theorem links_keep (h : c.Fits E S d s.current)
    (w : c.Writes E S conn x supplied columns own s inserted joined s') :
    (inserted.current (nameParts c.node.table)).Keeps c.node.id.column
      (s'.current (nameParts c.node.table)) ∧ s'.current.Obeys E S.keys := by
  have hjoined : joined.current (nameParts c.node.table) =
      inserted.current (nameParts c.node.table) :=
    w.joined_eq fun e he hmany => (h.joinTable e he hmany).1
  rw [← hjoined]
  refine ForeignKey.leads_links_keep (fun e he htable fk hfk => ?_) w.links w.joined_obeys
  obtain ⟨he, hforeign⟩ := w.mem_links.mp he
  rw [columnName_plain (h.plain he hfk)]
  rintro rfl
  exact w.not_key h he hforeign hfk (htable ▸ h.key)

/-- A creation changes the columns of no table. -/
theorem sameColumns (w : c.Writes E S conn x supplied columns own s inserted joined s')
    (name : List String) : (s'.current name).columns = (s.current name).columns := by
  have hlinked : (s'.current name).columns = (joined.current name).columns := by
    refine leads_forM_invariant (fun db => (db name).columns = (joined.current name).columns)
      (fun e _ t t' ht hkeep => ?_) w.links rfl
    obtain ⟨fk, -, -, hcurrent, -⟩ := ForeignKey.leads_link ht
    rw [hcurrent, Update.applied_columns, hkeep]
  rw [hlinked, (JoinTable.reaches_add_keeps w.obeys w.joins).2]
  by_cases hname : name = nameParts c.node.table
  · rw [hname, w.row.sameColumns]
  · rw [w.row.others name hname]

theorem hasColumn (w : c.Writes E S conn x supplied columns own s inserted joined s')
    {name : List String} (h : (s.current name).HasColumn k) : (s'.current name).HasColumn k :=
  ⟨h.plain, h.notStar, by rw [w.sameColumns]; exact h.mem⟩

/-- The node's own row after the creation, with the ID that is the result. -/
theorem exists_own (hE : E.ByKey) (h : c.Fits E S d s.current)
    (w : c.Writes E S conn x supplied columns own s inserted joined s')
    (hreads : (s'.current (nameParts c.node.table)).ReadsAs c.node.id.column c.node.id.type) :
    E.equal (own c.node.id.column) x = true ∧
      ∃ after ∈ (s'.current (nameParts c.node.table)).rows,
        after c.node.id.column = own c.node.id.column ∧
          ∀ k, (own k).isNull = false → after k = own k := by
  obtain ⟨⟨-, g, hrows, hg⟩, hobeys⟩ := w.links_keep h
  have hmem : g own ∈ (s'.current (nameParts c.node.table)).rows := by
    rw [hrows]
    exact List.mem_map_of_mem (w.row.rows.mem_iff.mpr List.mem_cons_self)
  obtain ⟨hid, hkept⟩ := hg own
  refine ⟨?_, g own, hmem, hid, hkept⟩
  have hpresent : (own c.node.id.column).isNull = false := by
    rw [← hid]
    exact (hobeys _ h.key).present _ hmem
  rcases w.id with hx | hread
  · rw [hx] at hpresent ⊢
    exact hE.equal_self hpresent
  · rw [← hid] at hread
    have hkey := hreads _ hmem x (readColumn_eq_ok.mp hread)
    obtain ⟨key, hown⟩ := Value.exists_key hpresent
    refine (hE _ _).mpr ⟨key, hown, ?_⟩
    rw [hkey, hid, hown]

/-- The ID of the node is not that of a node stored before. -/
theorem equal_of_isStored (h : c.Fits E S d s.current)
    (w : c.Writes E S conn x supplied columns own s inserted joined s')
    (hx : E.equal (own c.node.id.column) x = true)
    (hv : v.isNull = false → c.IsStored E s.current v) : E.equal v x = false := by
  rw [Bool.eq_false_iff]
  intro hequal
  obtain ⟨q, hq, hqv⟩ := hv (Engine.isNull_of_equal hequal)
  have hsame := Engine.equal_trans (Engine.equal_trans hqv hequal) (Engine.equal_symm hx)
  rw [w.row.fresh _ h.key q hq] at hsame
  cases hsame

/-- Before the creation no row refers to the node. -/
theorem not_referred (h : c.Fits E S d s.current)
    (w : c.Writes E S conn x supplied columns own s inserted joined s')
    (hx : E.equal (own c.node.id.column) x = true) (he : e ∈ c.edges) (hk : e.RefersBy k) :
    ∀ r ∈ (s.current (nameParts e.table)).rows, E.equal (r k) x = false :=
  fun r hr => w.equal_of_isStored h hx (h.integrity e he k hk r hr)

/-- The node's own row does not refer to itself by a foreign key that is stored elsewhere. -/
theorem not_own (h : c.Fits E S d s.current)
    (w : c.Writes E S conn x supplied columns own s inserted joined s')
    (hx : E.equal (own c.node.id.column) x = true) (he : e ∈ c.edges)
    (hforeign : e.isForeignKeyEdge = true) (hfk : e.columns = [fk])
    (htable : e.table = c.node.table) : E.equal (own fk) x = false := by
  have hnotkey := w.not_key h he hforeign hfk
  rw [htable] at hnotkey
  by_cases hwritten : ∃ p ∈ c.insertedColumns supplied columns, p.1 = fk
  · obtain ⟨p, hp, rfl⟩ := hwritten
    rw [w.row.written p hp]
    rcases List.mem_append.mp hp with hp | hp
    · obtain ⟨id, -, rfl⟩ := List.mem_map.mp hp
      exact absurd h.key hnotkey
    · rcases Node.mem_ownColumns w.ownColumns hp with
        ⟨f, hf, hbind, hcolumn⟩ | ⟨f, hf, hown, hlinked⟩
      · refine w.equal_of_isStored h hx (h.ownFields e he hforeign htable f hf ?_ p.2 hbind)
        rw [hfk, hcolumn]
      · obtain ⟨hcolumns, rest, hnodes⟩ := hlinked
        obtain ⟨hrelation, hbidi⟩ := h.agree_column he hf
          ((h.ownTable f hf hown).trans htable.symm) (hcolumns.trans hfk.symm)
        have hforeign' := (Edge.isForeignKeyEdge_congr hrelation).symm.trans hforeign
        have hstored := h.partners f hf hforeign' hown p.2 (by simp [hnodes])
        exact w.equal_of_isStored h hx fun _ => hstored
  · have hnull : own fk = .null := by
      refine w.row.unwritten fk (fun p hp hname => hwritten ⟨p, hp, hname⟩) fun hidentity => ?_
      exact hnotkey (S.identity_mem_keys _ _ hidentity)
    rw [hnull]
    rfl

/-- The foreign keys of a table refer to the node in the rows of the targets. -/
theorem linked (hE : E.ByKey) (h : c.Fits E S d s.current)
    (w : c.Writes E S conn x supplied columns own s inserted joined s')
    (hx : E.equal (own c.node.id.column) x = true) (he : e ∈ c.edges)
    (hforeign : e.isForeignKeyEdge = true) (hfk : e.columns = [fk]) :
    ForeignKey.Linked E e.table fk x
      (c.edges.filter fun e => e.isForeignKeyEdge && !e.target.nodes.isEmpty) s'.current := by
  have hself : E.equal x x = true :=
    hE.equal_self (Engine.isNull_of_equal_right hx)
  have hjoined : joined.current (nameParts e.table) = inserted.current (nameParts e.table) :=
    w.joined_eq fun f hf hmany htable => (h.joinTable f hf hmany).2.1 e he hforeign htable.symm
  have hstart : ForeignKey.Linked E e.table fk x [] joined.current := by
    intro r hr
    have hnone : E.equal (r fk) x = false := by
      rw [hjoined] at hr
      have hbefore := w.not_referred h hx he (.inl ⟨hforeign, hfk⟩)
      by_cases htable : e.table = c.node.table
      · rw [htable] at hr
        rcases List.mem_cons.mp (w.row.rows.mem_iff.mp hr) with rfl | hr
        · exact w.not_own h hx he hforeign hfk htable
        · exact hbefore r (htable ▸ hr)
      · rw [w.row.others _ fun hname => htable (nameParts_injective hname)] at hr
        exact hbefore r hr
    simp [hnone]
  have hlinked := ForeignKey.linked_of_links hstart hself (by simp) (w.links_isKeyed h)
    w.joined_obeys w.links
  rwa [List.nil_append] at hlinked

theorem foreignKeys_stored (hE : E.ByKey) (h : c.Fits E S d s.current)
    (w : c.Writes E S conn x supplied columns own s inserted joined s')
    (hx : E.equal (own c.node.id.column) x = true) (he : e ∈ c.edges)
    (hforeign : e.isForeignKeyEdge = true) (hfk : e.columns = [fk])
    (hk : ∀ f ∈ c.edges, e.sameRelation f = true → f.target.id.column = k) :
    ∀ r ∈ (s'.current (nameParts e.table)).rows,
      E.equal (r fk) x = (c.targetsOf e).any (E.equal (r k)) := by
  intro r hr
  rw [Bool.eq_iff_iff, w.linked hE h hx he hforeign hfk r hr, List.any_eq_true]
  constructor
  · rintro ⟨f, hf, htable, hcolumns, t, ht, hequal⟩
    obtain ⟨hf, -⟩ := w.mem_links.mp hf
    obtain ⟨hrelation, -⟩ := h.agree_column he hf htable (hcolumns.trans hfk.symm)
    rw [hk f hf hrelation] at hequal
    exact ⟨t, mem_targetsOf.mpr ⟨f, hf, hrelation, ht⟩, hequal⟩
  · rintro ⟨t, ht, hequal⟩
    obtain ⟨f, hf, hrelation, ht⟩ := mem_targetsOf.mp ht
    obtain ⟨-, -, htable, hcolumns⟩ := Edge.sameRelation_iff.mp hrelation
    have hforeign' := (Edge.isForeignKeyEdge_congr hrelation).symm.trans hforeign
    refine ⟨f, w.mem_links.mpr ⟨hf, hforeign'⟩, htable.symm, hcolumns.symm.trans hfk, t, ht, ?_⟩
    rwa [hk f hf hrelation]

theorem ownColumns_stored (h : c.Fits E S d s.current)
    (w : c.Writes E S conn x supplied columns own s inserted joined s') {after : Tuple}
    (hafter : ∀ k, (own k).isNull = false → after k = own k) (he : e ∈ c.edges)
    (hown : e.writesOwnColumn = true) (hfk : e.columns = [fk]) :
    after fk ∈ c.targetsOf e ∧ ∀ t ∈ c.targetsOf e, t = after fk := by
  obtain ⟨p, hp, hcolumns, rest, hnodes⟩ := Node.exists_ownColumn w.ownColumns he hown
  obtain rfl : fk = p.1 := by simpa using hfk.symm.trans hcolumns
  obtain ⟨t, ht⟩ := (w.complete e he).single (.inr hown)
  obtain ⟨rfl, rfl⟩ : p.2 = t ∧ rest = [] := by simpa using hnodes.symm.trans ht
  have hwritten : own p.1 = p.2 := w.row.written p (List.mem_append_right _ hp)
  have hpresent := h.targets e he p.2 (by simp [ht])
  rw [hafter p.1 (by rw [hwritten, hpresent]), hwritten]
  refine ⟨mem_targetsOf.mpr ⟨e, he, e.sameRelation_self, by simp [ht]⟩, fun t' ht' => ?_⟩
  obtain ⟨f, hf, hrelation, htf⟩ := mem_targetsOf.mp ht'
  obtain ⟨-, -, htable, hsame⟩ := Edge.sameRelation_iff.mp hrelation
  have hbidi := (h.agree_column he hf htable.symm hsame.symm).2
  have hown' := (Edge.writesOwnColumn_congr hrelation hbidi).symm.trans hown
  obtain rfl : e = f := Node.eq_of_ownColumns w.ownColumns he hf hown hown' hsame
  rw [ht] at htf
  exact List.mem_singleton.mp htf

/-- The pairs of a join table that have the node at their own end, or that an edge links. -/
theorem hasPair (h : c.Fits E S d s.current)
    (w : c.Writes E S conn x supplied columns own s inserted joined s') (he : e ∈ c.edges)
    (hmany : e.isManyToMany = true) {c₁ c₂ : String} (hcolumns : e.columns = [c₁, c₂])
    (p : Value × Value) :
    (s'.current (nameParts e.table)).HasPair E c₁ c₂ p ↔
      (s.current (nameParts e.table)).HasPair E c₁ c₂ p ∨
        ∃ f ∈ c.edges, e.sameRelation f = true ∧ e.bidi = f.bidi ∧ f.Links E (· ∈ [x]) p := by
  obtain ⟨hnode, hforeign, hjoin⟩ := h.joinTable e he hmany
  have hlinked : s'.current (nameParts e.table) = joined.current (nameParts e.table) := by
    refine leads_forM_invariant
      (fun db => db (nameParts e.table) = joined.current (nameParts e.table))
      (fun f hf t t' ht hkeep => ?_) w.links rfl
    obtain ⟨hf, hf'⟩ := w.mem_links.mp hf
    obtain ⟨fk, -, -, hcurrent, -⟩ := ForeignKey.leads_link ht
    rw [hcurrent, Update.applied_of_ne, hkeep]
    exact fun hname => hforeign f hf hf' (nameParts_injective hname).symm
  have hbefore : inserted.current (nameParts e.table) = s.current (nameParts e.table) :=
    w.row.others _ fun hname => hnode (nameParts_injective hname)
  have hagree : ∀ f ∈ c.edges, f.isManyToMany = true → f.table = e.table →
      e.sameRelation f = true ∧ e.bidi = f.bidi :=
    fun f hf hmany' htable => h.agree e he f hf htable.symm (.inr ⟨hmany, hmany'⟩)
  have hlinks : ∀ link ∈ c.edges.map fun e => ([x], e), link.2.isManyToMany = true →
      link.2.table = e.table → link.2.columns = [c₁, c₂] := by
    intro link hlink hmany' htable
    obtain ⟨f, hf, rfl⟩ := List.mem_map.mp hlink
    have hrelation := (hagree f hf hmany' htable).1
    exact (Edge.sameRelation_iff.mp hrelation).2.2.2.symm.trans hcolumns
  rw [hlinked, JoinTable.reaches_add hlinks (hjoin c₁ c₂ hcolumns) w.joins, hbefore]
  refine or_congr Iff.rfl ⟨?_, ?_⟩
  · rintro ⟨link, hlink, hmany', htable, hp⟩
    obtain ⟨f, hf, rfl⟩ := List.mem_map.mp hlink
    obtain ⟨hrelation, hbidi⟩ := hagree f hf hmany' htable
    exact ⟨f, hf, hrelation, hbidi, hp⟩
  · rintro ⟨f, hf, hrelation, -, hp⟩
    exact ⟨([x], f), List.mem_map_of_mem hf, (Edge.isManyToMany_congr hrelation).symm.trans hmany,
      (Edge.sameRelation_iff.mp hrelation).2.2.1.symm, hp⟩

theorem joinTables_stored (hE : E.ByKey) (h : c.Fits E S d s.current)
    (w : c.Writes E S conn x supplied columns own s inserted joined s')
    (hx : E.equal (own c.node.id.column) x = true) (he : e ∈ c.edges)
    (hmany : e.isManyToMany = true) {o o' : String} (hjoin : e.joinColumns = .ok (o, o'))
    (v : Value) :
    (s'.current (nameParts e.table)).links E o o' x v = (c.targetsOf e).any (E.equal v) := by
  have hself : E.equal x x = true :=
    hE.equal_self (Engine.isNull_of_equal_right hx)
  obtain ⟨c₁, c₂, hcolumns⟩ := (w.complete e he).exists_columns hmany
  have hnone : ¬(s.current (nameParts e.table)).HasPair E c₁ c₂ (e.pair x v) := by
    rw [← Table.links_iff_hasPair hcolumns hjoin, Table.links, List.any_eq_true]
    rintro ⟨r, hr, hboth⟩
    have hequal := (Bool.and_eq_true_iff.mp hboth).1
    rw [w.not_referred h hx he (.inr ⟨hmany, o', hjoin⟩) r hr] at hequal
    cases hequal
  rw [Bool.eq_iff_iff, Table.links_iff_hasPair hcolumns hjoin, w.hasPair h he hmany hcolumns,
    or_iff_right hnone, List.any_eq_true]
  constructor
  · rintro ⟨f, hf, hrelation, -, hlinks⟩
    rw [Edge.pair_congr hrelation, Edge.links_pair_iff hself] at hlinks
    obtain ⟨t, ht, hequal⟩ := hlinks
    exact ⟨t, mem_targetsOf.mpr ⟨f, hf, hrelation, ht⟩, hequal⟩
  · rintro ⟨t, ht, hequal⟩
    obtain ⟨f, hf, hrelation, ht⟩ := mem_targetsOf.mp ht
    obtain ⟨-, -, htable, -⟩ := Edge.sameRelation_iff.mp hrelation
    have hmany' := (Edge.isManyToMany_congr hrelation).symm.trans hmany
    refine ⟨f, hf, hrelation, (h.agree e he f hf htable (.inr ⟨hmany, hmany'⟩)).2, ?_⟩
    rw [Edge.pair_congr hrelation, Edge.links_pair_iff hself]
    exact ⟨t, ht, hequal⟩

theorem exchanged_stored (hE : E.ByKey) (h : c.Fits E S d s.current)
    (w : c.Writes E S conn x supplied columns own s inserted joined s')
    (hx : E.equal (own c.node.id.column) x = true) (he : e ∈ c.edges)
    (hmany : e.isManyToMany = true) (hbidi : e.bidi = true) {o o' : String}
    (hjoin : e.joinColumns = .ok (o, o')) {t : Value} (ht : t ∈ c.targetsOf e) :
    (s'.current (nameParts e.table)).links E o o' t x = true := by
  have hself : E.equal x x = true :=
    hE.equal_self (Engine.isNull_of_equal_right hx)
  obtain ⟨c₁, c₂, hcolumns⟩ := (w.complete e he).exists_columns hmany
  obtain ⟨f, hf, hrelation, ht⟩ := mem_targetsOf.mp ht
  obtain ⟨-, -, htable, -⟩ := Edge.sameRelation_iff.mp hrelation
  have hmany' := (Edge.isManyToMany_congr hrelation).symm.trans hmany
  have hsame := (h.agree e he f hf htable (.inr ⟨hmany, hmany'⟩)).2
  rw [Table.links_iff_hasPair hcolumns hjoin, w.hasPair h he hmany hcolumns]
  refine .inr ⟨f, hf, hrelation, hsame, ?_⟩
  rw [Edge.pair_congr hrelation]
  refine ⟨x, List.mem_singleton.mpr rfl, t, ht, .inr ⟨hsame.symm.trans hbidi, ?_⟩⟩
  rw [Edge.samePair_pair, Prod.swap_swap, Edge.ownEnd_pair, Edge.ownEnd_swap_pair]
  exact ⟨hself, hE.equal_self (h.targets f hf t ht)⟩

end Writes

end Steps

/-- A creation that has a result has stored its edges; the keys still hold, and no columns have
changed. -/
theorem stored_of_run {c : NodeCreation} (hE : E.ByKey) (h : c.Fits E S d s.current)
    (hs : s.current.Obeys E S.keys) (hrun : (c.run d).Reaches (Call.Records E S) s x s')
    (hreads : (s'.current (nameParts c.node.table)).ReadsAs c.node.id.column c.node.id.type) :
    s'.current.Obeys E S.keys ∧
      (∀ name k, (s.current name).HasColumn k → (s'.current name).HasColumn k) ∧
        ∃ own, c.Stored E x own s'.current := by
  obtain ⟨conn, supplied, columns, own, start, inserted, joined, mid, hstart, -, w, hs'⟩ :=
    reaches_run h.policy (hs _ h.key).toHasColumn h.tellsId hrun
  rw [hs'] at hreads ⊢
  rw [← hstart] at h ⊢
  obtain ⟨hx, after, hmem, hid, hafter⟩ := w.exists_own hE h hreads
  refine ⟨(w.links_keep h).2, fun name k => w.hasColumn, after, ?_⟩
  exact
    { mem := hmem
      id := by rwa [hid]
      complete := w.complete
      ownColumns := fun e he hown fk => w.ownColumns_stored h hafter he hown
      foreignKeys := fun e he hforeign fk hfk k => w.foreignKeys_stored hE h hx he hforeign hfk
      joinTables := fun e he hmany o o' => w.joinTables_stored hE h hx he hmany
      exchanged := fun e he hmany hbidi o o' hjoin t =>
        w.exchanged_stored hE h hx he hmany hbidi hjoin }

end NodeCreation

end EntityGraph
