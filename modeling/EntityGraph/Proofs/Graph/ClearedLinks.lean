import EntityGraph.Proofs.Graph.LostPairs

/-!
# Links that an update clears

The links of a relation are stored in a join table, in the targets' rows or in the nodes' own rows.
An update that only removes edges of a relation takes links away from there in two steps: the UPDATE
of the nodes' own rows clears their foreign keys, and the changes of edges take away the listed links
everywhere else. What is left at each place after both steps is put together in `removes_of_clears`.
-/

set_option autoImplicit false

namespace EntityGraph

open Program

variable {E : Engine} {keys : List (String × String)} {s s' : Session} {conn : Connection}
  {table c₁ c₂ c k fk : String} {ids : List Value} {nodes : Value → Prop} {x v : Value}

/-! ## Where the links of a relation are stored -/

namespace Edge

variable {node : Node} {e f : Edge} {own other : String}

/-- A table in which the links of an edge of a node are stored, with the column of the node and that
of the target. -/
inductive StoredAt (node : Node) (e : Edge) : String → String → String → Prop
  | ownRow {fk : String} (stored : e.writesOwnColumn = true) (column : e.columns = [fk]) :
      StoredAt node e node.table node.id.column fk
  | targetRow {fk : String} (stored : e.isForeignKeyEdge = true) (column : e.columns = [fk]) :
      StoredAt node e e.table fk e.target.id.column
  | joined {own other : String} (stored : e.isManyToMany = true)
      (columns : e.joinColumns = .ok (own, other)) : StoredAt node e e.table own other
  | exchanged {own other : String} (stored : e.isManyToMany = true) (both : e.bidi = true)
      (columns : e.joinColumns = .ok (own, other)) : StoredAt node e e.table other own

/-- The links of an edge are stored in a column of a table. -/
def Uses (node : Node) (e : Edge) (table c : String) : Prop :=
  ∃ own other, e.StoredAt node table own other ∧ (c = own ∨ c = other)

/-- Writing or clearing an edge of a node leaves a column of a table alone. -/
def StaysOut (node : Node) (e : Edge) (table c : String) : Prop :=
  e.isStoredIn node table c = false ∧ (e.isManyToMany = true → e.table ≠ table)

/-- The row of a link of the relation is the own row of one of some nodes. -/
def InOwnRow (E : Engine) (node : Node) (e : Edge) (nodes : Value → Prop)
    (table own other : String) (x v : Value) : Prop :=
  e.writesOwnColumn = true ∧ table = node.table ∧ ∃ i, nodes i ∧
    (own = node.id.column ∧ E.equal x i = true ∨ other = node.id.column ∧ E.equal v i = true)

end Edge

namespace NodeUpdate

variable {u : NodeUpdate} {own w : Update} {e f : Edge} {db : Database} {d : Dialect}

/-- The update lists the link of one of its nodes among those that it removes. -/
def Lists (E : Engine) (u : NodeUpdate) (e : Edge) (nodes : Value → Prop) (x v : Value) : Prop :=
  ∃ f ∈ u.edges.clear, e.sameRelation f = true ∧ f.Links E nodes (f.pair x v)

/-- All that an update does to a relation is to remove edges to listed targets. -/
structure OnlyRemoves (keys : List (String × String)) (u : NodeUpdate) (e : Edge) (db : Database) :
    Prop where
  mem : e ∈ u.edges.clear
  /-- The cleared edges of the relation have targets, whose IDs are in one column. -/
  relation : ∀ f ∈ u.edges.clear, e.sameRelation f = true →
    f.target.nodes ≠ [] ∧ e.bidi = f.bidi ∧ f.target.id.column = e.target.id.column
  /-- Other edges are stored elsewhere, as the fields are. -/
  cleared : ∀ f ∈ u.edges.clear, e.sameRelation f = true ∨
    ∀ table c, e.Uses u.node table c → f.StaysOut u.node table c
  added : ∀ f ∈ u.edges.add, ∀ table c, e.Uses u.node table c → f.StaysOut u.node table c
  fields : ∀ c, e.Uses u.node u.node.table c →
    (∀ f ∈ u.fields.set ++ u.fields.add, columnName f.column ≠ c) ∧
      ∀ name ∈ u.fields.clear, columnName name ≠ c
  /-- A relation serves both directions if it is of many to many, or of one to one between nodes of
  one table. -/
  bidi : e.bidi = true → e.isManyToMany = true ∨
    e.isOneToOne = true ∧ e.table = u.node.table ∧ e.target.id.column = u.node.id.column
  key : (u.node.table, u.node.id.column) ∈ keys
  columns : ∀ table c, e.Uses u.node table c → (db (nameParts table)).HasColumn c

/-- Of the links of a relation from some nodes those that the update lists are lost, and no
others. -/
def RemovesListed (E : Engine) (u : NodeUpdate) (e : Edge) (nodes : Value → Prop)
    (before after : Database) : Prop :=
  ∀ table own other, e.StoredAt u.node table own other → ∀ x v, nodes x →
    ((after (nameParts table)).HasPair E own other (x, v) ↔
      (before (nameParts table)).HasPair E own other (x, v) ∧ ¬u.Lists E e nodes x v)

/-- What an update removes from a relation. -/
structure Removes (E : Engine) (u : NodeUpdate) (e : Edge) (nodes : Value → Prop)
    (before after : Database) : Prop where
  /-- The links that it lists are lost, and all that are stored in own rows of its nodes. -/
  links : ∀ table own other, e.StoredAt u.node table own other → ∀ x v, nodes x →
    ((after (nameParts table)).HasPair E own other (x, v) ↔
      (before (nameParts table)).HasPair E own other (x, v) ∧ ¬u.Lists E e nodes x v ∧
        ¬e.InOwnRow E u.node nodes table own other x v)
  /-- So it removes what it lists only where the links in own rows have all been listed. -/
  listed : u.RemovesListed E e nodes before after ↔
    ∀ table own other, e.StoredAt u.node table own other → ∀ x v, nodes x →
      (before (nameParts table)).HasPair E own other (x, v) →
        e.InOwnRow E u.node nodes table own other x v → u.Lists E e nodes x v

theorem Removes.of_links {before after : Database}
    (h : ∀ table own other, e.StoredAt u.node table own other → ∀ x v, nodes x →
      ((after (nameParts table)).HasPair E own other (x, v) ↔
        (before (nameParts table)).HasPair E own other (x, v) ∧ ¬u.Lists E e nodes x v ∧
          ¬e.InOwnRow E u.node nodes table own other x v)) :
    u.Removes E e nodes before after := by
  refine ⟨h, fun hlisted table own other hstored x v hx hbefore hrow => ?_,
    fun hrows table own other hstored x v hx => ?_⟩
  · by_contra hspared
    have hafter := (hlisted table own other hstored x v hx).mpr ⟨hbefore, hspared⟩
    exact ((h table own other hstored x v hx).mp hafter).2.2 hrow
  · rw [h table own other hstored x v hx]
    refine and_congr_right fun hbefore => and_iff_left_of_imp fun hspared hrow => ?_
    exact hspared (hrows table own other hstored x v hx hbefore hrow)

end NodeUpdate

/-! ## Columns that are left alone -/

namespace Edge

variable {node : Node} {e f : Edge} {own other : String}

theorem StoredAt.uses (h : e.StoredAt node table own other) :
    e.Uses node table own ∧ e.Uses node table other :=
  ⟨⟨own, other, h, .inl rfl⟩, own, other, h, .inr rfl⟩

theorem StaysOut.ownRow (h : f.StaysOut node node.table c) (hwrites : f.writesOwnColumn = true)
    (hfk : f.columns = [fk]) : columnName fk ≠ c := by
  rintro rfl
  have hnone := h.1
  simp [isStoredIn, hfk, hwrites] at hnone

theorem StaysOut.targetRow (h : f.StaysOut node f.table c) (hforeign : f.isForeignKeyEdge = true)
    (hfk : f.columns = [fk]) : columnName fk ≠ c := by
  rintro rfl
  have hnone := h.1
  simp [isStoredIn, hfk, hforeign] at hnone

theorem StaysOut.spares (h₁ : f.StaysOut node table c₁) (h₂ : f.StaysOut node table c₂)
    (hforeign : f.isForeignKeyEdge = true) : f.SparesColumns table c₁ c₂ := by
  rintro rfl fk hfk
  exact ⟨h₁.targetRow hforeign hfk, h₂.targetRow hforeign hfk⟩

/-- An edge that is stored at both its ends is of one to one and serves both directions. -/
theorem bidi_of_ends (hforeign : e.isForeignKeyEdge = true) (hwrites : e.writesOwnColumn = true) :
    e.isOneToOne = true ∧ e.bidi = true := by
  unfold isForeignKeyEdge at hforeign
  unfold writesOwnColumn at hwrites
  unfold isOneToOne
  cases hrelation : e.relation <;> simp_all

/-- An edge that is not stored outside its node's row has no foreign key elsewhere, and is not of
many to many. -/
theorem internal (h : e.writesExternal = false) :
    e.isForeignKeyEdge = false ∧ e.isManyToMany = false := by
  unfold writesExternal at h
  unfold isForeignKeyEdge isManyToMany
  cases hrelation : e.relation <;> simp_all

theorem writesOwnColumn_of_bidi (hone : e.isOneToOne = true) (hbidi : e.bidi = true) :
    e.writesOwnColumn = true := by
  unfold writesOwnColumn
  rw [eq_of_beq hone, hbidi, Bool.or_true]

/-- The pairs of a join table, the node's value first. -/
theorem exists_columns_of_join {own other : String} (h : e.joinColumns = .ok (own, other)) :
    ∃ c₁ c₂, e.columns = [c₁, c₂] ∧ ∀ {t : Table} {x v : Value},
      t.HasPair E own other (x, v) ↔ t.HasPair E c₁ c₂ (e.pair x v) := by
  unfold joinColumns at h
  split at h
  case h_2 => cases h
  case h_1 c₁ c₂ hcolumns =>
    refine ⟨c₁, c₂, hcolumns, fun {t x v} => ?_⟩
    unfold pair
    cases hinverse : e.inverse with
    | true =>
      rw [hinverse] at h
      cases h
      exact Table.hasPair_swap
    | false =>
      rw [hinverse] at h
      cases h
      exact Iff.rfl

end Edge

/-! ## The nodes' own rows -/

namespace NodeUpdate

variable {u : NodeUpdate} {own w : Update} {e f : Edge} {db : Database} {d : Dialect}

/-- In the nodes' own rows all links of a relation are lost. -/
def ClearsOwn (E : Engine) (u : NodeUpdate) (e : Edge) (nodes : Value → Prop)
    (before after : Database) : Prop :=
  ∀ table c₁ c₂, e.Uses u.node table c₁ → e.Uses u.node table c₂ →
    (e.writesOwnColumn = true → table = u.node.table →
      c₁ = u.node.id.column ∧ e.columns = [c₂]) →
      (before (nameParts table)).Loses E c₁ c₂
        (fun p => e.writesOwnColumn = true ∧ table = u.node.table ∧
          ∃ i, nodes i ∧ E.equal p.1 i = true) (after (nameParts table))

namespace OnlyRemoves

/-- The UPDATE of own rows sets none of the relation's columns. -/
theorem sets_ne (h : u.OnlyRemoves keys e db) (hown : u.ownUpdate = .ok own)
    (hc : e.Uses u.node u.node.table c) : ∀ a ∈ own.sets, columnName a.1 ≠ c := by
  obtain ⟨sets, adds, hassigns⟩ := ownUpdate_ok hown
  obtain ⟨hfields, -⟩ := h.fields c hc
  intro a ha
  rw [hassigns.sets] at ha
  rcases List.mem_append.mp ha with ha | ha
  · obtain ⟨a', ha', rfl⟩ := List.mem_map.mp ha
    rcases Node.mem_ownColumns hassigns.columns ha' with ⟨f, hf, -, hcolumn⟩ |
      ⟨f, hf, hwrites, hlinked⟩
    · exact hcolumn ▸ hfields f (List.mem_append_left _ hf)
    · exact (h.added f hf _ c hc).ownRow hwrites hlinked.1
  · obtain ⟨a', ha', rfl⟩ := List.mem_map.mp ha
    obtain ⟨f, hf, hcolumn⟩ := hassigns.increments a' ha'
    exact hcolumn ▸ hfields f (List.mem_append_right _ hf)

/-- The UPDATE of own rows clears a column of the relation or leaves it as it is. -/
theorem assigned_or (h : u.OnlyRemoves keys e db) (hown : u.ownUpdate = .ok own)
    (hc : e.Uses u.node u.node.table c) (r : Tuple) :
    (own.assigned E r c = .null ∧ ∃ a ∈ own.assignments, columnName a.1 = c) ∨
      (own.assigned E r c = r c ∧ ∀ a ∈ own.assignments, columnName a.1 ≠ c) := by
  refine Update.foldl_assign_value (fun a ha hname => ?_) r r
  rcases Update.mem_assignments.mp ha with ⟨column, -, rfl⟩ | ha
  · rfl
  · exact absurd hname (h.sets_ne hown hc a ha)

/-- It clears none where the relation is not stored in own rows. -/
theorem assigned_eq (h : u.OnlyRemoves keys e db) (hown : u.ownUpdate = .ok own)
    (hwrites : e.writesOwnColumn = false) (hc : e.Uses u.node u.node.table c) (r : Tuple) :
    own.assigned E r c = r c := by
  rcases h.assigned_or hown hc r with ⟨-, a, ha, hname⟩ | ⟨hsame, -⟩
  · exfalso
    rcases Update.mem_assignments.mp ha with ⟨column, hcolumn, rfl⟩ | ha
    · rcases (mem_nulls_iff hown).mp hcolumn with hfield | ⟨f, hf, hwrites', hfk, -⟩
      · exact (h.fields c hc).2 column hfield hname
      · rcases h.cleared f hf with hsame | hout
        · rw [Edge.writesOwnColumn_congr hsame (h.relation f hf hsame).2.1, hwrites'] at hwrites
          cases hwrites
        · exact (hout _ c hc).ownRow hwrites' hfk hname
    · exact h.sets_ne hown hc a ha hname
  · exact hsame

/-- It clears the foreign key where the relation is stored in own rows. -/
theorem assigned_null (h : u.OnlyRemoves keys e db) (hown : u.ownUpdate = .ok own)
    (hwrites : e.writesOwnColumn = true) (hfk : e.columns = [fk]) (r : Tuple) :
    own.assigned E r fk = .null := by
  have hstored : e.StoredAt u.node u.node.table u.node.id.column fk := .ownRow hwrites hfk
  have huses := hstored.uses.2
  have hname : columnName fk = fk := columnName_plain (h.columns _ _ huses).plain
  rcases h.assigned_or hown huses r with ⟨hnull, -⟩ | ⟨-, hnone⟩
  · exact hnull
  · have hcleared : fk ∈ own.nulls := (mem_nulls_iff hown).mpr (.inr
      ⟨e, h.mem, hwrites, hfk, fun v hset => h.sets_ne hown huses _ hset hname⟩)
    refine absurd hname (hnone (fk, .value .null) ?_)
    exact Update.mem_assignments.mpr (.inl ⟨fk, hcleared, rfl⟩)

/-- The UPDATE of the nodes' own rows takes nothing away, unless the relation is stored there. -/
theorem clearsOwn (h : u.OnlyRemoves keys e db) (hown : u.ownUpdate = .ok own)
    (htable : w.table = u.node.table) (hassigned : w.assigned E = own.assigned E)
    (hreached : ∀ r ∈ (db (nameParts u.node.table)).rows,
      db.meets E u.node.table w.predicate r = true ↔
        ∃ i, nodes i ∧ E.equal (r u.node.id.column) i = true) :
    u.ClearsOwn E e nodes db (w.applied E db) := by
  intro table c₁ c₂ h₁ h₂ hcolumns
  by_cases hsame : table = u.node.table
  · subst hsame
    have hrow : ∀ r, w.rowIn E db (nameParts u.node.table) r =
        if db.meets E u.node.table w.predicate r = true then own.assigned E r else r := by
      intro r
      rw [Update.rowIn, htable, if_pos rfl, Update.rowAfter, htable, hassigned]
    refine .of_map (Update.applied_rows w) (fun r _ c hc => ?_) fun r hr p hp => ?_
    · rw [hrow]
      split
      case isFalse => exact .inl rfl
      case isTrue =>
        have huses : e.Uses u.node u.node.table c := by
          rcases hc with rfl | rfl
          · exact h₁
          · exact h₂
        rcases h.assigned_or hown huses r with ⟨hnull, -⟩ | ⟨hkept, -⟩
        · exact .inr (by rw [hnull]; rfl)
        · exact .inl hkept
    · have hp₁ : (r c₁).isNull = false := Engine.isNull_of_equal hp.1
      have hp₂ : (r c₂).isNull = false := Engine.isNull_of_equal hp.2
      rw [hrow]
      cases hwrites : e.writesOwnColumn with
      | false =>
        refine iff_of_false (fun h => by cases h.1) ?_
        split
        case isFalse => simp [hp₁, hp₂]
        case isTrue =>
          simp [h.assigned_eq hown hwrites h₁, h.assigned_eq hown hwrites h₂, hp₁, hp₂]
      | true =>
        obtain ⟨rfl, hfk⟩ := hcolumns hwrites rfl
        have hnode : ∀ i, E.equal p.1 i = E.equal (r u.node.id.column) i :=
          fun i => (Engine.equal_congr_left hp.1 i).symm
        simp only [hnode, true_and]
        rw [← hreached r hr]
        split
        case isTrue hmet =>
          refine iff_of_true hmet (.inr ?_)
          rw [h.assigned_null hown hwrites hfk]
          rfl
        case isFalse hspared => exact iff_of_false hspared (by simp [hp₁, hp₂])
  · have hname : nameParts table ≠ nameParts w.table := by
      rw [htable]
      exact fun hparts => hsame (nameParts_injective hparts)
    rw [Update.applied_of_ne hname]
    exact (Table.Loses.refl _).congr fun p => iff_of_false not_false fun h => hsame h.2.1

/-! ## Changed edges -/

/-- Linking targets takes no link of the relation away. -/
theorem add_loses_none (h : u.OnlyRemoves keys e db) (h₁ : e.Uses u.node table c₁)
    (h₂ : e.Uses u.node table c₂)
    (hadd : (ForeignKey.add conn ids u.edges.add).Leads E keys s () s') :
    (s.current (nameParts table)).Loses E c₁ c₂ (fun _ => False) (s'.current (nameParts table)) :=
  ForeignKey.leads_add_loses_none
    (fun f hf hforeign => (h.added f hf _ _ h₁).spares (h.added f hf _ _ h₂) hforeign) hadd

/-- Writing join tables leaves the tables of the relation as they are. -/
theorem joined_eq (h : u.OnlyRemoves keys e db) (hc : e.Uses u.node table c)
    (hs : s.current.Obeys E keys)
    (hjoin : (JoinTable.add conn (u.edges.add.map fun f => (ids, f))).Leads E keys s () s') :
    s'.current (nameParts table) = s.current (nameParts table) := by
  refine (JoinTable.leads_add (fun link hlink hmany hname => ?_) hjoin hs).1
  obtain ⟨f, hf, rfl⟩ := List.mem_map.mp hlink
  exact (h.added f hf _ c hc).2 hmany (nameParts_injective hname)

/-- Changing edges takes the listed links away where the relation is stored in a foreign key. -/
theorem change_loses_keys (h : u.OnlyRemoves keys e db) (hids : ids ≠ []) (hfk : e.columns = [fk])
    (hmany : e.isManyToMany = false) (h₁ : e.Uses u.node table k) (h₂ : e.Uses u.node table fk)
    (hplace : e.isForeignKeyEdge = true → e.table = table ∧ e.target.id.column = k)
    (hs : s.current.Obeys E keys)
    (hchange : (ExternalEdges.change conn ids u.edges).Leads E keys s () s') :
    (s.current (nameParts table)).Loses E k fk
      (fun p => ∃ f ∈ u.edges.clear, e.sameRelation f = true ∧ f.isForeignKeyEdge = true ∧
        f.Joins E (· ∈ ids) p.2 p.1) (s'.current (nameParts table)) := by
  obtain ⟨_, dropped, hdrop, hrest⟩ := leads_bind.mp hchange
  obtain ⟨_, joined, hjoin, hforeign⟩ := leads_bind.mp hrest
  obtain ⟨_, cleared, hclear, hadd⟩ := leads_bind.mp hforeign
  have hdropped : dropped.current (nameParts table) = s.current (nameParts table) := by
    refine JoinTable.leads_clear_of_ne (fun f hf hmany' hname => ?_) hdrop
    rcases h.cleared f hf with hsame | hout
    · rw [Edge.isManyToMany_congr hsame, hmany'] at hmany
      cases hmany
    · exact (hout _ _ h₁).2 hmany' (nameParts_injective hname)
  have hobeys := (JoinTable.leads_clear hids hdrop (Eq.refl (s.current []).columns) hs).2.2
  have hkplain := (h.columns _ _ h₁).plain
  have hfkplain := (h.columns _ _ h₂).plain
  have hedges : ∀ f ∈ u.edges.clear, f.isForeignKeyEdge = true →
      (f.table = table ∧ f.columns = [fk] ∧ f.target.id.column = k ∧ f.target.nodes ≠ []) ∨
        f.SparesColumns table k fk := by
    intro f hf hforeign'
    refine (h.cleared f hf).imp (fun hsame => ?_) fun hout =>
      (hout _ _ h₁).spares (hout _ _ h₂) hforeign'
    obtain ⟨-, -, htable, hcolumns⟩ := Edge.sameRelation_iff.mp hsame
    obtain ⟨hplace, hk⟩ := hplace ((Edge.isForeignKeyEdge_congr hsame).trans hforeign')
    obtain ⟨hnodes, -, hid⟩ := h.relation f hf hsame
    exact ⟨htable ▸ hplace, hcolumns ▸ hfk, hid.trans hk, hnodes⟩
  have hkeys := ForeignKey.leads_clear_loses hids hfkplain hkplain hedges hclear
  rw [h.joined_eq h₁ hobeys hjoin, hdropped] at hkeys
  refine (hkeys.trans (h.add_loses_none h₁ h₂ hadd)).congr fun p => ?_
  rw [or_false]
  refine exists_congr fun f => and_congr_right fun hf => ⟨?_, ?_⟩
  · rintro ⟨hforeign', rfl, hcolumns, hjoins⟩
    refine ⟨(h.cleared f hf).resolve_right fun hout => ?_, hforeign', hjoins⟩
    exact (hout _ _ h₂).targetRow hforeign' hcolumns (columnName_plain hfkplain)
  · rintro ⟨hsame, hforeign', hjoins⟩
    obtain ⟨-, -, htable, hcolumns⟩ := Edge.sameRelation_iff.mp hsame
    obtain ⟨hplace, -⟩ := hplace ((Edge.isForeignKeyEdge_congr hsame).trans hforeign')
    exact ⟨hforeign', htable ▸ hplace, hcolumns ▸ hfk, hjoins⟩

/-- Changing edges takes the listed links away from a join table. -/
theorem change_loses_pairs (h : u.OnlyRemoves keys e db) (hids : ids ≠ [])
    (hcolumns : e.columns = [c₁, c₂]) (hmany : e.isManyToMany = true)
    (h₁ : e.Uses u.node e.table c₁) (h₂ : e.Uses u.node e.table c₂)
    (hc₁ : (s.current (nameParts e.table)).HasColumn c₁)
    (hc₂ : (s.current (nameParts e.table)).HasColumn c₂) (hs : s.current.Obeys E keys)
    (hchange : (ExternalEdges.change conn ids u.edges).Leads E keys s () s') :
    (s.current (nameParts e.table)).Loses E c₁ c₂
      (fun p => ∃ f ∈ u.edges.clear, e.sameRelation f = true ∧ f.Links E (· ∈ ids) p)
      (s'.current (nameParts e.table)) := by
  obtain ⟨_, dropped, hdrop, hrest⟩ := leads_bind.mp hchange
  obtain ⟨_, joined, hjoin, hforeign⟩ := leads_bind.mp hrest
  obtain ⟨_, cleared, hclear, hadd⟩ := leads_bind.mp hforeign
  have hsame : ∀ f ∈ u.edges.clear, f.isManyToMany = true → f.table = e.table →
      e.sameRelation f = true := fun f hf hmany' htable =>
    (h.cleared f hf).resolve_right fun hout => (hout _ _ h₁).2 hmany' htable
  have hpairs : (s.current (nameParts e.table)).Loses E c₁ c₂
      (fun p => ∃ f ∈ u.edges.clear, f.isManyToMany = true ∧ f.table = e.table ∧
        f.Clears E (· ∈ ids) p) (dropped.current (nameParts e.table)) := by
    intro p
    refine JoinTable.leads_clear_pairs hids (fun f hf hmany' htable => ?_) hc₁ hc₂ hs hdrop
    rw [← (Edge.sameRelation_iff.mp (hsame f hf hmany' htable)).2.2.2, hcolumns]
  have hobeys := (JoinTable.leads_clear hids hdrop (Eq.refl (s.current []).columns) hs).2.2
  rw [← h.joined_eq h₁ hobeys hjoin] at hpairs
  have hspares : ∀ f ∈ u.edges.clear, f.isForeignKeyEdge = true →
      f.SparesColumns e.table c₁ c₂ := by
    intro f hf hforeign'
    rcases h.cleared f hf with hsame | hout
    · rw [Edge.isManyToMany_congr hsame, Edge.isManyToMany_of_foreignKey hforeign'] at hmany
      cases hmany
    · exact (hout _ _ h₁).spares (hout _ _ h₂) hforeign'
  have hkeys := ForeignKey.leads_clear_loses hids hc₂.plain hc₁.plain
    (fun f hf hforeign' => .inr (hspares f hf hforeign')) hclear
  refine ((hpairs.trans hkeys).trans (h.add_loses_none h₁ h₂ hadd)).congr fun p => ?_
  rw [or_false, or_iff_left]
  · refine exists_congr fun f => and_congr_right fun hf => ⟨?_, ?_⟩
    · rintro ⟨hmany', htable, hclears⟩
      have hrelation := hsame f hf hmany' htable
      exact ⟨hrelation, hclears.resolve_right fun hall => (h.relation f hf hrelation).1 hall.1⟩
    · rintro ⟨hrelation, hlinks⟩
      refine ⟨(Edge.isManyToMany_congr hrelation).symm.trans hmany, ?_, .inl hlinks⟩
      exact (Edge.sameRelation_iff.mp hrelation).2.2.1.symm
  · rintro ⟨f, hf, hforeign', htable, hfk, -⟩
    exact (hspares f hf hforeign' htable _ hfk).2 (columnName_plain hc₂.plain)

end OnlyRemoves

/-- Outside the nodes' own rows the listed links of a relation are lost, and no others. -/
structure ClearsListed (E : Engine) (u : NodeUpdate) (e : Edge) (nodes : Value → Prop)
    (before after : Database) : Prop where
  keys : ∀ table k fk, e.columns = [fk] → e.Uses u.node table k → e.Uses u.node table fk →
    (e.isForeignKeyEdge = true → e.table = table ∧ e.target.id.column = k) →
      e.isManyToMany = false → (before (nameParts table)).Loses E k fk
        (fun p => ∃ f ∈ u.edges.clear, e.sameRelation f = true ∧ f.isForeignKeyEdge = true ∧
          f.Joins E nodes p.2 p.1) (after (nameParts table))
  pairs : ∀ c₁ c₂, e.columns = [c₁, c₂] → e.isManyToMany = true →
    (before (nameParts e.table)).Loses E c₁ c₂
      (fun p => ∃ f ∈ u.edges.clear, e.sameRelation f = true ∧ f.Links E nodes p)
      (after (nameParts e.table))

namespace OnlyRemoves

/-- The two columns of a join table are used by its relation. -/
theorem uses_joined (hmany : e.isManyToMany = true) (hcolumns : e.columns = [c₁, c₂]) :
    e.Uses u.node e.table c₁ ∧ e.Uses u.node e.table c₂ := by
  cases hinverse : e.inverse with
  | true =>
    have hjoin : e.joinColumns = .ok (c₂, c₁) := by
      rw [Edge.joinColumns, hcolumns]
      simp [hinverse]
    exact (Edge.StoredAt.joined hmany hjoin).uses.symm
  | false =>
    have hjoin : e.joinColumns = .ok (c₁, c₂) := by
      rw [Edge.joinColumns, hcolumns]
      simp [hinverse]
    exact (Edge.StoredAt.joined hmany hjoin).uses

theorem clearsListed_of_change (h : u.OnlyRemoves keys e db) (hids : ids ≠ [])
    (hcolumns : ∀ name, (s.current name).columns = (db name).columns)
    (hs : s.current.Obeys E keys)
    (hchange : (ExternalEdges.change conn ids u.edges).Leads E keys s () s') :
    u.ClearsListed E e (· ∈ ids) s.current s'.current where
  keys table k fk hfk h₁ h₂ hplace hmany :=
    h.change_loses_keys hids hfk hmany h₁ h₂ hplace hs hchange
  pairs c₁ c₂ hpair hmany := by
    obtain ⟨h₁, h₂⟩ := uses_joined hmany hpair
    have hhas : ∀ {c}, e.Uses u.node e.table c → (s.current (nameParts e.table)).HasColumn c := by
      intro c hc
      obtain ⟨hplain, hstar, hmem⟩ := h.columns _ _ hc
      exact ⟨hplain, hstar, hcolumns _ ▸ hmem⟩
    exact h.change_loses_pairs hids hpair hmany h₁ h₂ (hhas h₁) (hhas h₂) hs hchange

end OnlyRemoves

/-- A relation that is stored in own rows only has no links outside them. -/
theorem ClearsListed.of_own (hforeign : e.isForeignKeyEdge = false)
    (hmany : e.isManyToMany = false) : u.ClearsListed E e nodes db db where
  keys table k fk _ _ _ _ _ := by
    refine (Table.Loses.refl _).congr fun p => iff_of_false not_false ?_
    rintro ⟨f, -, hsame, hforeign', -⟩
    rw [Edge.isForeignKeyEdge_congr hsame, hforeign'] at hforeign
    cases hforeign
  pairs c₁ c₂ _ hmany' := by
    rw [hmany] at hmany'
    cases hmany'

namespace OnlyRemoves

/-- An edge that is stored at both its ends is of a relation between nodes of one table. -/
theorem ends (h : u.OnlyRemoves keys e db) (hforeign : e.isForeignKeyEdge = true)
    (hwrites : e.writesOwnColumn = true) :
    e.table = u.node.table ∧ e.target.id.column = u.node.id.column := by
  rcases h.bidi (Edge.bidi_of_ends hforeign hwrites).2 with hmany | ⟨-, htable, hid⟩
  · rw [Edge.isManyToMany_of_own hwrites] at hmany
    cases hmany
  · exact ⟨htable, hid⟩

/-- The link is listed if it is in the opposite direction, over an edge that serves both. -/
theorem lists_comm (h : u.OnlyRemoves keys e db) (hbidi : e.bidi = true) :
    u.Lists E e nodes v x ↔ u.Lists E e nodes x v := by
  refine exists_congr fun f => and_congr_right fun hf => and_congr_right fun hsame => ?_
  have hboth : f.bidi = true := (h.relation f hf hsame).2.1 ▸ hbidi
  rw [Edge.links_pair, Edge.links_pair, and_iff_right hboth, and_iff_right hboth, or_comm]

section Links

variable {written after : Database}

/-- Where the foreign key is in the node's own row, the link is lost whatever it leads to. -/
theorem links_ownRow (h : u.OnlyRemoves keys e db) (hown : u.ClearsOwn E e nodes db written)
    (hclears : u.ClearsListed E e nodes written after) (hwrites : e.writesOwnColumn = true)
    (hfk : e.columns = [fk]) (hx : nodes x) :
    (after (nameParts u.node.table)).HasPair E u.node.id.column fk (x, v) ↔
      (db (nameParts u.node.table)).HasPair E u.node.id.column fk (x, v) ∧
        ¬u.Lists E e nodes x v ∧
          ¬e.InOwnRow E u.node nodes u.node.table u.node.id.column fk x v := by
  have hstored : e.StoredAt u.node u.node.table u.node.id.column fk := .ownRow hwrites hfk
  obtain ⟨hid, huses⟩ := hstored.uses
  have hrow := hown _ _ _ hid huses fun _ _ => ⟨rfl, hfk⟩
  have hkeys := hclears.keys _ _ fk hfk hid huses (fun hforeign => h.ends hforeign hwrites)
    (Edge.isManyToMany_of_own hwrites)
  refine (hrow.trans hkeys (x, v)).trans (and_congr_right fun hbefore => ?_)
  obtain ⟨r, -, hpair⟩ := hbefore
  have hself : E.equal x x = true := Engine.equal_trans (Engine.equal_symm hpair.1) hpair.1
  refine iff_of_false (fun hspared => hspared (.inl ⟨hwrites, rfl, x, hx, hself⟩)) fun hspared => ?_
  exact hspared.2 ⟨hwrites, rfl, x, hx, .inl ⟨rfl, hself⟩⟩

/-- Where the foreign key is in the target's row, the link is lost if it is listed, or if that row
is the own row of one of the nodes. -/
theorem links_targetRow (h : u.OnlyRemoves keys e db) (hown : u.ClearsOwn E e nodes db written)
    (hclears : u.ClearsListed E e nodes written after) (hforeign : e.isForeignKeyEdge = true)
    (hfk : e.columns = [fk]) :
    (after (nameParts e.table)).HasPair E fk e.target.id.column (x, v) ↔
      (db (nameParts e.table)).HasPair E fk e.target.id.column (x, v) ∧
        ¬u.Lists E e nodes x v ∧
          ¬e.InOwnRow E u.node nodes e.table fk e.target.id.column x v := by
  have hstored : e.StoredAt u.node e.table fk e.target.id.column := .targetRow hforeign hfk
  obtain ⟨huses, hid⟩ := hstored.uses
  have hrow := hown _ _ _ hid huses fun hwrites _ => ⟨(h.ends hforeign hwrites).2, hfk⟩
  have hkeys := hclears.keys _ _ fk hfk hid huses (fun _ => ⟨rfl, rfl⟩)
    (Edge.isManyToMany_of_foreignKey hforeign)
  rw [Table.hasPair_swap, Table.hasPair_swap (t := db (nameParts e.table))]
  refine (hrow.trans hkeys (v, x)).trans (and_congr_right fun hbefore => ?_)
  rw [← not_or, not_iff_not]
  constructor
  · rintro (⟨hwrites, htable, i, hi, hvi⟩ | ⟨f, hf, hsame, -, hjoins⟩)
    · exact .inr ⟨hwrites, htable, i, hi, .inr ⟨(h.ends hforeign hwrites).2, hvi⟩⟩
    · exact .inl ⟨f, hf, hsame, Edge.links_pair.mpr (.inl hjoins)⟩
  · rintro (⟨f, hf, hsame, hlinks⟩ | ⟨hwrites, htable, i, hi, hends⟩)
    · rcases Edge.links_pair.mp hlinks with hjoins | ⟨hboth, i, hi, t, -, hvi, -⟩
      · exact .inr ⟨f, hf, hsame, (Edge.isForeignKeyEdge_congr hsame).symm.trans hforeign, hjoins⟩
      · -- the link is listed in the opposite direction, and in the own row of its other node
        have hbidi : e.bidi = true := (h.relation f hf hsame).2.1.trans hboth
        rcases h.bidi hbidi with hmany | ⟨hone, htable, -⟩
        · rw [Edge.isManyToMany_of_foreignKey hforeign] at hmany
          cases hmany
        · exact .inl ⟨Edge.writesOwnColumn_of_bidi hone hbidi, htable, i, hi, hvi⟩
    · refine .inl ⟨hwrites, htable, i, hi, ?_⟩
      rcases hends with ⟨hsame, hxi⟩ | ⟨-, hvi⟩
      · -- the foreign key would be the ID itself
        obtain ⟨r, -, hpair⟩ := hbefore
        have hcolumns : e.target.id.column = fk := (h.ends hforeign hwrites).2.trans hsame.symm
        rw [hcolumns] at hpair
        exact Engine.equal_trans (Engine.equal_trans (Engine.equal_symm hpair.1) hpair.2) hxi
      · exact hvi

/-- In a join table the listed links are lost. -/
theorem links_joined (hown : u.ClearsOwn E e nodes db written)
    (hclears : u.ClearsListed E e nodes written after) (hmany : e.isManyToMany = true)
    {node other : String} (hjoin : e.joinColumns = .ok (node, other)) :
    (after (nameParts e.table)).HasPair E node other (x, v) ↔
      (db (nameParts e.table)).HasPair E node other (x, v) ∧ ¬u.Lists E e nodes x v := by
  obtain ⟨c₁, c₂, hcolumns, hpair⟩ := Edge.exists_columns_of_join hjoin
  have hnotown : e.writesOwnColumn = false := by
    rw [Bool.eq_false_iff]
    intro hwrites
    rw [Edge.isManyToMany_of_own hwrites] at hmany
    cases hmany
  obtain ⟨h₁, h₂⟩ := uses_joined (u := u) hmany hcolumns
  have hrow := hown _ _ _ h₁ h₂ fun hwrites => by
    rw [hnotown] at hwrites
    cases hwrites
  rw [hpair, hpair]
  refine (hrow.trans (hclears.pairs c₁ c₂ hcolumns hmany) (e.pair x v)).trans ?_
  refine and_congr_right fun _ => not_congr ?_
  simp only [hnotown, Bool.false_eq_true, false_and, false_or]
  refine exists_congr fun f => and_congr_right fun _ => and_congr_right fun hsame => ?_
  rw [Edge.pair_congr hsame]

/-- An update that writes own rows and then takes the listed links away from elsewhere. -/
theorem removes_of_clears (h : u.OnlyRemoves keys e db) (hown : u.ClearsOwn E e nodes db written)
    (hclears : u.ClearsListed E e nodes written after) : u.Removes E e nodes db after := by
  refine .of_links fun table node other hstored x v hx => ?_
  have hjoined : e.isManyToMany = true → ∀ table node other x v,
      ¬e.InOwnRow E u.node nodes table node other x v := by
    rintro hmany table node other x v ⟨hwrites, -⟩
    rw [Edge.isManyToMany_of_own hwrites] at hmany
    cases hmany
  cases hstored with
  | ownRow hwrites hfk => exact h.links_ownRow hown hclears hwrites hfk hx
  | targetRow hforeign hfk => exact h.links_targetRow hown hclears hforeign hfk
  | joined hmany hjoin =>
    rw [links_joined hown hclears hmany hjoin, and_iff_left (hjoined hmany _ _ _ _ _)]
  | exchanged hmany hboth hjoin =>
    rw [Table.hasPair_swap, Table.hasPair_swap (t := db (nameParts e.table)),
      and_iff_left (hjoined hmany _ _ _ _ _), ← h.lists_comm hboth]
    exact links_joined hown hclears hmany hjoin

end Links

end OnlyRemoves

end NodeUpdate

end EntityGraph
