import Mathlib.Data.List.Pairwise
import EntityGraph.Proofs.Graph.UpdateRuns

/-!
# Partners of one to one edges after an update

The foreign key of a relation of one to one has no value twice, so that no node has two partners.
`Frees` says of an edge that what an update does before it links takes both its ends from the rows
that have them. A probe that finds nothing is enough for that, and so is clearing all edges, if the
foreign key is in the target's row only. The column then has no value twice after the links either,
and only then.
-/

set_option autoImplicit false

namespace EntityGraph

variable {E : Engine}

/-! ## Links and their rivals -/

namespace Edge

/-- The edge is stored in a column of a table. -/
def isStoredIn (node : Node) (table c : String) (e : Edge) : Bool :=
  (e.columns.map columnName).contains c &&
    ((e.writesOwnColumn && node.table == table) || (e.isForeignKeyEdge && e.table == table))

/-- The edge has a node's own row refer to a target, in the table of the relation. -/
def linksOwnRow (node : Node) (e : Edge) : Bool := e.writesOwnColumn && node.table == e.table

end Edge

namespace NodeUpdate

/-- An update adds at most one edge that is stored in a column. It is of the one to one relation of
that column, and nothing else that the update writes is stored there. -/
structure LinksOnce (u : NodeUpdate) (table c : String) : Prop where
  fields : u.node.table = table → ∀ f ∈ u.fields.set ++ u.fields.add, columnName f.column ≠ c
  joins : ∀ e ∈ u.edges.add, e.isManyToMany = true → e.table ≠ table
  once : (u.edges.add.filter (Edge.isStoredIn u.node table c)).length ≤ 1
  relation : ∀ e ∈ u.edges.add, e.isStoredIn u.node table c = true →
    e.isOneToOne = true ∧ e.table = table ∧ e.columns = [c]
  /-- An edge that is stored in both rows leads to nodes of the same type. -/
  symmetric : ∀ e ∈ u.edges.add, e.isStoredIn u.node table c = true →
    e.linksOwnRow u.node = true → e.isForeignKeyEdge = true → e.target.id.column = u.node.id.column

/-- What an update does before it links targets: it updates the node's own row and clears edges. -/
def unlinking (u : NodeUpdate) (p : Option Predicate) (id : Value) : List Command :=
  (u.ownUpdate.toOption.toList.map fun own => .update (u.touching p own id)) ++
    ExternalEdges.clearings [id] u.edges.clear

/-- What an update has left of a row before it links targets. -/
def unlinked (E : Engine) (db : Database) (u : NodeUpdate) (p : Option Predicate) (id : Value)
    (table : String) : Tuple → Option Tuple :=
  Command.rowThrough E db (nameParts table) (u.unlinking p id)

/-- Before an update links targets, it has taken both ends of an edge from all rows that have one of
them but are not to have it: no other row has the target that is then in the node's row, and no
other row than the target's has the node. -/
structure Frees (E : Engine) (db : Database) (u : NodeUpdate) (p : Option Predicate) (id : Value)
    (table c : String) (e : Edge) (target : Value) : Prop where
  ownRow : e.linksOwnRow u.node = true → ∀ q ∈ (db (nameParts table)).rows,
    ∀ q' ∈ u.unlinked E db p id table q, E.picks (q u.node.id.column) id = true →
      ∀ r ∈ (db (nameParts table)).rows, ∀ r' ∈ u.unlinked E db p id table r,
        E.equal (r c) target = true → E.spares (r u.node.id.column) id = true →
          E.equal (r' c) (q' c) = false
  targetRow : e.isForeignKeyEdge = true → ∀ r ∈ (db (nameParts table)).rows,
    ∀ r' ∈ u.unlinked E db p id table r,
      E.equal (r c) id = true → E.spares (r e.target.id.column) target = true →
        E.equal (r' c) id = false

/-- The edges that an update adds to a relation without a probe replace the partners that there
are. -/
def Replaces (E : Engine) (db : Database) (u : NodeUpdate) (p : Option Predicate) (id : Value)
    (table c : String) : Prop :=
  ∀ e ∈ u.edges.add, e.isStoredIn u.node table c = true →
    (u.edges.clear.any fun f => f.sameRelation e) = true →
      ∀ target ∈ e.target.nodes, u.Frees E db p id table c e target

end NodeUpdate

/-! ## Columns that are assigned in place -/

section InPlace

variable {rows : List Tuple} {c : String}

/-- A column keeps its values apart if rows are dropped, keep their values or lose them, but for one
row, whose value no other row has then. -/
theorem pairwise_assigned {f : Tuple → Option Tuple} {P : Tuple → Prop}
    (hunique : rows.Pairwise fun r s => E.equal (r c) (s c) = false)
    (hf : ∀ r ∈ rows, ∀ r' ∈ f r, ¬P r → r' c = r c ∨ (r' c).isNull = true)
    (hP : rows.Pairwise fun r s => ¬(P r ∧ P s))
    (hfree : ∀ q ∈ rows, ∀ q' ∈ f q, P q → ∀ r ∈ rows, ∀ r' ∈ f r, ¬P r →
      E.equal (r' c) (q' c) = false) :
    rows.Pairwise fun r s => ∀ r' ∈ f r, ∀ s' ∈ f s, E.equal (r' c) (s' c) = false := by
  refine (hunique.and hP).imp_of_mem ?_
  rintro r s hr hs ⟨hapart, honce⟩ r' hr' s' hs'
  by_cases hPr : P r
  · have hPs : ¬P s := fun hPs => honce ⟨hPr, hPs⟩
    rw [Engine.equal_comm]
    exact hfree r hr r' hr' hPr s hs s' hs' hPs
  · by_cases hPs : P s
    · exact hfree s hs s' hs' hPs r hr r' hr' hPr
    · rcases hf r hr r' hr' hPr with hsame | hnull
      · rcases hf s hs s' hs' hPs with hsame' | hnull'
        · rw [hsame, hsame']
          exact hapart
        · exact Engine.equal_null _ hnull'
      · rw [Engine.equal_comm]
        exact Engine.equal_null _ hnull

/-- A column keeps its values apart if rows are dropped, keep their values or lose them. -/
theorem pairwise_of_keeps {f : Tuple → Option Tuple}
    (hunique : rows.Pairwise fun r s => E.equal (r c) (s c) = false)
    (hf : ∀ r ∈ rows, ∀ r' ∈ f r, r' c = r c ∨ (r' c).isNull = true) :
    (rows.filterMap f).Pairwise fun r s => E.equal (r c) (s c) = false := by
  rw [List.pairwise_filterMap]
  refine pairwise_assigned (P := fun _ => False) hunique ?_ ?_ ?_
  · intro r hr r' hr' _
    exact hf r hr r' hr'
  · exact List.pairwise_of_forall fun _ _ hP => hP.1
  · intro q _ q' _ hP
    exact hP.elim

/-- A column keeps its values apart if a row of a key that has none gets one, which no row has. -/
theorem Table.HasKey.unique_linked {t : Table} {k : String} {target v : Value} {g : Tuple → Tuple}
    (hkey : t.HasKey E k) (hunique : t.Unique E c)
    (hg : ∀ r ∈ t.rows, g r c = if E.picks (r k) target && (r c).isNull then v else r c)
    (hnew : ∀ q ∈ t.rows, (E.picks (q k) target && (q c).isNull) = true →
      ∀ r ∈ t.rows, E.equal (r c) v = false) :
    (t.rows.map g).Pairwise fun r s => E.equal (r c) (s c) = false := by
  have hpairwise := pairwise_assigned (f := fun r => some (g r))
    (P := fun r => (E.picks (r k) target && (r c).isNull) = true) hunique ?spared ?once ?free
  case spared =>
    intro r hr r' hr' hnot
    obtain rfl : g r = r' := Option.some.inj hr'
    left
    rw [hg r hr, if_neg hnot]
  case once =>
    refine hkey.unique.imp_of_mem ?_
    rintro r s hr hs hapart ⟨hpr, hps⟩
    rw [Engine.equal_of_picks_picks (hkey.present r hr) (hkey.present s hs)
      (Bool.and_eq_true_iff.mp hpr).1 (Bool.and_eq_true_iff.mp hps).1] at hapart
    cases hapart
  case free =>
    intro q hq _ hgq hlinked r hr _ hgr hnot
    obtain rfl := Option.some.inj hgq
    obtain rfl := Option.some.inj hgr
    rw [hg q hq, if_pos hlinked, hg r hr, if_neg hnot]
    exact hnew q hq hlinked r hr
  exact List.pairwise_map.mpr (hpairwise.imp fun hapart => hapart _ rfl _ rfl)

end InPlace

/-! ## Before the links -/

section OwnRow

variable {u : NodeUpdate} {table c : String} {p : Option Predicate} {own : Update} {id : Value}
  {db : Database} {r : Tuple}

namespace NodeUpdate

/-- The row is one that the UPDATE of the nodes' rows reaches. -/
def Touches (E : Engine) (db : Database) (u : NodeUpdate) (p : Option Predicate) (own : Update)
    (id : Value) (table : String) (r : Tuple) : Prop :=
  u.node.table = table ∧ db.meets E table (u.touching p own id).predicate r = true

theorem rowIn_of_not_touches (hown : own.table = u.node.table)
    (h : ¬u.Touches E db p own id table r) :
    (u.touching p own id).rowIn E db (nameParts table) r = r := by
  have htable := (u.touching_fields (E := E) p own id).1.trans hown
  unfold Update.rowIn
  split
  case isFalse => rfl
  case isTrue hparts =>
    rw [htable] at hparts
    have hsame := nameParts_injective hparts
    unfold Update.rowAfter
    rw [htable, hsame]
    exact if_neg fun hmeets => h ⟨hsame, hmeets⟩

theorem rowIn_of_touches (hown : own.table = u.node.table) (h : u.Touches E db p own id table r) :
    (u.touching p own id).rowIn E db (nameParts table) r = own.assigned E r := by
  obtain ⟨htable, -, hassigned⟩ := u.touching_fields (E := E) p own id
  have hname : (u.touching p own id).table = table := htable.trans (hown.trans h.1)
  unfold Update.rowIn Update.rowAfter
  rw [hname, if_pos rfl, hassigned]
  exact if_pos h.2

/-- The row that is touched has the node's ID. -/
theorem Touches.picks (hid : (db (nameParts table)).HasColumn u.node.id.column)
    (h : u.Touches E db p own id table r) : E.picks (r u.node.id.column) id = true := by
  obtain ⟨-, hmeets⟩ := h
  have heq : db.meets E table (own.filter (.eq u.node.id.column id)).predicate r = true := by
    unfold touching at hmeets
    cases p with
    | none => exact hmeets
    | some q =>
      rw [Update.filterOpt, Update.filter, meets_conjoin, Bool.and_eq_true_iff] at hmeets
      exact hmeets.1
  rw [Update.filter, meets_conjoin, Bool.and_eq_true_iff, meets_eq hid.knows,
    columnName_plain hid.plain] at heq
  exact heq.2

namespace LinksOnce

variable {sets adds : List (String × Value)} {e : Edge}

/-- The edge that is added to the relation is the only one. -/
theorem eq_of_stored (h : u.LinksOnce table c) {e e' : Edge} (he : e ∈ u.edges.add)
    (he' : e' ∈ u.edges.add) (hstored : e.isStoredIn u.node table c = true)
    (hstored' : e'.isStoredIn u.node table c = true) : e = e' := by
  have hmem := List.mem_filter.mpr ⟨he, hstored⟩
  have hmem' := List.mem_filter.mpr ⟨he', hstored'⟩
  have honce := h.once
  cases hfilter : u.edges.add.filter (Edge.isStoredIn u.node table c) with
  | nil =>
    rw [hfilter] at hmem
    cases hmem
  | cons x rest =>
    cases rest with
    | nil =>
      rw [hfilter] at hmem hmem'
      exact (List.mem_singleton.mp hmem).trans (List.mem_singleton.mp hmem').symm
    | cons y rest =>
      rw [hfilter] at honce
      simp at honce

/-- What the UPDATE of the own row sets the column to is the target of an edge. -/
theorem edge_of_set (h : u.LinksOnce table c) (hnode : u.node.table = table)
    (hown : u.OwnAssignments own sets adds) {a : String × Value} (ha : a ∈ sets)
    (hc : columnName a.1 = c) :
    ∃ e ∈ u.edges.add, e.isStoredIn u.node table c = true ∧ e.writesOwnColumn = true ∧
      ∃ rest, e.target.nodes = a.2 :: rest := by
  obtain ⟨written, linked, hwritten, hlinked, rfl, -⟩ := Node.ownColumns_eq_ok.mp hown.columns
  rcases List.mem_append.mp ha with ha | ha
  · obtain ⟨f, hf, hcolumn⟩ := exists_of_forall₂ hwritten.flip ha
    rw [(Node.fieldColumn_eq_ok.mp hcolumn).2.2] at hc
    exact absurd hc (h.fields hnode f (List.mem_append_left _ hf))
  · obtain ⟨e, he, hcolumns, rest, htarget⟩ := exists_of_forall₂ hlinked.flip ha
    obtain ⟨he, hwrites⟩ := List.mem_filter.mp he
    refine ⟨e, he, ?_, hwrites, rest, htarget⟩
    simp [Edge.isStoredIn, hcolumns, hc, hwrites, hnode]

theorem increments_ne (h : u.LinksOnce table c) (hnode : u.node.table = table)
    (hown : u.OwnAssignments own sets adds) : ∀ a ∈ adds, columnName a.1 ≠ c := by
  intro a ha
  obtain ⟨f, hf, hcolumn⟩ := hown.increments a ha
  rw [hcolumn]
  exact h.fields hnode f (List.mem_append_right _ hf)

/-- The UPDATE of the own row sets the column to the target of the edge that is stored there. -/
theorem assigned (h : u.LinksOnce table c) (hnode : u.node.table = table)
    (hown : u.OwnAssignments own sets adds) {target : Value} (he : e ∈ u.edges.add)
    (hstored : e.isStoredIn u.node table c = true) (hwrites : e.writesOwnColumn = true)
    (htarget : e.target.nodes = [target]) (r : Tuple) : own.assigned E r c = target := by
  have hsets : ∀ a ∈ sets, columnName a.1 = c → a.2 = target := by
    intro a ha hc
    obtain ⟨e', he', hstored', -, rest, htarget'⟩ := h.edge_of_set hnode hown ha hc
    rw [h.eq_of_stored he' he hstored' hstored, htarget] at htarget'
    exact (List.cons.inj htarget').1.symm
  rcases hown.assigned hsets (h.increments_ne hnode hown) r with ⟨hvalue, -⟩ | ⟨-, hnone⟩
  · exact hvalue
  · exfalso
    obtain ⟨written, linked, -, hlinked, rfl, -⟩ := Node.ownColumns_eq_ok.mp hown.columns
    obtain ⟨a, ha, hcolumns, -⟩ := exists_of_forall₂ hlinked (List.mem_filter.mpr ⟨he, hwrites⟩)
    have hmem := hnone a (List.mem_append_right _ ha)
    simp [Edge.isStoredIn, hcolumns] at hstored
    exact hmem hstored.1.symm

/-- Without such an edge, the UPDATE of the own row leaves the column as it is or clears it. -/
theorem assigned_none (h : u.LinksOnce table c) (hnode : u.node.table = table)
    (hown : u.OwnAssignments own sets adds)
    (hnone : ∀ e ∈ u.edges.add, e.isStoredIn u.node table c = true → e.writesOwnColumn = false)
    (r : Tuple) : own.assigned E r c = r c ∨ (own.assigned E r c).isNull = true := by
  have hsets : ∀ a ∈ sets, columnName a.1 ≠ c := by
    intro a ha hc
    obtain ⟨e, he, hstored, hwrites, -⟩ := h.edge_of_set hnode hown ha hc
    rw [hnone e he hstored] at hwrites
    cases hwrites
  rcases hown.assigned (v := .null) (fun a ha hc => absurd hc (hsets a ha))
    (h.increments_ne hnode hown) r with ⟨-, a, ha, hc⟩ | ⟨hkept, -⟩
  · exact absurd hc (hsets a ha)
  · exact hkept

end LinksOnce

/-! ### All statements before the links -/

variable {sets adds : List (String × Value)} {e : Edge} {r' : Tuple}

theorem unlinked_eq (hown : u.ownUpdate = .ok own) (r : Tuple) :
    u.unlinked E db p id table r =
      Command.rowThrough E db (nameParts table) (ExternalEdges.clearings [id] u.edges.clear)
        ((u.touching p own id).rowIn E db (nameParts table) r) := by
  unfold unlinked unlinking
  rw [hown]
  rfl

theorem unlinked_keeps (hown : u.ownUpdate = .ok own) (h : r' ∈ u.unlinked E db p id table r)
    (k : String) :
    r' k = (u.touching p own id).rowIn E db (nameParts table) r k ∨ (r' k).isNull = true := by
  rw [unlinked_eq hown] at h
  exact Command.rowThrough_keeps ExternalEdges.unlinks_clearings h k

theorem unlinked_of_not_touches (hown : u.ownUpdate = .ok own) (htable : own.table = u.node.table)
    (h : ¬u.Touches E db p own id table r) (hr : r' ∈ u.unlinked E db p id table r) (k : String) :
    r' k = r k ∨ (r' k).isNull = true := by
  have hkeeps := unlinked_keeps hown hr k
  rwa [rowIn_of_not_touches htable h] at hkeeps

namespace LinksOnce

/-- The row that is touched refers to the target of the edge that is stored there, or to nothing. -/
theorem unlinked_of_touches (h : u.LinksOnce table c) (hown : u.ownUpdate = .ok own)
    (hassigns : u.OwnAssignments own sets adds) {target : Value} (he : e ∈ u.edges.add)
    (hstored : e.isStoredIn u.node table c = true) (hwrites : e.writesOwnColumn = true)
    (htarget : e.target.nodes = [target]) (htouches : u.Touches E db p own id table r)
    (hr : r' ∈ u.unlinked E db p id table r) : r' c = target ∨ (r' c).isNull = true := by
  have hkeeps := unlinked_keeps hown hr c
  rwa [rowIn_of_touches hassigns.table htouches,
    h.assigned htouches.1 hassigns he hstored hwrites htarget] at hkeeps

/-- If no edge is stored in the node's own row, rows keep their values or lose them. -/
theorem unlinked_none (h : u.LinksOnce table c) (hown : u.ownUpdate = .ok own)
    (hassigns : u.OwnAssignments own sets adds)
    (hnone : u.node.table = table → ∀ e ∈ u.edges.add, e.isStoredIn u.node table c = true →
      e.writesOwnColumn = false)
    (hr : r' ∈ u.unlinked E db p id table r) : r' c = r c ∨ (r' c).isNull = true := by
  by_cases htouches : u.Touches E db p own id table r
  · have hkeeps := unlinked_keeps hown hr c
    rw [rowIn_of_touches hassigns.table htouches] at hkeeps
    rcases hkeeps with hassigned | hnull
    · rw [hassigned]
      exact h.assigned_none htouches.1 hassigns (hnone htouches.1) r
    · exact .inr hnull
  · exact unlinked_of_not_touches hown hassigns.table htouches hr c

end LinksOnce

end NodeUpdate

end OwnRow

/-! ## Edges that have been probed -/

section Probed

variable {u : NodeUpdate} {table c : String} {p : Option Predicate} {id target : Value} {e : Edge}
  {db : Database}

theorem not_meets_of_isEmpty {name : String} {p q : Predicate}
    (h : (Selector.outRows E db (((Selector.ofTable name).filter p).filter q) []).isEmpty = true)
    {r : Tuple} (hr : r ∈ (db (nameParts name)).rows) (hp : db.meets E name (some p) r = true)
    (hq : db.meets E name (some q) r = true) : False := by
  have hselector : ((Selector.ofTable name).filter p).filter q =
      ⟨[], .table name none, [], some (Predicate.conjoin (some p) q), [], none, none, false,
        false⟩ := rfl
  rw [hselector, isEmpty_outRows_table, Bool.not_eq_true', List.any_eq_false] at h
  apply h r hr
  rw [meets_conjoin, hp, hq]
  rfl

/-- An edge whose ends have no partner frees its ends, as no row has to lose anything. -/
theorem NodeUpdate.frees_of_unclaimed (hcolumn : (db (nameParts table)).HasColumn c)
    (hid : (db (nameParts u.node.table)).HasColumn u.node.id.column)
    (htid : e.isForeignKeyEdge = true → (db (nameParts table)).HasColumn e.target.id.column)
    (htable : e.table = table) (hcolumns : e.columns = [c])
    (htarget : e.target.nodes = [target]) (h : Partner.Unclaimed E db u.node (some id) e) :
    u.Frees E db p id table c e target := by
  subst htable
  have hquestion := h target [] c htarget hcolumns
  refine ⟨?_, ?_⟩
  · intro hlinks q _ q' _ _ r hr r' _ hrival hspares
    exfalso
    obtain ⟨hwrites, hnode⟩ := Bool.and_eq_true_iff.mp hlinks
    have hnode : u.node.table = e.table := eq_of_beq hnode
    rw [hnode] at hid
    refine not_meets_of_isEmpty (p := .eq c target) (q := .ne u.node.id.column id)
      (hquestion ⟨_, .targetTaken target u.node.label c⟩ ?_) hr ?_ ?_
    · simp only [Partner.questions, hwrites, if_true, Option.map_some, Selector.filterOpt]
      exact List.mem_append_left _ List.mem_cons_self
    · rw [meets_eq hcolumn.knows, columnName_plain hcolumn.plain]
      exact Engine.picks_of_equal hrival
    · rw [meets_ne hid.knows, columnName_plain hid.plain]
      exact hspares
  · intro hforeign r hr r' _ hrival hspares
    exfalso
    have hexternal : e.writesExternal = true := by
      unfold Edge.isForeignKeyEdge at hforeign
      unfold Edge.writesExternal
      cases hrelation : e.relation <;> simp_all
    refine not_meets_of_isEmpty (p := .eq c id) (q := .ne e.target.id.column target)
      (hquestion ⟨_, .nodeLinkedIn u.node.label id e.table c⟩ ?_) hr ?_ ?_
    · simp only [Partner.questions, hexternal, if_true, Option.toList_some, List.map_cons]
      exact List.mem_append_right _ List.mem_cons_self
    · rw [meets_eq hcolumn.knows, columnName_plain hcolumn.plain]
      exact Engine.picks_of_equal hrival
    · rw [meets_ne (htid hforeign).knows, columnName_plain (htid hforeign).plain]
      exact hspares

/-- An edge that is stored in the target's row only frees its end if all edges of its relation are
cleared. -/
theorem NodeUpdate.frees_of_clear (hcolumn : (db (nameParts table)).HasColumn c)
    (hother : e.linksOwnRow u.node = false) (hforeign : e.isForeignKeyEdge = true)
    (htable : e.table = table) (hcolumns : e.columns = [c]) {f : Edge} (hf : f ∈ u.edges.clear)
    (hsame : f.sameRelation e = true) (hall : f.target.nodes = []) :
    u.Frees E db p id table c e target := by
  simp only [Edge.sameRelation, Bool.and_eq_true_iff, beq_iff_eq] at hsame
  obtain ⟨⟨⟨hrelation, hinverse⟩, htable'⟩, hcolumns'⟩ := hsame
  have hfk : f.isForeignKeyEdge = true := by
    rw [Edge.isForeignKeyEdge, hrelation, hinverse]
    exact hforeign
  have hcolumns := hcolumns'.trans hcolumns
  obtain rfl : f.table = table := htable'.trans htable
  obtain ⟨w, hw⟩ : ∃ w, ForeignKey.clearing [id] f = .ok w :=
    ⟨_, ForeignKey.clearing_eq_ok.mpr ⟨c, hcolumns, rfl⟩⟩
  have hmem : Command.update w ∈ ForeignKey.clearings [id] u.edges.clear := by
    refine List.mem_filterMap.mpr ⟨f, List.mem_filter.mpr ⟨hf, hfk⟩, ?_⟩
    rw [hw]
    rfl
  obtain ⟨before, after, hsplit⟩ := List.append_of_mem hmem
  have hlast : ∀ d ∈ after, d ∈ ExternalEdges.clearings [id] u.edges.clear := by
    intro d hd
    rw [ExternalEdges.clearings, hsplit]
    exact List.mem_append_right _ (List.mem_append_right _ (List.mem_cons_of_mem _ hd))
  refine ⟨fun hlinks => absurd hlinks (by simp [hother]), ?_⟩
  intro _ r _ r' hr' _ _
  unfold unlinked unlinking ExternalEdges.clearings at hr'
  rw [hsplit, ← List.append_assoc, ← List.append_assoc, Command.rowThrough_append] at hr'
  obtain ⟨x, -, hx⟩ := Option.bind_eq_some_iff.mp hr'
  rw [Command.rowThrough_cons] at hx
  obtain ⟨y, hy, hafter⟩ := Option.bind_eq_some_iff.mp hx
  -- the clearing takes the node from the row, and nothing that follows it writes a value
  have hfree : E.equal (y c) id = false := by
    obtain rfl : w.rowIn E db (nameParts f.table) x = y := Option.some.inj hy
    exact ForeignKey.not_equal_of_clearing hw hcolumns hall hcolumn x
  rcases Command.rowThrough_keeps (fun d hd => ExternalEdges.unlinks_clearings d (hlast d hd))
    hafter c with hsame | hnull
  · rwa [hsame]
  · rw [Engine.equal_comm]
    exact Engine.equal_null _ hnull

end Probed

namespace NodeUpdate

variable {u : NodeUpdate} {table c : String} {p : Option Predicate} {own : Update}
  {id target : Value} {db : Database} {sets adds : List (String × Value)} {e : Edge}

/-! ## Rows before the links -/

/-- A key lets at most one row be touched. -/
theorem touches_pairwise (hkey : (db (nameParts table)).HasKey E u.node.id.column) :
    (db (nameParts table)).rows.Pairwise fun r s =>
      ¬(u.Touches E db p own id table r ∧ u.Touches E db p own id table s) := by
  refine hkey.unique.imp_of_mem ?_
  rintro r s hr hs hapart ⟨htouches, htouches'⟩
  rw [Engine.equal_of_picks_picks (hkey.present r hr) (hkey.present s hs)
    (htouches.picks hkey.toHasColumn) (htouches'.picks hkey.toHasColumn)] at hapart
  cases hapart

/-- The values are apart before targets are linked, if a target in the node's own row is freed. -/
theorem LinksOnce.unlinked_pairwise (h : u.LinksOnce table c) (hown : u.ownUpdate = .ok own)
    (hassigns : u.OwnAssignments own sets adds)
    (hkey : u.node.table = table → (db (nameParts table)).HasKey E u.node.id.column)
    (hunique : (db (nameParts table)).Unique E c)
    (htargets : ∀ e ∈ u.edges.add, e.isStoredIn u.node table c = true →
      ∃ target, e.target.nodes = [target] ∧ u.Frees E db p id table c e target) :
    (db (nameParts table)).rows.Pairwise fun r s =>
      ∀ r' ∈ u.unlinked E db p id table r, ∀ s' ∈ u.unlinked E db p id table s,
        E.equal (r' c) (s' c) = false := by
  by_cases hlink : u.node.table = table ∧ ∃ e ∈ u.edges.add,
      e.isStoredIn u.node table c = true ∧ e.writesOwnColumn = true
  · obtain ⟨hnode, e, he, hstored, hwrites⟩ := hlink
    obtain ⟨target, htarget, hfrees⟩ := htargets e he hstored
    have hlinks : e.linksOwnRow u.node = true := by
      rw [Edge.linksOwnRow, hwrites, hnode, (h.relation e he hstored).2.1]
      simp
    have hkey := hkey hnode
    refine pairwise_assigned (P := u.Touches E db p own id table) hunique ?_
      (touches_pairwise hkey) ?_
    · intro r _ r' hr' hnot
      exact unlinked_of_not_touches hown hassigns.table hnot hr' c
    · intro q hq q' hq' htouches r hr r' hr' hnot
      have hpicks := htouches.picks hkey.toHasColumn
      rcases h.unlinked_of_touches hown hassigns he hstored hwrites htarget htouches hq' with
        hvalue | hnull
      · rcases unlinked_of_not_touches hown hassigns.table hnot hr' c with hsame | hnull
        · rw [Bool.eq_false_iff]
          intro hequal
          have hspares : E.spares (r u.node.id.column) id = true := by
            apply Engine.spares_of_not_picks (hkey.present r hr)
            rw [Bool.eq_false_iff]
            intro hpicks'
            rw [hkey.eq_of_picks hr hq hpicks' hpicks] at hnot
            exact hnot htouches
          have hrival : E.equal (r c) target = true := by rwa [hvalue, hsame] at hequal
          rw [hfrees.ownRow hlinks q hq q' hq' hpicks r hr r' hr' hrival hspares] at hequal
          cases hequal
        · rw [Engine.equal_comm]
          exact Engine.equal_null _ hnull
      · exact Engine.equal_null _ hnull
  · have hnone : u.node.table = table → ∀ e ∈ u.edges.add,
        e.isStoredIn u.node table c = true → e.writesOwnColumn = false := by
      intro hnode e he hstored
      rw [Bool.eq_false_iff]
      intro hwrites
      exact hlink ⟨hnode, e, he, hstored, hwrites⟩
    refine List.pairwise_filterMap.mp (pairwise_of_keeps hunique fun r _ r' hr' => ?_)
    exact h.unlinked_none hown hassigns hnone hr'

/-! ## Rows after the links -/

section Linked

variable {t : Table} {g : Tuple → Tuple}

/-- The value that a row has before the links is the one that it had at first, unless it is the
target's. -/
theorem LinksOnce.unlinked_value (h : u.LinksOnce table c) (hown : u.ownUpdate = .ok own)
    (hassigns : u.OwnAssignments own sets adds) (he : e ∈ u.edges.add)
    (hstored : e.isStoredIn u.node table c = true) (htarget : e.target.nodes = [target])
    {r r' : Tuple} (hr : r' ∈ u.unlinked E db p id table r) :
    (r' c = r c ∨ (r' c).isNull = true) ∨
      (u.Touches E db p own id table r ∧ e.linksOwnRow u.node = true ∧ r' c = target) := by
  by_cases htouches : u.Touches E db p own id table r
  · cases hwrites : e.writesOwnColumn with
    | true =>
      rcases h.unlinked_of_touches hown hassigns he hstored hwrites htarget htouches hr with
        hvalue | hnull
      · refine .inr ⟨htouches, ?_, hvalue⟩
        rw [Edge.linksOwnRow, hwrites, htouches.1, (h.relation e he hstored).2.1]
        simp
      · exact .inl (.inr hnull)
    | false =>
      left
      refine h.unlinked_none hown hassigns (fun _ e' he' hstored' => ?_) hr
      rw [h.eq_of_stored he' he hstored' hstored, hwrites]
  · exact .inl (unlinked_of_not_touches hown hassigns.table htouches hr c)

/-- A row that does not have the target's key before the links did not have it at first. -/
theorem spares_of_unlinked (hown : u.ownUpdate = .ok own) (htable : own.table = u.node.table)
    {k : String} (hid : u.node.table = table → (db (nameParts table)).HasKey E u.node.id.column)
    (hkey : (db (nameParts table)).HasKey E k) {q q' r r' : Tuple}
    (hq : q ∈ (db (nameParts table)).rows) (hq' : q' ∈ u.unlinked E db p id table q)
    (hr : r ∈ (db (nameParts table)).rows) (hr' : r' ∈ u.unlinked E db p id table r)
    (hqnull : (q' k).isNull = false) (hrnull : (r' k).isNull = false)
    (hpicks : E.picks (q' k) target = true) (hnot : E.picks (r' k) target = false) :
    E.spares (r k) target = true := by
  have hne : q ≠ r := by
    rintro rfl
    rw [Option.mem_unique hq' hr', hnot] at hpicks
    cases hpicks
  apply Engine.spares_of_not_picks (hkey.present r hr)
  rw [Bool.eq_false_iff]
  intro hfirst
  by_cases htouches : u.Touches E db p own id table r
  · by_cases htouches' : u.Touches E db p own id table q
    · have hid := hid htouches.1
      exact hne (hid.eq_of_picks hq hr (htouches'.picks hid.toHasColumn)
        (htouches.picks hid.toHasColumn))
    · rcases unlinked_of_not_touches hown htable htouches' hq' k with hsame | hnull
      · rw [hsame] at hpicks
        exact hne (hkey.eq_of_picks hq hr hpicks hfirst)
      · rw [hnull] at hqnull
        cases hqnull
  · rcases unlinked_of_not_touches hown htable htouches hr' k with hsame | hnull
    · rw [hsame, hfirst] at hnot
      cases hnot
    · rw [hnull] at hrnull
      cases hrnull

/-- The values are apart after a target has been linked, if the node in its row is freed. -/
theorem LinksOnce.linked_pairwise (h : u.LinksOnce table c) (hown : u.ownUpdate = .ok own)
    (hassigns : u.OwnAssignments own sets adds) (he : e ∈ u.edges.add)
    (hstored : e.isStoredIn u.node table c = true) (htarget : e.target.nodes = [target])
    (hforeign : e.isForeignKeyEdge = true) (hfrees : u.Frees E db p id table c e target)
    (hid : u.node.table = table → (db (nameParts table)).HasKey E u.node.id.column)
    (hkey : (db (nameParts table)).HasKey E e.target.id.column)
    (hrows : t.rows = (db (nameParts table)).rows.filterMap (u.unlinked E db p id table))
    (hkey' : t.HasKey E e.target.id.column) (hunique : t.Unique E c)
    (hg : ∀ r ∈ t.rows, g r c =
      if E.picks (r e.target.id.column) target && (r c).isNull then id else r c) :
    (t.rows.map g).Pairwise fun r s => E.equal (r c) (s c) = false := by
  refine hkey'.unique_linked hunique hg fun q' hq' hlinked r' hr' => ?_
  rw [Bool.eq_false_iff]
  intro hequal
  obtain ⟨hpicks, hnull⟩ := Bool.and_eq_true_iff.mp hlinked
  have hother : E.picks (r' e.target.id.column) target = false := by
    rw [Bool.eq_false_iff]
    intro hpicks'
    have hpresent := Engine.isNull_of_equal hequal
    rw [hkey'.eq_of_picks hr' hq' hpicks' hpicks, hnull] at hpresent
    cases hpresent
  have hpresent := hkey'.present
  rw [hrows] at hq' hr' hpresent
  obtain ⟨q, hq, hSq⟩ := List.mem_filterMap.mp hq'
  obtain ⟨r, hr, hSr⟩ := List.mem_filterMap.mp hr'
  have hspares := spares_of_unlinked hown hassigns.table hid hkey hq hSq hr hSr
    (hpresent q' hq') (hpresent r' hr') hpicks hother
  have hrival : E.equal (r c) id = true := by
    rcases h.unlinked_value hown hassigns he hstored htarget hSr with
      (hsame | hnull) | ⟨htouches, hlinks, hvalue⟩
    · rwa [hsame] at hequal
    · have hpresent' := Engine.isNull_of_equal hequal
      rw [hnull] at hpresent'
      cases hpresent'
    · exfalso
      have hid := hid htouches.1
      have hrow := Engine.equal_of_picks (hid.present r hr) (htouches.picks hid.toHasColumn)
      rw [hvalue, Engine.equal_comm] at hequal
      rw [← h.symmetric e he hstored hlinks hforeign] at hrow
      have hpicks' := Engine.picks_of_equal (Engine.equal_trans hrow hequal)
      rw [Engine.not_picks_of_spares hspares] at hpicks'
      cases hpicks'
  rw [hfrees.targetRow hforeign r hr r' hSr hrival hspares] at hequal
  cases hequal

/-- If the values are apart after the links, each end that is linked was freed before. -/
theorem frees_of_linked_pairwise
    (hrows : t.rows = (db (nameParts table)).rows.filterMap (u.unlinked E db p id table))
    (hkeeps : ∀ r ∈ t.rows, (r c).isNull = false → g r c = r c)
    (hlinked : e.isForeignKeyEdge = true → ∃ q ∈ t.rows, (q c).isNull = true ∧ g q c = id)
    (hfinal : (t.rows.map g).Pairwise fun r s => E.equal (r c) (s c) = false) :
    u.Frees E db p id table c e target := by
  have hafter := List.pairwise_map.mp hfinal
  refine ⟨?_, ?_⟩
  · intro _ q hq q' hq' hpicks r hr r' hr' _ hspares
    rw [Bool.eq_false_iff]
    intro hequal
    have hequal' : E.equal (q' c) (r' c) = true := by rwa [Engine.equal_comm]
    have hne : r ≠ q := by
      rintro rfl
      rw [Engine.not_picks_of_spares hspares] at hpicks
      cases hpicks
    have hbefore := List.pairwise_filterMap.mp (hrows ▸ hafter)
    have hsymm : Std.Symm fun r s : Tuple => ∀ r' ∈ u.unlinked E db p id table r,
        ∀ s' ∈ u.unlinked E db p id table s, E.equal (g r' c) (g s' c) = false :=
      ⟨fun a b hab a' ha' b' hb' => by
        rw [Engine.equal_comm]
        exact hab b' hb' a' ha'⟩
    have hapart := hbefore.forall hr hq hne r' hr' q' hq'
    have hmem : ∀ {x x' : Tuple}, x ∈ (db (nameParts table)).rows →
        x' ∈ u.unlinked E db p id table x → x' ∈ t.rows := by
      intro x x' hx hx'
      rw [hrows]
      exact List.mem_filterMap.mpr ⟨x, hx, hx'⟩
    rw [hkeeps r' (hmem hr hr') (Engine.isNull_of_equal hequal),
      hkeeps q' (hmem hq hq') (Engine.isNull_of_equal hequal'), hequal] at hapart
    cases hapart
  · intro hforeign r hr r' hr' _ _
    rw [Bool.eq_false_iff]
    intro hequal
    obtain ⟨q, hq, hnull, hvalue⟩ := hlinked hforeign
    have hpresent := Engine.isNull_of_equal hequal
    have hr' : r' ∈ t.rows := by
      rw [hrows]
      exact List.mem_filterMap.mpr ⟨r, hr, hr'⟩
    have hne : r' ≠ q := by
      rintro rfl
      rw [hnull] at hpresent
      cases hpresent
    have hapart : E.equal (g r' c) (g q c) = false := not_equal_of_pairwise
      (f := fun x => g x) hafter hr' hq hne
    rw [hkeeps r' hr' hpresent, hvalue, hequal] at hapart
    cases hapart

end Linked

end NodeUpdate

end EntityGraph
