import Mathlib.Data.List.Pairwise
import EntityGraph.Graph.Batch
import EntityGraph.Proofs.Program.Checks
import EntityGraph.Proofs.Program.Run

/-!
# What a node's own row is made of

The columns of a node's own row are its fields and the foreign keys of the edges that are stored in
it, in that order, each written once. The rows of a batch are those of its nodes, with an ID where
the node has one or gets one before the insert.
-/

set_option autoImplicit false

namespace EntityGraph

open Program

namespace Edge

theorem foreignKey_eq_ok {e : Edge} {column : String} :
    e.foreignKey = .ok column ↔ e.columns = [column] := by
  unfold foreignKey
  split
  case h_1 c hc => rw [hc]; simp
  case h_2 hc =>
    constructor
    · rintro ⟨⟩
    · intro h
      exact absurd h (hc column)

/-- The column in which a node's own row has an edge: its foreign key with its first target. -/
def IsLinkedAs (e : Edge) (c : String × Value) : Prop :=
  e.columns = [c.1] ∧ ∃ rest, e.target.nodes = c.2 :: rest

/-- Edges of the same relation. -/
theorem sameRelation_iff {e f : Edge} : e.sameRelation f = true ↔
    e.relation = f.relation ∧ e.inverse = f.inverse ∧ e.table = f.table ∧
      e.columns = f.columns := by
  simp only [sameRelation, Bool.and_eq_true, beq_iff_eq, and_assoc]

/-- An edge that can be added: it has the columns of its relation and targets, only one where the
relation or the node's row has no room for more. -/
structure IsComplete (e : Edge) : Prop where
  columns : e.columns.length = e.relation.columnCount
  nodes : e.target.nodes ≠ []
  single : e.isOneToOne = true ∨ e.writesOwnColumn = true → ∃ t, e.target.nodes = [t]

/-- The numbers of columns and targets of an edge that can be added; the targets are nodes or
references. -/
theorem counts_of_check {e : Edge} (h : e.checkAdd = .ok ()) :
    e.columns.length = e.relation.columnCount ∧
      0 < e.target.nodes.length + e.target.pending.length ∧
      (e.isOneToOne = true ∨ e.writesOwnColumn = true →
        e.target.nodes.length + e.target.pending.length = 1) := by
  obtain ⟨_, hvalidate, hcounts⟩ := bind_eq_ok.mp h
  unfold validate at hvalidate
  split at hvalidate
  case isTrue => cases hvalidate
  case isFalse hlength =>
    dsimp only at hcounts
    split at hcounts
    case isTrue => cases hcounts
    case isFalse hone =>
      split at hcounts
      case isTrue => cases hcounts
      case isFalse hmany =>
        split at hcounts
        case isTrue => cases hcounts
        case isFalse hsome =>
          refine ⟨not_not.mp hlength, Nat.pos_of_ne_zero hsome, fun hsingle => ?_⟩
          rcases hsingle with hrelation | hown
          · have hrelation : e.relation = .oneToOne := eq_of_beq hrelation
            simp only [hrelation, true_and] at hone
            omega
          · unfold writesOwnColumn at hown
            cases hrelation : e.relation with
            | oneToOne =>
              simp only [hrelation, true_and] at hone
              omega
            | manyToOne =>
              simp only [hrelation, true_and] at hmany
              omega
            | oneToMany | manyToMany =>
              rw [hrelation] at hown
              cases hown

theorem isComplete_of_check {e : Edge} (h : e.checkDirect = .ok ()) : e.IsComplete := by
  unfold checkDirect at h
  split at h
  case isFalse => cases h
  case isTrue hpending =>
    rw [List.isEmpty_iff] at hpending
    obtain ⟨hcolumns, hsome, hsingle⟩ := counts_of_check h
    simp only [hpending, List.length_nil, Nat.add_zero] at hsome hsingle
    refine ⟨hcolumns, List.length_pos_iff.mp hsome, fun h => ?_⟩
    exact List.length_eq_one_iff.mp (hsingle h)

namespace IsComplete

variable {e : Edge}

/-- The only column of an edge that has no join table. -/
theorem exists_foreignKey (h : e.IsComplete) (hmany : e.isManyToMany = false) :
    ∃ fk, e.columns = [fk] := by
  have hcount := h.columns
  unfold isManyToMany at hmany
  cases hrelation : e.relation with
  | manyToMany =>
    rw [hrelation] at hmany
    cases hmany
  | oneToOne | oneToMany | manyToOne =>
    rw [hrelation] at hcount
    exact List.length_eq_one_iff.mp hcount

/-- The columns of a join table. -/
theorem exists_columns (h : e.IsComplete) (hmany : e.isManyToMany = true) :
    ∃ c₁ c₂, e.columns = [c₁, c₂] := by
  have hcount := h.columns
  rw [eq_of_beq hmany] at hcount
  exact List.length_eq_two.mp hcount

theorem exists_joinColumns (h : e.IsComplete) (hmany : e.isManyToMany = true) :
    ∃ own other, e.joinColumns = .ok (own, other) := by
  obtain ⟨c₁, c₂, hcolumns⟩ := h.exists_columns hmany
  unfold joinColumns
  rw [hcolumns]
  cases e.inverse with
  | true => exact ⟨c₂, c₁, rfl⟩
  | false => exact ⟨c₁, c₂, rfl⟩

end IsComplete

end Edge

/-- Names of which none is found a second time are all different. -/
theorem nodup_of_firstRepeated {seen names : List String} (h : firstRepeated? seen names = none) :
    names.Nodup ∧ ∀ n ∈ names, n ∉ seen := by
  induction names generalizing seen with
  | nil => exact ⟨.nil, by simp⟩
  | cons n rest ih =>
    unfold firstRepeated? at h
    split at h
    case isTrue => cases h
    case isFalse hnew =>
      obtain ⟨hnodup, hunseen⟩ := ih h
      refine ⟨List.nodup_cons.mpr ⟨fun hn => ?_, hnodup⟩, fun m hm => ?_⟩
      · exact hunseen n hn List.mem_cons_self
      · rcases List.mem_cons.mp hm with rfl | hm
        · simpa using hnew
        · exact fun hseen => hunseen m hm (List.mem_cons_of_mem n hseen)

namespace Node

theorem fieldColumn_eq_ok {node : Node} {f : Field} {c : String × Value} :
    node.fieldColumn f = .ok c ↔
      node.hasColumn f.column = true ∧ f.bindValue = .ok c.2 ∧ c.1 = f.column := by
  unfold fieldColumn checkColumn
  rw [bind_eq_ok]
  constructor
  · rintro ⟨_, hcheck, h⟩
    obtain ⟨v, hv, ⟨⟩⟩ := bind_eq_ok.mp h
    split at hcheck
    case isTrue hcolumn => exact ⟨hcolumn, hv, rfl⟩
    case isFalse => cases hcheck
  · rintro ⟨hcolumn, hv, hc⟩
    refine ⟨(), by rw [if_pos hcolumn], bind_eq_ok.mpr ⟨c.2, hv, ?_⟩⟩
    rw [← hc]
    rfl

/-- The columns of a node's own row are its fields, then the edges stored in it; no column is
written twice. -/
theorem ownColumns_eq_ok {node : Node} {fields : List Field} {edges : List Edge}
    {columns : List (String × Value)} :
    node.ownColumns fields edges = .ok columns ↔
      ∃ written linked, List.Forall₂ (fun f c => node.fieldColumn f = .ok c) fields written ∧
        List.Forall₂ Edge.IsLinkedAs (edges.filter Edge.writesOwnColumn) linked ∧
        columns = written ++ linked ∧ firstRepeated? [] (columns.map (·.1)) = none := by
  unfold ownColumns
  rw [bind_eq_ok]
  constructor
  · rintro ⟨written, hwritten, h⟩
    obtain ⟨linked, hlinked, h⟩ := bind_eq_ok.mp h
    rw [mapM_eq_ok] at hwritten hlinked
    have hlinked := hlinked.imp (S := Edge.IsLinkedAs) fun e c he => by
      obtain ⟨column, hcolumn, htarget⟩ := bind_eq_ok.mp he
      split at htarget
      case h_1 target rest htargets =>
        cases htarget
        exact ⟨Edge.foreignKey_eq_ok.mp hcolumn, rest, htargets⟩
      case h_2 => cases htarget
    dsimp only at h
    split at h
    case h_1 => cases h
    case h_2 hnone =>
      cases h
      exact ⟨written, linked, hwritten, hlinked, rfl, hnone⟩
  · rintro ⟨written, linked, hwritten, hlinked, rfl, hnone⟩
    refine ⟨written, mapM_eq_ok.mpr hwritten, bind_eq_ok.mpr ⟨linked, mapM_eq_ok.mpr ?_, ?_⟩⟩
    · refine hlinked.imp fun e c ⟨hcolumn, rest, htargets⟩ => ?_
      refine bind_eq_ok.mpr ⟨c.1, Edge.foreignKey_eq_ok.mpr hcolumn, ?_⟩
      rw [htargets]
      rfl
    · simp only [hnone]
      rfl

section OwnColumns

variable {node : Node} {fields : List Field} {edges : List Edge} {columns : List (String × Value)}

/-- A column of a node's own row is that of a field or of an edge. -/
theorem mem_ownColumns (h : node.ownColumns fields edges = .ok columns) {p : String × Value}
    (hp : p ∈ columns) :
    (∃ f ∈ fields, f.bindValue = .ok p.2 ∧ p.1 = f.column) ∨
      ∃ e ∈ edges, e.writesOwnColumn = true ∧ e.IsLinkedAs p := by
  obtain ⟨written, linked, hwritten, hlinked, rfl, -⟩ := ownColumns_eq_ok.mp h
  rcases List.mem_append.mp hp with hp | hp
  · obtain ⟨f, hf, hcolumn⟩ := exists_of_forall₂ hwritten.flip hp
    exact .inl ⟨f, hf, (fieldColumn_eq_ok.mp hcolumn).2⟩
  · obtain ⟨e, he, hedge⟩ := exists_of_forall₂ hlinked.flip hp
    obtain ⟨he, hown⟩ := List.mem_filter.mp he
    exact .inr ⟨e, he, hown, hedge⟩

/-- An edge that is stored in a node's own row has its column there. -/
theorem exists_ownColumn (h : node.ownColumns fields edges = .ok columns) {e : Edge}
    (he : e ∈ edges) (hown : e.writesOwnColumn = true) : ∃ p ∈ columns, e.IsLinkedAs p := by
  obtain ⟨written, linked, -, hlinked, rfl, -⟩ := ownColumns_eq_ok.mp h
  obtain ⟨p, hp, hedge⟩ := exists_of_forall₂ hlinked (List.mem_filter.mpr ⟨he, hown⟩)
  exact ⟨p, List.mem_append_right _ hp, hedge⟩

/-- Edges whose columns get different names are in different columns. -/
theorem pairwise_of_isLinkedAs {l : List Edge} (h : List.Forall₂ Edge.IsLinkedAs l columns)
    (hnodup : (columns.map (·.1)).Nodup) : l.Pairwise fun e f => e.columns ≠ f.columns := by
  induction h with
  | nil => exact .nil
  | @cons e p l columns he hrest ih =>
    obtain ⟨hnew, hnodup⟩ := List.nodup_cons.mp hnodup
    refine List.pairwise_cons.mpr ⟨fun f hf hsame => ?_, ih hnodup⟩
    obtain ⟨q, hq, hfq⟩ := exists_of_forall₂ hrest hf
    have hcolumn : p.1 = q.1 := List.head_eq_of_cons_eq (he.1.symm.trans (hsame.trans hfq.1))
    exact hnew (List.mem_map.mpr ⟨q, hq, hcolumn.symm⟩)

/-- If the columns of linked edges are all different, edges of one column are one edge. -/
theorem eq_of_isLinkedAs {l : List Edge} (h : List.Forall₂ Edge.IsLinkedAs l columns)
    (hnodup : (columns.map (·.1)).Nodup) {e f : Edge} (he : e ∈ l) (hf : f ∈ l)
    (hcolumns : e.columns = f.columns) : e = f := by
  have hsymm : Std.Symm fun e f : Edge => e.columns ≠ f.columns := ⟨fun _ _ hne => hne.symm⟩
  by_contra hne
  exact (pairwise_of_isLinkedAs h hnodup).forall he hf hne hcolumns

/-- No two edges are stored in one column of a node's own row. -/
theorem eq_of_ownColumns (h : node.ownColumns fields edges = .ok columns) {e f : Edge}
    (he : e ∈ edges) (hf : f ∈ edges) (hown : e.writesOwnColumn = true)
    (hown' : f.writesOwnColumn = true) (hcolumns : e.columns = f.columns) : e = f := by
  obtain ⟨written, linked, -, hlinked, rfl, hnone⟩ := ownColumns_eq_ok.mp h
  have hnodup := (nodup_of_firstRepeated hnone).1
  rw [List.map_append] at hnodup
  exact eq_of_isLinkedAs hlinked (List.nodup_append.mp hnodup).2.1
    (List.mem_filter.mpr ⟨he, hown⟩) (List.mem_filter.mpr ⟨hf, hown'⟩) hcolumns

end OwnColumns

end Node

/-- A node leaves its ID to the database. -/
def NodeCreation.LeavesId (c : NodeCreation) : Prop :=
  c.node.id.value.isNull = true ∧ c.node.strategy = .sequence

/-- A row has no ID only if its node leaves the ID to the database. -/
theorem NodeCreation.supplyId_none {position : Nat} {c : NodeCreation} {log : List Exchange}
    (h : (supplyId position c.node).Run log (.ok none)) : c.LeavesId := by
  unfold supplyId at h
  split at h
  case isTrue =>
    obtain ⟨v, _, _, -, -, h⟩ := run_bind_ok.mp h
    cases (run_done.mp h).2
  case isFalse hnull =>
    have hnull : c.node.id.value.isNull = true := by simpa using hnull
    split at h
    case h_1 hstrategy => exact ⟨hnull, hstrategy⟩
    case h_2 => cases (run_fail.mp h).2
    case h_3 =>
      obtain ⟨drawn, _, _, -, -, h⟩ := run_bind_ok.mp h
      obtain ⟨_, _, _, -, -, h⟩ := run_bind_ok.mp h
      obtain ⟨v, _, _, -, -, h⟩ := run_bind_ok.mp h
      cases (run_done.mp h).2

namespace BatchCreation

/-- The row is that of a node: it has the node's columns, and an ID unless the node leaves it to the
database. -/
structure OwnRow.IsOf (c : NodeCreation) (r : OwnRow) : Prop where
  columns : c.node.ownColumns c.fields c.edges = .ok r.columns
  leavesId : r.id = none → c.LeavesId

section OwnRows

variable {conn : Connection} {nodes : List NodeCreation} {i : Nat} {claims : List PartnerClaim}
  {log : List Exchange} {rows : List OwnRow}

/-- The own row of the first node is found before those of the others: the node claims its targets
and looks for their partners, an ID is supplied for it, and its columns are put together. -/
theorem run_ownRows_cons {c : NodeCreation}
    (h : (ownRows conn i claims (c :: nodes)).Run log (.ok rows)) :
    ∃ claimed id columns others checking supplying finding,
      log = checking ++ (supplying ++ finding) ∧ rows = ⟨id, columns⟩ :: others ∧
      PartnerClaim.addAll c.node claims c.edges = .ok claimed ∧
      (NodeCreation.supplyId i c.node).Run supplying (.ok id) ∧
      c.node.ownColumns c.fields c.edges = .ok columns ∧
      (ownRows conn (i + 1) claimed nodes).Run finding (.ok others) := by
  obtain ⟨claimed, _, _, rfl, hclaimed, hclaiming⟩ := run_bind_ok.mp h
  obtain ⟨_, checking, _, rfl, -, hchecking⟩ := run_bind_ok.mp hclaiming
  obtain ⟨id, supplying, _, rfl, hid, hsupplying⟩ := run_bind_ok.mp hchecking
  obtain ⟨columns, _, _, rfl, hcolumns, hsetting⟩ := run_bind_ok.mp hsupplying
  obtain ⟨others, finding, _, rfl, hothers, hfinding⟩ := run_bind_ok.mp hsetting
  obtain ⟨rfl, hclaims⟩ := run_ofExcept.mp hclaimed
  obtain ⟨rfl, hsets⟩ := run_ofExcept.mp hcolumns
  obtain ⟨rfl, hrows⟩ := run_done.mp hfinding
  exact ⟨claimed, id, columns, others, checking, supplying, finding, by simp,
    Except.ok.inj hrows, hclaims.symm, hid, hsets.symm, hothers⟩

/-- What holds of a row with a node's columns and the ID that is supplied for the node holds of the
own rows of a batch. -/
theorem ownRows_forall₂ {P : NodeCreation → OwnRow → Prop}
    (hP : ∀ c r, c.node.ownColumns c.fields c.edges = .ok r.columns → ∀ i log,
      (NodeCreation.supplyId i c.node).Run log (.ok r.id) → P c r)
    (h : (ownRows conn i claims nodes).Run log (.ok rows)) : List.Forall₂ P nodes rows := by
  induction nodes generalizing i claims log rows with
  | nil =>
    obtain ⟨-, ⟨⟩⟩ := run_done.mp h
    exact .nil
  | cons c rest ih =>
    obtain ⟨_, id, columns, others, _, _, _, -, rfl, -, hid, hcolumns, hothers⟩ :=
      run_ownRows_cons h
    exact .cons (hP c ⟨id, columns⟩ hcolumns i _ hid) (ih hothers)

/-- The own rows of a batch are those of its nodes. -/
theorem ownRows_are_of (h : (ownRows conn i claims nodes).Run log (.ok rows)) :
    List.Forall₂ OwnRow.IsOf nodes rows := by
  refine ownRows_forall₂ (fun c r hcolumns i log hid => ⟨hcolumns, fun hnone => ?_⟩) h
  rw [hnone] at hid
  exact NodeCreation.supplyId_none hid

end OwnRows

end BatchCreation

end EntityGraph
