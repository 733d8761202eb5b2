import EntityGraph.Proofs.Graph.EdgesReadBack
import EntityGraph.Proofs.Relational.References
import EntityGraph.Proofs.Relational.Scope

/-!
# The conditions of a step and the neighbors it selects

A step is compiled in three ways, each with its own choice of tables and columns. On a database that
is laid out as the step says they are about the same pairs of rows, those that `Step.links` links: a
row meets a condition of the step if and only if a step that starts at the row selects a neighbor
accordingly. The condition on the neighbors is decided inside of other selections, so all of its
names must be columns of the neighbors' table; a condition of a further step is such a condition.
-/

set_option autoImplicit false

namespace EntityGraph

variable {E : Engine} {db : Database} {s : Step}

/-! ## Columns of one table in conditions -/

/-- The selection of a column of a table. -/
def Selector.ofColumn (table name : String) (q : Option Predicate) : Selector :=
  ⟨[name], .table table none, [], q, [], none, none, false, false⟩

section InSelect

variable {table inner name innerName c ic : String} {q : Option Predicate} {r : Tuple}

theorem knows_scopeOf (db : Database) (table name : String) :
    Scope.knows (db.scopeOf table) name = db.knows table name := by
  simp [Scope.knows, Scope.has, Database.scopeOf, Source.has, Database.knows, columnName]

theorem Database.Denotes.inScope (h : db.Denotes table name c) :
    Scope.knows (db.scopeOf table) name = true :=
  (knows_scopeOf db table name).trans h.knows

theorem conditionInScope_some {p : Predicate} {scope : Scope} :
    conditionInScope db (some p) scope ↔ p.InScope db scope := by
  rw [conditionInScope]

/-- A conjunction is in scope if both conditions are. -/
theorem inScope_and {p p' : Predicate} {scope : Scope} (hp : p.InScope db scope)
    (hp' : p'.InScope db scope) : (p.and p').InScope db scope := by
  unfold Predicate.and
  split
  case h_1 ps =>
    rw [Predicate.InScope] at hp ⊢
    induction ps with
    | nil => exact ⟨hp', trivial⟩
    | cons p ps ih =>
      rw [predicatesInScope] at hp
      rw [List.cons_append, predicatesInScope]
      exact ⟨hp.1, ih hp.2⟩
  case h_2 =>
    rw [Predicate.InScope]
    exact ⟨hp, hp', trivial⟩

/-- A selection of a column of a table is in any scope, if its condition is on that table alone. -/
theorem ofColumn_inScope {scope : Scope} (hcolumn : db.Denotes inner innerName ic)
    (hq : conditionInScope db q (db.scopeOf inner)) :
    (Selector.ofColumn inner innerName q).InScope db scope := by
  rw [Selector.ofColumn, Selector.InScope, TableRef.InScope, joinsInScope]
  refine ⟨trivial, trivial, conditionInScope_append db q _ scope hq, fun n hn => .inr ?_,
    fun t ht => absurd ht List.not_mem_nil⟩
  obtain rfl := List.mem_singleton.mp hn
  exact Scope.has_append hcolumn.inScope scope

theorem inSelect_inScope (hname : db.Denotes table name c)
    (hcolumn : db.Denotes inner innerName ic) (hq : conditionInScope db q (db.scopeOf inner)) :
    (Predicate.inSelect name (.ofColumn inner innerName q)).InScope db (db.scopeOf table) := by
  rw [Predicate.InScope]
  exact ⟨hname.inScope, ofColumn_inScope hcolumn hq⟩

/-- The value of a column is among those that a column of another table has in the rows that meet a
condition. -/
theorem meets_inSelect (hname : db.Denotes table name c) (hcolumn : db.Denotes inner innerName ic)
    (hq : conditionInScope db q (db.scopeOf inner)) :
    db.meets E table (some (.inSelect name (.ofColumn inner innerName q))) r = true ↔
      ∃ o ∈ (db (nameParts inner)).rows,
        db.meets E inner q o = true ∧ E.equal (r c) (o ic) = true := by
  have hselected : (Selector.ofColumn inner innerName q).outRows E db
        [[⟨nameParts table, (db (nameParts table)).columns, r⟩]] =
      ((db (nameParts inner)).rows.filter (db.meets E inner q)).map fun o => [(ic, o ic)] :=
    (outRows_append E db _ [] _ (ofColumn_inScope hcolumn hq)).trans
      (outRows_columns (f := fun _ => innerName) (List.cons_ne_nil ic []) (by simpa using hcolumn)
        q)
  rw [Database.meets, conditionTruth, Predicate.truth, Engine.isIn_isYes, lookup_row hname.knows,
    hname.column, hselected, List.map_map, List.any_map, List.any_filter, List.any_eq_true]
  simp [OutRow.first]

theorem meets_notNull (h : db.Denotes table name c) :
    db.meets E table (some (.notNull name)) r = !(r c).isNull := by
  rw [Database.meets, conditionTruth, Predicate.truth, Truth.isYes_ofBool, lookup_row h.knows,
    h.column]

end InSelect

/-! ## Rows in the result of a selection -/

/-- A row with all columns of its table. -/
def Table.outRow (t : Table) (r : Tuple) : OutRow := t.columns.map fun c => (c, r c)

/-- The rows of a table, each once for each of the rows that stand beside it. -/
def Table.rowsBeside (t : Table) (beside : Tuple → List OutRow) : List OutRow :=
  t.rows.flatMap fun r => (beside r).map (t.outRow r ++ ·)

/-- A selection selects a row of a table, alone or with what has been joined to it. -/
def Selector.SelectsRow (E : Engine) (db : Database) (select : Selector) (t : Table)
    (r : Tuple) : Prop :=
  ∃ out ∈ select.outRows E db [], t.outRow r <+: out

namespace Table

variable {t : Table} {beside : Tuple → List OutRow} {c : String} {r : Tuple}

theorem mem_rowsBeside {out : OutRow} :
    out ∈ t.rowsBeside beside ↔ ∃ r ∈ t.rows, ∃ other ∈ beside r, t.outRow r ++ other = out := by
  simp [rowsBeside]

theorem rowsBeside_ne_nil : t.rowsBeside beside ≠ [] ↔ ∃ r ∈ t.rows, beside r ≠ [] := by
  simp [rowsBeside, List.flatMap_eq_nil_iff]

/-- A row is at the start of one of these rows if anything stands beside it. -/
theorem HasKey.outRow_prefix_iff (hkey : t.HasKey E c)
    (hself : ∀ v : Value, v.isNull = false → E.equal v v = true) (hr : r ∈ t.rows) :
    (∃ out ∈ t.rowsBeside beside, t.outRow r <+: out) ↔ beside r ≠ [] := by
  constructor
  · rintro ⟨out, hout, hstart⟩
    obtain ⟨r', hr', other, hother, rfl⟩ := mem_rowsBeside.mp hout
    have hshown : t.outRow r = t.outRow r' := by
      have hlength : (t.outRow r).length = (t.outRow r').length := by simp [outRow]
      exact (List.prefix_of_prefix_length_le hstart (List.prefix_append _ _)
        hlength.le).eq_of_length hlength
    have hsame : r c = r' c := (Prod.mk.inj (List.map_inj_left.mp hshown c hkey.mem)).2
    have hequal := hself _ (hkey.present r hr)
    obtain rfl : r = r' := hkey.eq_of_picks hr hr' (Engine.picks_of_equal hequal)
      (Engine.picks_of_equal (hsame ▸ hequal))
    exact List.ne_nil_of_mem hother
  · intro hbeside
    obtain ⟨other, hother⟩ := List.exists_mem_of_ne_nil _ hbeside
    exact ⟨_, mem_rowsBeside.mpr ⟨r, hr, other, hother, rfl⟩, List.prefix_append _ _⟩

end Table

/-! ## Steps in a database -/

namespace Step

/-- The step that starts where the value is. -/
def startingAt (s : Step) (v : Value) : Step := { s with start := { s.start with value := v } }

/-- The tables of a step have the columns that its layout asks for, and both ends of it are keys. -/
structure IsLaidOut (E : Engine) (db : Database) (s : Step) : Prop where
  startKey : (db (nameParts s.start.table)).HasKey E s.start.column
  goalKey : (db (nameParts s.goal.table)).HasKey E s.goal.column
  joinTable : s.layout = .joinTable → (db (nameParts s.edge.table)).HasColumn s.startColumn ∧
    (db (nameParts s.edge.table)).HasColumn s.goalColumn
  startOwner : s.layout = .startOwner → s.edge.table = s.start.table ∧
    (db (nameParts s.start.table)).HasColumn (s.column 0)
  goalOwner : s.layout = .goalOwner → s.edge.table = s.goal.table ∧
    (db (nameParts s.goal.table)).HasColumn (s.column 0)

/-- The foreign keys of a step refer to rows that are there: a pair of a join table to a row where
the step leads, and so does a row where the step starts unless it refers to none. -/
structure HasIntegrity (E : Engine) (db : Database) (s : Step) : Prop where
  joinTable : s.layout = .joinTable → ∀ o ∈ (db (nameParts s.edge.table)).rows,
    (o s.startColumn).isNull = false →
      (db (nameParts s.goal.table)).Holds E s.goal.column (o s.goalColumn)
  startOwner : s.layout = .startOwner → ∀ f ∈ (db (nameParts s.start.table)).rows,
    (f (s.column 0)).isNull = false →
      (db (nameParts s.goal.table)).Holds E s.goal.column (f (s.column 0))

/-- A row where the step starts is linked to one where it leads. -/
def links (E : Engine) (db : Database) (s : Step) (f r : Tuple) : Bool :=
  match s.layout with
  | .joinTable => (db (nameParts s.edge.table)).links E s.startColumn s.goalColumn
      (f s.start.column) (r s.goal.column)
  | .startOwner => E.equal (r s.goal.column) (f (s.column 0))
  | .goalOwner => E.equal (r (s.column 0)) (f s.start.column)

variable {p : Predicate} {f r : Tuple}

theorem links_of_joinTable (h : s.layout = .joinTable) : s.links E db f r = true ↔
    ∃ o ∈ (db (nameParts s.edge.table)).rows, E.equal (o s.startColumn) (f s.start.column) = true ∧
      E.equal (r s.goal.column) (o s.goalColumn) = true := by
  unfold links
  rw [h]
  simp [Table.links]

theorem links_of_startOwner (h : s.layout = .startOwner) :
    s.links E db f r = E.equal (r s.goal.column) (f (s.column 0)) := by
  unfold links
  rw [h]

theorem links_of_goalOwner (h : s.layout = .goalOwner) :
    s.links E db f r = E.equal (r (s.column 0)) (f s.start.column) := by
  unfold links
  rw [h]

/-! ## The condition on the neighbors -/

/-- The keys of the neighbors that meet a condition. -/
def goalKeys (s : Step) (p : Predicate) : Selector :=
  .ofColumn s.goal.table (qualify s.goal.table s.goal.column) (some p)

theorem hasNeighborsWith_of_joinTable (h : s.layout = .joinTable) : s.hasNeighborsWith p =
    .inSelect (qualify s.start.table s.start.column)
      (.ofColumn s.edge.table (qualify s.edge.table s.startColumn)
        (some (.inSelect (qualify s.edge.table s.goalColumn) (s.goalKeys p)))) := by
  unfold hasNeighborsWith
  rw [h]
  rfl

theorem hasNeighborsWith_of_startOwner (h : s.layout = .startOwner) : s.hasNeighborsWith p =
    .inSelect (qualify s.start.table (s.column 0)) (s.goalKeys p) := by
  unfold hasNeighborsWith
  rw [h]
  rfl

theorem hasNeighborsWith_of_goalOwner (h : s.layout = .goalOwner) : s.hasNeighborsWith p =
    .inSelect (qualify s.start.table s.start.column)
      (.ofColumn s.edge.table (qualify s.edge.table (s.column 0))
        (some ((Predicate.notNull (qualify s.edge.table (s.column 0))).and p))) := by
  unfold hasNeighborsWith
  rw [h]
  rfl

section Conditions

variable (h : s.IsLaidOut E db) (hp : p.InScope db (db.scopeOf s.goal.table))
include h hp

/-- The condition on the neighbors that have the foreign key. -/
theorem ownersInScope (hlayout : s.layout = .goalOwner) :
    conditionInScope db (some ((Predicate.notNull (qualify s.goal.table (s.column 0))).and p))
      (db.scopeOf s.goal.table) := by
  refine conditionInScope_some.mpr (inScope_and ?_ hp)
  rw [Predicate.InScope]
  exact (h.goalOwner hlayout).2.denotes_qualified.inScope

/-- The condition on the pairs of a join table. -/
theorem pairsInScope (hlayout : s.layout = .joinTable) :
    conditionInScope db (some (.inSelect (qualify s.edge.table s.goalColumn) (s.goalKeys p)))
      (db.scopeOf s.edge.table) :=
  conditionInScope_some.mpr (inSelect_inScope (h.joinTable hlayout).2.denotes_qualified
    h.goalKey.toHasColumn.denotes_qualified (conditionInScope_some.mpr hp))

/-- The condition on the neighbors is decided by them alone, so the one on the start is, too. -/
theorem hasNeighborsWith_inScope :
    (s.hasNeighborsWith p).InScope db (db.scopeOf s.start.table) := by
  have hstart := h.startKey.toHasColumn.denotes_qualified
  have hgoal := h.goalKey.toHasColumn.denotes_qualified
  have hkeys := conditionInScope_some.mpr hp
  cases hlayout : s.layout with
  | joinTable =>
    rw [hasNeighborsWith_of_joinTable hlayout]
    exact inSelect_inScope hstart (h.joinTable hlayout).1.denotes_qualified
      (pairsInScope h hp hlayout)
  | startOwner =>
    rw [hasNeighborsWith_of_startOwner hlayout]
    exact inSelect_inScope (h.startOwner hlayout).2.denotes_qualified hgoal hkeys
  | goalOwner =>
    obtain ⟨htable, hfk⟩ := h.goalOwner hlayout
    rw [hasNeighborsWith_of_goalOwner hlayout, htable]
    exact inSelect_inScope hstart hfk.denotes_qualified (ownersInScope h hp hlayout)

/-- A row meets the condition on its neighbors if it is linked to a row that meets it. -/
theorem meets_hasNeighborsWith :
    db.meets E s.start.table (some (s.hasNeighborsWith p)) f = true ↔
      ∃ r ∈ (db (nameParts s.goal.table)).rows,
        s.links E db f r = true ∧ db.meets E s.goal.table (some p) r = true := by
  have hstart := h.startKey.toHasColumn.denotes_qualified
  have hgoal := h.goalKey.toHasColumn.denotes_qualified
  have hkeys := conditionInScope_some.mpr hp
  cases hlayout : s.layout with
  | joinTable =>
    obtain ⟨hown, hother⟩ := h.joinTable hlayout
    have hlinked := fun o =>
      meets_inSelect (E := E) (r := o) hother.denotes_qualified hgoal hkeys
    rw [hasNeighborsWith_of_joinTable hlayout,
      meets_inSelect hstart hown.denotes_qualified (pairsInScope h hp hlayout)]
    simp only [links_of_joinTable hlayout]
    constructor
    · rintro ⟨o, ho, hmeets, hfrom⟩
      obtain ⟨r, hr, hpr, hto⟩ := (hlinked o).mp hmeets
      exact ⟨r, hr, ⟨o, ho, Engine.equal_symm hfrom, Engine.equal_symm hto⟩, hpr⟩
    · rintro ⟨r, hr, ⟨o, ho, hfrom, hto⟩, hpr⟩
      exact ⟨o, ho, (hlinked o).mpr ⟨r, hr, hpr, Engine.equal_symm hto⟩, Engine.equal_symm hfrom⟩
  | startOwner =>
    rw [hasNeighborsWith_of_startOwner hlayout, goalKeys,
      meets_inSelect (h.startOwner hlayout).2.denotes_qualified hgoal hkeys]
    refine exists_congr fun r => and_congr_right fun hr => ?_
    rw [links_of_startOwner hlayout, Engine.equal_comm, and_comm]
  | goalOwner =>
    obtain ⟨htable, hfk⟩ := h.goalOwner hlayout
    rw [hasNeighborsWith_of_goalOwner hlayout, htable,
      meets_inSelect hstart hfk.denotes_qualified (ownersInScope h hp hlayout)]
    refine exists_congr fun r => and_congr_right fun hr => ?_
    rw [links_of_goalOwner hlayout, meets_and, meets_notNull hfk.denotes_qualified,
      Engine.equal_comm, Bool.and_eq_true_iff]
    constructor
    · rintro ⟨⟨-, hpr⟩, hto⟩
      exact ⟨hto, hpr⟩
    · rintro ⟨hto, hpr⟩
      exact ⟨⟨by rw [Engine.isNull_of_equal hto, Bool.not_false], hpr⟩, hto⟩

end Conditions

/-! ## The condition that there are neighbors -/

theorem hasNeighbors_of_joinTable (h : s.layout = .joinTable) : s.hasNeighbors =
    .inSelect (qualify s.start.table s.start.column)
      (.ofColumn s.edge.table (qualify s.edge.table s.startColumn) none) := by
  unfold hasNeighbors
  rw [h]
  rfl

theorem hasNeighbors_of_startOwner (h : s.layout = .startOwner) :
    s.hasNeighbors = .notNull (qualify s.start.table (s.column 0)) := by
  unfold hasNeighbors
  rw [h]

theorem hasNeighbors_of_goalOwner (h : s.layout = .goalOwner) : s.hasNeighbors =
    .inSelect (qualify s.start.table s.start.column)
      (.ofColumn s.edge.table (qualify s.edge.table (s.column 0))
        (some (.notNull (qualify s.edge.table (s.column 0))))) := by
  unfold hasNeighbors
  rw [h]
  rfl

/-- A row has neighbors by the condition if it is linked to a row. -/
theorem meets_hasNeighbors (h : s.IsLaidOut E db) (hrefers : s.HasIntegrity E db)
    (hf : f ∈ (db (nameParts s.start.table)).rows) :
    db.meets E s.start.table (some s.hasNeighbors) f = true ↔
      ∃ r ∈ (db (nameParts s.goal.table)).rows, s.links E db f r = true := by
  have hstart := h.startKey.toHasColumn.denotes_qualified
  cases hlayout : s.layout with
  | joinTable =>
    have hall : conditionInScope db none (db.scopeOf s.edge.table) := by
      simp [conditionInScope]
    rw [hasNeighbors_of_joinTable hlayout,
      meets_inSelect hstart (h.joinTable hlayout).1.denotes_qualified hall]
    simp only [links_of_joinTable hlayout]
    constructor
    · rintro ⟨o, ho, -, hfrom⟩
      obtain ⟨r, hr, hto⟩ := hrefers.joinTable hlayout o ho (Engine.isNull_of_equal_right hfrom)
      exact ⟨r, hr, o, ho, Engine.equal_symm hfrom, hto⟩
    · rintro ⟨r, -, o, ho, hfrom, -⟩
      exact ⟨o, ho, rfl, Engine.equal_symm hfrom⟩
  | startOwner =>
    rw [hasNeighbors_of_startOwner hlayout,
      meets_notNull (h.startOwner hlayout).2.denotes_qualified, Bool.not_eq_true']
    simp only [links_of_startOwner hlayout]
    constructor
    · exact hrefers.startOwner hlayout f hf
    · rintro ⟨r, -, hlinks⟩
      exact Engine.isNull_of_equal_right hlinks
  | goalOwner =>
    obtain ⟨htable, hfk⟩ := h.goalOwner hlayout
    have hpresent : conditionInScope db
        (some (.notNull (qualify s.goal.table (s.column 0)))) (db.scopeOf s.goal.table) := by
      rw [conditionInScope_some, Predicate.InScope]
      exact hfk.denotes_qualified.inScope
    rw [hasNeighbors_of_goalOwner hlayout, htable,
      meets_inSelect hstart hfk.denotes_qualified hpresent]
    refine exists_congr fun r => and_congr_right fun hr => ?_
    rw [links_of_goalOwner hlayout, meets_notNull hfk.denotes_qualified, Engine.equal_comm,
      and_iff_right_iff_imp]
    intro hto
    rw [Engine.isNull_of_equal hto, Bool.not_false]

/-! ## Neighbors -/

theorem neighbors_of_joinTable (h : s.layout = .joinTable) : s.neighbors =
    (Selector.ofTable s.goal.table).join
      (.select (((Selector.ofTable s.edge.table).withColumns
        [qualify s.edge.table s.goalColumn]).filter
          (.eq (qualify s.edge.table s.startColumn) s.start.value)) linkAlias)
      (qualify s.goal.table s.goal.column) (qualify linkAlias s.goalColumn) := by
  unfold neighbors
  rw [h]

theorem neighbors_of_startOwner (h : s.layout = .startOwner) : s.neighbors =
    (Selector.ofTable s.goal.table).join
      (.select (((Selector.ofTable s.edge.table).withColumns [s.column 0]).filter
        (.eq s.start.column s.start.value)) linkAlias)
      (qualify s.goal.table s.goal.column) (qualify linkAlias (s.column 0)) := by
  unfold neighbors
  rw [h]

/-- All columns of a row beside another. -/
theorem projected_linkedLevel {goal asName column : String} {o : Tuple} :
    (Selector.columnNames []).flatMap (projected [] (linkedLevel db goal asName column r o)) =
      (db (nameParts goal)).outRow r ++ [(column, o column)] := by
  simp [Selector.columnNames, projected, linkedLevel, Frame.fields, OutRow.frame, Table.outRow]

/-- The neighbors through linking rows, each beside the other end of the rows that link it. -/
theorem shows_of_links {v : Value} {table own other ownName otherName : String}
    (hneighbors : s.neighbors = (Selector.ofTable s.goal.table).join
      (.select (((Selector.ofTable table).withColumns [otherName]).filter (.eq ownName v))
        linkAlias) (qualify s.goal.table s.goal.column) (qualify linkAlias other))
    (hother : db.Denotes table otherName other) (hplain : nameParts other = [other])
    (hown : db.Denotes table ownName own)
    (halias : ¬nameParts linkAlias <:+ nameParts s.goal.table)
    (hkey : (db (nameParts s.goal.table)).HasColumn s.goal.column) :
    ∃ beside, s.neighbors.outRows E db [] = (db (nameParts s.goal.table)).rowsBeside beside ∧
      ∀ r, beside r ≠ [] ↔ ∃ o ∈ (db (nameParts table)).rows,
        E.picks (o own) v = true ∧ E.equal (r s.goal.column) (o other) = true := by
  have hlinks := NodeQuery.outRows_picked (E := E) (k := v) hother hown
  refine ⟨fun r => (((db (nameParts table)).rows.filter fun o => E.picks (o own) v).filter fun o =>
    E.equal (r s.goal.column) (o other)).map fun o => [(other, o other)], ?_, fun r => ?_⟩
  · rw [hneighbors]
    refine (outRows_joined hlinks hkey halias hplain []).trans ?_
    simp only [projected_linkedLevel, Table.rowsBeside, List.map_map]
    rfl
  · rw [← List.length_pos_iff, List.length_map, List.length_pos_iff_exists_mem]
    simp only [List.mem_filter, and_assoc]

/-- The neighbors that have the foreign key, beside nothing else. -/
theorem shows_of_goalOwner (hlayout : s.layout = .goalOwner)
    (hfk : (db (nameParts s.goal.table)).HasColumn (s.column 0)) :
    ∃ beside, s.neighbors.outRows E db [] = (db (nameParts s.goal.table)).rowsBeside beside ∧
      ∀ r, beside r ≠ [] ↔ E.picks (r (s.column 0)) s.start.value = true := by
  have hneighbors : s.neighbors = ⟨[], .table s.goal.table none, [],
      some (.eq (qualify s.goal.table (s.column 0)) s.start.value), [], none, none, false,
      false⟩ := by
    unfold neighbors
    rw [hlayout]
    rfl
  have hmeets : ∀ r, db.meets E s.goal.table
      (some (.eq (qualify s.goal.table (s.column 0)) s.start.value)) r =
        E.picks (r (s.column 0)) s.start.value := by
    intro r
    rw [meets_eq hfk.denotes_qualified.knows, hfk.denotes_qualified.column]
  refine ⟨fun r => if E.picks (r (s.column 0)) s.start.value then [[]] else [], ?_, fun r => ?_⟩
  · rw [hneighbors, outRows_table, funext hmeets, Table.rowsBeside]
    induction (db (nameParts s.goal.table)).rows with
    | nil => rfl
    | cons r rest ih =>
      rw [List.flatMap_cons, List.filter_cons]
      split
      case isTrue =>
        rw [List.map_cons, ih]
        simp [Selector.columnNames, projected, Frame.fields, Table.outRow]
      case isFalse => exact ih
  · dsimp only
    split <;> simp_all

/-- The name under which linking rows are joined is not that of the table where the step leads. -/
def IsUnambiguous (s : Step) : Prop :=
  s.layout ≠ .goalOwner → ¬nameParts linkAlias <:+ nameParts s.goal.table

/-- The tables of a step have the columns that it names. -/
structure HasColumns (db : Database) (s : Step) : Prop where
  goal : (db (nameParts s.goal.table)).HasColumn s.goal.column
  joinTable : s.layout = .joinTable → (db (nameParts s.edge.table)).HasColumn s.startColumn ∧
    (db (nameParts s.edge.table)).HasColumn s.goalColumn
  startOwner : s.layout = .startOwner → (db (nameParts s.edge.table)).HasColumn s.start.column ∧
    (db (nameParts s.edge.table)).HasColumn (s.column 0)
  goalOwner : s.layout = .goalOwner → (db (nameParts s.goal.table)).HasColumn (s.column 0)

theorem IsLaidOut.hasColumns (h : s.IsLaidOut E db) : s.HasColumns db where
  goal := h.goalKey.toHasColumn
  joinTable := h.joinTable
  startOwner hlayout := by
    obtain ⟨htable, hfk⟩ := h.startOwner hlayout
    rw [htable]
    exact ⟨h.startKey.toHasColumn, hfk⟩
  goalOwner hlayout := (h.goalOwner hlayout).2

/-- A row where the step leads is reached from the value at its start: the condition on that value
picks the row itself, or a row that links it. -/
def Reaches (E : Engine) (db : Database) (s : Step) (r : Tuple) : Prop :=
  match s.layout with
  | .joinTable => ∃ o ∈ (db (nameParts s.edge.table)).rows,
      E.picks (o s.startColumn) s.start.value = true ∧
        E.equal (r s.goal.column) (o s.goalColumn) = true
  | .startOwner => ∃ o ∈ (db (nameParts s.edge.table)).rows,
      E.picks (o s.start.column) s.start.value = true ∧
        E.equal (r s.goal.column) (o (s.column 0)) = true
  | .goalOwner => E.picks (r (s.column 0)) s.start.value = true

/-- A step selects the rows that it reaches. -/
theorem shows_reached (h : s.HasColumns db) (hnamed : s.IsUnambiguous) :
    ∃ beside, s.neighbors.outRows E db [] = (db (nameParts s.goal.table)).rowsBeside beside ∧
      ∀ r, beside r ≠ [] ↔ s.Reaches E db r := by
  unfold Reaches
  cases hlayout : s.layout with
  | joinTable =>
    obtain ⟨hown, hother⟩ := h.joinTable hlayout
    exact shows_of_links (neighbors_of_joinTable hlayout) hother.denotes_qualified hother.plain
      hown.denotes_qualified (hnamed (by simp [hlayout])) h.goal
  | startOwner =>
    obtain ⟨hstart, hfk⟩ := h.startOwner hlayout
    exact shows_of_links (neighbors_of_startOwner hlayout) hfk.denotes hfk.plain hstart.denotes
      (hnamed (by simp [hlayout])) h.goal
  | goalOwner => exact shows_of_goalOwner hlayout (h.goalOwner hlayout)

section Neighbors

variable (hself : ∀ v : Value, v.isNull = false → E.equal v v = true) (h : s.IsLaidOut E db)
  (hnamed : s.IsUnambiguous) (hf : f ∈ (db (nameParts s.start.table)).rows)
include hself h hf

/-- From the key of a row a step reaches the rows that are linked to it. -/
theorem reaches_startingAt :
    (s.startingAt (f s.start.column)).Reaches E db r ↔ s.links E db f r = true := by
  have hstart : (f s.start.column).isNull = false := h.startKey.present f hf
  unfold Reaches
  rw [show (s.startingAt (f s.start.column)).layout = s.layout from rfl]
  cases hlayout : s.layout with
  | joinTable =>
    rw [links_of_joinTable hlayout]
    simp only [← Engine.picks_of_value hstart]
    rfl
  | startOwner =>
    rw [links_of_startOwner hlayout]
    change (∃ o ∈ (db (nameParts s.edge.table)).rows, _) ↔ _
    rw [(h.startOwner hlayout).1]
    constructor
    · rintro ⟨o, ho, hfrom, hto⟩
      have hsame : o = f := h.startKey.eq_of_picks ho hf hfrom
        (Engine.picks_of_equal (hself _ hstart))
      exact hsame ▸ hto
    · intro hto
      exact ⟨f, hf, Engine.picks_of_equal (hself _ hstart), hto⟩
  | goalOwner =>
    rw [links_of_goalOwner hlayout, ← Engine.picks_of_value hstart]
    rfl

include hnamed

/-- From a row a step selects the rows that are linked to it. -/
theorem shows_linked :
    ∃ beside, (s.startingAt (f s.start.column)).neighbors.outRows E db [] =
        (db (nameParts s.goal.table)).rowsBeside beside ∧
      ∀ r, beside r ≠ [] ↔ s.links E db f r = true := by
  have hcolumns := h.hasColumns
  obtain ⟨beside, houtRows, hbeside⟩ := shows_reached (E := E)
    (s := s.startingAt (f s.start.column))
    ⟨hcolumns.goal, hcolumns.joinTable, hcolumns.startOwner, hcolumns.goalOwner⟩ hnamed
  exact ⟨beside, houtRows, fun r => (hbeside r).trans (reaches_startingAt hself h hf)⟩

/-- A step from a row selects the rows that are linked to it. -/
theorem selectsRow_neighbors (hr : r ∈ (db (nameParts s.goal.table)).rows) :
    (s.startingAt (f s.start.column)).neighbors.SelectsRow E db (db (nameParts s.goal.table)) r ↔
      s.links E db f r = true := by
  obtain ⟨beside, houtRows, hbeside⟩ := shows_linked hself h hnamed hf
  rw [Selector.SelectsRow, houtRows, h.goalKey.outRow_prefix_iff hself hr, hbeside]

theorem neighbors_ne_nil :
    (s.startingAt (f s.start.column)).neighbors.outRows E db [] ≠ [] ↔
      ∃ r ∈ (db (nameParts s.goal.table)).rows, s.links E db f r = true := by
  obtain ⟨beside, houtRows, hbeside⟩ := shows_linked hself h hnamed hf
  rw [houtRows, Table.rowsBeside_ne_nil]
  simp only [hbeside]

/-- A row meets the condition on its neighbors if a step from it selects a row that meets it. -/
theorem meets_hasNeighborsWith_iff_selects (hp : p.InScope db (db.scopeOf s.goal.table)) :
    db.meets E s.start.table (some (s.hasNeighborsWith p)) f = true ↔
      ∃ r ∈ (db (nameParts s.goal.table)).rows,
        (s.startingAt (f s.start.column)).neighbors.SelectsRow E db
          (db (nameParts s.goal.table)) r ∧ db.meets E s.goal.table (some p) r = true := by
  rw [meets_hasNeighborsWith h hp]
  refine exists_congr fun r => and_congr_right fun hr => ?_
  rw [selectsRow_neighbors hself h hnamed hf hr]

end Neighbors

end Step

/-! ## The three compilations of a step -/

/-- A parent and a child in a table. -/
def family (table : String) : Database := fun name =>
  if name = nameParts table then
    ⟨["id", "parent_id"], [userRow (.int 1) .null .null, userRow (.int 2) (.int 1) .null]⟩
  else ⟨[], []⟩

/-- The step to the parent, which is in the same table. -/
def parentStep (table : String) : Step :=
  { start := ⟨table, "id", .null⟩
    edge := ⟨.manyToOne, true, table, ["parent_id"]⟩
    goal := ⟨table, "id"⟩ }

section Family

variable {table : String}

theorem family_table : family table (nameParts table) =
    ⟨["id", "parent_id"], [userRow (.int 1) .null .null, userRow (.int 2) (.int 1) .null]⟩ :=
  if_pos rfl

theorem family_hasColumn {column : String} (h : column ∈ ["id", "parent_id"]) :
    (family table (nameParts table)).HasColumn column := by
  rw [family_table]
  rcases List.mem_pair.mp h with rfl | rfl <;> decide

theorem parentStep_isLaidOut : (parentStep table).IsLaidOut keyEngine (family table) := by
  have hid : (family table (nameParts table)).HasKey keyEngine "id" := by
    rw [family_table]
    decide
  have hparent : (family table (nameParts table)).HasColumn "parent_id" :=
    family_hasColumn (by decide)
  exact ⟨hid, hid, (by intro h; cases h), fun _ => ⟨rfl, hparent⟩, (by intro h; cases h)⟩

theorem parentStep_hasIntegrity : (parentStep table).HasIntegrity keyEngine (family table) where
  joinTable h := by cases h
  startOwner _ f hf hpresent := by
    change f ∈ (family table (nameParts table)).rows at hf
    change (family table (nameParts table)).Holds keyEngine "id" (f "parent_id")
    rw [family_table] at hf ⊢
    rcases List.mem_cons.mp hf with rfl | hf
    · cases hpresent
    · obtain rfl := List.mem_singleton.mp hf
      exact ⟨userRow (.int 1) .null .null, List.mem_cons_self, by decide⟩

theorem child_mem : userRow (.int 2) (.int 1) .null ∈ (family table (nameParts table)).rows := by
  rw [family_table]
  exact List.mem_cons_of_mem _ List.mem_cons_self

theorem child_meets : (family table).meets keyEngine table
    (some (parentStep table).hasNeighbors) (userRow (.int 2) (.int 1) .null) = true := by
  refine (Step.meets_hasNeighbors parentStep_isLaidOut parentStep_hasIntegrity child_mem).mpr ?_
  refine ⟨userRow (.int 1) .null .null, ?_, rfl⟩
  change _ ∈ (family table (nameParts table)).rows
  rw [family_table]
  exact List.mem_cons_self

end Family

end EntityGraph
