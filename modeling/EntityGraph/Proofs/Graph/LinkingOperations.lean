import EntityGraph.Proofs.Graph.BulkCreation
import EntityGraph.Proofs.Graph.ForeignKeyLinks
import EntityGraph.Proofs.Graph.IssuedStatements
import EntityGraph.Proofs.Graph.StoredForms
import EntityGraph.Proofs.Relational.SharedDatabase

/-!
# Operations that link rows to their node

A creation or an update of one node that adds edges over a foreign key column of the targets' table,
writes that column in no other way and clears no edges. Each of its statements preserves the links
that are there, whatever the database; a link that it reports as made has been made for all targets;
and a run that has a result has made all of its links and has been committed.
-/

set_option autoImplicit false

namespace EntityGraph

open Program

variable {E : Engine} {S : Schema} {f : LinkColumn} {d : Dialect} {db db' : Database}
  {v t : Value} {e : Edge} {log : List Exchange}

/-! ## Links -/

/-- An edge is stored in a column, in the rows of its targets. -/
def Edge.IsStoredAs (f : LinkColumn) (e : Edge) : Prop :=
  e.isForeignKeyEdge = true ∧ e.table = f.table ∧ e.columns = [f.column]

namespace ForeignKey

/-- Linking targets preserves the links that are there. -/
theorem linking_preserves (hf : f.IsDeclared S) :
    (Command.update (linking v f.column e)).Preserves E S f := by
  rintro db db' hdb ⟨⟨hnames, rfl⟩, -, -⟩ r hr
  have hkeeps : ∀ {k}, (r k).isNull = false →
      (linking v f.column e).rowIn E db (nameParts f.table) r k = r k :=
    fun hk => linking_rowIn_keeps hnames r (.inr hk)
  refine ⟨_, Update.mem_applied hr, .inl (hkeeps ((hdb _ hf.key).present r hr)), ?_⟩
  cases hnull : (r f.column).isNull with
  | true => exact .inr rfl
  | false => exact .inl (hkeeps hnull)

/-- Linking as many rows as there are targets has linked each of them, which had no link before. -/
theorem linking_changes (hf : f.IsDeclared S) (htable : e.table = f.table)
    (hid : e.target.id.column = f.id) (hv : v.isNull = false) (hdb : db.Obeys E S.keys)
    (hnames : ∀ n ∈ (linking v f.column e).names, db.knows e.table n = true)
    (hcount : e.target.nodes.length ≤ ((linking v f.column e).reached E db).length)
    (ht : t ∈ e.target.nodes) :
    ∃ old, f.Changes E db ((linking v f.column e).applied E db) t old v := by
  have hkey : (db (nameParts e.table)).HasKey E e.target.id.column := by
    rw [htable, hid]
    exact hdb _ hf.key
  obtain ⟨r, hr, hequal, hnull, hafter⟩ := exists_linked hf.plain hkey hnames hcount ht
  have hmem : (linking v f.column e).rowAfter E db r ∈
      ((linking v f.column e).applied E db (nameParts e.table)).rows := Update.mem_applied_own hr
  have hne : f.id ≠ f.column := by
    intro heq
    have hpresent := hkey.present r hr
    rw [hid, heq, hnull] at hpresent
    cases hpresent
  rw [hid] at hequal
  rw [htable] at hr hmem
  refine ⟨r f.column, ⟨r, hr, hequal, rfl⟩, ⟨_, hmem, ?_, ?_⟩, ?_⟩
  · rwa [hafter, Function.update_of_ne hne]
  · rw [hafter, Function.update_self]
  · rintro rfl
    rw [hv] at hnull
    cases hnull

end ForeignKey

/-- The UPDATE that links the targets of an edge to a node was answered with their number. -/
def Exchange.Links (x : Exchange) (v : Value) (e : Edge) : Prop :=
  ∃ fk inside live, ∃ r : ExecResult, e.columns = [fk] ∧ e.target.nodes.length ≤ r.rowsAffected ∧
    x = ⟨.exec inside (.update (ForeignKey.linking v fk e)), live, (.done r : Outcome ExecResult)⟩

/-- Such an answer means that the link of each target has been set. -/
theorem Exchange.Links.sets {x : Exchange} (h : x.Links v e) (hf : f.IsDeclared S)
    (he : e.IsStoredAs f) (hid : e.target.id.column = f.id) (hv : v.isNull = false)
    (ht : t ∈ e.target.nodes) : x.Sets E S f t v := by
  obtain ⟨fk, inside, live, r, hfk, hcount, rfl⟩ := h
  obtain rfl : f.column = fk := by simpa using he.2.2.symm.trans hfk
  refine ⟨⟨_, rfl⟩, rfl, fun db db' hdb hrecords => ?_⟩
  obtain ⟨⟨⟨hnames, hcurrent⟩, hreports, -, -⟩, -⟩ := hrecords
  obtain rfl : db' = _ := hcurrent
  exact ForeignKey.linking_changes hf he.2.1 hid hv hdb hnames (hcount.trans hreports) ht

/-! ## Statements -/

namespace Command

/-- The statement links targets over a column, or it spares the column. -/
def LinksOnly (f : LinkColumn) (c : Command) : Prop :=
  c.Spares f ∨ ∃ v e, c = .update (ForeignKey.linking v f.column e)

/-- Such a statement preserves links, if it lets rows keep their IDs. -/
theorem LinksOnly.preserves {c : Command} (h : c.LinksOnly f) (hf : f.IsDeclared S)
    (hids : c.KeepsIds E S f) : c.Preserves E S f := by
  rcases h with hspares | ⟨v, e, rfl⟩
  · exact fun db db' _ heffect => heffect.preserves hspares hids
  · exact ForeignKey.linking_preserves hf

theorem allowsAdding_linksOnly : AllowsAdding (LinksOnly f) where
  select _ := .inl trivial
  anyRow _ := .inl trivial
  insert i hinert := by
    refine .inl fun _ clause hclause stored proposed r hr => ?_
    rcases hinert clause hclause stored proposed with hnone | hstored
    · cases hr.symm.trans hnone
    · rw [Option.some.inj (hr.symm.trans hstored)]

end Command

/-! ## Operations -/

/-- The names of the columns that a write of a node has in its own row: those of its fields, and the
foreign keys of its edges. -/
def ownNames (fields : List Field) (edges : List Edge) : List String :=
  fields.map Field.column ++ (edges.filter Edge.writesOwnColumn).flatMap Edge.columns

theorem Node.mem_ownNames {node : Node} {fields : List Field} {edges : List Edge}
    {columns : List (String × Value)} (h : node.ownColumns fields edges = .ok columns)
    {p : String × Value} (hp : p ∈ columns) : p.1 ∈ ownNames fields edges := by
  rcases mem_ownColumns h hp with ⟨field, hfield, -, hname⟩ | ⟨e, he, hown, hcolumns, -⟩
  · exact List.mem_append_left _ (hname ▸ List.mem_map_of_mem hfield)
  · refine List.mem_append_right _ (List.mem_flatMap.mpr ⟨e, List.mem_filter.mpr ⟨he, hown⟩, ?_⟩)
    simp [hcolumns]

/-- A creation, or an update of one node. -/
inductive LinkingOperation
  | create (c : NodeCreation)
  | update (u : NodeUpdate)

namespace LinkingOperation

variable {o : LinkingOperation}

def node : LinkingOperation → Node
  | create c => c.node
  | update u => u.node

/-- The edges that are added to the node. -/
def added : LinkingOperation → List Edge
  | create c => c.edges
  | update u => u.edges.add

/-- The edges of the node that are cleared. -/
def cleared : LinkingOperation → List Edge
  | create _ => []
  | update u => u.edges.clear

/-- The columns that are written in the node's own row. -/
def writtenNames : LinkingOperation → List String
  | create c => c.node.id.column :: ownNames c.fields c.edges
  | update u => u.fields.clear ++ ownNames (u.fields.set ++ u.fields.add) u.edges.add

/-- What the operation does. The result is the ID of the node. -/
def program (d : Dialect) : LinkingOperation → Program Value
  | create c => c.run d
  | update u => do
    let id ← u.node.id.bindValue
    u.runOne d
    pure id

/-- The targets that are linked over a column. -/
def targets (f : LinkColumn) (o : LinkingOperation) : List Value :=
  let linked := o.added.filter fun e =>
    e.isForeignKeyEdge && e.table == f.table && e.columns == [f.column]
  linked.flatMap (·.target.nodes)

/-- The operation writes a column in no other way than by linking targets, and clears no edges. -/
structure WritesByLinks (f : LinkColumn) (o : LinkingOperation) : Prop where
  clears : o.cleared = []
  links : ∀ e ∈ o.added, e.isForeignKeyEdge = true → e.table = f.table →
    (e.columns = [f.column] ∧ e.target.id.column = f.id) ∨ ∀ c ∈ e.columns, columnName c ≠ f.column
  own : o.node.table = f.table → ∀ c ∈ o.writtenNames, columnName c ≠ f.column

namespace WritesByLinks

/-- The targets of an edge are linked over the column, or over another one. -/
theorem linksOnly (h : o.WritesByLinks f) (he : e ∈ o.added)
    (hforeign : e.isForeignKeyEdge = true) {fk : String} (hfk : e.columns = [fk]) :
    (Command.update (ForeignKey.linking v fk e)).LinksOnly f := by
  by_cases htable : e.table = f.table
  · rcases h.links e he hforeign htable with ⟨hcolumns, -⟩ | hother
    · obtain rfl : f.column = fk := by simpa using hcolumns.symm.trans hfk
      exact .inr ⟨v, e, rfl⟩
    · refine .inl fun _ c hc => ?_
      obtain rfl : c = fk := by
        simpa [ForeignKey.linking, Update.filter, Update.set, Update.ofTable] using hc
      exact hother c (by simp [hfk])
  · exact .inl fun hsame => absurd hsame htable

/-- The INSERT of a new node sets the column in no stored row. -/
theorem insert_linksOnly {c : NodeCreation} (h : (create c).WritesByLinks f)
    {supplied : Option Value} {i : Insert} (hi : c.insertion d supplied = .ok i)
    {statement : InsertStatement} (htable : statement.table = i.table)
    (hclause : Sql.compiledClause d i = .ok statement.conflict) :
    (Command.insert statement).LinksOnly f := by
  obtain ⟨columns, hcolumns, hname, hnames, -⟩ := NodeCreation.insertion_ok hi
  refine .inl fun hsame clause hsome stored proposed r hr => ?_
  have hsame : c.node.table = f.table := hname.symm.trans (htable.symm.trans hsame)
  refine ConflictClause.resolve_of_ne (fun a ha hvalue => h.own hsame _ ?_) hr
  obtain ⟨_, -, hwarrants⟩ := Insert.warrants_of_compiledClause (hsome ▸ hclause)
  have hmem := (hwarrants a ha hvalue).1
  rw [hnames] at hmem
  obtain ⟨p, hp, hpa⟩ := List.mem_map.mp hmem
  rw [← hpa]
  rcases List.mem_append.mp hp with hp | hp
  · obtain ⟨id, -, rfl⟩ := List.mem_map.mp hp
    exact List.mem_cons_self
  · exact List.mem_cons_of_mem _ (Node.mem_ownNames hcolumns hp)

/-- The UPDATE of a node's own row does not set the column. -/
theorem update_linksOnly {u : NodeUpdate} (h : (update u).WritesByLinks f) {own : Update}
    (hown : u.ownUpdate = .ok own) {rows : Predicate} {condition : Option Predicate} :
    (Command.update ((own.filter rows).filterOpt condition)).LinksOnly f := by
  obtain ⟨sets, adds, hassigns⟩ := NodeUpdate.ownUpdate_ok hown
  -- a condition does not change what is assigned
  have hsame : ((own.filter rows).filterOpt condition).table = own.table ∧
      ((own.filter rows).filterOpt condition).nulls = own.nulls ∧
        ((own.filter rows).filterOpt condition).sets = own.sets := by
    cases condition <;> exact ⟨rfl, rfl, rfl⟩
  obtain ⟨hname, hnulls, hsets⟩ := hsame
  refine .inl fun hsame c hc => ?_
  rw [hname] at hsame
  have hsame : u.node.table = f.table := hassigns.table.symm.trans hsame
  rw [hnulls, hsets] at hc
  refine h.own hsame c ?_
  rcases List.mem_append.mp hc with hnull | hset
  · rcases hassigns.nulls c hnull with hclear | ⟨e, he, -⟩
    · exact List.mem_append_left _ hclear
    · have hnone : u.edges.clear = [] := h.clears
      rw [hnone] at he
      cases he
  · refine List.mem_append_right _ ?_
    rw [hassigns.sets] at hset
    obtain ⟨a, ha, rfl⟩ := List.mem_map.mp hset
    have hfields : ∀ {n}, n ∈ ownNames u.fields.set u.edges.add →
        n ∈ ownNames (u.fields.set ++ u.fields.add) u.edges.add := by
      intro n hn
      rcases List.mem_append.mp hn with hn | hn
      · refine List.mem_append_left _ ?_
        rw [List.map_append]
        exact List.mem_append_left _ hn
      · exact List.mem_append_right _ hn
    rcases List.mem_append.mp ha with ha | ha
    · obtain ⟨p, hp, rfl⟩ := List.mem_map.mp ha
      exact hfields (Node.mem_ownNames hassigns.columns hp)
    · obtain ⟨p, hp, rfl⟩ := List.mem_map.mp ha
      obtain ⟨field, hfield, hname⟩ := hassigns.increments p hp
      refine List.mem_append_left _ ?_
      show p.1 ∈ _
      rw [hname, List.map_append]
      exact List.mem_append_right _ (List.mem_map_of_mem hfield)

/-- All statements of the operation link targets, or have nothing to do with the column. -/
theorem issues_program (h : o.WritesByLinks f) :
    (o.program d).Issues (Command.LinksOnly f) := by
  cases o with
  | create c =>
    refine NodeCreation.issues_run Command.allowsAdding_linksOnly ?_ ?_
    · exact fun supplied i hi statement htable hclause => h.insert_linksOnly hi htable hclause
    · exact fun e he hforeign id fk hfk => h.linksOnly he hforeign hfk
  | update u =>
    refine issues_lift_bind fun id _ => Issues.bind ?_ fun _ => issues_done id
    refine NodeUpdate.issues_runOne Command.allowsAdding_linksOnly h.clears ?_ ?_
    · exact fun id own hown => h.update_linksOnly hown
    · exact fun e he hforeign id fk hfk => h.linksOnly he hforeign hfk

end WritesByLinks

end LinkingOperation

end EntityGraph
