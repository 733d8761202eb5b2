import EntityGraph.Node

/-!
# Edges

An edge names a relation between two node types and the nodes at its other end. For a relation of
many to many `table` is the join table and `columns` are its two foreign key columns, the owner's
first; for the other kinds `table` is the table that has the foreign key, in its only column.
-/

set_option autoImplicit false

namespace EntityGraph

/-- The other end of an edge. -/
structure EdgeTarget where
  /-- The IDs of the nodes at the other end. -/
  nodes : List Value
  /-- The ID column of their table. -/
  id : Field
  /-- Further columns of the join table, written with each of its rows. -/
  fields : List Field
  /-- Positions of nodes of the same batch whose IDs become targets once they are known. -/
  pending : List Nat

/-- A relation with the nodes at its other end. -/
structure Edge where
  relation : Relation
  /-- This side is the one that is referred to. -/
  inverse : Bool
  /-- The same table and columns serve both directions. -/
  bidi : Bool
  table : String
  columns : List String
  target : EdgeTarget

namespace Edge

/-- An edge of a relation without targets. -/
def ofRelation (relation : Relation) (table : String) (columns : List String) : Edge :=
  { relation, inverse := false, bidi := false, table, columns
    target := { nodes := [], id := { column := "id", type := .int }, fields := [], pending := [] } }

/-- An edge of one to one. -/
def oneToOne (table column : String) : Edge := ofRelation .oneToOne table [column]

/-- An edge of one to many. -/
def oneToMany (table column : String) : Edge := ofRelation .oneToMany table [column]

/-- An edge of many to one. The foreign key is in the node's own table, so it is inverse. -/
def manyToOne (table column : String) : Edge :=
  { ofRelation .manyToOne table [column] with inverse := true }

/-- An edge of many to many. -/
def manyToMany (table owner other : String) : Edge := ofRelation .manyToMany table [owner, other]

/-- The foreign key is a column of the node's own row. -/
def writesOwnColumn (e : Edge) : Bool :=
  match e.relation with
  | .manyToOne => true
  | .oneToOne => e.inverse || e.bidi
  | .oneToMany | .manyToMany => false

/-- The edge is stored outside the node's row: in a join table, or in a foreign key column of the
target's row. -/
def writesExternal (e : Edge) : Bool :=
  match e.relation with
  | .manyToMany | .oneToMany => true
  | .oneToOne => !e.inverse
  | .manyToOne => false

/-- The edge is stored in a foreign key column of the target's row. -/
def isForeignKeyEdge (e : Edge) : Bool :=
  match e.relation with
  | .oneToMany => true
  | .oneToOne => !e.inverse
  | .manyToOne | .manyToMany => false

/-- The edge is of many to many. -/
def isManyToMany (e : Edge) : Bool := e.relation == .manyToMany

/-- The edge is of one to one. -/
def isOneToOne (e : Edge) : Bool := e.relation == .oneToOne

/-- The first column, by which an edge is named in messages, or else its table. -/
def nameColumn (e : Edge) : String := e.columns.head?.getD e.table

/-- Refuses an edge whose columns do not locate its relation. -/
def validate (e : Edge) : Except Error Unit :=
  if e.columns.length ≠ e.relation.columnCount then
    .error (.validation e.table (.edgeArity e.relation e.columns.length))
  else if e.relation = .manyToOne ∧ !e.inverse then
    .error (.validation e.nameColumn .ownedEdge)
  else .ok ()

/-- The foreign key column of an edge that has one. -/
def foreignKey (e : Edge) : Except Error String :=
  match e.columns with
  | [column] => .ok column
  | _ => .error (.validation e.table (.singleColumnExpected e.relation))

/-- The columns of a join table: this node's, then the target's. -/
def joinColumns (e : Edge) : Except Error (String × String) :=
  match e.columns with
  | [owner, other] => .ok (if e.inverse then (other, owner) else (owner, other))
  | _ => .error (.validation e.table .joinColumnsExpected)

/-- The edges are of the same relation, whatever their targets. -/
def sameRelation (e f : Edge) : Bool :=
  e.relation == f.relation && e.inverse == f.inverse && e.table == f.table &&
    e.columns == f.columns

/-- The column of the parent by whose values neighbors are found: the foreign key where the parent
has it, the parent's ID otherwise. -/
def keyColumn (e : Edge) (parent : Node) : String :=
  if e.writesOwnColumn then e.columns.head?.getD "" else parent.id.column

/-- Refuses an edge that cannot be added: one with wrong columns, too many or too few targets, or
a further column whose value does not fit. -/
def checkAdd (e : Edge) : Except Error Unit := do
  e.validate
  let targets := e.target.nodes.length + e.target.pending.length
  if e.relation = .oneToOne ∧ 1 < targets then
    throw (.validation e.nameColumn (.manyTargets targets))
  else if e.relation = .manyToOne ∧ targets ≠ 1 then
    throw (.validation e.nameColumn (.oneTargetExpected targets))
  else if targets = 0 then
    throw (.validation e.nameColumn .noTargets)
  e.target.fields.forM fun f => discard f.bindValue

/-- Refuses an edge that cannot be added, or that refers to nodes of a batch. -/
def checkDirect (e : Edge) : Except Error Unit :=
  if e.target.pending.isEmpty then e.checkAdd
  else .error (.validation e.table .pendingOutsideBatch)

end Edge

/-- What an update changes on the edges of a node. -/
structure EdgeChanges where
  add : List Edge
  /-- Edges to clear. Without targets every edge of the relation is cleared, with targets only the
  edges to these. -/
  clear : List Edge

namespace EdgeChanges

/-- No changes. -/
def none : EdgeChanges := ⟨[], []⟩

/-- Adds an edge. -/
def addEdge (c : EdgeChanges) (e : Edge) : EdgeChanges := { c with add := c.add ++ [e] }

/-- Clears an edge. -/
def clearEdge (c : EdgeChanges) (e : Edge) : EdgeChanges := { c with clear := c.clear ++ [e] }

/-- Clears the edges to the listed targets only, of which there must be some. -/
def removeEdge (c : EdgeChanges) (e : Edge) : Except Error EdgeChanges :=
  if e.target.nodes.isEmpty then .error (.validation e.table .removalWithoutTargets)
  else .ok (c.clearEdge e)

/-- Nothing is changed. -/
def isEmpty (c : EdgeChanges) : Bool := c.add.isEmpty && c.clear.isEmpty

end EdgeChanges

end EntityGraph
