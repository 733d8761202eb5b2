import EntityGraph.Edge
import EntityGraph.Sql.Insert
import EntityGraph.Step

/-!
# Descriptions of operations

One value describes one operation on a graph of nodes: a creation, a batch of creations, an
update, a deletion, a query of nodes, a load of the neighbors of nodes, or a query of a join
table. Descriptions are built by the caller and carried out by `EntityGraph.Graph`.
-/

set_option autoImplicit false

namespace EntityGraph

/-- Gives, for the names of selected columns, the types as which they are read. -/
abbrev Scan := List String → Except Error (List FieldType)

/-- The insertion of one node with its edges. -/
structure NodeCreation where
  node : Node
  fields : List Field
  edges : List Edge
  policy : Option ConflictPolicy

namespace NodeCreation

/-- A node of a type, without fields and edges. -/
def ofNode (node : Node) : NodeCreation := { node, fields := [], edges := [], policy := none }

/-- The positions of the batch nodes that a node refers to. -/
def dependencies (c : NodeCreation) : List Nat := c.edges.flatMap fun e => e.target.pending

end NodeCreation

/-- Something that an operation writes into the description of a creation. -/
inductive Revision where
  /-- The ID of the node. -/
  | id (v : Value)
  /-- The edges, with references resolved. -/
  | edges (es : List Edge)
  /-- The conflict policy. -/
  | policy (p : ConflictPolicy)

/-- The creation with what an operation writes into it. -/
def NodeCreation.revise (c : NodeCreation) : Revision → NodeCreation
  | .id v => { c with node := c.node.withId v }
  | .edges es => { c with edges := es }
  | .policy p => { c with policy := some p }

/-- Insertions into one table that share a conflict policy. -/
structure BatchCreation where
  nodes : List NodeCreation
  policy : Option ConflictPolicy

/-- What an update writes into columns. -/
structure FieldChanges where
  set : List Field
  /-- Increments. -/
  add : List Field
  /-- Columns to clear. -/
  clear : List String

namespace FieldChanges

/-- No changes. -/
def none : FieldChanges := ⟨[], [], []⟩

end FieldChanges

/-- The update of one node, or of all nodes that meet a condition. -/
structure NodeUpdate where
  node : Node
  fields : FieldChanges
  edges : EdgeChanges
  predicate : Option Predicate
  scan : Option Scan
  /-- The updated row is read back and delivered. -/
  delivers : Bool

namespace NodeUpdate

/-- An update that changes nothing yet. -/
def ofNode (node : Node) : NodeUpdate :=
  { node, fields := .none, edges := .none, predicate := .none, scan := .none, delivers := false }

/-- A further condition. -/
def filter (u : NodeUpdate) (p : Predicate) : NodeUpdate :=
  { u with predicate := some (Predicate.conjoin u.predicate p) }

end NodeUpdate

/-- The deletion of one node, or of all nodes that meet a condition. -/
structure NodeDeletion where
  node : Node
  predicate : Option Predicate

/-- The load of the neighbors of nodes over one edge. -/
structure EdgeLoad where
  /-- The name under which neighbors are delivered. -/
  name : Option String
  /-- The edge, as the parents declare it. -/
  edge : Edge
  /-- The node type of the neighbors. -/
  target : Node
  predicate : Option Predicate
  order : List OrderTerm
  scan : Scan

/-- A selection of nodes, with loads of their neighbors. -/
structure NodeQuery where
  node : Node
  /-- The selected columns; all columns of the node type if there are none. -/
  columns : List String
  /-- What is selected from instead of the table. -/
  source : Option Selector
  predicate : Option Predicate
  order : List OrderTerm
  limit : Option Nat
  offset : Option Nat
  unique : Bool
  edges : List EdgeLoad
  scan : Option Scan
  /-- The rows are delivered. -/
  delivers : Bool

namespace NodeQuery

/-- A query of all nodes of a type. -/
def ofNode (node : Node) : NodeQuery :=
  { node, columns := [], source := .none, predicate := .none, order := [], limit := .none,
    offset := .none, unique := false, edges := [], scan := .none, delivers := false }

/-- A query of the neighbors that a step reaches, each once. -/
def ofStep (node : Node) (step : Step) : NodeQuery :=
  { ofNode node with source := some step.neighbors, unique := true }

/-- A further condition. -/
def filter (q : NodeQuery) (p : Predicate) : NodeQuery :=
  { q with predicate := some (Predicate.conjoin q.predicate p) }

end NodeQuery

/-- A query of the pairs of a join table. -/
structure EdgeQuery where
  edge : Edge
  predicate : Option Predicate

end EntityGraph
