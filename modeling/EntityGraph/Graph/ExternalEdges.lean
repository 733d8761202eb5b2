import EntityGraph.Graph.ForeignKey
import EntityGraph.Graph.JoinTable

/-!
# Edges stored outside a node's row

Such edges are rows of join tables or foreign keys in other rows. They are written after the row of
the node itself; join tables come before foreign keys, and in each of the two a change removes
before it adds.
-/

set_option autoImplicit false

namespace EntityGraph

namespace ExternalEdges

/-- Writes edges of one new node. -/
def create (conn : Connection) (id : Value) (edges : List Edge) : Program Unit := do
  JoinTable.add conn (edges.map fun e => ([id], e))
  ForeignKey.add conn [id] edges

/-- Changes edges of some nodes. In each kind of storage edges are cleared before others are added,
so that one update can move an edge. -/
def change (conn : Connection) (ids : List Value) (changes : EdgeChanges) : Program Unit := do
  JoinTable.clear conn ids changes.clear
  JoinTable.add conn (changes.add.map fun e => (ids, e))
  ForeignKey.clear conn ids changes.clear
  ForeignKey.add conn ids changes.add

/-- A creation with these edges writes several rows, or has to look at other rows first. -/
def needTransaction (edges : List Edge) : Bool :=
  edges.any fun e => e.writesExternal || (e.isOneToOne && e.writesOwnColumn)

end ExternalEdges

end EntityGraph
