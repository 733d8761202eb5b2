import EntityGraph.Connection

/-!
# Deleting nodes

A deletion of one node names it by its ID and fails if no row is deleted; a deletion of many nodes
deletes the rows that meet a condition and counts them.
-/

set_option autoImplicit false

namespace EntityGraph

namespace NodeDeletion

/-- A deletion of all nodes of a type. -/
def ofNode (node : Node) : NodeDeletion := { node, predicate := none }

/-- A further condition. -/
def filter (x : NodeDeletion) (p : Predicate) : NodeDeletion :=
  { x with predicate := some (Predicate.conjoin x.predicate p) }

/-- Deletes the node with the given ID, if it meets the condition. -/
def runOne (d : Dialect) (x : NodeDeletion) : Program Unit := do
  let id ← x.node.id.bindValue
  if id.isNull then throw (.validation x.node.id.column .deletionWithoutId)
  Connection.run d false fun conn => do
    let statement := ((Delete.ofTable x.node.table).filter (.eq x.node.id.column id)).filterOpt
      x.predicate
    let result ← conn.exec (.delete statement)
    if result.rowsAffected = 0 then throw (.notFound x.node.label)

/-- Deletes all nodes that meet the condition. The result is their number. -/
def runMany (d : Dialect) (x : NodeDeletion) : Program Nat :=
  Connection.run d false fun conn => do
    let result ← conn.exec (.delete ((Delete.ofTable x.node.table).filterOpt x.predicate))
    pure result.rowsAffected

end NodeDeletion

end EntityGraph
