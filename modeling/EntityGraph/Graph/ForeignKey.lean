import EntityGraph.Connection
import EntityGraph.Row

/-!
# Foreign keys in other tables

An edge that is stored in its target's row is written by an UPDATE of the target's table. A target
is linked only while it has no other node: the first writer keeps it.
-/

set_option autoImplicit false

namespace EntityGraph

namespace ForeignKey

/-- The UPDATE that clears the foreign keys that refer to some nodes, or only those of the listed
targets. -/
def clearing (ids : List Value) (e : Edge) : Except Error Update := do
  let fk ← e.foreignKey
  let rows : Predicate :=
    if e.target.nodes.isEmpty then .oneOf fk ids
    else .bothOneOf e.target.id.column e.target.nodes fk ids
  pure (((Update.ofTable e.table).setNull fk).filter rows)

/-- Clears the edges of some nodes that are stored in their targets' rows. -/
def clear (conn : Connection) (ids : List Value) (edges : List Edge) : Program Unit :=
  if ids.isEmpty then pure ()
  else
    (edges.filter Edge.isForeignKeyEdge).forM fun e => do
      let statement ← clearing ids e
      discard (conn.exec (.update statement))

/-- The UPDATE that has the foreign keys of the targets of an edge refer to a node, where they do
not refer to any. -/
def linking (id : Value) (fk : String) (e : Edge) : Update :=
  (((Update.ofTable e.table).set fk id).filter (.oneOf e.target.id.column e.target.nodes)).filter
    (.isNull fk)

/-- Links the targets of an edge to a node; all of them must be free. -/
def link (conn : Connection) (id : Value) (e : Edge) : Program Unit := do
  let fk ← e.foreignKey
  let targets := e.target.nodes
  let result ← conn.exec (.update (linking id fk e))
  if result.rowsAffected < targets.length then
    throw (LinkConflict.targetsTaken targets fk).toError

/-- Links the targets of edges that are stored in the targets' rows. They can have one node only. -/
def add (conn : Connection) (ids : List Value) (edges : List Edge) : Program Unit :=
  match edges.filter fun e => e.isForeignKeyEdge && !e.target.nodes.isEmpty, ids with
  | [], _ => pure ()
  | links, [id] => links.forM (link conn id)
  | _, ids => throw (LinkConflict.manyNodes ids).toError

end ForeignKey

end EntityGraph
