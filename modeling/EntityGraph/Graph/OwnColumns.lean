import EntityGraph.Operation

/-!
# The columns of a node's own row

A write of a node sets its fields and the foreign keys of the edges that are stored in its row.
-/

set_option autoImplicit false

namespace EntityGraph

/-- The first name that stands in a list a second time. -/
def firstRepeated? (seen : List String) : List String → Option String
  | [] => none
  | name :: rest => if seen.contains name then some name else firstRepeated? (name :: seen) rest

namespace Node

/-- The column and the value of a field of a node. -/
def fieldColumn (node : Node) (f : Field) : Except Error (String × Value) := do
  node.checkColumn f.column
  let v ← f.bindValue
  pure (f.column, v)

/-- The columns that a write of a node sets in its own row: its fields first, then the foreign keys
of its edges. Each column is set once. -/
def ownColumns (node : Node) (fields : List Field) (edges : List Edge) :
    Except Error (List (String × Value)) := do
  let written ← fields.mapM node.fieldColumn
  let linked ← (edges.filter Edge.writesOwnColumn).mapM fun e => do
    let column ← e.foreignKey
    match e.target.nodes with
    | target :: _ => pure (column, target)
    | [] => throw (.validation column .noTarget)
  let columns := written ++ linked
  match firstRepeated? [] (columns.map (·.1)) with
  | some column => throw (.validation column .writtenTwice)
  | none => pure columns

end Node

end EntityGraph
