import EntityGraph.Graph.ExternalEdges
import EntityGraph.Graph.OwnColumns
import EntityGraph.Graph.Partner

/-!
# Creating a node

A node is inserted with the columns of its own row; edges stored elsewhere are written once its ID
is known. The ID is the one supplied, or it is read back: from the returned row where the dialect
has one, from the reported last ID otherwise.
-/

set_option autoImplicit false

namespace EntityGraph

namespace NodeCreation

/-- The ID to insert a node with: the given one, or one that is drawn for it. There is none where
the database assigns it. -/
def supplyId (position : Nat) (node : Node) : Program (Option Value) :=
  if !node.id.value.isNull then do
    let v ← node.id.bindValue
    pure (some v)
  else
    match node.strategy with
    | .sequence => pure none
    | .client => throw (.validation node.id.column (.missingId node.table))
    | .generator g => do
      let drawn ← Program.draw g
      Program.revise position (.id drawn)
      let v ← (node.withId drawn).id.bindValue
      pure (some v)

/-- The insert of a node's own row. -/
def insertion (d : Dialect) (c : NodeCreation) (supplied : Option Value) : Except Error Insert := do
  let own ← c.node.ownColumns c.fields c.edges
  let columns := supplied.toList.map (fun id => (c.node.id.column, id)) ++ own
  let row := columns.foldl (fun i column => i.set column.1 column.2) (Insert.into c.node.table)
  match c.policy with
  | none => pure row
  | some policy =>
    if d = .mysql ∧ c.node.id.type.isNumeric ∧ supplied.isNone then
      pure ((row.onConflict policy).reportConflictId c.node.id.column)
    else pure (row.onConflict policy)

/-- Refuses an ID type of which the dialect does not report generated IDs. -/
def checkReported (d : Dialect) (node : Node) : Except Error Unit :=
  if node.id.type.isNumeric then .ok ()
  else .error (.validation node.id.column (.unreportedId d node.id.type))

/-- Inserts a row and reads back its ID, or that of the row that it conflicted with. -/
def insertedId (conn : Connection) (node : Node) (i : Insert) (supplied : Option Value) :
    Program Value :=
  if conn.dialect.supportsReturning then do
    let rows ← conn.queryInsert (i.withReturning node.id.column)
    match rows.firstValue?, supplied with
    | some id, _ => node.readId id
    | none, some id => pure id
    | none, none => throw (.notFound node.label)
  else do
    let result ← conn.execInsert i
    match supplied with
    | some id => pure id
    | none => do
      checkReported conn.dialect node
      match result.lastInsertId with
      | some id => if id ≠ 0 then node.readId (.int id) else throw (.notFound node.label)
      | none => throw (.notFound node.label)

/-- Inserts a node with its edges, all of which have been checked and have no open references. -/
def write (conn : Connection) (position : Nat) (c : NodeCreation) : Program Value := do
  Partner.check conn c.node none c.edges []
  let supplied ← supplyId position c.node
  let i ← c.insertion conn.dialect supplied
  let id ← match supplied, c.policy with
    | some id, none => do
      discard (conn.execInsert i)
      pure id
    | _, _ => insertedId conn c.node i supplied
  Program.revise position (.id id)
  ExternalEdges.create conn id c.edges
  pure id

/-- Creates a node with its edges. The result is its ID. -/
def run (d : Dialect) (c : NodeCreation) : Program Value := do
  (c.edges.forM Edge.checkDirect : Except Error Unit)
  Connection.run d (ExternalEdges.needTransaction c.edges) fun conn => write conn 0 c

end NodeCreation

end EntityGraph
