import EntityGraph.Connection
import EntityGraph.Graph.Grouping
import EntityGraph.Row

/-!
# Rows of join tables

An edge of many to many is a row of its join table for each pair of a node and a target. An edge
that serves both directions has a second row with the ends exchanged. All edges of one join table
are cleared by one DELETE and written by one INSERT.
-/

set_option autoImplicit false

namespace EntityGraph

namespace JoinTable

/-- The join table rows that clearing an edge of these nodes deletes: all of the nodes' rows, or
only those to the listed targets. -/
def clearedRows (ids : List Value) (e : Edge) : Except Error (List Predicate) := do
  let (own, other) ← e.joinColumns
  let targets := e.target.nodes
  if targets.isEmpty then
    pure (.oneOf own ids :: if e.bidi then [.oneOf other ids] else [])
  else
    pure (.bothOneOf own ids other targets ::
      if e.bidi then [.bothOneOf other ids own targets] else [])

/-- The DELETE that clears the edges of one join table. -/
def clearing (table : String) (ids : List Value) (edges : List Edge) : Except Error Delete := do
  let rows ← edges.mapM (clearedRows ids)
  pure ((Delete.ofTable table).filter (.disj rows.flatten))

/-- Clears the edges of many to many of some nodes. -/
def clear (conn : Connection) (ids : List Value) (edges : List Edge) : Program Unit :=
  if ids.isEmpty then pure ()
  else
    (groupByName Edge.table (edges.filter Edge.isManyToMany)).forM fun (table, group) => do
      let statement ← clearing table ids group
      discard (conn.exec (.delete statement))

/-- The rows of one edge of some nodes. The first column is the owner's. -/
def edgeRows (ids : List Value) (e : Edge) : Except Error (List (List Value)) := do
  let extra ← e.target.fields.mapM Field.bindValue
  let (owners, others) := if e.inverse then (e.target.nodes, ids) else (ids, e.target.nodes)
  pure (owners.flatMap fun a => others.flatMap fun b =>
    (a :: b :: extra) :: if e.bidi then [b :: a :: extra] else [])

/-- An insert into a join table that has the shape of an edge, without rows. Rows that are there
already are skipped unless the edge has further columns, whose values may differ. -/
def insertFor (table : String) (e : Edge) : Insert :=
  let i := (Insert.into table).withColumns (e.columns ++ e.target.fields.map Field.column)
  if e.target.fields.isEmpty then i.onConflict ⟨[], .doNothing⟩ else i

/-- The insert of the rows of edges of one join table, which has the shape of the first. -/
def insertOf (table : String) (links : List (List Value × Edge)) : Except Error Insert := do
  let rows ← links.mapM fun (ids, e) => edgeRows ids e
  let shape := match links with
    | (_, e) :: _ => insertFor table e
    | [] => Insert.into table
  pure { shape with rows := rows.flatten }

/-- Writes edges, each of the nodes that it stands with. -/
def add (conn : Connection) (links : List (List Value × Edge)) : Program Unit := do
  let joins := links.filter fun (_, e) => e.isManyToMany
  let inserts ← (groupByName (fun link => link.2.table) joins).mapM fun (table, group) =>
    insertOf table group
  inserts.forM fun i => if i.rows.isEmpty then pure () else discard (conn.execInsert i)

end JoinTable

end EntityGraph
