import EntityGraph.Graph.ExternalEdges
import EntityGraph.Graph.OwnColumns
import EntityGraph.Graph.Partner

/-!
# Updating nodes

An update of one node names it by its ID and fails if there is no such row. An update of all nodes
that meet a condition is a single statement, unless it writes edges: then the IDs of the nodes are
read first.
-/

set_option autoImplicit false

namespace EntityGraph

namespace NodeUpdate

/-- Refuses an update that contradicts itself. -/
def check (u : NodeUpdate) : Except Error Unit := do
  u.edges.add.forM Edge.checkDirect
  u.edges.clear.forM Edge.validate
  match (u.fields.set ++ u.fields.add).find? fun f => u.fields.clear.contains f.column with
  | some f => throw (.validation f.column .setAndCleared)
  | none => pure ()
  match u.fields.add.find? fun f => !f.type.isNumeric with
  | some f => throw (.validation f.column (.notNumeric f.type))
  | none => pure ()

/-- A foreign key column to clear, unless the same update sets it. -/
def clearedKey (sets : List (String × Value)) (e : Edge) : Except Error (List String) := do
  let column ← e.foreignKey
  pure (if sets.any fun s => s.1 == column then [] else [column])

/-- The UPDATE of the nodes' own rows, without a condition. -/
def ownUpdate (u : NodeUpdate) : Except Error Update := do
  let sets ← u.node.ownColumns u.fields.set u.edges.add
  u.fields.clear.forM u.node.checkColumn
  let keys ← (u.edges.clear.filter Edge.writesOwnColumn).mapM (clearedKey sets)
  let adds ← u.fields.add.mapM u.node.fieldColumn
  let cleared := (u.fields.clear ++ keys.flatten).foldl Update.setNull (.ofTable u.node.table)
  let set := sets.foldl (fun w s => w.set s.1 s.2) cleared
  pure (adds.foldl (fun w a => w.add a.1 a.2) set)

/-- Reads the row of a node back and delivers it. -/
def readBack (conn : Connection) (u : NodeUpdate) (id : Value) : Program Unit := do
  let columns := u.node.selectColumns
  let select := ((Selector.ofTable u.node.table).withColumns columns).filter
    (.eq u.node.id.column id)
  let rows ← conn.query (.select select)
  match rows.rows with
  | [] => throw (.notFound u.node.label)
  | row :: _ => do
    let types ← scanTypes u.scan columns
    let values ← readRow columns types row
    Program.deliver (.row columns values)

/-- Updates the row of a node. The result is the number of rows that changed. -/
def writeOwnRow (conn : Connection) (u : NodeUpdate) (id : Value) : Program Nat := do
  let own ← u.ownUpdate
  if own.isEmpty then pure 0
  else do
    let statement := (own.filter (.eq u.node.id.column id)).filterOpt u.predicate
    let result ← conn.exec (.update statement)
    pure result.rowsAffected

/-- Updates one node on a connection. Some databases do not count rows that an update leaves as they
were, so where no row changed the database is asked whether there is one. -/
def writeOne (conn : Connection) (u : NodeUpdate) (id : Value) : Program Unit := do
  Partner.check conn u.node (some id) u.edges.add u.edges.clear
  let changed ← u.writeOwnRow conn id
  if changed = 0 then
    let present ← conn.probe
      (((Selector.ofTable u.node.table).filter (.eq u.node.id.column id)).filterOpt u.predicate)
    if !present then throw (.notFound u.node.label)
  ExternalEdges.change conn [id] u.edges
  if u.delivers then u.readBack conn id

/-- The IDs of the nodes that meet the condition. -/
def matchedIds (conn : Connection) (u : NodeUpdate) : Program (List Value) := do
  let select := ((Selector.ofTable u.node.table).withColumns [u.node.id.column]).filterOpt
    u.predicate
  let rows ← conn.query (.select select)
  ((rows.rows.filterMap List.head?).mapM u.node.readId : Except Error (List Value))

/-- Refuses to give several nodes one partner. -/
def checkPartners (conn : Connection) (u : NodeUpdate) (ids : List Value) : Program Unit :=
  if u.edges.add.any Edge.isOneToOne then
    if 1 < ids.length then throw (LinkConflict.manyMatches ids.length u.node.label).toError
    else Partner.check conn u.node ids.head? u.edges.add u.edges.clear
  else pure ()

/-- Updates the nodes that meet the condition, and their edges. The result is their number. -/
def writeMany (conn : Connection) (u : NodeUpdate) : Program Nat := do
  let ids ← u.matchedIds conn
  if ids.isEmpty then pure 0
  else do
    u.checkPartners conn ids
    let own ← u.ownUpdate
    if !own.isEmpty then
      discard (conn.exec (.update (own.filter (.oneOf u.node.id.column ids))))
    ExternalEdges.change conn ids u.edges
    pure ids.length

/-- Updates the rows of the nodes that meet the condition by one statement. -/
def writeRows (conn : Connection) (u : NodeUpdate) : Program Nat := do
  let own ← u.ownUpdate
  if own.isEmpty then pure 0
  else do
    let result ← conn.exec (.update (own.filterOpt u.predicate))
    pure result.rowsAffected

/-- The update writes edges that need the IDs of the nodes. -/
def needsIds (u : NodeUpdate) : Bool :=
  (u.edges.add ++ u.edges.clear).any Edge.writesExternal || u.edges.add.any Edge.isOneToOne

/-- Updates the node with the given ID. -/
def runOne (d : Dialect) (u : NodeUpdate) : Program Unit := do
  let id ← u.node.id.bindValue
  if id.isNull then throw (.validation u.node.id.column .updateWithoutId)
  u.check
  Connection.run d true fun conn => u.writeOne conn id

/-- Updates all nodes that meet the condition. The result is their number. -/
def runMany (d : Dialect) (u : NodeUpdate) : Program Nat := do
  u.check
  if u.needsIds then Connection.run d true fun conn => u.writeMany conn
  else Connection.run d false fun conn => u.writeRows conn

end NodeUpdate

end EntityGraph
