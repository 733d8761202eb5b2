import EntityGraph.Graph.Load

/-!
# Querying nodes

A query selects rows of a table, or of the neighbors that a step reaches, delivers them in order and
then loads the neighbors over its edges. The other questions about the same selection are its first
row, its only row, its IDs, their number and whether there is one.
-/

set_option autoImplicit false

namespace EntityGraph

namespace NodeQuery

/-- What is selected from, with the conditions. -/
def base (q : NodeQuery) : Selector :=
  (q.source.getD (.ofTable q.node.table)).filterOpt q.predicate

/-- The selected columns: the requested ones, and those by which neighbors are found. -/
def projection (q : NodeQuery) : List String :=
  let requested := if q.columns.isEmpty then q.node.selectColumns else q.columns
  q.edges.foldl
    (fun columns l =>
      let key := l.edge.keyColumn q.node
      if columns.contains key then columns else columns ++ [key])
    requested

/-- The selection of some columns, with at most so many rows if there is a limit. -/
def selector (q : NodeQuery) (columns : List String) (limit : Option Nat) : Selector :=
  let selected := q.base.withColumns (columns.map q.base.qualify)
  let ordered := q.order.foldl Selector.orderBy selected
  { ordered with
    limit := limit.or (q.limit.or ordered.limit)
    offset := q.offset.or ordered.offset
    distinct := q.unique || ordered.distinct }

/-- The limit of a query that needs only so many rows. -/
def capped (q : NodeQuery) (cap : Nat) : Option Nat :=
  some (match q.limit with
    | some limit => min limit cap
    | none => cap)

/-- The rows of a query, with their types restored. -/
def fetch (d : Dialect) (q : NodeQuery) (limit : Option Nat) : Program (List (List Value)) :=
  Connection.run d false fun conn => do
    let columns := q.projection
    let rows ← conn.query (.select (q.selector columns limit))
    if rows.rows.isEmpty then pure []
    else do
      let types ← scanTypes q.scan columns
      (rows.rows.mapM (readRow columns types) : Except Error (List (List Value)))

/-- The keys of fetched rows for an edge. -/
def keysFor (q : NodeQuery) (rows : List (List Value)) (l : EdgeLoad) : List Value :=
  match q.projection.idxOf? (l.edge.keyColumn q.node) with
  | some i => rows.map fun row => row[i]?.getD .null
  | none => rows.map fun _ => .null

/-- Delivers fetched rows and loads their neighbors. The result is the number of rows. -/
def deliver (d : Dialect) (q : NodeQuery) (rows : List (List Value)) : Program Nat := do
  if q.delivers then
    rows.forM fun row => Program.deliver (.row q.projection row)
  if !rows.isEmpty then
    q.edges.forM fun l => discard (l.run d (q.keysFor rows l))
  pure rows.length

/-- Delivers all rows. The result is their number. -/
def all (d : Dialect) (q : NodeQuery) : Program Nat := do
  let rows ← q.fetch d none
  q.deliver d rows

/-- Delivers the first row, which there must be. -/
def first (d : Dialect) (q : NodeQuery) : Program Unit := do
  let rows ← q.fetch d (q.capped 1)
  if rows.isEmpty then throw (.notFound q.node.label)
  discard (q.deliver d rows)

/-- Delivers the only row; nothing is delivered unless there is exactly one. -/
def only (d : Dialect) (q : NodeQuery) : Program Unit := do
  let rows ← q.fetch d (q.capped 2)
  match rows with
  | [] => throw (.notFound q.node.label)
  | [_] => discard (q.deliver d rows)
  | _ => throw (.notSingular q.node.label)

/-- The IDs of the selected rows, with at most so many if there is a limit. -/
def fetchIds (d : Dialect) (q : NodeQuery) (limit : Option Nat) : Program (List Value) :=
  Connection.run d false fun conn => do
    let rows ← conn.query (.select (q.selector [q.node.id.column] limit))
    ((rows.rows.filterMap List.head?).mapM q.node.readId : Except Error (List Value))

/-- The IDs of all rows. -/
def ids (d : Dialect) (q : NodeQuery) : Program (List Value) := q.fetchIds d none

/-- The ID of the first row, which there must be. -/
def firstId (d : Dialect) (q : NodeQuery) : Program Value := do
  let ids ← q.fetchIds d (q.capped 1)
  match ids with
  | id :: _ => pure id
  | [] => throw (.notFound q.node.label)

/-- The ID of the only row. -/
def onlyId (d : Dialect) (q : NodeQuery) : Program Value := do
  let ids ← q.fetchIds d (q.capped 2)
  match ids with
  | [] => throw (.notFound q.node.label)
  | [id] => pure id
  | _ => throw (.notSingular q.node.label)

/-- The selection that counts the rows. A window has to be applied before the rows are counted, so
it moves into a subselection. -/
def counter (q : NodeQuery) : Selector :=
  let id := q.node.id.column
  if q.limit.isSome || q.offset.isSome then
    (Selector.ofRef (.select (q.selector [id] none) "t")).makeCount
  else if q.unique then ((q.base.withColumns [q.base.qualify id]).makeDistinct).makeCount
  else q.base.makeCount

/-- The number of selected rows. -/
def count (d : Dialect) (q : NodeQuery) : Program Nat :=
  Connection.run d false fun conn => do
    let rows ← conn.query (.select q.counter)
    match rows.firstValue?.bind Value.asInt? with
    | some n => pure n.toInt.toNat
    | none => throw (.validation q.node.table .noCount)

/-- Whether a row is selected. -/
def exist (d : Dialect) (q : NodeQuery) : Program Bool :=
  Connection.run d false fun conn =>
    conn.probe (q.base.withColumns [q.base.qualify q.node.id.column])

end NodeQuery

namespace EdgeQuery

/-- The selection of the pairs of a join table. -/
def selector (q : EdgeQuery) (own other : String) : Selector :=
  ((Selector.ofTable q.edge.table).withColumns [own, other]).filterOpt q.predicate

/-- Delivers a pair, this node's side first. -/
def deliverRow (q : EdgeQuery) (other : String) (row : List Value) : Program Unit :=
  match row with
  | fromId :: toId :: _ => do
    let target ← readColumn other q.edge.target.id.type toId
    Program.deliver (.link fromId target)
  | _ => throw (.validation q.edge.table .shortEdgeRow)

/-- Delivers all pairs of a join table. The result is their number. -/
def run (d : Dialect) (q : EdgeQuery) : Program Nat :=
  if !q.edge.isManyToMany then throw (.validation q.edge.table (.noJoinTable q.edge.relation))
  else
    Connection.run d false fun conn => do
      let (own, other) ← q.edge.joinColumns
      let rows ← conn.query (.select (q.selector own other))
      rows.rows.forM (q.deliverRow other)
      pure rows.rows.length

end EdgeQuery

end EntityGraph
