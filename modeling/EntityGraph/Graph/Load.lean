import EntityGraph.Connection
import EntityGraph.Row

/-!
# Loading neighbors

The neighbors of many nodes are loaded by one query, or by two where a join table lies between. A
neighbor is delivered with the positions of all parents that it belongs to, which are found by key:
the order in which rows come back does not matter.
-/

set_option autoImplicit false

namespace EntityGraph

/-- A column with the name of what is selected from, unless it has one. -/
def Selector.qualify (s : Selector) (column : String) : String :=
  if column.toList.contains '.' then column else s.qualified column

/-- The positions that are known under each key. -/
abbrev KeyIndex := List (Key × List Nat)

namespace KeyIndex

/-- The positions under a key. -/
def find? (index : KeyIndex) (key : Key) : Option (List Nat) := index.lookup key

/-- Adds positions under a key, which keep the order in which they were added. -/
def insert (index : KeyIndex) (key : Key) (positions : List Nat) : KeyIndex :=
  match index with
  | [] => [(key, positions)]
  | (k, found) :: rest =>
    if k = key then (k, found ++ positions) :: rest else (k, found) :: insert rest key positions

end KeyIndex

/-- Values, each once, with the positions that are known under their keys. -/
structure Keyed where
  index : KeyIndex
  values : List Value

namespace Keyed

/-- No values. -/
def empty : Keyed := ⟨[], []⟩

/-- Adds positions under the key of a value. The absent value has no key. -/
def add (k : Keyed) (v : Value) (positions : List Nat) : Keyed :=
  match v.key? with
  | none => k
  | some key =>
    { index := k.index.insert key positions
      values := if (k.index.find? key).isSome then k.values else k.values ++ [v] }

/-- The positions of the values of a list. -/
def ofValues (vs : List Value) : Keyed :=
  vs.zipIdx.foldl (fun k (v, i) => k.add v [i]) empty

/-- The positions under the key of a value. -/
def find? (k : Keyed) (v : Value) : Option (List Nat) := v.key?.bind k.index.find?

/-- Follows the row of a join table: the positions of its own side are known under its other side,
too. -/
def follow (parents : Keyed) (k : Keyed) (row : List Value) : Keyed :=
  match row with
  | own :: other :: _ =>
    match parents.find? own with
    | some positions => k.add other positions
    | none => k
  | _ => k

end Keyed

/-- Puts a position into an ordered list without repetitions. -/
def insertPosition (i : Nat) : List Nat → List Nat
  | [] => [i]
  | j :: rest =>
    if i < j then i :: j :: rest
    else if i = j then j :: rest
    else j :: insertPosition i rest

namespace EdgeLoad

/-- A load of the neighbors of a node type. -/
def ofEdge (edge : Edge) (target : Node) (scan : Scan) : EdgeLoad :=
  { name := none, edge, target, predicate := none, order := [], scan }

/-- A further condition on the neighbors. -/
def filter (l : EdgeLoad) (p : Predicate) : EdgeLoad :=
  { l with predicate := some (Predicate.conjoin l.predicate p) }

/-- The selected columns: all of the target's, and the one that neighbors are found by. -/
def columns (l : EdgeLoad) (column : String) : List String :=
  let all := l.target.selectColumns
  if all.contains column then all else all ++ [column]

/-- The selection of the neighbors whose column has one of these values. -/
def selector (l : EdgeLoad) (column : String) (values : List Value) : Selector :=
  let table := Selector.ofTable l.target.table
  let found := ((table.withColumns ((l.columns column).map table.qualify)).filter
    (.oneOf (table.qualify column) values)).filterOpt l.predicate
  l.order.foldl Selector.orderBy found

/-- Delivers a neighbor to its parents. A row without parents is passed over. The result is the
number of rows delivered. -/
def deliverRow (l : EdgeLoad) (column : String) (types : List FieldType) (parents : Keyed)
    (row : List Value) : Program Nat := do
  let columns := l.columns column
  let values ← readRow columns types row
  let key := values[columns.idxOf column]?.getD .null
  match parents.find? key with
  | none => pure 0
  | some positions => do
    Program.deliver (.neighbor l.name (positions.foldr insertPosition []) columns values)
    pure 1

/-- Loads the neighbors whose column has one of the known values. The result is their number. -/
def loadTargets (conn : Connection) (l : EdgeLoad) (column : String) (parents : Keyed) :
    Program Nat := do
  let rows ← conn.query (.select (l.selector column parents.values))
  if rows.rows.isEmpty then pure 0
  else do
    let types ← l.scan (l.columns column)
    let counts ← rows.rows.mapM (l.deliverRow column types parents)
    pure (counts.foldl Nat.add 0)

/-- The selection of the join table rows of the known parents. -/
def joinSelector (l : EdgeLoad) (own other : String) (parents : Keyed) : Selector :=
  ((Selector.ofTable l.edge.table).withColumns [own, other]).filter (.oneOf own parents.values)

/-- Loads the neighbors of parents, given their keys in order. The result is the number of rows
delivered. -/
def run (d : Dialect) (l : EdgeLoad) (keys : List Value) : Program Nat :=
  let parents := Keyed.ofValues keys
  if parents.values.isEmpty then pure 0
  else
    Connection.run d false fun conn =>
      if l.edge.isManyToMany then do
        let (own, other) ← l.edge.joinColumns
        let rows ← conn.query (.select (l.joinSelector own other parents))
        let owners := rows.rows.foldl parents.follow .empty
        if owners.values.isEmpty then pure 0
        else l.loadTargets conn l.target.id.column owners
      else if l.edge.writesOwnColumn then l.loadTargets conn l.target.id.column parents
      else do
        let fk ← l.edge.foreignKey
        l.loadTargets conn fk parents

end EdgeLoad

end EntityGraph
