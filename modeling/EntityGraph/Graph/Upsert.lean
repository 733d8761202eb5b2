import EntityGraph.Graph.Create

/-!
# The IDs of upserted rows

An upsert of several rows may skip some of them, so the rows that come back cannot be told apart by
their position. They are matched to the nodes of the batch by the values of key columns: the
columns that the conflict policy names, or all written columns. A node that no row comes back for
has no ID.
-/

set_option autoImplicit false

namespace EntityGraph

/-- The rows of an insert of several nodes. -/
structure BoundRows where
  columns : List String
  /-- The values of each node. -/
  rows : List (List Value)
  /-- The database assigns the IDs. -/
  generated : Bool

/-- A stored value is the one that was bound, in whatever storage class it comes back. -/
def sameValue (stored bound : Value) : Bool :=
  match bound.ownType? with
  | none => stored.isNull
  | some type =>
    match stored.coerce type with
    | .ok v => v.equals bound
    | .error _ => false

namespace BoundRows

/-- The positions of the key columns. -/
def keys (b : BoundRows) (policy : ConflictPolicy) : List Nat :=
  match policy.columns.filterMap fun column => b.columns.idxOf? column with
  | [] => List.range b.columns.length
  | found => found

/-- The names of the key columns. -/
def keyColumns (b : BoundRows) (keys : List Nat) : List String :=
  keys.map fun k => b.columns[k]?.getD ""

/-- The value of a row at a position. -/
def valueAt (row : List Value) (k : Nat) : Value := row[k]?.getD .null

/-- The condition that a stored row has the key of one of the bound rows. -/
def matching (b : BoundRows) (keys : List Nat) : Predicate :=
  .disj (b.rows.map fun row =>
    .conj (keys.map fun k =>
      let column := b.columns[k]?.getD ""
      match valueAt row k with
      | .null => .isNull column
      | v => .eq column v))

/-- A bound row has the key of a stored row. -/
def sameKey (keys : List Nat) (row key : List Value) : Bool :=
  key.length == keys.length &&
    (keys.zip key).all fun (k, stored) => sameValue stored (valueAt row k)

/-- The first node without an ID whose row has a key. -/
def slot? (b : BoundRows) (keys : List Nat) (ids : List Value) (key : List Value) : Option Nat :=
  (b.rows.zip ids).findIdx? fun (row, id) => id.isNull && sameKey keys row key

/-- Gives the ID of a stored row, which is its first value, to the node that the rest is the key
of. -/
def identify (b : BoundRows) (node : Node) (keys : List Nat) (ids stored : List Value) :
    Except Error (List Value) :=
  match stored with
  | [] => .ok ids
  | id :: key =>
    match b.slot? keys ids key with
    | none => .ok ids
    | some i => do
      let v ← node.readId id
      pure (ids.set i v)

/-- No node has an ID. -/
def noIds (b : BoundRows) : List Value := b.rows.map fun _ => .null

/-- Gives the IDs of stored rows to the nodes. -/
def identifyAll (b : BoundRows) (node : Node) (keys : List Nat) (stored : List (List Value)) :
    Except Error (List Value) :=
  stored.foldlM (b.identify node keys) b.noIds

/-- The selection that reads the upserted rows back. -/
def readBack (b : BoundRows) (node : Node) (keys : List Nat) : Selector :=
  ((Selector.ofTable node.table).withColumns (node.id.column :: b.keyColumns keys)).filter
    (b.matching keys)

/-- Sends an upsert and reads the upserted rows back: none if the statement wrote none. Where rows
are not returned, generated IDs tell new rows from those that they conflicted with: they start at
the reported last ID. -/
def storedRows (conn : Connection) (b : BoundRows) (node : Node) (i : Insert)
    (policy : ConflictPolicy) : Program (List (List Value)) := do
  let keys := b.keys policy
  if conn.dialect.supportsReturning then
    let rows ← conn.queryInsert
      ((node.id.column :: b.keyColumns keys).foldl Insert.withReturning i)
    pure rows.rows
  else
    if b.generated then NodeCreation.checkReported conn.dialect node
    let result ← conn.execInsert i
    let select := b.readBack node keys
    if b.generated ∧ policy.action = .doNothing then
      match result.lastInsertId with
      | some first =>
        if first ≠ 0 ∧ 0 < result.rowsAffected then
          let added := select.filter (.compare node.id.column .gte (.int first))
          let rows ← conn.query (.select added)
          pure rows.rows
        else pure []
      | none => pure []
    else
      let rows ← conn.query (.select select)
      pure rows.rows

/-- Upserts rows and finds the IDs of their nodes. -/
def upsertedIds (conn : Connection) (b : BoundRows) (node : Node) (i : Insert)
    (policy : ConflictPolicy) : Program (List Value) := do
  let stored ← b.storedRows conn node i policy
  b.identifyAll node (b.keys policy) stored

/-- The IDs that returned rows give by position. -/
def returnedIds (node : Node) : List Value → List (List Value) → Except Error (List Value)
  | [], _ => .ok []
  | ids, [] => .ok ids
  | id :: ids, row :: rows => do
    let v ← match row with
      | returned :: _ => node.readId returned
      | [] => pure id
    let vs ← returnedIds node ids rows
    pure (v :: vs)

/-- The first `count` nodes get consecutive IDs. -/
def consecutiveIds (node : Node) : Nat → Int64 → List Value → Except Error (List Value)
  | count + 1, next, _ :: ids => do
    let v ← node.readId (.int next)
    let vs ← consecutiveIds node count (next + 1) ids
    pure (v :: vs)
  | _, _, ids => .ok ids

/-- Inserts rows without IDs and reads the generated ones. -/
def insertedIds (conn : Connection) (b : BoundRows) (node : Node) (i : Insert) :
    Program (List Value) := do
  if conn.dialect.supportsReturning then
    let rows ← conn.queryInsert (i.withReturning node.id.column)
    returnedIds node b.noIds rows.rows
  else
    NodeCreation.checkReported conn.dialect node
    let result ← conn.execInsert i
    match result.lastInsertId with
    | none => throw (.notFound node.label)
    | some first => consecutiveIds node result.rowsAffected first b.noIds

end BoundRows

end EntityGraph
