import EntityGraph.Program
import EntityGraph.Database.Request
import EntityGraph.Database.RowKey

/-!
# The state of the database

`Tables.run` is the effect of one statement on the tables. It succeeds with the tables afterwards
or fails without any effect. `Store` adds the transaction: what the tables were when it was opened,
and what the connection reports of the statements so far.
-/

set_option autoImplicit false

namespace EntityGraph.Database

/-- A row of `kv`. -/
structure Entry where
  key : Int64
  value : Stored
deriving DecidableEq

/-- A row of `ref`. -/
structure Link where
  id : Int64
  key : Option Int64
deriving DecidableEq

/-- The tables that have been created, with their rows in the order of their keys. -/
structure Tables where
  entries : Option (List Entry)
  links : Option (List Link)
deriving DecidableEq

/-- Why a statement fails. -/
inductive StoreError where
  | noTable (name : String)
  | tableExists (name : String)
  /-- The key has a value already. -/
  | takenKey
  /-- The value is no key. -/
  | noKey
  /-- No key is left after the largest one. -/
  | full
  /-- A reference leads to no row. -/
  | danglingReference
deriving DecidableEq, Repr

namespace StoreError

/-- The failure that the driver reports. -/
def failure : StoreError → Failure
  | .noTable name => .database (some 1) ("no such table: " ++ name) .other
  | .tableExists name => .database (some 1) ("table " ++ name ++ " already exists") .other
  | .takenKey => .database (some 1555) "UNIQUE constraint failed: kv.k" .unique
  | .noKey => .database (some 20) "datatype mismatch" .other
  | .full => .database (some 13) "database or disk is full" .other
  | .danglingReference => .database (some 787) "FOREIGN KEY constraint failed" .foreignKey

/-- The statement is refused before it runs. -/
def isEarly : StoreError → Bool
  | .noTable _ | .tableExists _ => true
  | _ => false

end StoreError

/-- What a statement did. -/
structure Effect where
  tables : Tables
  rows : Rows
  /-- The number of rows written, if the statement writes rows. -/
  written : Option Nat
  /-- The key of the row inserted. -/
  inserted : Option Int64

/-- The key after the largest one, one if there is none. -/
def nextKey : List Int64 → Except StoreError Int64
  | [] => .ok 1
  | k :: rest =>
    let largest := rest.foldl max k
    if largest = Int64.maxValue then .error .full else .ok (largest + 1)

namespace Entry

/-- Adds a row, keeping the order of the keys. -/
def insert (e : Entry) : List Entry → List Entry
  | [] => [e]
  | x :: rest => if e.key < x.key then e :: x :: rest else x :: insert e rest

/-- The row as it is read. -/
def row (e : Entry) : List Value := [.int e.key, e.value.value]

end Entry

/-- The rows of an answer. An answer without rows does not name its columns. -/
def answer (columns : List String) (rows : List (List Value)) : Rows :=
  ⟨if rows.isEmpty then [] else columns, rows⟩

namespace Tables

/-- The rows of `kv`. -/
def entriesOf (t : Tables) : Except StoreError (List Entry) :=
  match t.entries with
  | some es => .ok es
  | none => .error (.noTable "kv")

/-- Some row of `ref` refers to the key. -/
def isReferenced (t : Tables) (key : Int64) : Bool :=
  (t.links.getD []).any fun l => l.key == some key

/-- The effect of a statement that only reads. -/
def reading (t : Tables) (columns : List String) (rows : List (List Value)) : Effect :=
  ⟨t, answer columns rows, none, none⟩

/-- Adds a row to `kv`, under the next key unless one is given. -/
def insertEntry (t : Tables) (key value : Stored) (columns : List String) :
    Except StoreError Effect := do
  let es ← t.entriesOf
  let k ←
    if key = .null then nextKey (es.map Entry.key)
    else
      match key.key? with
      | none => throw .noKey
      | some k => if es.any fun e => e.key == k then throw .takenKey else pure k
  let rows := if columns.isEmpty then [] else [[Value.int k]]
  let t := { t with entries := some (Entry.insert ⟨k, value⟩ es) }
  pure ⟨t, answer columns rows, some 1, some k⟩

/-- Adds a row to `ref`. -/
def insertLink (t : Tables) (target : Stored) : Except StoreError Effect := do
  match t.links, t.entries with
  | none, _ => throw (.noTable "ref")
  | some _, none => throw (.noTable "main.kv")
  | some ls, some es =>
    let id ← nextKey (ls.map Link.id)
    let key ←
      if target = .null then pure none
      else
        match target.key? with
        | some k => if es.any fun e => e.key == k then pure (some k) else throw .danglingReference
        | none => throw .danglingReference
    pure ⟨{ t with links := some (ls ++ [⟨id, key⟩]) }, answer [] [], some 1, some id⟩

/-- Changes the rows of `kv` under a key. -/
def changeEntries (t : Tables) (key : Stored) (change : Entry → Option Entry) :
    Except StoreError Effect := do
  let es ← t.entriesOf
  let isHit (e : Entry) : Bool := key.key? == some e.key
  let after := es.filterMap fun e => if isHit e then change e else some e
  pure ⟨{ t with entries := some after }, answer [] [], some (es.countP isHit), none⟩

/-- Deletes the rows of `kv` under a key, to which no row of `ref` may refer. -/
def deleteEntries (t : Tables) (key : Stored) : Except StoreError Effect := do
  let effect ← t.changeEntries key fun _ => none
  let es ← t.entriesOf
  let broken (e : Entry) : Bool := key.key? == some e.key && t.isReferenced e.key
  if es.any broken then throw .danglingReference else pure effect

/-- The effect of a statement with its arguments. A missing argument is null. -/
def run (t : Tables) (r : Request) (args : List Stored) : Except StoreError Effect := do
  let first := args[0]?.getD .null
  let second := args[1]?.getD .null
  match r with
  | .createEntries =>
    if t.entries.isSome then throw (.tableExists "kv")
    else pure (reading { t with entries := some [] } [] [])
  | .createLinks =>
    if t.links.isSome then throw (.tableExists "ref")
    else pure (reading { t with links := some [] } [] [])
  | .insertNext => t.insertEntry .null first []
  | .insertNextReturning => t.insertEntry .null first ["k"]
  | .insertAt => t.insertEntry first second []
  | .update => t.changeEntries second fun e => some { e with value := first }
  | .delete => t.deleteEntries first
  | .selectAll => pure (t.reading ["k", "v"] ((← t.entriesOf).map Entry.row))
  | .selectAt =>
    let es := (← t.entriesOf).filter fun e => first.key? == some e.key
    pure (t.reading ["k", "v"] (es.map Entry.row))
  | .count =>
    pure (t.reading ["COUNT(*)"] [[.int (Int64.ofNat (← t.entriesOf).length)]])
  | .insertLink => t.insertLink first
  | .arguments n =>
    let values := (List.range n).map fun i => (args[i]?.getD .null).value
    pure (t.reading (List.replicate n "?") [values])

end Tables

/-- The state of a connection to a database. -/
structure Store where
  tables : Tables
  /-- The tables as they were when the open transaction began. -/
  saved : Option Tables
  /-- The key of the last row inserted, even if the insert was undone. -/
  lastId : Int64
  /-- The number of rows that the last writing statement wrote. -/
  written : Nat
deriving DecidableEq

namespace Store

/-- A fresh database. -/
def empty : Store := ⟨⟨none, none⟩, none, 0, 0⟩

/-- Runs a statement that reports rows. One that fails changes no table and keeps the transaction
open. -/
def query (s : Store) (r : Request) (args : List Value) : Except Failure Rows × Store :=
  match s.tables.run r (args.map Value.stored) with
  | .ok e =>
    (.ok e.rows,
      { s with
        tables := e.tables
        lastId := e.inserted.getD s.lastId
        written := e.written.getD s.written })
  | .error e => (.error e.failure, if e.isEarly then s else { s with written := 0 })

/-- Runs a statement that reports no rows. -/
def exec (s : Store) (r : Request) (args : List Value) : Except Failure ExecResult × Store :=
  let (result, after) := s.query r args
  (result.map fun _ => ⟨after.written, some after.lastId⟩, after)

/-- Opens a transaction. -/
def begin (s : Store) : Store := { s with saved := some s.tables }

/-- Keeps what the transaction did. -/
def commit (s : Store) : Store := { s with saved := none }

/-- Undoes what the transaction did. -/
def rollback (s : Store) : Store := { s with tables := s.saved.getD s.tables, saved := none }

end Store

end EntityGraph.Database
