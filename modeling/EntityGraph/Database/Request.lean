import EntityGraph.Database.Storage

/-!
# Statements of the database

The database knows two tables: `kv` has values under integer keys, and each row of `ref` refers to
a key of `kv` or to none. `Request` lists the statements on them, and `Request.ofText?` finds the
one that a text writes.
-/

set_option autoImplicit false

namespace EntityGraph.Database

/-- A statement. -/
inductive Request where
  | createEntries
  | createLinks
  /-- A value under the next key. -/
  | insertNext
  /-- A value under the next key, which is reported. -/
  | insertNextReturning
  /-- A key and its value. -/
  | insertAt
  /-- A new value for a key. -/
  | update
  | delete
  | selectAll
  | selectAt
  | count
  /-- A reference to a key. -/
  | insertLink
  /-- The arguments themselves, as one row. -/
  | arguments (n : Nat)
deriving DecidableEq, Repr

namespace Request

/-- The statements with a fixed number of arguments. -/
def fixed : List (Request × String) :=
  [(createEntries, "CREATE TABLE kv (k INTEGER PRIMARY KEY, v)"),
    (createLinks, "CREATE TABLE ref (id INTEGER PRIMARY KEY, k INTEGER REFERENCES kv (k))"),
    (insertNext, "INSERT INTO kv (v) VALUES (?)"),
    (insertNextReturning, "INSERT INTO kv (v) VALUES (?) RETURNING k"),
    (insertAt, "INSERT INTO kv (k, v) VALUES (?, ?)"),
    (update, "UPDATE kv SET v = ? WHERE k = ?"),
    (delete, "DELETE FROM kv WHERE k = ?"),
    (selectAll, "SELECT k, v FROM kv ORDER BY k"),
    (selectAt, "SELECT k, v FROM kv WHERE k = ?"),
    (count, "SELECT COUNT(*) FROM kv"),
    (insertLink, "INSERT INTO ref (k) VALUES (?)")]

/-- The number of placeholders in a list of placeholders. -/
def placeholders? : List Char → Option Nat
  | ['?'] => some 1
  | '?' :: ',' :: ' ' :: rest => (placeholders? rest).map (· + 1)
  | _ => none

/-- The statement that a text writes. -/
def ofText? (sql : String) : Option Request :=
  let select := "SELECT ".toList
  match fixed.find? fun r => r.2 == sql with
  | some (r, _) => some r
  | none =>
    if select.isPrefixOf sql.toList then
      (placeholders? (sql.toList.drop select.length)).map arguments
    else none

end Request

end EntityGraph.Database
