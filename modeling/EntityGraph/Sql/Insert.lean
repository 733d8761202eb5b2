import EntityGraph.Error
import EntityGraph.Sql.Piece

/-!
# Inserting rows

`Insert` says what is to be inserted and how a conflict on a unique key is resolved;
`Insert.compile` turns it into the statement of a dialect, `InsertStatement`, whose conflict clause
has its assignments spelled out. Postgres and SQLite name a conflict target and refer to the
proposed row as `excluded`; MySQL resolves on any unique key and has no way to do nothing but to
assign a column to itself.
-/

set_option autoImplicit false

namespace EntityGraph

/-- How a conflict on a unique key is resolved. -/
inductive ConflictAction where
  /-- The conflicting row is skipped. -/
  | doNothing
  /-- The stored row is kept but touched, so that its ID is reported. -/
  | ignore
  /-- The stored row takes the proposed values. -/
  | updateNewValues
deriving DecidableEq, Repr, Inhabited

/-- The conflict policy of an insert: what is done, and the columns whose conflict it is about. -/
structure ConflictPolicy where
  columns : List String
  action : ConflictAction
deriving DecidableEq, Repr, Inhabited

/-- What a column of the stored row is assigned. -/
inductive AssignedValue where
  /-- The column of the stored row, by its bare name. -/
  | itself
  /-- The column of the stored row, by its qualified name. -/
  | stored
  /-- The proposed value. -/
  | proposed
  /-- The stored value, which is also reported as the last generated ID. -/
  | reported
deriving DecidableEq, Repr

/-- One assignment of a conflict clause. -/
structure ConflictAssignment where
  column : String
  value : AssignedValue
deriving DecidableEq, Repr

/-- A conflict clause. -/
inductive ConflictClause where
  | doNothing (target : List String)
  | doUpdate (target : List String) (assignments : List ConflictAssignment)
  | onDuplicateKey (assignments : List ConflictAssignment)
deriving DecidableEq, Repr

/-- An INSERT statement. -/
structure InsertStatement where
  table : String
  columns : List String
  rows : List (List Value)
  conflict : Option ConflictClause
  returning : List String

namespace ConflictAssignment

open Piece

/-- The pieces of an assignment. -/
def pieces (d : Dialect) (table : String) (a : ConflictAssignment) : List Piece :=
  ofName a.column ++ raw " = " ::
    match a.value with
    | .itself => ofName a.column
    | .stored => ofName (table ++ "." ++ a.column)
    | .proposed =>
      if d = .mysql then raw "VALUES(" :: (ofName a.column ++ [raw ")"])
      else raw "excluded." :: ofName a.column
    | .reported => raw "LAST_INSERT_ID(" :: (ofName (table ++ "." ++ a.column) ++ [raw ")"])

/-- The text of an assignment starts with this identifier in quotes. -/
def startsWith (d : Dialect) (table ident : String) (a : ConflictAssignment) : Bool :=
  (d.quote ident).toList.isPrefixOf (Statement.ofPieces d (a.pieces d table)).sql.toList

end ConflictAssignment

namespace ConflictClause

open Piece

/-- The pieces of a list of assignments. -/
def assignmentPieces (d : Dialect) (table : String) (as : List ConflictAssignment) : List Piece :=
  separated ", " (as.map (ConflictAssignment.pieces d table))

/-- The pieces of a conflict target. -/
def targetPieces (target : List String) : List Piece :=
  raw " ON CONFLICT" ::
    (if target.isEmpty then [] else raw " (" :: (ofNames target ++ [raw ")"]))

/-- The pieces of a conflict clause. -/
def pieces (d : Dialect) (table : String) : ConflictClause → List Piece
  | .doNothing target => targetPieces target ++ [raw " DO NOTHING"]
  | .doUpdate target as =>
    targetPieces target ++ raw " DO UPDATE SET " :: assignmentPieces d table as
  | .onDuplicateKey as => raw " ON DUPLICATE KEY UPDATE " :: assignmentPieces d table as

end ConflictClause

namespace InsertStatement

open Piece

/-- The pieces of the inserted rows. -/
def bodyPieces (d : Dialect) (i : InsertStatement) : List Piece :=
  if i.columns.isEmpty then
    [raw (if d = .mysql then " VALUES ()" else " DEFAULT VALUES")]
  else
    raw " (" :: (ofNames i.columns ++ raw ") VALUES " ::
      separated ", " (i.rows.map fun row => raw "(" :: (ofValues row ++ [raw ")"])))

/-- The pieces of an INSERT. -/
def pieces (d : Dialect) (i : InsertStatement) : List Piece :=
  raw "INSERT INTO " :: (ofName i.table ++ i.bodyPieces d ++
    (match i.conflict with
      | some clause => clause.pieces d i.table
      | none => []) ++
    (if i.returning.isEmpty then [] else raw " RETURNING " :: ofNames i.returning))

/-- The text and the arguments of an INSERT. -/
def statement (d : Dialect) (i : InsertStatement) : Statement := .ofPieces d (i.pieces d)

end InsertStatement

/-- What is to be inserted. -/
structure Insert where
  table : String
  columns : List String
  rows : List (List Value)
  returning : List String
  policy : Option ConflictPolicy
  /-- The ID column that MySQL is to report for a conflicting row. -/
  reportedId : Option String

namespace Insert

/-- Nothing to insert into a table yet. -/
def into (table : String) : Insert :=
  { table, columns := [], rows := [], returning := [], policy := none, reportedId := none }

/-- Sets a column of the first row. -/
def set (i : Insert) (column : String) (value : Value) : Insert :=
  { i with
    columns := i.columns ++ [column]
    rows := match i.rows with
      | [] => [[value]]
      | row :: rest => (row ++ [value]) :: rest }

/-- Names further columns. -/
def withColumns (i : Insert) (columns : List String) : Insert :=
  { i with columns := i.columns ++ columns }

/-- Adds a row. -/
def addRow (i : Insert) (row : List Value) : Insert := { i with rows := i.rows ++ [row] }

/-- Asks for a column of the written rows. -/
def withReturning (i : Insert) (column : String) : Insert :=
  { i with returning := i.returning ++ [column] }

/-- Resolves conflicts by a policy. -/
def onConflict (i : Insert) (policy : ConflictPolicy) : Insert := { i with policy := some policy }

/-- Has MySQL report the ID of a conflicting row. -/
def reportConflictId (i : Insert) (column : String) : Insert :=
  { i with reportedId := some column }

/-- Some column is written. -/
def hasColumns (i : Insert) : Bool := !i.columns.isEmpty

/-- The first row whose length is not that of the columns. -/
def badRow? (width : Nat) : Nat → List (List Value) → Option (Nat × Nat)
  | _, [] => none
  | n, row :: rest =>
    if row.length = width then badRow? width (n + 1) rest else some (n, row.length)

/-- Each row has a value for each column. -/
def checkRows (i : Insert) : Except Error Unit :=
  match badRow? i.columns.length 0 i.rows with
  | some (n, length) => .error (.validation i.table (.rowLength n length i.columns.length))
  | none => .ok ()

/-- The conflict clause on Postgres and SQLite. A row without columns has nothing to update. -/
def conflictClause (i : Insert) (policy : ConflictPolicy) : Except Error ConflictClause :=
  let action := if i.columns.isEmpty then .doNothing else policy.action
  match action with
  | .doNothing => .ok (.doNothing policy.columns)
  | .ignore =>
    if policy.columns.isEmpty then .error (.validation i.table .conflictColumnsRequired)
    else .ok (.doUpdate policy.columns (i.columns.map (⟨·, .stored⟩)))
  | .updateNewValues =>
    if policy.columns.isEmpty then .error (.validation i.table .conflictColumnsRequired)
    else .ok (.doUpdate policy.columns (i.columns.map (⟨·, .proposed⟩)))

/-- The assignments of the policy's action on MySQL. -/
def duplicateAssignments (i : Insert) : ConflictAction → List ConflictAssignment
  | .doNothing =>
    match i.columns with
    | first :: _ => [⟨first, .itself⟩]
    | [] => []
  | .ignore => i.columns.map (⟨·, .stored⟩)
  | .updateNewValues => i.columns.map (⟨·, .proposed⟩)

/-- The assignments with the one that reports the ID of the stored row in the place of any other
of that column. The ID is not reported where it is written and the stored row is touched. -/
def reportAssignments (i : Insert) (action : ConflictAction) (as : List ConflictAssignment) :
    List ConflictAssignment :=
  match i.reportedId with
  | none => as
  | some id =>
    if !i.columns.contains id || action = .doNothing then
      as.filter (fun a => !a.startsWith .mysql i.table id) ++ [⟨id, .reported⟩]
    else as

/-- The conflict clause on MySQL. A row without columns still needs an assignment. -/
def duplicateClause (i : Insert) (policy : ConflictPolicy) : Except Error ConflictClause :=
  match i.reportAssignments policy.action (i.duplicateAssignments policy.action) with
  | [] =>
    match policy.columns with
    | column :: _ => .ok (.onDuplicateKey [⟨column, .itself⟩])
    | [] => .error (.validation i.table .emptyUpsert)
  | as => .ok (.onDuplicateKey as)

/-- The statement of a dialect. -/
def compile (d : Dialect) (i : Insert) : Except Error InsertStatement := do
  i.checkRows
  let conflict ← match i.policy with
    | none => pure none
    | some policy => do
      let clause ← match d with
        | .mysql => i.duplicateClause policy
        | .postgres | .sqlite => i.conflictClause policy
      pure (some clause)
  pure
    { table := i.table
      columns := i.columns
      rows := i.rows
      conflict
      returning := if d.supportsReturning then i.returning else [] }

end Insert

end EntityGraph
