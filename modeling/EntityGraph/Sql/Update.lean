import EntityGraph.Sql.Render

/-!
# Updating and deleting rows

An UPDATE writes columns to be cleared first, then absolute values, then increments.
-/

set_option autoImplicit false

namespace EntityGraph

open Piece

/-- What a column is set to. -/
inductive Assignment where
  | value (v : Value)
  /-- An increment; an absent value counts as zero. -/
  | add (v : Value)

/-- An UPDATE statement. -/
structure Update where
  table : String
  nulls : List String
  sets : List (String × Assignment)
  predicate : Option Predicate

namespace Update

/-- Nothing to update in a table yet. -/
def ofTable (table : String) : Update := { table, nulls := [], sets := [], predicate := none }

/-- Clears a column, which is written once. -/
def setNull (u : Update) (column : String) : Update :=
  if u.nulls.contains column then u else { u with nulls := u.nulls ++ [column] }

/-- Sets a column. -/
def set (u : Update) (column : String) (v : Value) : Update :=
  { u with sets := u.sets ++ [(column, .value v)] }

/-- Increments a column. -/
def add (u : Update) (column : String) (v : Value) : Update :=
  { u with sets := u.sets ++ [(column, .add v)] }

/-- A further condition. -/
def filter (u : Update) (p : Predicate) : Update :=
  { u with predicate := some (Predicate.conjoin u.predicate p) }

/-- A further condition, if there is one. -/
def filterOpt (u : Update) : Option Predicate → Update
  | some p => u.filter p
  | none => u

/-- No column is written. -/
def isEmpty (u : Update) : Bool := u.nulls.isEmpty && u.sets.isEmpty

/-- The pieces of an absolute value, none of an increment. -/
def valuePieces? : String × Assignment → Option (List Piece)
  | (column, .value v) => some (ofName column ++ [raw " = ", ofValue v])
  | (_, .add _) => none

/-- The pieces of an increment, none of an absolute value. -/
def addPieces? : String × Assignment → Option (List Piece)
  | (column, .add v) =>
    some (ofName column ++ raw " = COALESCE(" :: (ofName column ++ [raw ", 0) + ", ofValue v]))
  | (_, .value _) => none

/-- The pieces of the assignments, in the order in which they are written. -/
def setGroups (u : Update) : List (List Piece) :=
  u.nulls.map (fun column => ofName column ++ [raw " = NULL"]) ++ u.sets.filterMap valuePieces? ++
    u.sets.filterMap addPieces?

/-- The pieces of an UPDATE. -/
def pieces (d : Dialect) (u : Update) : List Piece :=
  raw "UPDATE " :: (ofName u.table ++ raw " SET " ::
    (separated ", " u.setGroups ++ conditionPieces d u.predicate))

/-- The text and the arguments of an UPDATE. -/
def statement (d : Dialect) (u : Update) : Statement := .ofPieces d (u.pieces d)

end Update

/-- A DELETE statement. -/
structure Delete where
  table : String
  predicate : Option Predicate

namespace Delete

/-- Deletes all rows of a table. -/
def ofTable (table : String) : Delete := { table, predicate := none }

/-- A further condition. -/
def filter (x : Delete) (p : Predicate) : Delete :=
  { x with predicate := some (Predicate.conjoin x.predicate p) }

/-- A further condition, if there is one. -/
def filterOpt (x : Delete) : Option Predicate → Delete
  | some p => x.filter p
  | none => x

/-- The pieces of a DELETE. -/
def pieces (d : Dialect) (x : Delete) : List Piece :=
  raw "DELETE FROM " :: (ofName x.table ++ conditionPieces d x.predicate)

/-- The text and the arguments of a DELETE. -/
def statement (d : Dialect) (x : Delete) : Statement := .ofPieces d (x.pieces d)

end Delete

end EntityGraph
