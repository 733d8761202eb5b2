import EntityGraph.Sql.Dialect
import EntityGraph.Text.Blank
import EntityGraph.Value.Basic

/-!
# Statements and their pieces

A statement is compiled into a list of pieces: fixed text, quoted identifiers and bound values.
`Statement.ofPieces` writes the pieces for a dialect. It numbers the placeholders from left to
right, so there is one argument for each placeholder, in the same order.
-/

set_option autoImplicit false

namespace EntityGraph

/-- Text with placeholders, and the values bound to them. -/
structure Statement where
  sql : String
  args : List Value
deriving Inhabited

/-- A piece of a statement. -/
inductive Piece where
  /-- Fixed text. -/
  | raw (text : String)
  /-- An identifier in quotes. -/
  | quoted (ident : String)
  /-- A placeholder with its value. -/
  | bound (value : Value)

namespace Piece

/-- The pieces of a name: each part between dots in quotes, a star as it is. -/
def ofName (name : String) : List Piece :=
  let parts := (name.toList.splitOn '.').map String.ofList
  (parts.map fun part => if part = "*" then raw "*" else quoted part).intersperse (raw ".")

/-- Groups of pieces with a separator between them. -/
def separated (separator : String) (groups : List (List Piece)) : List Piece :=
  [raw separator].intercalate groups

/-- The pieces of a list of names. -/
def ofNames (names : List String) : List Piece := separated ", " (names.map ofName)

/-- A bound value. The absent value is written out, so that it needs no type. -/
def ofValue (v : Value) : Piece := if v.isNull then raw "NULL" else bound v

/-- A list of bound values. -/
def ofValues (vs : List Value) : List Piece := separated ", " (vs.map fun v => [ofValue v])

/-- The value that a piece binds. -/
def value? : Piece → Option Value
  | .bound v => some v
  | _ => none

/-- The texts of pieces, where `n` placeholders stand before them. -/
def texts (d : Dialect) (n : Nat) : List Piece → List String
  | [] => []
  | .raw s :: rest => s :: texts d n rest
  | .quoted ident :: rest => d.quote ident :: texts d n rest
  | .bound _ :: rest => d.placeholder (n + 1) :: texts d (n + 1) rest

end Piece

namespace Statement

/-- The statement that pieces make up. -/
def ofPieces (d : Dialect) (ps : List Piece) : Statement :=
  { sql := String.join (Piece.texts d 0 ps)
    args := ps.filterMap Piece.value? }

/-- The leading word of a statement. -/
def kind (s : Statement) : String := Text.firstWord s.sql

end Statement

end EntityGraph
