import EntityGraph.Sql.Insert
import EntityGraph.Sql.Update

/-!
# Statements as trees

What an operation sends to the database, before it is written as text.
-/

set_option autoImplicit false

namespace EntityGraph

/-- A statement that an operation sends. -/
inductive Command where
  | select (s : Selector)
  /-- The question whether a selection has a row. -/
  | anyRow (s : Selector)
  | insert (i : InsertStatement)
  | update (u : Update)
  | delete (x : Delete)

namespace Command

/-- The pieces of a statement. -/
def pieces (d : Dialect) : Command → List Piece
  | .select s => s.pieces d
  | .anyRow s => s.existsPieces d
  | .insert i => i.pieces d
  | .update u => u.pieces d
  | .delete x => x.pieces d

/-- The text and the arguments of a statement. -/
def statement (d : Dialect) (c : Command) : Statement := .ofPieces d (c.pieces d)

/-- A statement that changes rows. -/
def isWrite : Command → Bool
  | .insert _ | .update _ | .delete _ => true
  | .select _ | .anyRow _ => false

end Command

end EntityGraph
