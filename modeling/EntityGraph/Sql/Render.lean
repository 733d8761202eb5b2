import EntityGraph.Sql.Piece
import EntityGraph.Sql.Query

/-!
# Writing conditions and selections

Each tree is written as pieces. A member of a junction that has other members is put into brackets
if it is a junction itself; comparisons with the absent value are written as tests for it; empty
lists and empty junctions are written as a constant condition.
-/

set_option autoImplicit false

namespace EntityGraph

open Piece

namespace Comparison

/-- The operator between its operands. -/
def sql : Comparison → String
  | .eq => " = "
  | .ne => " <> "
  | .gt => " > "
  | .gte => " >= "
  | .lt => " < "
  | .lte => " <= "

end Comparison

namespace Direction

/-- The keyword of a direction. -/
def sql : Direction → String
  | .ascending => "ASC"
  | .descending => "DESC"

end Direction

namespace OrderTerm

/-- The pieces of a column to order by. -/
def pieces (t : OrderTerm) : List Piece := ofName t.column ++ [raw (" " ++ t.direction.sql)]

end OrderTerm

namespace Selector

/-- The limit that is written where only an offset is asked for. -/
def limitMax : Nat := 2147483647

/-- What is selected. -/
def headPieces (columns : List String) (distinct count : Bool) : List Piece :=
  if count then
    if distinct && !columns.isEmpty then raw "COUNT(DISTINCT " :: (ofNames columns ++ [raw ")"])
    else [raw "COUNT(*)"]
  else
    (if distinct then [raw "DISTINCT "] else []) ++
      (if columns.isEmpty then [raw "*"] else ofNames columns)

/-- The order and the window. -/
def tailPieces (order : List OrderTerm) (limit offset : Option Nat) : List Piece :=
  (if order.isEmpty then [] else raw " ORDER BY " :: separated ", " (order.map OrderTerm.pieces)) ++
    (match limit, offset with
      | some n, _ => [raw (" LIMIT " ++ toString n)]
      | none, some _ => [raw (" LIMIT " ++ toString limitMax)]
      | none, none => []) ++
    (match offset with
      | some n => [raw (" OFFSET " ++ toString n)]
      | none => [])

end Selector

mutual

/-- The pieces of a condition. -/
def Predicate.pieces (d : Dialect) : Predicate → List Piece
  | .compare column .eq .null => ofName column ++ [raw " IS NULL"]
  | .compare column .ne .null => ofName column ++ [raw " IS NOT NULL"]
  | .compare column op value => ofName column ++ [raw op.sql, ofValue value]
  | .isIn _ [] => [raw "1 = 0"]
  | .isIn column (v :: vs) => ofName column ++ raw " IN (" :: (ofValues (v :: vs) ++ [raw ")"])
  | .notIn _ [] => [raw "1 = 1"]
  | .notIn column (v :: vs) =>
    ofName column ++ raw " NOT IN (" :: (ofValues (v :: vs) ++ [raw ")"])
  | .isNull column => ofName column ++ [raw " IS NULL"]
  | .notNull column => ofName column ++ [raw " IS NOT NULL"]
  | .like column pattern =>
    ofName column ++ [raw " LIKE ", bound (.string pattern)] ++
      (if d = .sqlite then [raw " ESCAPE '\\'"] else [])
  | .inSelect column select => ofName column ++ raw " IN (" :: (select.pieces d ++ [raw ")"])
  | .anyRow select => raw "EXISTS (" :: (select.pieces d ++ [raw ")"])
  | .conj [] => [raw "1 = 1"]
  | .conj (p :: rest) =>
    (if p.isJunction && !rest.isEmpty then raw "(" :: (p.pieces d ++ [raw ")"])
      else p.pieces d) ++ membersPieces d " AND " rest
  | .disj [] => [raw "1 = 0"]
  | .disj (p :: rest) =>
    (if p.isJunction && !rest.isEmpty then raw "(" :: (p.pieces d ++ [raw ")"])
      else p.pieces d) ++ membersPieces d " OR " rest
  | .neg pred => raw "NOT (" :: (pred.pieces d ++ [raw ")"])

/-- The pieces of the members of a junction after the first, each after the operator. -/
def membersPieces (d : Dialect) (operator : String) : List Predicate → List Piece
  | [] => []
  | p :: rest =>
    raw operator ::
      ((if p.isJunction then raw "(" :: (p.pieces d ++ [raw ")"]) else p.pieces d) ++
        membersPieces d operator rest)

/-- The pieces of an optional condition, with its keyword. -/
def conditionPieces (d : Dialect) : Option Predicate → List Piece
  | some p => raw " WHERE " :: p.pieces d
  | none => []

/-- The pieces of what rows are taken from. -/
def TableRef.pieces (d : Dialect) : TableRef → List Piece
  | .table name none => ofName name
  | .table name (some asName) => ofName name ++ raw " AS " :: ofName asName
  | .select select asName => raw "(" :: (select.pieces d ++ raw ") AS " :: ofName asName)

/-- The pieces of the joined tables. -/
def joinsPieces (d : Dialect) : List Join → List Piece
  | [] => []
  | ⟨table, left, right⟩ :: rest =>
    raw " JOIN " :: (table.pieces d ++ raw " ON " :: (ofName left ++ raw " = " :: (ofName right ++
      joinsPieces d rest)))

/-- The pieces of a selection. -/
def Selector.pieces (d : Dialect) : Selector → List Piece
  | ⟨columns, source, joins, predicate, order, limit, offset, distinct, count⟩ =>
    raw "SELECT " :: (Selector.headPieces columns distinct count ++ raw " FROM " ::
      (source.pieces d ++ joinsPieces d joins ++ conditionPieces d predicate ++
        Selector.tailPieces order limit offset))

end

namespace Selector

/-- The selection as a statement. -/
def statement (d : Dialect) (s : Selector) : Statement := .ofPieces d (s.pieces d)

/-- The pieces of the question whether a selection has a row. -/
def existsPieces (d : Dialect) (s : Selector) : List Piece :=
  raw "SELECT EXISTS (" :: (s.pieces d ++ [raw ")"])

/-- The question whether a selection has a row. -/
def existsStatement (d : Dialect) (s : Selector) : Statement := .ofPieces d (s.existsPieces d)

end Selector

end EntityGraph
