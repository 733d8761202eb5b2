import EntityGraph.Sql.Like
import EntityGraph.Value.Basic

/-!
# Conditions and selections

Conditions, selections and the tables that they select from refer to each other, so they are one
family of trees. They are plain data: they are built, compared and serialized without a database,
and written only when a statement is compiled. The second half of the module has the operations
that build them.
-/

set_option autoImplicit false

namespace EntityGraph

/-- The operator of a comparison. -/
inductive Comparison where
  | eq
  | ne
  | gt
  | gte
  | lt
  | lte
deriving DecidableEq, Repr, Inhabited

/-- The direction of an ordering. -/
inductive Direction where
  | ascending
  | descending
deriving DecidableEq, Repr, Inhabited

/-- One column of an ordering. -/
structure OrderTerm where
  column : String
  direction : Direction
deriving DecidableEq, Repr, Inhabited

mutual

/-- A condition on rows. -/
inductive Predicate where
  | compare (column : String) (op : Comparison) (value : Value)
  | isIn (column : String) (values : List Value)
  | notIn (column : String) (values : List Value)
  | isNull (column : String)
  | notNull (column : String)
  | like (column : String) (pattern : String)
  | inSelect (column : String) (select : Selector)
  | anyRow (select : Selector)
  | conj (preds : List Predicate)
  | disj (preds : List Predicate)
  | neg (pred : Predicate)

/-- What rows are taken from: a table or the rows of a selection. -/
inductive TableRef where
  | table (name : String) (asName : Option String)
  | select (select : Selector) (asName : String)

/-- A further table, joined where two columns are equal. -/
structure Join where
  table : TableRef
  left : String
  right : String

/-- A selection. Without columns it selects all of them. -/
structure Selector where
  columns : List String
  source : TableRef
  joins : List Join
  predicate : Option Predicate
  order : List OrderTerm
  limit : Option Nat
  offset : Option Nat
  distinct : Bool
  count : Bool

end

namespace Predicate

/-- The column equals the value; the absent value is equal to itself. -/
def eq (column : String) (value : Value) : Predicate := .compare column .eq value

/-- The column differs from the value; the absent value differs from every other. -/
def ne (column : String) (value : Value) : Predicate := .compare column .ne value

/-- The column contains a text. -/
def contains (column : String) (needle : String) : Predicate :=
  .like column (Like.containing needle)

/-- The column starts with a text. -/
def startsWith (column : String) (needle : String) : Predicate :=
  .like column (Like.starting needle)

/-- The column ends with a text. -/
def endsWith (column : String) (needle : String) : Predicate :=
  .like column (Like.ending needle)

/-- Both conditions; a conjunction takes the second as a further member. -/
def and (p q : Predicate) : Predicate :=
  match p with
  | .conj preds => .conj (preds ++ [q])
  | p => .conj [p, q]

/-- One of both conditions; a disjunction takes the second as a further member. -/
def or (p q : Predicate) : Predicate :=
  match p with
  | .disj preds => .disj (preds ++ [q])
  | p => .disj [p, q]

/-- A further condition beside those that are there. -/
def conjoin (current : Option Predicate) (p : Predicate) : Predicate :=
  match current with
  | some q => q.and p
  | none => p

/-- A condition made of conditions. -/
def isJunction : Predicate → Bool
  | .conj _ | .disj _ => true
  | _ => false

mutual

/-- The columns that a condition names, without those of the selections in it. -/
def columns : Predicate → List String
  | .compare column _ _ | .isIn column _ | .notIn column _ | .isNull column | .notNull column
  | .like column _ | .inSelect column _ => [column]
  | .anyRow _ => []
  | .conj preds | .disj preds => columnsOf preds
  | .neg pred => pred.columns

/-- The columns that the members of a list name. -/
def columnsOf : List Predicate → List String
  | [] => []
  | p :: rest => p.columns ++ columnsOf rest

end

end Predicate

namespace TableRef

/-- The name that qualifies the columns of a table. -/
def name : TableRef → String
  | .table _ (some asName) => asName
  | .table name none => name
  | .select _ asName => asName

end TableRef

namespace Selector

/-- All rows of a table or selection. -/
def ofRef (source : TableRef) : Selector :=
  { columns := [], source, joins := [], predicate := none, order := [], limit := none,
    offset := none, distinct := false, count := false }

/-- All rows of a named table. -/
def ofTable (name : String) : Selector := ofRef (.table name none)

/-- The name of what is selected from. -/
def tableName (s : Selector) : String := s.source.name

/-- A column qualified with the name of what is selected from. -/
def qualified (s : Selector) (column : String) : String := s.tableName ++ "." ++ column

/-- Selects these columns. -/
def withColumns (s : Selector) (columns : List String) : Selector := { s with columns }

/-- Joins a further table. -/
def join (s : Selector) (table : TableRef) (left right : String) : Selector :=
  { s with joins := s.joins ++ [⟨table, left, right⟩] }

/-- A further condition. -/
def filter (s : Selector) (p : Predicate) : Selector :=
  { s with predicate := some (Predicate.conjoin s.predicate p) }

/-- A further condition, if there is one. -/
def filterOpt (s : Selector) : Option Predicate → Selector
  | some p => s.filter p
  | none => s

/-- A further column to order by. -/
def orderBy (s : Selector) (term : OrderTerm) : Selector := { s with order := s.order ++ [term] }

/-- At most so many rows. -/
def withLimit (s : Selector) (n : Nat) : Selector := { s with limit := some n }

/-- Leaves out the first rows. -/
def withOffset (s : Selector) (n : Nat) : Selector := { s with offset := some n }

/-- Each row once. -/
def makeDistinct (s : Selector) : Selector := { s with distinct := true }

/-- Counts the rows; their order no longer matters. -/
def makeCount (s : Selector) : Selector := { s with count := true, order := [] }

/-- Only a part of the rows is selected. -/
def hasWindow (s : Selector) : Bool := s.limit.isSome || s.offset.isSome

end Selector

end EntityGraph
