import EntityGraph.Error

/-!
# Node types

A node type is a table with its columns and its ID column. `Field` is one column with the type
that it declares and a value to write.
-/

set_option autoImplicit false

namespace EntityGraph

/-- A column to write or to read. -/
structure Field where
  column : String
  type : FieldType
  value : Value := .null

namespace Field

/-- The value to bind for a field. It must fit the declared type; a column of documents takes any
value and stores it as a document. -/
def bindValue (f : Field) : Except Error Value :=
  if !f.type.accepts f.value then
    .error (.validation f.column (.typeMismatch f.value.kind f.type))
  else
    match f.type, f.value with
    | .json, .null => .ok .null
    | .json, v => .ok (.json v.toJson)
    | _, v => .ok v

end Field

/-- A source of IDs. Given how many IDs have been drawn, it gives the next ID and the new count. -/
structure IdGenerator where
  draw : Nat → Value × Nat

/-- How a node gets its ID when it is inserted. -/
inductive IdStrategy where
  /-- The database assigns it. -/
  | sequence
  /-- The caller always supplies it. -/
  | client
  /-- A function gives it before the insert. -/
  | generator (g : IdGenerator)

namespace IdStrategy

/-- The name of a strategy. -/
def name : IdStrategy → String
  | .sequence => "sequence"
  | .client => "client"
  | .generator _ => "generator"

end IdStrategy

/-- A node type: a table, its columns without the ID, and its ID column with the value of a node's
ID. Without columns, column names are not checked. -/
structure Node where
  table : String
  columns : List String
  id : Field
  strategy : IdStrategy
  givenLabel : Option String

namespace Node

/-- The node type of a table. Numeric IDs are assigned by the database, others are supplied. -/
def ofTable (table : String) (id : Field) : Node :=
  { table, columns := [], id
    strategy := if id.type.isNumeric then .sequence else .client
    givenLabel := none }

/-- The name of the node type in messages: the table's, unless another is given. -/
def label (n : Node) : String := n.givenLabel.getD n.table

/-- The same node type with an ID. -/
def withId (n : Node) (v : Value) : Node := { n with id := { n.id with value := v } }

/-- The column may be named. -/
def hasColumn (n : Node) (column : String) : Bool :=
  n.columns.isEmpty || column == n.id.column || n.columns.contains column

/-- Adds a column that is not there yet. -/
def addColumnOnce (n : Node) (column : String) : Node :=
  if column ≠ n.id.column ∧ !n.columns.contains column then
    { n with columns := n.columns ++ [column] }
  else n

/-- Refuses a column that may not be named. -/
def checkColumn (n : Node) (column : String) : Except Error Unit :=
  if n.hasColumn column then .ok () else .error (.validation column (.unknownColumn n.table))

/-- The columns of a row that is read back: the ID first, then the others. -/
def selectColumns (n : Node) : List String :=
  n.id.column :: n.columns.filter fun c => c != n.id.column

end Node

end EntityGraph
