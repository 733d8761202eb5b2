import EntityGraph.Error

/-!
# Reading entities from rows

`ColumnData` says which types can be read from a column value and written as one. A `Record` is one
selected row by column name, from which an entity takes its fields one after another; columns that
were not selected read as the absent value.
-/

set_option autoImplicit false

namespace EntityGraph

/-- A type of column values. -/
class ColumnData (α : Type) where
  /-- Reads a value with its logical type restored. -/
  read : Value → Except ReadError α
  toValue : α → Value

namespace ColumnData

/-- The refusal of a value of another kind. -/
def mismatch {α : Type} (what : String) (v : Value) : Except ReadError α :=
  .error (.expected what v.kind)

/-- Reads a 64-bit integer. -/
def readInt64 (v : Value) : Except ReadError Int64 :=
  match v.asInt? with
  | some i => .ok i
  | none => mismatch "int" v

/-- Reads a 32-bit integer. -/
def readInt32 (v : Value) : Except ReadError Int32 := do
  let i ← readInt64 v
  if Int32.maxValue.toInt < i.toInt then throw (.tooLarge i)
  else if i.toInt < Int32.minValue.toInt then throw (.tooSmall i)
  else pure (Int32.ofInt i.toInt)

/-- Reads a double precision number; integers are numbers, too. -/
def readBinary64 : Value → Except ReadError Binary64
  | .float x => .ok x
  | .int i => .ok (.ofInt i.toInt)
  | v => mismatch "float" v

/-- Reads a truth value. -/
def readBool (v : Value) : Except ReadError Bool :=
  match v.asBool? with
  | some b => .ok b
  | none => mismatch "bool" v

/-- Reads a text. -/
def readString (v : Value) : Except ReadError String :=
  match v.asString? with
  | some s => .ok s
  | none => mismatch "string" v

/-- Reads an identifier. -/
def readUuid : Value → Except ReadError Uuid
  | .uuid u => .ok u
  | v => mismatch "uuid" v

/-- Reads bytes. -/
def readBytes : Value → Except ReadError (List UInt8)
  | .bytes bs => .ok bs
  | v => mismatch "bytes" v

/-- Reads a document. -/
def readJson : Value → Except ReadError Json
  | .json j => .ok j
  | v => mismatch "json" v

/-- Reads a date and time. -/
def readInstant : Value → Except ReadError Instant
  | .time t => .ok t
  | v => mismatch "time" v

instance : ColumnData Value := ⟨.ok, id⟩

instance : ColumnData Int64 := ⟨readInt64, .int⟩

instance : ColumnData Int32 := ⟨readInt32, fun i => .int i.toInt64⟩

instance : ColumnData Binary64 := ⟨readBinary64, .float⟩

instance : ColumnData Bool := ⟨readBool, .bool⟩

instance : ColumnData String := ⟨readString, .string⟩

instance : ColumnData Uuid := ⟨readUuid, .uuid⟩

instance : ColumnData (List UInt8) := ⟨readBytes, .bytes⟩

instance : ColumnData Json := ⟨readJson, .json⟩

instance : ColumnData Instant := ⟨readInstant, .time⟩

/-- Reads a value that may be absent. -/
def readOption {α : Type} [ColumnData α] : Value → Except ReadError (Option α)
  | .null => .ok none
  | v => some <$> read v

/-- The value of data that may be absent. -/
def optionToValue {α : Type} [ColumnData α] : Option α → Value
  | none => .null
  | some a => toValue a

instance {α : Type} [ColumnData α] : ColumnData (Option α) := ⟨readOption, optionToValue⟩

end ColumnData

/-- One selected row by column name. -/
structure Record where
  values : List (String × Value)

namespace Record

/-- The row with these columns; of columns with one name the last counts. -/
def ofRow (columns : List String) (row : List Value) : Record := ⟨(columns.zip row).reverse⟩

/-- The value of a column. -/
def valueOf (r : Record) (column : String) : Value := (r.values.lookup column).getD .null

/-- The row without a column. -/
def erase (r : Record) (column : String) : Record := ⟨r.values.filter fun c => c.1 != column⟩

end Record

/-- Takes data out of a row. -/
abbrev RowReader := ExceptT Error (StateM Record)

namespace RowReader

/-- Takes the value of a column out of the row, whether it can be read or not. -/
def column (α : Type) [ColumnData α] (name : String) : RowReader α := do
  let r ← get
  set (r.erase name)
  match ColumnData.read (α := α) (r.valueOf name) with
  | .ok a => pure a
  | .error e => throw (.validation name (.reading e))

/-- Reads a row. -/
def ofRow {α : Type} (reader : RowReader α) (columns : List String) (row : List Value) :
    Except Error α :=
  (reader.run (Record.ofRow columns row)).run.1

end RowReader

end EntityGraph
