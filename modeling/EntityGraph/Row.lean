import EntityGraph.Operation

/-!
# Reading rows

The driver hands back storage classes. `readRow` restores the logical types of a row, and
`Node.readId` that of an ID; a value that cannot mean its column's type is refused under the name of
the column.
-/

set_option autoImplicit false

namespace EntityGraph

/-- A stored value read as the type of its column. -/
def readColumn (column : String) (type : FieldType) (v : Value) : Except Error Value :=
  match v.coerce type with
  | .ok w => .ok w
  | .error e => .error (.validation column (.coercion e))

/-- Stored values read as the types of their columns. -/
def readColumns : List String → List FieldType → List Value → Except Error (List Value)
  | column :: columns, type :: types, v :: vs => do
    let w ← readColumn column type v
    let ws ← readColumns columns types vs
    pure (w :: ws)
  | _, _, _ => .ok []

/-- A row with the types of its columns restored; there must be a type for each of its values. -/
def readRow (columns : List String) (types : List FieldType) (row : List Value) :
    Except Error (List Value) :=
  if types.length ≠ row.length then
    .error (.validation (", ".intercalate columns) (.scanLength types.length row.length))
  else readColumns columns types row

/-- The types as which columns are read: the caller's, or none. -/
def scanTypes (scan : Option Scan) (columns : List String) : Except Error (List FieldType) :=
  match scan with
  | some scan => scan columns
  | none => .ok (columns.map fun _ => .other)

/-- A stored ID read as the ID type of a node type. -/
def Node.readId (n : Node) (v : Value) : Except Error Value := readColumn n.id.column n.id.type v

/-- The condition that a column has one of these values. -/
def Predicate.oneOf (column : String) (vs : List Value) : Predicate :=
  match vs with
  | [v] => .eq column v
  | vs => .isIn column vs

/-- The condition that two columns each have one of their values. -/
def Predicate.bothOneOf (column : String) (vs : List Value) (other : String) (ws : List Value) :
    Predicate :=
  (Predicate.oneOf column vs).and (.oneOf other ws)

end EntityGraph
