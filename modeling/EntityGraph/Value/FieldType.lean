/-!
# Logical types of columns

A column has a logical type, which the database itself need not know. The type `other` takes values
of all kinds.
-/

set_option autoImplicit false

namespace EntityGraph

/-- The logical type of a column. Values of type `other` are passed on as they are. -/
inductive FieldType where
  | bool
  | int
  | float
  | string
  | enum
  | uuid
  | bytes
  | json
  | time
  | other
deriving DecidableEq, Repr, Inhabited

namespace FieldType

/-- The name of a type in messages and in serialized form. -/
def name : FieldType → String
  | .bool => "bool"
  | .int => "int"
  | .float => "float"
  | .string => "string"
  | .enum => "enum"
  | .uuid => "uuid"
  | .bytes => "bytes"
  | .json => "json"
  | .time => "time"
  | .other => "other"

/-- All types, in the order of their declaration. -/
def all : List FieldType :=
  [.bool, .int, .float, .string, .enum, .uuid, .bytes, .json, .time, .other]

/-- The type with a name. -/
def ofName? (s : String) : Option FieldType := all.find? fun ty => ty.name == s

/-- Types whose columns can be incremented. -/
def isNumeric : FieldType → Bool
  | .int | .float => true
  | _ => false

end FieldType

end EntityGraph
