import EntityGraph.Json.Printer
import EntityGraph.Text.Quoted
import EntityGraph.Time.Printer
import EntityGraph.Uuid
import EntityGraph.Value.FieldType

/-!
# Column values

A value of a column, as written by an operation or read back from a row, with its written form and
the key under which rows of different queries are matched.
-/

set_option autoImplicit false

namespace EntityGraph

/-- A single column value. -/
inductive Value where
  | null
  | bool (b : Bool)
  | int (i : Int64)
  | float (x : Binary64)
  | string (s : String)
  | bytes (bs : List UInt8)
  | uuid (u : Uuid)
  | json (j : Json)
  | time (t : Instant)
deriving Inhabited

/-- What rows of different queries are matched by. -/
inductive Key where
  | int (i : Int64)
  | text (s : String)
  | bytes (bs : List UInt8)
deriving DecidableEq

namespace Value

/-- The absent value. -/
def isNull : Value → Bool
  | .null => true
  | _ => false

/-- The name of a value's own type. -/
def kind : Value → String
  | .null => "null"
  | .bool _ => "bool"
  | .int _ => "int"
  | .float _ => "float"
  | .string _ => "string"
  | .bytes _ => "bytes"
  | .uuid _ => "uuid"
  | .json _ => "json"
  | .time _ => "time"

/-- The type whose columns hold exactly such values; none for the absent value. -/
def ownType? : Value → Option FieldType
  | .null => none
  | .bool _ => some .bool
  | .int _ => some .int
  | .float _ => some .float
  | .string _ => some .string
  | .bytes _ => some .bytes
  | .uuid _ => some .uuid
  | .json _ => some .json
  | .time _ => some .time

/-- The integer zero or one of a truth value. -/
def bit (b : Bool) : Int64 := if b then 1 else 0

/-- The value as an integer. -/
def asInt? : Value → Option Int64
  | .int i => some i
  | .bool b => some (bit b)
  | _ => none

/-- The value as a truth value. -/
def asBool? : Value → Option Bool
  | .bool b => some b
  | .int i => some (i != 0)
  | _ => none

/-- The value as a text. -/
def asString? : Value → Option String
  | .string s => some s
  | _ => none

/-- The decimal text of a 64-bit integer. -/
def intText (i : Int64) : String := toString i.toInt

/-- The form of a value in messages. -/
def text : Value → String
  | .null => "NULL"
  | .bool true => "true"
  | .bool false => "false"
  | .int i => intText i
  | .float x => x.plainText
  | .string s => Text.quoted s
  | .bytes bs => "<" ++ toString bs.length ++ " bytes>"
  | .uuid u => u.text
  | .json j => j.text
  | .time t => t.text

/-- The key of a value; the absent value has none. Values that a database takes for equal have the
same key, so an identifier read back as text matches the identifier that was written. -/
def key? : Value → Option Key
  | .null => none
  | .bool b => some (.int (bit b))
  | .int i => some (.int i)
  | .float x => some (if x.isIntegral then .int x.toInt64 else .text x.plainText)
  | .string s => some (.text s)
  | .bytes bs => some (.bytes bs)
  | .uuid u => some (.text u.text)
  | .json j => some (.text j.text)
  | .time t => some (.text t.text)

/-- The value as a document, as columns of documents store it. -/
def toJson : Value → Json
  | .null => .null
  | .bool b => .bool b
  | .int i => .ofInt i.toInt
  | .float x => .ofBinary64 x
  | .string s => .string s
  | .bytes bs => .array (bs.map fun b => .ofInt b.toNat)
  | .uuid u => .string u.text
  | .json j => j
  | .time t => .string t.text

/-- Equality of values, with numeric equality of their numbers. -/
def equals : Value → Value → Bool
  | .null, .null => true
  | .bool a, .bool b => a == b
  | .int a, .int b => a == b
  | .float a, .float b => a.equals b
  | .string a, .string b => a == b
  | .bytes a, .bytes b => a == b
  | .uuid a, .uuid b => a == b
  | .json a, .json b => a.equals b
  | .time a, .time b => a == b
  | _, _ => false

/-- Equality of lists of values. -/
def equalsAll : List Value → List Value → Bool
  | [], [] => true
  | v :: vs, w :: ws => v.equals w && equalsAll vs ws
  | _, _ => false

end Value

namespace FieldType

/-- Whether a value may be written to a column of this type. -/
def accepts (ty : FieldType) (v : Value) : Bool :=
  match ty, v with
  | _, .null => true
  | .json, _ | .other, _ => true
  | .bool, .bool _ => true
  | .int, .int _ => true
  | .float, .float _ | .float, .int _ => true
  | .string, .string _ | .enum, .string _ => true
  | .uuid, .uuid _ => true
  | .bytes, .bytes _ => true
  | .time, .time _ => true
  | _, _ => false

end FieldType

end EntityGraph
