import EntityGraph.Json.Document
import EntityGraph.Time.Reader
import EntityGraph.Value.Basic

/-!
# Restoring the logical type of a stored value

Databases hand back storage classes: text, integers, reals, blobs. `Value.coerce` reads such a
value as the logical type that a column declares, and fails if the value cannot mean one.
-/

set_option autoImplicit false

namespace EntityGraph

/-- Why a stored value cannot be read as a logical type. -/
inductive CoercionError where
  /-- The value's kind cannot be read as the type at all. -/
  | unreadable (kind : String) (type : FieldType)
  /-- The text is not an identifier. -/
  | uuidText (s : String)
  /-- The bytes are not an identifier. -/
  | uuidBytes
  /-- The text or the bytes are not a document. -/
  | json
  /-- The text is not a date and time. -/
  | time (s : String)
deriving DecidableEq, Repr

namespace CoercionError

/-- The wording of the error. -/
def message : CoercionError → String
  | .unreadable kind type => "cannot read " ++ kind ++ " value as " ++ type.name
  | .uuidText s => "invalid uuid " ++ Text.quoted s
  | .uuidBytes => "invalid uuid bytes"
  | .json => "invalid json document"
  | .time s => "invalid datetime " ++ Text.quoted s

end CoercionError

namespace Value

/-- The UTF-8 bytes of a text. -/
def utf8 (s : String) : List UInt8 := s.toUTF8.toList

/-- Turns an absent result into an error. -/
def orError {α : Type} (e : CoercionError) : Option α → Except CoercionError α
  | some a => .ok a
  | none => .error e

/-- Reads a stored value as a logical type. -/
def coerce (v : Value) (ty : FieldType) : Except CoercionError Value :=
  match ty, v with
  | _, .null => .ok .null
  | .other, v => .ok v
  | .bool, .bool b => .ok (.bool b)
  | .bool, .int i => .ok (.bool (i != 0))
  | .int, .int i => .ok (.int i)
  | .int, .bool b => .ok (.int (bit b))
  | .int, .float x =>
    if x.isIntegral then .ok (.int x.toInt64) else .error (.unreadable "float" .int)
  | .float, .float x => .ok (.float x)
  | .float, .int i => .ok (.float (Binary64.ofInt i.toInt))
  | .string, .string s | .enum, .string s => .ok (.string s)
  | .uuid, .uuid u => .ok (.uuid u)
  | .uuid, .string s => orError (.uuidText s) ((Uuid.parse? s).map .uuid)
  | .uuid, .bytes bs => orError .uuidBytes ((Uuid.ofBytes? bs).map .uuid)
  | .bytes, .bytes bs => .ok (.bytes bs)
  | .bytes, .string s => .ok (.bytes (utf8 s))
  | .json, .json j => .ok (.json j)
  | .json, .string s => orError .json ((Json.parse? s).map .json)
  | .json, .bytes bs => orError .json ((Json.parseBytes? bs).map .json)
  | .time, .time t => .ok (.time t)
  | .time, .string s => orError (.time s) ((Instant.parse? s).map .time)
  | ty, v => .error (.unreadable v.kind ty)

end Value

end EntityGraph
