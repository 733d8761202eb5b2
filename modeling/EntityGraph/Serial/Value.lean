import EntityGraph.Serial.Basic
import EntityGraph.Time.Reader
import EntityGraph.Value.Basic

/-!
# Serialized values

A value is serialized as a record of the name of its type and its content. The absent value has no
content.
-/

set_option autoImplicit false

namespace EntityGraph.Value

open Serial

/-- The serialized content of a value that has one. -/
def contentText? : Value → Option String
  | .null => none
  | .bool b => some (Json.bool b).text
  | .int i => some (Json.ofInt i.toInt).text
  | .float x => some (Json.ofBinary64 x).text
  | .string s => some (Json.stringText s)
  | .bytes bs => some (Json.array (bs.map fun b => .ofInt b.toNat)).text
  | .uuid u => some (Json.stringText u.text)
  | .json j => some j.text
  | .time t => some (Json.stringText t.zuluText)

/-- The serialized form of a value. -/
def serialText (v : Value) : String :=
  recordText (("type", Json.stringText v.kind) ::
    match v.contentText? with
    | some s => [("value", s)]
    | none => [])

/-- A double precision number; an integer is rounded to one. -/
def readFloat? (x : JsonSource) : Option Binary64 :=
  (number? x).map fun
    | .integer i => .ofInt i
    | .real y => y

/-- A byte. -/
def readByte? (x : JsonSource) : Option UInt8 := (integer? 0 255 x).map fun i => UInt8.ofNat i.toNat

/-- The value of a kind that has a content. -/
def ofContent? (depth : Nat) (kind : String) (x : JsonSource) : Option Value :=
  if kind = "bool" then (bool? x).map .bool
  else if kind = "int" then
    (integer? Int64.minValue.toInt Int64.maxValue.toInt x).map fun i => .int (Int64.ofInt i)
  else if kind = "float" then (readFloat? x).map .float
  else if kind = "string" then (string? x).map .string
  else if kind = "bytes" then (list? (fun _ => readByte?) depth x).map .bytes
  else if kind = "uuid" then ((string? x).bind Uuid.parse?).map .uuid
  else if kind = "json" then (x.value? depth).map .json
  else if kind = "time" then ((string? x).bind Instant.relaxed?).map .time
  else none

/-- Reads a value. -/
def ofSerial? : Nat → Bool → JsonSource → Option Value
  | 0, _, _ => none
  | depth + 1, held, x => do
    match ← parts? ["type", "value"] x with
    | [tag, content] =>
      let kind ← tag.bind (caseName? depth held)
      if kind = "null" then
        (if content.isNone ∨ content matches some .null then some .null else none)
      else content.bind (ofContent? depth kind)
    | _ => none

instance : Serial Value := ⟨serialText, ofSerial?⟩

end EntityGraph.Value
