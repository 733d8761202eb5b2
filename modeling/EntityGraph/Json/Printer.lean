import EntityGraph.Binary64.Text
import EntityGraph.Json.Basic
import EntityGraph.Text.Hex

/-!
# The compact text of a document

Without any white space. Strings escape the quotation mark, the backslash and the characters below
the space, the latter with a short escape where there is one.
-/

set_option autoImplicit false

namespace EntityGraph

namespace JsonNumber

/-- The text of a number. -/
def text : JsonNumber → String
  | .integer i => toString i
  | .real x => x.jsonText

end JsonNumber

namespace Json

/-- The characters that stand for one character of a string. -/
def escapeChar (c : Char) : List Char :=
  if c = '\x22' then ['\\', '\x22']
  else if c = '\\' then ['\\', '\\']
  else if c = '\x08' then ['\\', 'b']
  else if c = '\t' then ['\\', 't']
  else if c = '\n' then ['\\', 'n']
  else if c = '\x0c' then ['\\', 'f']
  else if c = '\r' then ['\\', 'r']
  else if c.toNat < 0x20 then
    ['\\', 'u', '0', '0', Text.hexDigit (c.toNat / 16), Text.hexDigit c.toNat]
  else [c]

/-- A string between quotation marks. -/
def stringText (s : String) : String :=
  String.ofList ('\x22' :: (s.toList.flatMap escapeChar ++ ['\x22']))

mutual

/-- The text of a document. -/
def text : Json → String
  | .null => "null"
  | .bool true => "true"
  | .bool false => "false"
  | .number n => n.text
  | .string s => stringText s
  | .array items => "[" ++ ",".intercalate (itemTexts items) ++ "]"
  | .object members => "\x7b" ++ ",".intercalate (memberTexts members) ++ "\x7d"

/-- The texts of the items of an array. -/
def itemTexts : List Json → List String
  | [] => []
  | x :: xs => x.text :: itemTexts xs

/-- The texts of the members of an object. -/
def memberTexts : List (String × Json) → List String
  | [] => []
  | (name, x) :: xs => (stringText name ++ ":" ++ x.text) :: memberTexts xs

end

end Json

end EntityGraph
