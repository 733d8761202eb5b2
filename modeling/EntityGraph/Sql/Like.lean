/-!
# Patterns of LIKE

In a pattern `%` stands for any text and `_` for any character, and a backslash takes the next
character as it is.
-/

set_option autoImplicit false

namespace EntityGraph.Like

/-- A character that has a meaning of its own in a pattern. -/
def isSpecial (c : Char) : Bool := c == '%' || c == '_' || c == '\\'

/-- The pattern that matches exactly a text. -/
def escape : List Char → List Char
  | [] => []
  | c :: rest => if isSpecial c then '\\' :: c :: escape rest else c :: escape rest

/-- The pattern of the texts that contain a text. -/
def containing (needle : String) : String :=
  String.ofList ('%' :: (escape needle.toList ++ ['%']))

/-- The pattern of the texts that start with a text. -/
def starting (needle : String) : String := String.ofList (escape needle.toList ++ ['%'])

/-- The pattern of the texts that end with a text. -/
def ending (needle : String) : String := String.ofList ('%' :: escape needle.toList)

end EntityGraph.Like
