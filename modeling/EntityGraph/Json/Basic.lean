import EntityGraph.Binary64.Basic

/-!
# Documents

The values of the JSON data model. Numbers are integers or double precision numbers, and the
members of an object are kept in the order of their names, each name once.
-/

set_option autoImplicit false

namespace EntityGraph

/-- A number of a document. -/
inductive JsonNumber where
  | integer (i : Int)
  | real (x : Binary64)
deriving DecidableEq, Repr, Inhabited

/-- A document. -/
inductive Json where
  | null
  | bool (b : Bool)
  | number (n : JsonNumber)
  | string (s : String)
  | array (items : List Json)
  | object (members : List (String × Json))
deriving Repr, Inhabited

namespace JsonNumber

/-- Equality of numbers: an integer never equals a real, and zeros of either sign are equal. -/
def equals : JsonNumber → JsonNumber → Bool
  | .integer i, .integer j => i == j
  | .real x, .real y => x.equals y
  | _, _ => false

end JsonNumber

namespace Json

/-- An integer document. -/
def ofInt (i : Int) : Json := .number (.integer i)

/-- A double precision number as a document; what is not finite has no number and is null. -/
def ofBinary64 (x : Binary64) : Json := if x.isFinite then .number (.real x) else .null

/-- Sets a member, keeping the names in order and the last value of a name. -/
def setMember (name : String) (value : Json) : List (String × Json) → List (String × Json)
  | [] => [(name, value)]
  | (n, v) :: rest =>
    if name < n then (name, value) :: (n, v) :: rest
    else if name = n then (name, value) :: rest
    else (n, v) :: setMember name value rest

/-- The object with these members, of which a later one replaces an earlier one. -/
def ofMembers (members : List (String × Json)) : Json :=
  .object (members.foldl (fun acc m => setMember m.1 m.2 acc) [])

mutual

/-- Equality of documents, with numeric equality of their numbers. -/
def equals : Json → Json → Bool
  | .null, .null => true
  | .bool a, .bool b => a == b
  | .number m, .number n => m.equals n
  | .string s, .string t => s == t
  | .array xs, .array ys => equalItems xs ys
  | .object xs, .object ys => equalMembers xs ys
  | _, _ => false

/-- Equality of the items of two arrays. -/
def equalItems : List Json → List Json → Bool
  | [], [] => true
  | x :: xs, y :: ys => x.equals y && equalItems xs ys
  | _, _ => false

/-- Equality of the members of two objects. -/
def equalMembers : List (String × Json) → List (String × Json) → Bool
  | [], [] => true
  | (a, x) :: xs, (b, y) :: ys => a == b && x.equals y && equalMembers xs ys
  | _, _ => false

end

end Json

end EntityGraph
