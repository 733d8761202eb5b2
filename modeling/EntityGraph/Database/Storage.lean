import EntityGraph.Value.Basic

/-!
# Storage classes of SQLite

SQLite keeps a value in one of five classes. `Value.stored` is the class in which a value is bound
and `Stored.value` is what is read back from it. Truth values, identifiers, documents and times
have no class of their own: they are bound as integers and texts, and the logical type of the
column restores them.
-/

set_option autoImplicit false

namespace EntityGraph

namespace Database

/-- A value as SQLite keeps it. -/
inductive Stored where
  | null
  | integer (i : Int64)
  | real (x : Binary64)
  | text (s : String)
  | blob (bs : List UInt8)
deriving DecidableEq, Inhabited

namespace Stored

/-- What is read back. -/
def value : Stored → Value
  | .null => .null
  | .integer i => .int i
  | .real x => .float x
  | .text s => .string s
  | .blob bs => .bytes bs

end Stored

end Database

/-- The form in which a value is bound. There is no real that is not a number. -/
def Value.stored : Value → Database.Stored
  | .null => .null
  | .bool b => .integer (bit b)
  | .int i => .integer i
  | .float x => if x.isNaN then .null else .real x
  | .string s => .text s
  | .bytes bs => .blob bs
  | .uuid u => .text u.text
  | .json j => .text j.text
  | .time t => .text t.text

end EntityGraph
