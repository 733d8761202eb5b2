import EntityGraph.Error

/-!
# Classifying driver failures

A failure that breaks a uniqueness, foreign key or check rule becomes a constraint error that
carries the failure. The rule is taken from the kind that the database reports, or else from the
wording that the dialect's server uses.
-/

set_option autoImplicit false

namespace EntityGraph

/-- The rule that a failure breaks. -/
inductive Violation where
  | unique
  | foreignKey
  | check
deriving DecidableEq, Repr

namespace Violation

/-- All rules, in the order in which a message is searched for them. -/
def all : List Violation := [.unique, .foreignKey, .check]

/-- The name of a rule. -/
def name : Violation → String
  | .unique => "unique"
  | .foreignKey => "foreign_key"
  | .check => "check"

/-- The wordings by which a dialect's server reports that a rule is broken. -/
def wordings : Dialect → Violation → List String
  | .mysql, .unique => ["Error 1062", "1062 (23000)", "Duplicate entry"]
  | .mysql, .foreignKey =>
    ["Error 1451", "Error 1452", "1451 (23000)", "1452 (23000)", "a foreign key constraint fails"]
  | .mysql, .check => ["Error 3819", "3819 (HY000)", "Check constraint"]
  | .postgres, .unique => ["violates unique constraint"]
  | .postgres, .foreignKey => ["violates foreign key constraint"]
  | .postgres, .check => ["violates check constraint"]
  | .sqlite, .unique => ["UNIQUE constraint failed"]
  | .sqlite, .foreignKey => ["FOREIGN KEY constraint failed"]
  | .sqlite, .check => ["CHECK constraint failed"]

/-- Whether a text contains another. -/
def occursIn (needle : List Char) : List Char → Bool
  | [] => needle.isEmpty
  | c :: rest => needle.isPrefixOf (c :: rest) || occursIn needle rest

/-- The rule that a message of a dialect's server reports as broken. -/
def ofMessage? (d : Dialect) (message : String) : Option Violation :=
  all.find? fun v => (wordings d v).any fun w => occursIn w.toList message.toList

/-- The rule that a failure breaks. -/
def ofFailure? (d : Dialect) : Failure → Option Violation
  | .database _ message kind =>
    match kind with
    | .unique => some .unique
    | .foreignKey => some .foreignKey
    | .check => some .check
    | .notNull | .other => ofMessage? d message
  | f => ofMessage? d f.text

end Violation

/-- The error that a driver failure means. -/
def Failure.classify (d : Dialect) (f : Failure) : Error :=
  match Violation.ofFailure? d f with
  | some _ => .constraint (.violation f)
  | none => .driver f

end EntityGraph
