import EntityGraph.Config
import EntityGraph.Context

/-!
# The handle of a database

What operations are started from: the dialect of the database, and how long an operation may take
unless its context says otherwise.
-/

set_option autoImplicit false

namespace EntityGraph

/-- The handle of a database. -/
structure GraphHandle where
  dialect : Dialect
  /-- The time that an operation may take in milliseconds, if it is limited. -/
  defaultTimeout : Option Nat
deriving DecidableEq, Repr

namespace GraphHandle

/-- A fresh context, which expires after the default time. -/
def context (g : GraphHandle) (clock : Clock) (token : Nat) : Context :=
  match g.defaultTimeout with
  | some ms => (Context.background token).withTimeout clock ms
  | none => .background token

/-- The word for a dialect in the form of a handle. -/
def dialectWord : Dialect → String
  | .mysql => "MySql"
  | .postgres => "Postgres"
  | .sqlite => "Sqlite"

/-- The time in the form of a handle. -/
def timeoutText : Option Nat → String
  | none => "None"
  | some ms => "Some(" ++ Config.durationText ms ++ ")"

/-- The form of a handle in messages. -/
def text (g : GraphHandle) : String :=
  "Graph \x7b dialect: " ++ dialectWord g.dialect ++ ", default_timeout: " ++
    timeoutText g.defaultTimeout ++ " \x7d"

end GraphHandle

end EntityGraph
