/-!
# Failures of a database driver

A failure is an error of the database itself or of the connection to it. `Failure.text` is its
wording, in which the message of the database follows an introduction.
-/

set_option autoImplicit false

namespace EntityGraph

/-- The rule that a database reports as broken. -/
inductive DatabaseErrorKind where
  | unique
  | foreignKey
  | notNull
  | check
  | other
deriving DecidableEq, Repr, Inhabited

/-- A failure that a driver reports. -/
inductive Failure where
  /-- Data on the wire that the driver does not expect. -/
  | protocol (message : String)
  /-- An error of the database itself, with the database's own code if it has one. -/
  | database (code : Option Nat) (message : String) (kind : DatabaseErrorKind)
  | poolClosed
  | poolTimedOut
  | rowNotFound
deriving DecidableEq, Repr, Inhabited

namespace Failure

/-- The wording of a failure. -/
def text : Failure → String
  | .protocol message => "encountered unexpected or invalid data: " ++ message
  | .database none message _ => "error returned from database: " ++ message
  | .database (some code) message _ =>
    "error returned from database: (code: " ++ toString code ++ ") " ++ message
  | .poolClosed => "attempted to acquire a connection on a closed pool"
  | .poolTimedOut => "pool timed out while waiting for an open connection"
  | .rowNotFound => "no rows returned by a query that expected to return at least one row"

/-- The message of the database, or the wording of any other failure. -/
def message : Failure → String
  | .database _ message _ => message
  | f => f.text

/-- The text of the error behind a failure. -/
def source? : Failure → Option String
  | .database none message _ => some message
  | .database (some code) message _ => some ("(code: " ++ toString code ++ ") " ++ message)
  | _ => none

end Failure

end EntityGraph
