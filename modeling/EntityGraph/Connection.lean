import EntityGraph.Program
import EntityGraph.Violation

/-!
# Connections

An operation runs on a connection, either directly or inside a transaction. Every failure of the
driver is classified on the way out. At the end of an operation its transaction is committed if
the operation succeeded and its context is still live, and rolled back otherwise.
-/

set_option autoImplicit false

namespace EntityGraph

/-- The connection of an operation. -/
structure Connection where
  dialect : Dialect
  /-- Statements are sent inside a transaction. -/
  inside : Bool
deriving DecidableEq, Repr

namespace Connection

/-- The result of a call, with its failure classified. -/
def settle {α : Type} (d : Dialect) : Outcome α → Program α
  | .done a => .done a
  | .failed f => .fail (f.classify d)
  | .interrupted why => .fail (.interrupted why)

/-- Sends a statement that reports no rows. -/
def exec (conn : Connection) (c : Command) : Program ExecResult := do
  let reply : Outcome ExecResult ← Program.request (.exec conn.inside c)
  settle conn.dialect reply

/-- Sends a statement that reports rows. -/
def query (conn : Connection) (c : Command) : Program Rows := do
  let reply : Outcome Rows ← Program.request (.query conn.inside c)
  settle conn.dialect reply

/-- Sends an insert that reports no rows. An insert that cannot be compiled is not sent. -/
def execInsert (conn : Connection) (i : Insert) : Program ExecResult := do
  let statement ← i.compile conn.dialect
  conn.exec (.insert statement)

/-- Sends an insert that reports rows. An insert that cannot be compiled is not sent. -/
def queryInsert (conn : Connection) (i : Insert) : Program Rows := do
  let statement ← i.compile conn.dialect
  conn.query (.insert statement)

/-- Whether a selection has a row; no answer counts as none. -/
def probe (conn : Connection) (s : Selector) : Program Bool := do
  let rows ← conn.query (.anyRow s)
  pure ((rows.firstValue?.bind Value.asBool?).getD false)

/-- Rolls the transaction back, keeping the error that made it necessary. -/
def abort {α : Type} (e : Error) : Program α := do
  let reply : Except Failure Unit ← Program.request .rollback
  match reply with
  | .ok () => .fail e
  | .error f => .fail (.rollback e f)

/-- Ends the transaction of an operation. -/
def finish {α : Type} (d : Dialect) : Except Error α → Program α
  | .error e => abort e
  | .ok a => do
    let live : Except Interruption Unit ← Program.request .check
    match live with
    | .error why => abort (.interrupted why)
    | .ok () => do
      let reply : Except Failure Unit ← Program.request .commit
      match reply with
      | .ok () => .done a
      | .error f => .fail (f.classify d)

/-- Runs an operation on a connection, inside a transaction if asked for. -/
def run {α : Type} (d : Dialect) (transactional : Bool) (body : Connection → Program α) :
    Program α :=
  if transactional then do
    let reply : Outcome Unit ← Program.request .begin
    settle d reply
    let result ← (body ⟨d, true⟩).attempt
    finish d result
  else body ⟨d, false⟩

end Connection

end EntityGraph
