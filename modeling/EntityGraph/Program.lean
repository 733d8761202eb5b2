import EntityGraph.Operation
import EntityGraph.Sql.Command

/-!
# Programs of calls

An operation is a program: a finite tree of calls to its surroundings, each followed by what the
operation does with the reply. The surroundings are the database driver, the context, the source
of IDs and the caller who takes rows. A program says what an operation does for every reply, so a
law about all replies is a law about the tree.
-/

set_option autoImplicit false

namespace EntityGraph

/-- What a statement without rows reports. -/
structure ExecResult where
  rowsAffected : Nat
  lastInsertId : Option Int64
deriving DecidableEq, Repr, Inhabited

/-- The rows that a query reports. -/
structure Rows where
  columns : List String
  rows : List (List Value)

namespace Rows

/-- The position of a column in each row. -/
def index? (r : Rows) (column : String) : Option Nat := r.columns.idxOf? column

/-- The first value of the first row. -/
def firstValue? (r : Rows) : Option Value := r.rows.head?.bind List.head?

end Rows

/-- What becomes of a call to the driver in a context. -/
inductive Outcome (α : Type) where
  | done (a : α)
  | failed (f : Failure)
  /-- The context was done before the call was. -/
  | interrupted (why : Interruption)

/-- Something handed to the caller. -/
inductive Delivery where
  /-- A row of a query. -/
  | row (columns : List String) (values : List Value)
  /-- A neighbor, with the positions of the parents that it belongs to. -/
  | neighbor (load : Option String) (parents : List Nat) (columns : List String)
      (values : List Value)
  /-- A pair of a join table. -/
  | link (fromId toId : Value)

/-- A call to the surroundings of an operation. -/
inductive Call where
  /-- Opens a transaction. -/
  | begin
  /-- Sends a statement that reports no rows, inside the transaction or not. -/
  | exec (inside : Bool) (c : Command)
  /-- Sends a statement that reports rows, inside the transaction or not. -/
  | query (inside : Bool) (c : Command)
  /-- Commits the transaction. -/
  | commit
  /-- Rolls the transaction back. -/
  | rollback
  /-- Asks whether the context is still live. -/
  | check
  /-- Draws an ID. -/
  | draw (g : IdGenerator)
  /-- Writes into the description of a creation, given by its position. -/
  | revise (position : Nat) (r : Revision)
  /-- Hands something to the caller. -/
  | deliver (d : Delivery)

/-- The reply to a call. -/
def Call.Reply : Call → Type
  | .begin => Outcome Unit
  | .exec _ _ => Outcome ExecResult
  | .query _ _ => Outcome Rows
  | .commit => Except Failure Unit
  | .rollback => Except Failure Unit
  | .check => Except Interruption Unit
  | .draw _ => Value
  | .revise _ _ => Unit
  | .deliver _ => Except Error Unit

/-- A program: it has a result, fails, or makes a call and goes on with the reply. -/
inductive Program (α : Type) where
  | done (a : α)
  | fail (e : Error)
  | call (c : Call) (next : c.Reply → Program α)

namespace Program

/-- One program after another. -/
def bind {α β : Type} : Program α → (α → Program β) → Program β
  | .done a, f => f a
  | .fail e, _ => .fail e
  | .call c next, f => .call c fun r => (next r).bind f

/-- The result of a program, whether it fails or not. -/
def attempt {α : Type} : Program α → Program (Except Error α)
  | .done a => .done (.ok a)
  | .fail e => .done (.error e)
  | .call c next => .call c fun r => (next r).attempt

/-- A program that only has a result or fails. -/
def ofExcept {α : Type} : Except Error α → Program α
  | .ok a => .done a
  | .error e => .fail e

/-- A single call. -/
def request (c : Call) : Program c.Reply := .call c .done

instance : Monad Program where
  pure := .done
  bind := bind

instance : MonadExceptOf Error Program where
  throw := .fail
  tryCatch p handle := p.attempt.bind fun
    | .ok a => .done a
    | .error e => handle e

instance : MonadLift (Except Error) Program where
  monadLift := ofExcept

/-- Hands something to the caller, whose refusal makes the program fail. -/
def deliver (d : Delivery) : Program Unit := do
  let reply : Except Error Unit ← request (.deliver d)
  ofExcept reply

/-- Writes into the description of a creation. -/
def revise (position : Nat) (r : Revision) : Program Unit := do
  let _ : Unit ← request (.revise position r)

/-- Draws an ID. -/
def draw (g : IdGenerator) : Program Value := request (.draw g)

/-- The program with everything that it delivers taken into a state instead. -/
def collecting {α σ : Type} (absorb : σ → Delivery → Except Error σ) :
    σ → Program α → Program (α × σ)
  | s, .done a => .done (a, s)
  | _, .fail e => .fail e
  | s, .call c next =>
    match c, next with
    | .deliver d, next =>
      match absorb s d with
      | .ok t => collecting absorb t (next (.ok ()))
      | .error e => collecting absorb s (next (.error e))
    | c, next => .call c fun r => collecting absorb s (next r)

end Program

end EntityGraph
