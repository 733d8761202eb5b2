import EntityGraph.Context
import EntityGraph.Program

/-!
# Scripted runs

A script fixes what the database driver answers: the replies to statements, one after another, and
the failures of transaction steps. `Program.play` runs a program against a script in a context and
records what is sent, what is delivered and what is written into the descriptions of creations.
Statements and the opening of a transaction are work that the context may interrupt; the end of a
transaction is not.
-/

set_option autoImplicit false

namespace EntityGraph

/-- What the driver answers to a statement in the end. -/
inductive ReplyBody where
  /-- The result of a statement without rows. -/
  | exec (result : ExecResult)
  | rows (values : List (List Value))
  | fail (f : Failure)
  /-- No answer ever comes. -/
  | hang

/-- The reply to a statement. -/
structure StatementReply where
  /-- How long the driver waits before anything else, in milliseconds. -/
  sleep : Option Nat
  /-- The context of the operation is cancelled before the answer. -/
  cancels : Bool
  body : ReplyBody

/-- The answers of a driver. -/
structure Script where
  replies : List StatementReply
  beginFailure : Option Failure
  commitFailure : Option Failure
  rollbackFailure : Option Failure
  /-- How much the caller takes before further deliveries are refused. -/
  room : Option Nat

/-- Something that the driver is told to do. -/
inductive Event where
  | begin
  | commit
  | rollback
  /-- A statement, with or without rows as its result, inside a transaction or not. -/
  | statement (reportsRows inside : Bool) (c : Command)

/-- What surrounds a program while it runs. -/
structure World where
  clock : Clock
  /-- How many IDs have been drawn. -/
  drawn : Nat
  /-- The replies that have not been used. -/
  replies : List StatementReply
  log : List Event
  delivered : List Delivery
  creations : List NodeCreation

namespace ReplyBody

/-- The answer to a statement without rows, none if it never comes. -/
def execResult? : ReplyBody → Option (Except Failure ExecResult)
  | .exec result => some (.ok result)
  | .rows _ => some (.ok ⟨0, none⟩)
  | .fail f => some (.error f)
  | .hang => none

/-- The answer to a statement with rows, none if it never comes. -/
def queryResult? : ReplyBody → Option (Except Failure Rows)
  | .exec _ => some (.ok ⟨[], []⟩)
  | .rows values => some (.ok ⟨[], values⟩)
  | .fail f => some (.error f)
  | .hang => none

end ReplyBody

namespace StatementReply

/-- The work of the driver that leads to an answer. -/
def work {α : Type} (c : Context) (r : StatementReply) (answer? : Option α) : Work α :=
  let ending : Work α := match answer? with
    | some answer => .done answer
    | none => .hang
  let cancelling := if r.cancels then .cancel c ending else ending
  match r.sleep with
  | some ms => .sleep ms cancelling
  | none => cancelling

end StatementReply

/-- The outcome of work that a context may have interrupted. -/
def Outcome.ofRun {α : Type} : Except Interruption (Except Failure α) → Outcome α
  | .ok (.ok a) => .done a
  | .ok (.error f) => .failed f
  | .error why => .interrupted why

/-- The step of a transaction, which fails if there is a failure for it. -/
def stepResult : Option Failure → Except Failure Unit
  | none => .ok ()
  | some f => .error f

namespace World

/-- The driver is told to do something. -/
def record (w : World) (e : Event) : World := { w with log := w.log ++ [e] }

/-- Sends a statement in a context. A context that is done does not let the statement out. Without
a reply of the script the driver answers `missing`. There is no result if the answer never comes. -/
def send {α : Type} (w : World) (c : Context) (e : Event)
    (answer? : ReplyBody → Option (Except Failure α)) (missing : α) :
    Option (Outcome α × World) :=
  match c.check w.clock with
  | .error why => some (.interrupted why, w)
  | .ok () =>
    let sent := w.record e
    match w.replies with
    | [] => some (.done missing, sent)
    | r :: rest =>
      (c.drive w.clock (r.work c (answer? r.body))).map fun (result, clock) =>
        (.ofRun result, { sent with clock, replies := rest })

/-- Opens a transaction in a context. -/
def openTransaction (w : World) (c : Context) (s : Script) : Outcome Unit × World :=
  match c.check w.clock with
  | .error why => (.interrupted why, w)
  | .ok () => (.ofRun (.ok (stepResult s.beginFailure)), w.record .begin)

/-- Hands something to the caller, who takes it while there is room. -/
def deliver (w : World) (s : Script) (d : Delivery) : Except Error Unit × World :=
  if s.room.any fun room => decide (room ≤ w.delivered.length) then
    (.error (.validation "assign" (.reported "sink is full")), w)
  else (.ok (), { w with delivered := w.delivered ++ [d] })

/-- Answers a call of a program. -/
def answer (s : Script) (c : Context) (w : World) : (call : Call) → Option (call.Reply × World)
  | .begin => some (w.openTransaction c s)
  | .exec inside command =>
    w.send c (.statement false inside command) ReplyBody.execResult? ⟨1, none⟩
  | .query inside command =>
    w.send c (.statement true inside command) ReplyBody.queryResult? ⟨[], []⟩
  | .commit => some (stepResult s.commitFailure, w.record .commit)
  | .rollback => some (stepResult s.rollbackFailure, w.record .rollback)
  | .check => some (c.check w.clock, w)
  | .draw g =>
    let (id, drawn) := g.draw w.drawn
    some (id, { w with drawn })
  | .revise position r =>
    some ((), { w with creations := w.creations.modify position fun x => x.revise r })
  | .deliver d => some (w.deliver s d)

end World

/-- Runs a program against a script. There is no result if it waits for an answer that never
comes. -/
def Program.play {α : Type} (s : Script) (c : Context) :
    Program α → World → Option (Except Error α × World)
  | .done a, w => some (.ok a, w)
  | .fail e, w => some (.error e, w)
  | .call request next, w =>
    match w.answer s c request with
    | some (reply, after) => (next reply).play s c after
    | none => none

end EntityGraph
