import EntityGraph.Error

/-!
# Contexts

A context carries a cancellation token and an optional deadline through an operation. Time is
virtual: it passes only while work waits. `Context.run` lets work go on until it is done, unless
the context is cancelled or expires first; where several happen at the same moment, cancellation
comes before the deadline and the deadline before the end of a wait.
-/

set_option autoImplicit false

namespace EntityGraph

/-- A context. Its token is the list of all tokens whose cancellation cancels it, its own first. -/
structure Context where
  token : List Nat
  deadline : Option Nat
deriving DecidableEq, Repr

/-- Virtual time in milliseconds, and the tokens that have been cancelled. -/
structure Clock where
  now : Nat
  cancelled : List Nat
deriving DecidableEq, Repr

namespace Clock

/-- Time starts at zero, and nothing has been cancelled. -/
def start : Clock := ⟨0, []⟩

end Clock

namespace Context

/-- A context that never expires, with a token of its own. -/
def background (token : Nat) : Context := ⟨[token], none⟩

/-- The context with a deadline, unless it has an earlier one. -/
def withDeadline (c : Context) (deadline : Nat) : Context :=
  { c with deadline := some (match c.deadline with
    | some current => if current < deadline then current else deadline
    | none => deadline) }

/-- The context with a deadline some time from now, unless it has an earlier one. -/
def withTimeout (c : Context) (clock : Clock) (timeout : Nat) : Context :=
  c.withDeadline (clock.now + timeout)

/-- A context that is cancelled together with another, and can also be cancelled on its own. -/
def child (c : Context) (token : Nat) : Context := { c with token := token :: c.token }

/-- Cancels a context and all that depend on it. -/
def cancel (c : Context) (clock : Clock) : Clock :=
  match c.token with
  | own :: _ => { clock with cancelled := own :: clock.cancelled }
  | [] => clock

/-- The context has been cancelled. -/
def isCancelled (c : Context) (clock : Clock) : Bool :=
  c.token.any fun t => clock.cancelled.contains t

/-- Refuses a context that is done: one that has been cancelled or has expired. -/
def check (c : Context) (clock : Clock) : Except Interruption Unit :=
  if c.isCancelled clock then .error .cancelled
  else
    match c.deadline with
    | some deadline => if deadline ≤ clock.now then .error .deadlineExceeded else .ok ()
    | none => .ok ()

end Context

/-- Work that a context may interrupt where it waits. -/
inductive Work (α : Type) where
  /-- The work is done. -/
  | done (a : α)
  /-- Waits for some milliseconds. -/
  | sleep (ms : Nat) (rest : Work α)
  /-- Cancels a context, without waiting. -/
  | cancel (c : Context) (rest : Work α)
  /-- Lets others go first, without waiting. -/
  | yield (rest : Work α)
  /-- Waits forever. -/
  | hang

namespace Context

/-- Lets work go on that a live context has started. Work that waits forever in a context that
nothing stops has no result. -/
def drive {α : Type} (c : Context) (clock : Clock) :
    Work α → Option (Except Interruption α × Clock)
  | .done a => some (.ok a, clock)
  | .cancel other rest => c.drive (other.cancel clock) rest
  | .yield rest =>
    match c.check clock with
    | .error why => some (.error why, clock)
    | .ok () => c.drive clock rest
  | .sleep ms rest =>
    if ms = 0 then c.drive clock rest
    else if c.isCancelled clock then some (.error .cancelled, clock)
    else
      match c.deadline with
      | some deadline =>
        if deadline ≤ clock.now + ms then
          some (.error .deadlineExceeded, { clock with now := max clock.now deadline })
        else c.drive { clock with now := clock.now + ms } rest
      | none => c.drive { clock with now := clock.now + ms } rest
  | .hang =>
    if c.isCancelled clock then some (.error .cancelled, clock)
    else c.deadline.map fun deadline =>
      (.error .deadlineExceeded, { clock with now := max clock.now deadline })

/-- Runs work in a context. A context that is done does not let it start. -/
def run {α : Type} (c : Context) (clock : Clock) (w : Work α) :
    Option (Except Interruption α × Clock) :=
  match c.check clock with
  | .error why => some (.error why, clock)
  | .ok () => c.drive clock w

end Context

end EntityGraph
