import EntityGraph.Connection

/-!
# Runs of programs

A program fixes what an operation does for every reply; a run is one way through it. `Program.Run`
relates a program to the list of its calls with their replies and to its result, for arbitrary
replies, so a statement about all runs is a statement about every behaviour of the surroundings.
What the surroundings promise about the context of an operation is said apart from the program, by
`Conducted`: a context that is done stays done, and it lets no statement through.

The inversion lemmas `run_bind`, `run_ofExcept` and `run_attempt` take a run of a composed program
apart; everything that is said later about the operations goes through them.
-/

set_option autoImplicit false

namespace EntityGraph

/-- A call with its reply. `live` tells whether the context was live when the call was made. -/
structure Exchange where
  call : Call
  live : Bool
  reply : call.Reply

namespace Outcome

/-- The error with which an outcome makes an operation fail. -/
def error? {α : Type} (d : Dialect) : Outcome α → Option Error
  | .done _ => none
  | .failed f => some (f.classify d)
  | .interrupted why => some (.interrupted why)

/-- The context was done before the call was. -/
def isInterrupted {α : Type} : Outcome α → Bool
  | .interrupted _ => true
  | _ => false

/-- The call was carried out. -/
def isDone {α : Type} : Outcome α → Bool
  | .done _ => true
  | _ => false

end Outcome

namespace Call

/-- The error with which a reply to a call of an operation makes the operation fail. -/
def error? (d : Dialect) : (c : Call) → c.Reply → Option Error
  | .begin, (r : Outcome Unit) => r.error? d
  | .exec _ _, (r : Outcome ExecResult) => r.error? d
  | .query _ _, (r : Outcome Rows) => r.error? d
  | .deliver _, .error e => some e
  | _, _ => none

/-- The reply says that the context is done. -/
def interrupts : (c : Call) → c.Reply → Bool
  | .begin, (r : Outcome Unit) => r.isInterrupted
  | .exec _ _, (r : Outcome ExecResult) => r.isInterrupted
  | .query _ _, (r : Outcome Rows) => r.isInterrupted
  | .check, .error _ => true
  | _, _ => false

/-- The reply says that the driver carried the call out. -/
def succeeds : (c : Call) → c.Reply → Bool
  | .begin, (r : Outcome Unit) => r.isDone
  | .exec _ _, (r : Outcome ExecResult) => r.isDone
  | .query _ _, (r : Outcome Rows) => r.isDone
  | .commit, .ok _ => true
  | .rollback, .ok _ => true
  | _, _ => false

/-- The call sends a statement. -/
def isStatement : Call → Bool
  | .exec _ _ | .query _ _ => true
  | _ => false

/-- The call sends a statement inside a transaction. -/
def isInside : Call → Bool
  | .exec inside _ | .query inside _ => inside
  | _ => false

/-- The call sends a statement that changes rows. -/
def isWrite : Call → Bool
  | .exec _ c | .query _ c => c.isWrite
  | _ => false

/-- What a live or finished context makes of a call: it lets no statement and no opening of a
transaction through once it is done, and it tells the truth about itself. -/
def Admits (live : Bool) : (c : Call) → c.Reply → Prop
  | .begin, r | .exec _ _, r | .query _ _, r => live = false → ∃ why, r = .interrupted why
  | .check, r => live = true ↔ r = .ok ()
  | _, _ => True

end Call

namespace Exchange

/-- The driver is told about the call. The context stands before statements and before the opening
of a transaction, but not before its end. -/
def reachesDriver (x : Exchange) : Bool :=
  match x.call with
  | .begin | .exec _ _ | .query _ _ => x.live
  | .commit | .rollback => true
  | _ => false

/-- The reply says that the context is done. -/
def interrupts (x : Exchange) : Bool := x.call.interrupts x.reply

/-- The reply says that the driver carried the call out. -/
def succeeds (x : Exchange) : Bool := x.call.succeeds x.reply

/-- A transaction has been opened. -/
def opens (x : Exchange) : Prop := x.call = .begin ∧ x.succeeds = true

end Exchange

/-- The calls of a run that the driver is told about. -/
def received (log : List Exchange) : List Exchange := log.filter Exchange.reachesDriver

/-- The run takes place in a context, which is live at the start or not: it lets calls through only
while it is live, and once it is done it stays so. -/
def Conducted : Bool → List Exchange → Prop
  | _, [] => True
  | live, x :: rest =>
    (x.live = true → live = true) ∧ x.call.Admits x.live x.reply ∧
      Conducted (x.live && !x.interrupts) rest

namespace Program

/-- The runs of a program: the calls that are made with their replies, and the result. -/
inductive Run {α : Type} : Program α → List Exchange → Except Error α → Prop
  | done (a : α) : Run (.done a) [] (.ok a)
  | fail (e : Error) : Run (.fail e) [] (.error e)
  | call {c : Call} {next : c.Reply → Program α} {log : List Exchange} {result : Except Error α}
      (live : Bool) (r : c.Reply) :
      Run (next r) log result → Run (.call c next) (⟨c, live, r⟩ :: log) result

/-! ## Programs as a monad -/

variable {α β γ : Type}

@[simp]
theorem liftM_eq_ofExcept (x : Except Error α) : (liftM x : Program α) = ofExcept x := rfl

@[simp]
theorem done_bind (a : α) (f : α → Program β) : (Program.done a >>= f) = f a := rfl

@[simp]
theorem fail_bind (e : Error) (f : α → Program β) : (Program.fail e >>= f) = .fail e := rfl

@[simp]
theorem call_bind (c : Call) (next : c.Reply → Program α) (f : α → Program β) :
    (Program.call c next >>= f) = .call c fun r => next r >>= f := rfl

/-- Sequencing is associative. -/
theorem bind_bind (p : Program α) (f : α → Program β) (g : β → Program γ) :
    (p >>= f >>= g) = p >>= fun a => f a >>= g := by
  induction p with
  | done a => rfl
  | fail e => rfl
  | call c next ih =>
    simp only [call_bind]
    congr 1
    funext r
    exact ih r

/-- A program that passes its result on is itself. -/
theorem bind_done (p : Program α) : (p >>= Program.done) = p := by
  induction p with
  | done a => rfl
  | fail e => rfl
  | call c next ih =>
    simp only [call_bind]
    congr 1
    funext r
    exact ih r

instance : LawfulMonad Program :=
  LawfulMonad.mk' Program bind_done (fun _ _ => rfl) bind_bind

/-! ## Taking runs apart -/

@[simp]
theorem run_done {a : α} {log : List Exchange} {result : Except Error α} :
    (Program.done a).Run log result ↔ log = [] ∧ result = .ok a := by
  constructor
  · rintro ⟨⟩
    exact ⟨rfl, rfl⟩
  · rintro ⟨rfl, rfl⟩
    exact .done a

@[simp]
theorem run_fail {e : Error} {log : List Exchange} {result : Except Error α} :
    (Program.fail e).Run log result ↔ log = [] ∧ result = .error e := by
  constructor
  · rintro ⟨⟩
    exact ⟨rfl, rfl⟩
  · rintro ⟨rfl, rfl⟩
    exact .fail e

theorem run_call {c : Call} {next : c.Reply → Program α} {log : List Exchange}
    {result : Except Error α} :
    (Program.call c next).Run log result ↔
      ∃ live r rest, log = ⟨c, live, r⟩ :: rest ∧ (next r).Run rest result := by
  constructor
  · rintro ⟨⟩
    case call log live r h => exact ⟨live, r, log, rfl, h⟩
  · rintro ⟨live, r, rest, rfl, h⟩
    exact .call live r h

/-- The replies decide the result. -/
theorem Run.result_eq {p : Program α} {log : List Exchange} {x y : Except Error α}
    (h : p.Run log x) (h' : p.Run log y) : x = y := by
  induction h with
  | done a => exact (run_done.mp h').2.symm
  | fail e => exact (run_fail.mp h').2.symm
  | call live r _ ih =>
    obtain ⟨_, _, _, hlog, hnext⟩ := run_call.mp h'
    cases hlog
    exact ih hnext

/-- A program without calls has one run. -/
@[simp]
theorem run_ofExcept {x : Except Error α} {log : List Exchange} {result : Except Error α} :
    (ofExcept x).Run log result ↔ log = [] ∧ result = x := by
  cases x <;> simp [ofExcept]

/-- A run of two programs, one after the other, is a run of the first that fails, or a run of the
first followed by a run of the second. -/
theorem run_bind {p : Program α} {f : α → Program β} {log : List Exchange}
    {result : Except Error β} :
    (p >>= f).Run log result ↔
      (∃ e, p.Run log (.error e) ∧ result = .error e) ∨
        ∃ a before after,
          log = before ++ after ∧ p.Run before (.ok a) ∧ (f a).Run after result := by
  induction p generalizing log with
  | done a =>
    simp only [done_bind, run_done, reduceCtorEq, and_false, false_and, exists_false, false_or,
      Except.ok.injEq]
    constructor
    · intro h
      exact ⟨a, [], log, rfl, ⟨rfl, rfl⟩, h⟩
    · rintro ⟨b, before, after, rfl, ⟨rfl, rfl⟩, h⟩
      exact h
  | fail e =>
    simp only [fail_bind, run_fail, reduceCtorEq, and_false, false_and, exists_false, or_false,
      Except.error.injEq]
    constructor
    · rintro ⟨rfl, rfl⟩
      exact ⟨e, ⟨rfl, rfl⟩, rfl⟩
    · rintro ⟨e', ⟨rfl, rfl⟩, rfl⟩
      exact ⟨rfl, rfl⟩
  | call c next ih =>
    simp only [call_bind, run_call, ih]
    constructor
    · rintro ⟨live, r, rest, rfl, ⟨e, h, rfl⟩ | ⟨a, before, after, rfl, h, h'⟩⟩
      · exact .inl ⟨e, ⟨live, r, rest, rfl, h⟩, rfl⟩
      · exact .inr ⟨a, ⟨c, live, r⟩ :: before, after, rfl, ⟨live, r, before, rfl, h⟩, h'⟩
    · rintro (⟨e, ⟨live, r, rest, rfl, h⟩, rfl⟩ | ⟨a, _, after, rfl, ⟨live, r, rest, rfl, h⟩, h'⟩)
      · exact ⟨live, r, rest, rfl, .inl ⟨e, h, rfl⟩⟩
      · exact ⟨live, r, rest ++ after, rfl, .inr ⟨a, rest, after, rfl, h, h'⟩⟩

/-- A sequence of programs has a result if both have one. -/
theorem run_bind_ok {p : Program α} {f : α → Program β} {log : List Exchange} {b : β} :
    (p >>= f).Run log (.ok b) ↔
      ∃ a before after, log = before ++ after ∧ p.Run before (.ok a) ∧
        (f a).Run after (.ok b) := by
  rw [run_bind]
  constructor
  · rintro (⟨e, -, he⟩ | h)
    · cases he
    · exact h
  · intro h
    exact .inr h

/-- An attempt always has a result: that of the program, whether it failed or not. -/
theorem run_attempt {p : Program α} {log : List Exchange}
    {result : Except Error (Except Error α)} :
    p.attempt.Run log result ↔ ∃ inner, result = .ok inner ∧ p.Run log inner := by
  induction p generalizing log with
  | done a =>
    simp only [attempt, run_done]
    constructor
    · rintro ⟨rfl, rfl⟩
      exact ⟨.ok a, rfl, rfl, rfl⟩
    · rintro ⟨_, rfl, rfl, rfl⟩
      exact ⟨rfl, rfl⟩
  | fail e =>
    simp only [attempt, run_done, run_fail]
    constructor
    · rintro ⟨rfl, rfl⟩
      exact ⟨.error e, rfl, rfl, rfl⟩
    · rintro ⟨_, rfl, rfl, rfl⟩
      exact ⟨rfl, rfl⟩
  | call c next ih =>
    simp only [attempt, run_call, ih]
    constructor
    · rintro ⟨live, r, rest, rfl, inner, rfl, h⟩
      exact ⟨inner, rfl, live, r, rest, rfl, h⟩
    · rintro ⟨inner, rfl, live, r, rest, rfl, h⟩
      exact ⟨live, r, rest, rfl, inner, rfl, h⟩

/-! ## Statements -/

section Statements

variable {conn : Connection} {c : Command} {log : List Exchange}

/-- Settling a reply takes no call, and has the result that the call has had. -/
theorem run_settle {d : Dialect} {r : Outcome α} {result : Except Error α}
    (h : (Connection.settle d r).Run log result) : log = [] ∧ ∀ a, result = .ok a ↔ r = .done a := by
  cases r with
  | done a =>
    obtain ⟨rfl, rfl⟩ := run_done.mp h
    simp
  | failed f =>
    obtain ⟨rfl, rfl⟩ := run_fail.mp h
    simp
  | interrupted why =>
    obtain ⟨rfl, rfl⟩ := run_fail.mp h
    simp

/-- A statement that reports no rows is one call, and has its result. -/
theorem run_exec {result : Except Error ExecResult} (h : (conn.exec c).Run log result) :
    ∃ live, ∃ r : Outcome ExecResult, log = [⟨.exec conn.inside c, live, r⟩] ∧
      ∀ a, result = .ok a ↔ r = .done a := by
  obtain ⟨live, r, rest, rfl, hsettle⟩ := run_call.mp h
  obtain ⟨rfl, hr⟩ := run_settle hsettle
  exact ⟨live, r, rfl, hr⟩

/-- A statement that reports rows is one call, and has its rows. -/
theorem run_query {result : Except Error Rows} (h : (conn.query c).Run log result) :
    ∃ live, ∃ r : Outcome Rows, log = [⟨.query conn.inside c, live, r⟩] ∧
      ∀ rows, result = .ok rows ↔ r = .done rows := by
  obtain ⟨live, r, rest, rfl, hsettle⟩ := run_call.mp h
  obtain ⟨rfl, hr⟩ := run_settle hsettle
  exact ⟨live, r, rfl, hr⟩

end Statements

end Program

/-! ## Contexts along a run -/

/-- What follows a part of a run takes place in the same context, which is live only if it was live
before that part and throughout it. -/
theorem Conducted.append {live : Bool} {before after : List Exchange}
    (h : Conducted live (before ++ after)) :
    Conducted live before ∧
      ∃ still : Bool, Conducted still after ∧
        (still = true → live = true ∧ ∀ x ∈ before, x.live = true ∧ x.interrupts = false) := by
  induction before generalizing live with
  | nil => exact ⟨trivial, live, h, fun hs => ⟨hs, by simp⟩⟩
  | cons x rest ih =>
    obtain ⟨hlive, hadmits, hrest⟩ := h
    obtain ⟨hbefore, still, hafter, hstill⟩ := ih hrest
    refine ⟨⟨hlive, hadmits, hbefore⟩, still, hafter, fun hs => ?_⟩
    obtain ⟨hx, hall⟩ := hstill hs
    simp only [Bool.and_eq_true, Bool.not_eq_true'] at hx
    refine ⟨hlive hx.1, fun y hy => ?_⟩
    rcases List.mem_cons.mp hy with rfl | hy
    · exact hx
    · exact hall y hy

/-- The calls of two parts of a run that the driver is told about. -/
@[simp]
theorem received_append (before after : List Exchange) :
    received (before ++ after) = received before ++ received after :=
  List.filter_append before after

end EntityGraph
