import EntityGraph.Proofs.Transaction.Discipline
import EntityGraph.Proofs.Transaction.Inquiries

/-!
# Where errors come from

A driver can fail at the opening of a transaction, at any statement and at the commit. Wherever it
does, `failure_provenance` says what becomes of the operation: nothing is tried again, at most a
rollback follows, and the error of the operation is that failure, classified. A rollback that fails,
too, is told beside it and never instead of it.
-/

set_option autoImplicit false

namespace EntityGraph

open Program

variable {α : Type} {d : Dialect}

/-! ## Failures of the driver -/

/-- The failure that an outcome reports. -/
def Outcome.failure? : Outcome α → Option Failure
  | .failed f => some f
  | _ => none

/-- The failure by which the driver makes an operation fail. A rollback is not one of its steps:
when it comes the operation has failed already. -/
def Call.failure? : (c : Call) → c.Reply → Option Failure
  | .begin, (r : Outcome Unit) => r.failure?
  | .exec _ _, (r : Outcome ExecResult) => r.failure?
  | .query _ _, (r : Outcome Rows) => r.failure?
  | .commit, .error f => some f
  | _, _ => none

/-- The failure by which the driver makes an operation fail at this call. -/
def Exchange.failure? (x : Exchange) : Option Failure := x.call.failure? x.reply

/-- A failure before the end of a transaction is an error to the operation. -/
theorem Call.error?_of_failure? {c : Call} {r : c.Reply} {f : Failure}
    (h : c.failure? r = some f) (hc : c ≠ .commit) : c.error? d r = some (f.classify d) := by
  cases c with
  | begin => cases r <;> cases h; rfl
  | exec => cases r <;> cases h; rfl
  | query => cases r <;> cases h; rfl
  | commit => exact absurd rfl hc
  | _ => cases h

/-- No call meets a failure of the driver. -/
def Untroubled (log : List Exchange) : Prop := ∀ x ∈ log, x.failure? = none

theorem Untroubled.append {before after : List Exchange} (hbefore : Untroubled before)
    (hafter : Untroubled after) : Untroubled (before ++ after) := fun x hx =>
  (List.mem_append.mp hx).elim (hbefore x) (hafter x)

/-- What follows a call that failed: if it was a statement inside a transaction, the rollback of
that transaction, whose own failure is told beside the first, and otherwise nothing. -/
def FollowedBy (d : Dialect) (x : Exchange) (f : Failure) (after : List Exchange)
    (result : Except Error α) : Prop :=
  if x.call.isInside then
    ∃ live r, after = [⟨.rollback, live, r⟩] ∧ result = .error (rolledBack (f.classify d) r)
  else after = [] ∧ result = .error (f.classify d)

theorem followedBy_nothing {x : Exchange} {f : Failure} (hx : x.call.isInside = false) :
    FollowedBy d x f [] (.error (f.classify d) : Except Error α) := by
  simp [FollowedBy, hx]

theorem followedBy_rollback {x : Exchange} {f : Failure} (hx : x.call.isInside = true)
    (live : Bool) (r : Except Failure Unit) :
    FollowedBy d x f [⟨.rollback, live, r⟩]
      (.error (rolledBack (f.classify d) r) : Except Error α) := by
  simp only [FollowedBy, hx, if_true]
  exact ⟨live, r, rfl, rfl⟩

/-- Nothing that follows a failure can fail in its turn, but a rollback. -/
theorem FollowedBy.untroubled {x : Exchange} {f : Failure} {after : List Exchange}
    {result : Except Error α} (h : FollowedBy d x f after result) : Untroubled after := by
  unfold FollowedBy at h
  split at h
  case isTrue =>
    obtain ⟨live, r, rfl, -⟩ := h
    intro y hy
    obtain rfl := List.mem_singleton.mp hy
    rfl
  case isFalse =>
    obtain ⟨rfl, -⟩ := h
    exact fun y hy => absurd hy List.not_mem_nil

/-- The run meets no failure of the driver, or it ends with the first. -/
def EndsWithFailure (d : Dialect) (log : List Exchange) (result : Except Error α) : Prop :=
  Untroubled log ∨ ∃ before x after f, log = before ++ x :: after ∧ Untroubled before ∧
    x.failure? = some f ∧ FollowedBy d x f after result

/-- A list of calls is split by its only failure in one way. -/
theorem eq_of_split {before after first rest : List Exchange} {x y : Exchange}
    (h : before ++ x :: after = first ++ y :: rest) (hx : x.failure? ≠ none)
    (hfirst : Untroubled first) (hrest : Untroubled rest) :
    before = first ∧ x = y ∧ after = rest := by
  induction first generalizing before with
  | nil =>
    cases before with
    | nil =>
      obtain ⟨rfl, rfl⟩ := List.cons.inj h
      exact ⟨rfl, rfl, rfl⟩
    | cons z before =>
      obtain ⟨-, rfl⟩ := List.cons.inj h
      exact absurd (hrest x (by simp)) hx
  | cons z first ih =>
    cases before with
    | nil =>
      obtain ⟨rfl, -⟩ := List.cons.inj h
      exact absurd (hfirst x List.mem_cons_self) hx
    | cons w before =>
      obtain ⟨rfl, htail⟩ := List.cons.inj h
      obtain ⟨rfl, rfl, rfl⟩ := ih htail fun v hv => hfirst v (List.mem_cons_of_mem _ hv)
      exact ⟨rfl, rfl, rfl⟩

/-! ## Failures of runs -/

/-- A failure that an orderly program meets is its last call and its error. -/
theorem Program.Orderly.failure {conn : Connection} {p : Program α} {log : List Exchange}
    {result : Except Error α} (hp : p.Orderly conn) (h : p.Run log result) :
    Untroubled log ∨ ∃ before x f, log = before ++ [x] ∧ Untroubled before ∧
      x.failure? = some f ∧ x.call.isInside = conn.inside ∧
      result = .error (f.classify conn.dialect) := by
  obtain ⟨hcalls, hlog⟩ := hp.run h
  have hcommit : ∀ x ∈ log, x.call ≠ .commit := fun x hx hc => by
    have hon := hcalls x hx
    rw [hc] at hon
    exact hon
  have hclear : ∀ part : List Exchange, Smooth conn.dialect part → (∀ x ∈ part, x ∈ log) →
      Untroubled part := by
    intro part hsmooth hsub x hx
    cases hf : x.failure? with
    | none => rfl
    | some f =>
      have he := Call.error?_of_failure? (d := conn.dialect) hf (hcommit x (hsub x hx))
      rw [hsmooth x hx] at he
      cases he
  rcases hlog with hsmooth | ⟨before, x, e, rfl, hsmooth, he, rfl⟩
  · exact .inl (hclear log hsmooth fun _ => id)
  · have hbefore := hclear before hsmooth fun _ => List.mem_append_left _
    have hx : x ∈ before ++ [x] := by simp
    cases hf : x.failure? with
    | none => exact .inl (hbefore.append fun y hy => List.mem_singleton.mp hy ▸ hf)
    | some f =>
      have he' := Call.error?_of_failure? (d := conn.dialect) hf (hcommit x hx)
      rw [he] at he'
      cases he'
      refine .inr ⟨before, x, f, rfl, hbefore, hf, ?_, rfl⟩
      have hon := hcalls x hx
      obtain ⟨c, live, r⟩ := x
      cases c <;> first | exact hon | exact hon.elim | cases hf

/-- Outside a transaction an orderly program ends with the first failure that it meets. -/
theorem Program.Orderly.endsWithFailure {p : Program α} {log : List Exchange}
    {result : Except Error α} (hp : p.Orderly ⟨d, false⟩) (h : p.Run log result) :
    EndsWithFailure d log result := by
  rcases hp.failure h with hlog | ⟨before, x, f, rfl, hbefore, hx, hin, rfl⟩
  · exact .inl hlog
  · exact .inr ⟨before, x, [], f, rfl, hbefore, hx, followedBy_nothing hin⟩

/-- The end of a transaction fails only with its commit, and then that is the error. -/
theorem finish_failure {outcome result : Except Error α} {log : List Exchange}
    (h : (Connection.finish d outcome).Run log result) : EndsWithFailure d log result := by
  cases outcome with
  | error e =>
    obtain ⟨live, r, rfl, -⟩ := run_finish_error.mp h
    exact .inl (by simp [Untroubled, Exchange.failure?, Call.failure?])
  | ok a =>
    rcases run_finish_ok.mp h with ⟨live, why, live', r, rfl, -⟩ | ⟨live, live', r, rfl, rfl⟩
    · exact .inl (by simp [Untroubled, Exchange.failure?, Call.failure?])
    · cases r with
      | ok u => exact .inl (by simp [Untroubled, Exchange.failure?, Call.failure?])
      | error f =>
        refine .inr ⟨[⟨.check, live, .ok ()⟩], _, [], f, rfl, ?_, rfl, followedBy_nothing rfl⟩
        simp [Untroubled, Exchange.failure?, Call.failure?]

/-- What an operation does on a connection ends with the first failure. In a transaction that has
been opened and is not at its end the rollback follows. -/
theorem connection_failure {body : Connection → Program α} {transactional : Bool}
    {log : List Exchange} {result : Except Error α} (hbody : ∀ conn, (body conn).Orderly conn)
    (h : (Connection.run d transactional body).Run log result) : EndsWithFailure d log result := by
  cases transactional with
  | false => exact (hbody ⟨d, false⟩).endsWithFailure h
  | true =>
    rcases run_connection.mp h with
      ⟨live, r, e, rfl, he, rfl⟩ | ⟨live, inner, ending, outcome, rfl, hin, hend⟩
    · cases r with
      | done u => cases he
      | failed f =>
        cases he
        exact .inr ⟨[], _, [], f, rfl, by simp [Untroubled], rfl, followedBy_nothing rfl⟩
      | interrupted why => exact .inl fun x hx => List.mem_singleton.mp hx ▸ rfl
    · have hopen : ∀ part : List Exchange, Untroubled part →
          Untroubled (⟨.begin, live, (.done () : Outcome Unit)⟩ :: part) := fun part hpart =>
        List.forall_mem_cons.mpr ⟨rfl, hpart⟩
      rcases (hbody ⟨d, true⟩).failure hin with
        hinner | ⟨before, x, f, rfl, hbefore, hx, hinside, rfl⟩
      · rcases finish_failure hend with hending | ⟨before, x, after, f, rfl, hbefore, hx, hafter⟩
        · exact .inl (hopen _ (hinner.append hending))
        · exact .inr ⟨_, x, after, f, by simp, hopen _ (hinner.append hbefore), hx, hafter⟩
      · obtain ⟨live', r, rfl, rfl⟩ := run_finish_error.mp hend
        exact .inr ⟨_ :: before, x, [_], f, by simp, hopen _ hbefore, hx,
          followedBy_rollback hinside live' r⟩

/-! ## Operations -/

/-- An operation on a graph. -/
inductive Operation where
  | change (m : Mutation)
  | ask (i : Inquiry)

namespace Operation

/-- What an operation results in. -/
def Result : Operation → Type
  | .change m => m.Result
  | .ask i => i.Result

/-- The program of an operation. -/
def program (d : Dialect) : (o : Operation) → Program o.Result
  | .change m => m.program d
  | .ask i => i.program d

/-- Every operation ends with the first failure that it meets. -/
theorem endsWithFailure {o : Operation} {log : List Exchange} {result : Except Error o.Result}
    (h : (o.program d).Run log result) : EndsWithFailure d log result := by
  cases o with
  | change m =>
    have h : (m.program d).Run log result := h
    rw [Mutation.program_eq] at h
    rcases run_bind.mp h with ⟨e, hplan, rfl⟩ | ⟨p, before, after, rfl, hplan, hrun⟩
    · obtain ⟨rfl, -⟩ := run_ofExcept.mp hplan
      exact .inl fun x hx => absurd hx List.not_mem_nil
    · obtain ⟨rfl, hp⟩ := run_ofExcept.mp hplan
      exact connection_failure (Mutation.plan_orderly hp.symm) hrun
  | ask i => exact i.program_orderly.endsWithFailure h

end Operation

/-- A rollback, whether it succeeds or not, keeps the cause of an error. -/
theorem cause_rolledBack (e : Error) (r : Except Failure Unit) :
    (rolledBack e r).cause = e.cause := by
  cases r <;> rfl

/-- A classified failure is its own cause. -/
theorem cause_classify (d : Dialect) (f : Failure) : (f.classify d).cause = f.classify d := by
  unfold Failure.classify
  split <;> rfl

/-- Errors keep their provenance. Take any run of any operation, a mutation, a query or a load of
neighbors, and any call in it at which the driver fails: the opening of the transaction, a statement
at whatever place, or the commit. Then the driver has not failed before. Nothing is sent again: what
follows is at most the rollback of the transaction, and only if one is open. The operation fails,
and the cause of its error is that failure as the dialect classifies it, also where the rollback
fails, too. So a broken uniqueness, foreign key or check rule is reported as a broken constraint
that carries the failure, from wherever it comes. -/
theorem failure_provenance {o : Operation} {before after : List Exchange} {x : Exchange}
    {f : Failure} {result : Except Error o.Result}
    (h : (o.program d).Run (before ++ x :: after) result) (hx : x.failure? = some f) :
    Untroubled before ∧ FollowedBy d x f after result ∧
      ∃ e, result = .error e ∧ e.cause = f.classify d ∧
        ∀ v, Violation.ofFailure? d f = some v →
          e.cause = .constraint (.violation f) ∧ e.isConstraint = true := by
  rcases Operation.endsWithFailure h with hnone | ⟨first, y, rest, g, hlog, hfirst, hy, hrest⟩
  · rw [hnone x (by simp)] at hx
    cases hx
  · obtain ⟨rfl, rfl, rfl⟩ := eq_of_split hlog (by simp [hx]) hfirst hrest.untroubled
    obtain rfl : f = g := Option.some.inj (hx.symm.trans hy)
    have hresult : ∃ e, result = .error e ∧ e.cause = f.classify d := by
      unfold FollowedBy at hrest
      split at hrest
      case isTrue =>
        obtain ⟨-, r, -, rfl⟩ := hrest
        exact ⟨_, rfl, (cause_rolledBack _ r).trans (cause_classify d f)⟩
      case isFalse =>
        obtain ⟨-, rfl⟩ := hrest
        exact ⟨_, rfl, cause_classify d f⟩
    obtain ⟨e, rfl, he⟩ := hresult
    refine ⟨hfirst, hrest, e, rfl, he, fun v hv => ?_⟩
    have hclass : e.cause = .constraint (.violation f) := by
      rw [he, Failure.classify, hv]
    exact ⟨hclass, by rw [Error.isConstraint, hclass]⟩

/-- The database refuses to link the pet of a new user. -/
def petTaken : Failure :=
  .database (some 2067) "UNIQUE constraint failed: pets.user_id" .other

/-- The statement that links the pet, refused. -/
def petRefused : Exchange :=
  let pet : Update :=
    (((Update.ofTable "pets").set "user_id" (.int 1)).filter (.oneOf "id" [.int 7])).filter
      (.isNull "user_id")
  ⟨.exec true (.update pet), true, (.failed petTaken : Outcome ExecResult)⟩

/-- Where the link of the pet is refused and the connection is lost before the rollback, the refusal
is still what the error says. -/
theorem failure_provenance_pet_refused :
    ((Operation.change (.createNode userWithPet)).program .sqlite).Run
      (userWithPetRun.take 3 ++ petRefused ::
        [⟨.rollback, true, (.error .poolClosed : Except Failure Unit)⟩])
      (.error (.rollback (.constraint (.violation petTaken)) .poolClosed)) ∧
    petRefused.failure? = some petTaken ∧
    ∃ e, (Except.error (.rollback (.constraint (.violation petTaken)) .poolClosed) :
        Except Error Value) = .error e ∧
      e.cause = .constraint (.violation petTaken) ∧ e.isConstraint = true := by
  have hrun : ((Operation.change (.createNode userWithPet)).program .sqlite).Run
      (userWithPetRun.take 3 ++ petRefused ::
        [⟨.rollback, true, (.error .poolClosed : Except Failure Unit)⟩])
      (.error (.rollback (.constraint (.violation petTaken)) .poolClosed)) := by
    apply Run.call
    apply Run.call
    apply Run.call
    apply Run.call
    apply Run.call
    exact .fail _
  obtain ⟨-, -, e, he, -, hclass⟩ := failure_provenance hrun (f := petTaken) rfl
  exact ⟨hrun, rfl, e, he, hclass .unique (by decide)⟩

end EntityGraph
