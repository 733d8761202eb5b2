import EntityGraph.Proofs.Transaction.Mutation

/-!
# The discipline of transactions

What the driver sees of a mutation, for arbitrary replies and for a context that may be done at any
moment. `run_connection` takes a run on a connection apart: the opening of the transaction, a run of
the operation inside it, and the end of the transaction. The operation itself is orderly, so all its
statements go into the transaction and none follows one that failed; the end depends on the result
of the operation and on the context alone. `mutation_transaction` is the top: it says all this of
every mutation.
-/

set_option autoImplicit false

namespace EntityGraph

open Program

variable {α : Type} {d : Dialect}

/-! ## Runs on a connection -/

/-- The error of an operation whose transaction has been rolled back, or could not be. -/
def rolledBack (e : Error) : Except Failure Unit → Error
  | .ok () => e
  | .error f => .rollback e f

/-- The error of a transaction that could not be committed, none if it was. -/
def committed (d : Dialect) (a : α) : Except Failure Unit → Except Error α
  | .ok () => .ok a
  | .error f => .error (f.classify d)

/-- Rolling back is one call, and then the operation fails. -/
theorem run_abort {e : Error} {log : List Exchange} {result : Except Error α} :
    (Connection.abort e : Program α).Run log result ↔
      ∃ live r, log = [⟨.rollback, live, r⟩] ∧ result = .error (rolledBack e r) := by
  refine Iff.trans (run_call (c := .rollback)) ?_
  constructor
  · rintro ⟨live, r, rest, rfl, h⟩
    cases r <;> obtain ⟨rfl, rfl⟩ := run_fail.mp h <;> exact ⟨live, _, rfl, rfl⟩
  · rintro ⟨live, r, rfl, rfl⟩
    refine ⟨live, r, [], rfl, ?_⟩
    cases r <;> exact .fail _

/-- An operation that failed has its transaction rolled back. -/
theorem run_finish_error {e : Error} {log : List Exchange} {result : Except Error α} :
    (Connection.finish d (.error e) : Program α).Run log result ↔
      ∃ live r, log = [⟨.rollback, live, r⟩] ∧ result = .error (rolledBack e r) :=
  run_abort

/-- An operation that succeeded asks for its context, and its transaction is committed if the
context is live and rolled back otherwise. -/
theorem run_finish_ok {a : α} {log : List Exchange} {result : Except Error α} :
    (Connection.finish d (.ok a)).Run log result ↔
      (∃ live why live' r, log = [⟨.check, live, .error why⟩, ⟨.rollback, live', r⟩] ∧
        result = .error (rolledBack (.interrupted why) r)) ∨
      ∃ live live' r, log = [⟨.check, live, .ok ()⟩, ⟨.commit, live', r⟩] ∧
        result = committed d a r := by
  refine Iff.trans (run_call (c := .check)) ?_
  constructor
  · rintro ⟨live, why | ⟨⟩, rest, rfl, h⟩
    · obtain ⟨live', r, rfl, rfl⟩ := run_abort.mp h
      exact .inl ⟨live, why, live', r, rfl, rfl⟩
    · obtain ⟨live', r, rest, rfl, h'⟩ := (run_call (c := .commit)).mp h
      right
      cases r with
      | error f =>
        obtain ⟨rfl, rfl⟩ := run_fail.mp h'
        exact ⟨live, live', .error f, rfl, rfl⟩
      | ok u =>
        obtain ⟨rfl, rfl⟩ := run_done.mp h'
        exact ⟨live, live', .ok u, rfl, rfl⟩
  · rintro (⟨live, why, live', r, rfl, rfl⟩ | ⟨live, live', r, rfl, rfl⟩)
    · exact ⟨live, .error why, _, rfl, run_abort.mpr ⟨live', r, rfl, rfl⟩⟩
    · refine ⟨live, .ok (), _, rfl, run_call.mpr ⟨live', r, [], rfl, ?_⟩⟩
      cases r <;> constructor

/-- A run inside a transaction: the transaction cannot be opened, or it is opened, the operation
runs inside it, and the transaction is finished with the operation's result. -/
theorem run_connection {body : Connection → Program α} {log : List Exchange}
    {result : Except Error α} :
    (Connection.run d true body).Run log result ↔
      (∃ live r e, log = [⟨.begin, live, r⟩] ∧ Call.error? d .begin r = some e ∧
        result = .error e) ∨
      ∃ live inner ending outcome,
        log = ⟨.begin, live, (.done () : Outcome Unit)⟩ :: (inner ++ ending) ∧
          (body ⟨d, true⟩).Run inner outcome ∧ (Connection.finish d outcome).Run ending result := by
  refine Iff.trans (run_call (c := .begin)) ?_
  constructor
  · rintro ⟨live, r, rest, rfl, h⟩
    cases r with
    | done u =>
      right
      have h : ((body ⟨d, true⟩).attempt >>= Connection.finish d).Run rest result := h
      rcases run_bind.mp h with ⟨e, hin, rfl⟩ | ⟨outcome, inner, ending, rfl, hin, hend⟩
      · obtain ⟨_, he, -⟩ := run_attempt.mp hin
        cases he
      · obtain ⟨_, he, hin⟩ := run_attempt.mp hin
        cases he
        exact ⟨live, inner, ending, outcome, rfl, hin, hend⟩
    | failed f =>
      obtain ⟨rfl, rfl⟩ := run_fail.mp h
      exact .inl ⟨live, _, _, rfl, rfl, rfl⟩
    | interrupted why =>
      obtain ⟨rfl, rfl⟩ := run_fail.mp h
      exact .inl ⟨live, _, _, rfl, rfl, rfl⟩
  · rintro (⟨live, r, e, rfl, he, rfl⟩ | ⟨live, inner, ending, outcome, rfl, h, hend⟩)
    · refine ⟨live, r, [], rfl, ?_⟩
      cases r <;> cases he <;> exact .fail _
    · refine ⟨live, .done (), _, rfl, ?_⟩
      show ((body ⟨d, true⟩).attempt >>= Connection.finish d).Run (inner ++ ending) result
      refine run_bind.mpr (.inr ⟨outcome, inner, ending, rfl, ?_, hend⟩)
      exact run_attempt.mpr ⟨outcome, rfl, h⟩

/-- The plan of every mutation is orderly on its connection. -/
theorem Mutation.plan_orderly {m : Mutation} {p : Plan m.Result} (h : m.plan = .ok p)
    (conn : Connection) : (p.body conn).Orderly conn := by
  cases planned h with
  | @createNode c => exact NodeCreation.write_orderly conn 0 c
  | @batchCreate b _ hbatch =>
    cases hbatch with
    | nothing => exact orderly_done _
    | @chain _ order => exact BatchCreation.createChain_orderly conn b order
    | bulk => exact BatchCreation.createBulk_orderly conn b
  | @updateNode u id => exact NodeUpdate.writeOne_orderly conn u id
  | @updateFound u => exact NodeUpdate.writeMany_orderly conn u
  | @updateRows u => exact NodeUpdate.writeRows_orderly conn u
  | deleteNode => exact (orderly_exec conn _).bind fun _ => orderly_ite trivial trivial
  | deleteNodes => exact (orderly_exec conn _).bind fun _ => orderly_done _

/-! ## Stopping in time -/

/-- A statement or the opening of a transaction was not carried out. -/
def Exchange.isRefused (x : Exchange) : Prop :=
  (x.call.isStatement = true ∨ x.call = .begin) ∧ x.succeeds = false

/-- After a statement or an opening that failed, and once the context is done, the driver gets no
further statement. -/
def StopsInTime (log : List Exchange) : Prop :=
  log.Pairwise fun x y =>
    x.isRefused ∨ x.live = false ∨ x.interrupts = true →
      ¬(y.call.isStatement = true ∧ y.reachesDriver = true)

/-- A context that is found done is done for all later calls. -/
theorem Conducted.pairwise {live : Bool} {log : List Exchange} (h : Conducted live log) :
    log.Pairwise fun x y => x.live = false ∨ x.interrupts = true → y.live = false := by
  have hdone : ∀ (log : List Exchange), Conducted false log → ∀ y ∈ log, y.live = false := by
    intro log hlog
    induction log with
    | nil => simp
    | cons x rest ih =>
      obtain ⟨hx, -, hrest⟩ := hlog
      have hx : x.live = false := by simpa using hx
      rw [hx, Bool.false_and] at hrest
      simpa [hx] using ih hrest
  induction log generalizing live with
  | nil => exact .nil
  | cons x rest ih =>
    obtain ⟨-, -, hrest⟩ := h
    refine .cons (fun y hy hx => ?_) (ih hrest)
    have hfalse : (x.live && !x.interrupts) = false := by
      rcases hx with hx | hx <;> simp [hx]
    exact hdone rest (hfalse ▸ hrest) y hy

/-- A call that is no error to the operation has not been refused. -/
theorem not_refused_of_smooth {x : Exchange} (hx : x.call.error? d x.reply = none) :
    ¬x.isRefused := by
  obtain ⟨c, live, r⟩ := x
  rintro ⟨hs, hfail⟩
  cases c with
  | begin => cases r <;> first | cases hx; done | cases hfail
  | exec i c => cases r <;> first | cases hx; done | cases hfail
  | query i c => cases r <;> first | cases hx; done | cases hfail
  | _ => simp [Call.isStatement] at hs

/-- A statement does not get past a context that is done. -/
theorem reachesDriver_of_done {x : Exchange} (hx : x.live = false)
    (hs : x.call.isStatement = true) : x.reachesDriver = false := by
  obtain ⟨c, live, r⟩ := x
  cases c with
  | exec i c => exact hx
  | query i c => exact hx
  | _ => cases hs

/-- The statements of an orderly run end with the first that fails. -/
theorem Program.Orderly.pairwise {conn : Connection} {p : Program α} {log : List Exchange}
    {result : Except Error α} (hp : p.Orderly conn) (h : p.Run log result) :
    log.Pairwise fun x y => x.isRefused → y.call.isStatement = false := by
  have hsmooth : ∀ log : List Exchange, Smooth conn.dialect log →
      log.Pairwise fun x y => x.isRefused → y.call.isStatement = false := by
    intro log hlog
    refine List.pairwise_of_forall_mem_list fun x hx y _ hfail => ?_
    exact absurd hfail (not_refused_of_smooth (hlog x hx))
  rcases (hp.run h).2 with hlog | ⟨before, x, e, rfl, hbefore, -, -⟩
  · exact hsmooth log hlog
  · refine List.pairwise_append.mpr ⟨hsmooth before hbefore, List.pairwise_singleton _ _, ?_⟩
    intro y hy z _ hfail
    exact absurd hfail (not_refused_of_smooth (hbefore y hy))

/-- What an orderly run tells the driver are statements on its connection. -/
theorem Program.Orderly.received {conn : Connection} {p : Program α} {log : List Exchange}
    {result : Except Error α} (hp : p.Orderly conn) (h : p.Run log result) :
    ∀ x ∈ received log, x.call.isStatement = true ∧ x.call.isInside = conn.inside := by
  intro x hx
  obtain ⟨hmem, hreach⟩ := List.mem_filter.mp hx
  have hcall := (hp.run h).1 x hmem
  obtain ⟨c, live, r⟩ := x
  cases c <;> first | exact ⟨rfl, hcall⟩ | exact hcall.elim | cases hreach

/-! ## Mutations -/

/-- A run of an operation in a transaction. The transaction is opened first and ended last, and
between that the driver gets statements of the operation inside the transaction only. It is
committed exactly if the operation succeeded and its context was still live then, and rolled back
otherwise; and there is a result only if the commit succeeded. -/
def Transacted (d : Dialect) (body : Connection → Program α) (log : List Exchange)
    (result : Except Error α) : Prop :=
  ∃ (opening last : Exchange) (inner ending : List Exchange) (outcome : Except Error α),
    log = opening :: (inner ++ ending) ∧ opening.opens ∧ (body ⟨d, true⟩).Run inner outcome ∧
      received log = opening :: (received inner ++ [last]) ∧
      (∀ x ∈ received inner, x.call.isStatement = true ∧ x.call.isInside = true) ∧
      (last.call = .commit ∨ last.call = .rollback) ∧
      (last.call = .commit ↔
        (∃ a, outcome = .ok a) ∧ ∃ x ∈ ending, x.call = .check ∧ x.live = true) ∧
      ∀ a, result = .ok a → outcome = .ok a ∧ last.call = .commit ∧ last.succeeds = true

/-- The end of a transaction is one call, preceded by a look at the context if the operation
succeeded. -/
theorem finish_received {outcome result : Except Error α} {ending : List Exchange} {live : Bool}
    (h : (Connection.finish d outcome).Run ending result) (hc : Conducted live ending) :
    (∀ x ∈ ending, x.call.isStatement = false) ∧ ∃ last, received ending = [last] ∧
      (last.call = .commit ∨ last.call = .rollback) ∧
      (last.call = .commit ↔
        (∃ a, outcome = .ok a) ∧ ∃ x ∈ ending, x.call = .check ∧ x.live = true) ∧
      ∀ a, result = .ok a → outcome = .ok a ∧ last.call = .commit ∧ last.succeeds = true := by
  cases outcome with
  | error e =>
    obtain ⟨live, r, rfl, rfl⟩ := run_finish_error.mp h
    refine ⟨by simp [Call.isStatement], ⟨.rollback, live, r⟩, rfl, .inr rfl, by simp, ?_⟩
    intro a ha
    cases ha
  | ok a =>
    rcases run_finish_ok.mp h with ⟨live, why, live', r, rfl, rfl⟩ | ⟨live, live', r, rfl, rfl⟩
    · have hdone : live = false := by
        cases live with
        | false => rfl
        | true => exact absurd (hc.2.1.mp rfl) (by simp)
      refine ⟨by simp [Call.isStatement], ⟨.rollback, live', r⟩, rfl, .inr rfl,
        by simp [hdone], ?_⟩
      intro b hb
      cases hb
    · have hlive : live = true := hc.2.1.mpr rfl
      refine ⟨by simp [Call.isStatement], ⟨.commit, live', r⟩, rfl, .inl rfl, by simp [hlive], ?_⟩
      intro b hb
      cases r with
      | error f => cases hb
      | ok u =>
        cases hb
        exact ⟨rfl, rfl, rfl⟩

/-- A run on a connection stops in time, and it is a run in a transaction if it opens one. -/
theorem connection_transaction {body : Connection → Program α} {transactional live : Bool}
    {log : List Exchange} {result : Except Error α}
    (hbody : ∀ conn, (body conn).Orderly conn)
    (h : (Connection.run d transactional body).Run log result) (hc : Conducted live log) :
    StopsInTime log ∧
      ((∃ x ∈ log, x.opens) → transactional = true ∧ Transacted d body log result) := by
  -- The context's share of stopping in time is the same in all cases.
  have hstop : (log.Pairwise fun x y => x.isRefused → y.call.isStatement = false) →
      StopsInTime log := by
    intro hfail
    refine (hfail.and hc.pairwise).imp fun hxy hx hy => ?_
    rcases hx with hx | hx
    · exact absurd hy.1 (by simp [hxy.1 hx])
    · exact absurd hy.2 (by simp [reachesDriver_of_done (hxy.2 hx) hy.1])
  cases transactional with
  | false =>
    refine ⟨hstop ((hbody _).pairwise h), ?_⟩
    rintro ⟨x, hx, hopen, -⟩
    have := ((hbody ⟨d, false⟩).run h).1 x hx
    rw [hopen] at this
    exact this.elim
  | true =>
    rcases run_connection.mp h with
      ⟨live, r, e, rfl, he, rfl⟩ | ⟨live, inner, ending, outcome, rfl, hin, hend⟩
    · refine ⟨hstop (List.pairwise_singleton _ _), ?_⟩
      rintro ⟨x, hx, -, hdone⟩
      obtain rfl := List.mem_singleton.mp hx
      cases r with
      | done u => cases he
      | failed f => cases hdone
      | interrupted why => cases hdone
    · obtain ⟨-, hadmits, hrest⟩ := hc
      obtain ⟨-, still, hcend, -⟩ := hrest.append
      obtain ⟨hnone, last, hlast, hcall, hcommit, hresult⟩ := finish_received hend hcend
      have hlive : live = true := by
        cases live with
        | true => rfl
        | false => obtain ⟨why, hwhy⟩ := hadmits rfl; cases hwhy
      refine ⟨hstop (.cons (fun x _ hx => ?_) (List.pairwise_append.mpr
        ⟨(hbody _).pairwise hin, ?_, fun x _ y hy _ => hnone y hy⟩)), fun _ => ⟨rfl, ?_⟩⟩
      · exact absurd hx.2 (by simp [Exchange.succeeds, Call.succeeds, Outcome.isDone])
      · exact List.pairwise_of_forall_mem_list fun x _ y hy _ => hnone y hy
      · refine ⟨_, last, inner, ending, outcome, rfl, ⟨rfl, rfl⟩, hin, ?_,
          (hbody _).received hin, hcall, hcommit, hresult⟩
        rw [← hlast, ← received_append]
        subst hlive
        rfl

/-- Transaction discipline. Every run of a mutation, in whatever context and with whatever replies,
stops at its first failure and as soon as its context is done. If it opens a transaction, all that
the driver gets are the opening, the statements of the operation inside the transaction, and last
the one end of the transaction, which is a commit exactly if the operation succeeded in a context
that was live until then; and only a transaction that was committed has a result. -/
theorem mutation_transaction {d : Dialect} {m : Mutation} {live : Bool} {log : List Exchange}
    {result : Except Error m.Result} (h : (m.program d).Run log result)
    (hc : Conducted live log) :
    StopsInTime log ∧
      ((∃ x ∈ log, x.opens) →
        ∃ p, m.plan = .ok p ∧ p.transactional = true ∧ Transacted d p.body log result) := by
  rw [Mutation.program_eq] at h
  rcases run_bind.mp h with ⟨e, hplan, rfl⟩ | ⟨p, before, after, rfl, hplan, hrun⟩
  · obtain ⟨rfl, -⟩ := run_ofExcept.mp hplan
    exact ⟨.nil, by simp⟩
  · obtain ⟨rfl, hp⟩ := run_ofExcept.mp hplan
    have hbody := Mutation.plan_orderly hp.symm
    obtain ⟨hstop, htx⟩ := connection_transaction hbody hrun hc
    exact ⟨hstop, fun hopen => ⟨p, hp.symm, htx hopen⟩⟩

/-- A user that is created together with the link of a pet. -/
def userWithPet : NodeCreation :=
  { NodeCreation.ofNode (.ofTable "users" ⟨"id", .int, .int 1⟩) with
    edges := [{ Edge.oneToMany "pets" "user_id" with
      target := { nodes := [.int 7], id := ⟨"id", .int, .null⟩, fields := [], pending := [] } }] }

/-- A run of that creation in which all goes well. -/
def userWithPetRun : List Exchange :=
  let one : Outcome ExecResult := .done ⟨1, none⟩
  let user : InsertStatement :=
    { table := "users", columns := ["id"], rows := [[.int 1]], conflict := none, returning := [] }
  let pet : Update :=
    (((Update.ofTable "pets").set "user_id" (.int 1)).filter (.oneOf "id" [.int 7])).filter
      (.isNull "user_id")
  [⟨.begin, true, (.done () : Outcome Unit)⟩, ⟨.exec true (.insert user), true, one⟩,
    ⟨.revise 0 (.id (.int 1)), true, ()⟩, ⟨.exec true (.update pet), true, one⟩,
    ⟨.check, true, (.ok () : Except Interruption Unit)⟩,
    ⟨.commit, true, (.ok () : Except Failure Unit)⟩]

theorem userWithPet_runs :
    ((Mutation.createNode userWithPet).program .sqlite).Run userWithPetRun (.ok (.int 1)) := by
  apply Run.call
  apply Run.call
  apply Run.call
  apply Run.call
  apply Run.call
  apply Run.call
  exact .done _

theorem userWithPetRun_conducted : Conducted true userWithPetRun :=
  ⟨id, nofun, id, nofun, id, trivial, id, nofun, id, ⟨fun _ => rfl, fun _ => rfl⟩, id, trivial,
    trivial⟩

theorem mutation_transaction_user_with_pet :
    StopsInTime userWithPetRun ∧ ∃ p, (Mutation.createNode userWithPet).plan = .ok p ∧
      p.transactional = true ∧ Transacted .sqlite p.body userWithPetRun (.ok (.int 1)) := by
  obtain ⟨hstop, htransaction⟩ := mutation_transaction userWithPet_runs userWithPetRun_conducted
  exact ⟨hstop, htransaction ⟨_, List.mem_cons_self, rfl, rfl⟩⟩

end EntityGraph
