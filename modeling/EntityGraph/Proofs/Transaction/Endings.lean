import EntityGraph.Proofs.Transaction.Discipline

/-!
# How operations end

For arbitrary replies, an operation ends its transaction by its last call if it does so at all. If
the writes are given up there is no result, if the transaction has been committed there is one, and
an operation that has a result has run its body to the end.
-/

set_option autoImplicit false

namespace EntityGraph

open Program

/-- The call ends a transaction. -/
def Exchange.Ends (x : Exchange) : Prop := x.call = .commit ∨ x.call = .rollback

/-- The call ends a transaction whose writes do not stay. -/
def Exchange.GivesUp (x : Exchange) : Prop :=
  x.call = .rollback ∨ x.call = .commit ∧ x.succeeds = false

/-- At most the last call ends a transaction. There is no result if that gives the writes up, and
there is one if the transaction has been committed. -/
def EndsLast {α : Type} (log : List Exchange) (result : Except Error α) : Prop :=
  ∃ front, (∀ x ∈ front, ¬x.Ends) ∧ (log = front ∨ ∃ x, log = front ++ [x] ∧
    (x.GivesUp ∧ (∃ e, result = .error e) ∨
      x.call = .commit ∧ x.succeeds = true ∧ ∃ a, result = .ok a))

variable {α : Type} {d : Dialect} {conn : Connection} {log rest : List Exchange}
  {result : Except Error α} {x : Exchange}

theorem Exchange.GivesUp.ends (h : x.GivesUp) : x.Ends := h.symm.imp_left And.left

/-- A run that has a result has not given anything up. -/
theorem EndsLast.not_givesUp {a : α} (h : EndsLast log (.ok a)) : ∀ x ∈ log, ¬x.GivesUp := by
  intro x hx hgives
  obtain ⟨front, hfront, rfl | ⟨y, rfl, hy⟩⟩ := h
  · exact hfront x hx hgives.ends
  · rcases List.mem_append.mp hx with hx | hx
    · exact hfront x hx hgives.ends
    · obtain rfl := List.mem_singleton.mp hx
      rcases hy with ⟨-, e, he⟩ | ⟨hcommit, hsucceeds, -⟩
      · cases he
      · rcases hgives with hrollback | ⟨-, hfails⟩
        · cases hcommit.symm.trans hrollback
        · cases hsucceeds.symm.trans hfails

/-- A commit that succeeds is the last call, and gives a result. -/
theorem EndsLast.committed (h : EndsLast (log ++ rest) result) (hx : x ∈ log)
    (hcommit : x.call = .commit) (hsucceeds : x.succeeds = true) :
    rest = [] ∧ ∃ a, result = .ok a := by
  have hends : x.Ends := .inl hcommit
  obtain ⟨front, hfront, hlog | ⟨y, hlog, hy⟩⟩ := h
  · exact absurd hends (hfront x (hlog ▸ List.mem_append_left rest hx))
  · rcases List.eq_nil_or_concat rest with rfl | ⟨rest, z, rfl⟩
    · rw [List.append_nil] at hlog
      rw [hlog] at hx
      rcases List.mem_append.mp hx with hx | hx
      · exact absurd hends (hfront x hx)
      · obtain rfl := List.mem_singleton.mp hx
        rcases hy with ⟨hrollback | ⟨-, hfails⟩, -⟩ | ⟨-, -, hresult⟩
        · cases hcommit.symm.trans hrollback
        · cases hsucceeds.symm.trans hfails
        · exact ⟨rfl, hresult⟩
    · rw [List.concat_eq_append, ← List.append_assoc] at hlog
      obtain ⟨rfl, -⟩ := List.append_inj' hlog rfl
      exact absurd hends (hfront x (List.mem_append_left rest hx))

/-- Only whether there is a result matters. -/
theorem EndsLast.congr {β : Type} {result' : Except Error β} (h : EndsLast log result)
    (herror : (∃ e, result = .error e) → ∃ e, result' = .error e)
    (hok : (∃ a, result = .ok a) → ∃ b, result' = .ok b) : EndsLast log result' := by
  obtain ⟨front, hfront, hlog⟩ := h
  refine ⟨front, hfront, hlog.imp_right ?_⟩
  rintro ⟨x, hx, hend⟩
  refine ⟨x, hx, hend.imp (And.imp_right herror) (And.imp_right (And.imp_right hok))⟩

/-- A run without a call. -/
theorem endsLast_nil : EndsLast [] result :=
  ⟨[], fun _ hx => absurd hx List.not_mem_nil, .inl rfl⟩

/-- What an operation does on its connection ends no transaction. -/
theorem Program.Orderly.not_ends {p : Program α} (hp : p.Orderly conn) (h : p.Run log result) :
    ∀ x ∈ log, ¬x.Ends := by
  intro x hx hends
  have hcall := (hp.run h).1 x hx
  rcases hends with hends | hends
  all_goals
    rw [hends] at hcall
    exact hcall

/-- The end of a transaction is the last call, after others that do not end it. -/
theorem endsLast_finish {front ending : List Exchange} {outcome : Except Error α}
    (hfront : ∀ x ∈ front, ¬x.Ends) (h : (Connection.finish d outcome).Run ending result) :
    EndsLast (front ++ ending) result := by
  have hcheck : ∀ live r, ∀ x ∈ front ++ [(⟨.check, live, r⟩ : Exchange)], ¬x.Ends := by
    intro live r x hx
    rcases List.mem_append.mp hx with hx | hx
    · exact hfront x hx
    · rw [List.mem_singleton.mp hx]
      rintro (hends | hends) <;> cases hends
  cases outcome with
  | error e =>
    obtain ⟨live, r, rfl, rfl⟩ := run_finish_error.mp h
    exact ⟨front, hfront, .inr ⟨_, rfl, .inl ⟨.inl rfl, _, rfl⟩⟩⟩
  | ok a =>
    rcases run_finish_ok.mp h with ⟨live, why, live', r, rfl, rfl⟩ | ⟨live, live', r, rfl, rfl⟩
    · refine ⟨_, hcheck live (.error why), .inr ⟨⟨.rollback, live', r⟩, ?_, ?_⟩⟩
      · rw [List.append_assoc]
        rfl
      · exact .inl ⟨.inl rfl, _, rfl⟩
    · refine ⟨_, hcheck live (.ok ()), .inr ⟨⟨.commit, live', r⟩, ?_, ?_⟩⟩
      · rw [List.append_assoc]
        rfl
      · cases r with
        | error f => exact .inl ⟨.inr ⟨rfl, rfl⟩, _, rfl⟩
        | ok _ => exact .inr ⟨rfl, rfl, a, rfl⟩

/-- An operation on a connection ends its transaction last. -/
theorem endsLast_connection {transactional : Bool} {body : Connection → Program α}
    (hbody : ∀ conn, (body conn).Orderly conn)
    (h : (Connection.run d transactional body).Run log result) : EndsLast log result := by
  cases transactional with
  | false => exact ⟨log, (hbody _).not_ends h, .inl rfl⟩
  | true =>
    rcases run_connection.mp h with
      ⟨live, r, e, rfl, -, rfl⟩ | ⟨live, inner, ending, outcome, rfl, hinner, hfinish⟩
    · refine ⟨_, fun x hx => ?_, .inl rfl⟩
      rw [List.mem_singleton.mp hx]
      rintro (hends | hends) <;> cases hends
    · have hfront : ∀ x ∈ (⟨.begin, live, (.done () : Outcome Unit)⟩ :: inner : List Exchange),
          ¬x.Ends := by
        refine List.forall_mem_cons.mpr ⟨?_, (hbody _).not_ends hinner⟩
        rintro (hends | hends) <;> cases hends
      exact endsLast_finish hfront hfinish

/-! ## Results -/

/-- What an operation on a connection has done if it has a result. -/
theorem Program.run_connection_ok {transactional : Bool} {body : Connection → Program α} {a : α}
    (h : (Connection.run d transactional body).Run log (.ok a)) :
    ∃ conn inner, conn.dialect = d ∧ inner ⊆ log ∧ (body conn).Run inner (.ok a) := by
  cases transactional with
  | false => exact ⟨⟨d, false⟩, log, rfl, List.Subset.refl log, h⟩
  | true =>
    rcases run_connection.mp h with
      ⟨live, r, e, -, -, he⟩ | ⟨live, inner, ending, outcome, rfl, hinner, hfinish⟩
    · cases he
    · cases outcome with
      | error e =>
        obtain ⟨_, _, -, he⟩ := run_finish_error.mp hfinish
        cases he
      | ok b =>
        refine ⟨⟨d, true⟩, inner, rfl, fun x hx => by simp [hx], ?_⟩
        rcases run_finish_ok.mp hfinish with ⟨_, _, _, _, -, he⟩ | ⟨_, _, r, -, hr⟩
        · cases he
        · cases r with
          | error f => cases hr
          | ok _ =>
            obtain rfl := Except.ok.inj hr
            exact hinner

namespace Mutation

variable {m : Mutation}

/-- A mutation ends its transaction last. -/
theorem endsLast {result : Except Error m.Result} (h : (m.program d).Run log result) :
    EndsLast log result := by
  rw [program_eq] at h
  rcases run_bind.mp h with ⟨e, hplan, -⟩ | ⟨p, before, after, rfl, hplan, hrun⟩
  · rw [(run_ofExcept.mp hplan).1]
    exact endsLast_nil
  · obtain ⟨rfl, hp⟩ := run_ofExcept.mp hplan
    exact endsLast_connection (plan_orderly hp.symm) hrun

/-- A mutation that has a result has run its plan. -/
theorem run_ok {a : m.Result} (h : (m.program d).Run log (.ok a)) :
    ∃ p conn inner, m.plan = .ok p ∧ conn.dialect = d ∧ inner ⊆ log ∧
      (p.body conn).Run inner (.ok a) := by
  rw [program_eq] at h
  obtain ⟨p, _, after, rfl, hplan, hrun⟩ := run_bind_ok.mp h
  obtain ⟨conn, inner, hdialect, hinner, hbody⟩ := run_connection_ok hrun
  exact ⟨p, conn, inner, (run_ofExcept.mp hplan).2.symm, hdialect,
    List.subset_append_of_subset_right _ hinner, hbody⟩

end Mutation

end EntityGraph
