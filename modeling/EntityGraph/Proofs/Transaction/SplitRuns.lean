import EntityGraph.Proofs.Program.Sending
import EntityGraph.Proofs.Transaction.Provenance

/-!
# Runs split at a call

What is said of the calls before and after a certain one needs to know which part of an operation
makes that call. A part that cannot make it has been run before or comes after: `run_bind_later` and
`run_bind_sooner` go past such a part, and `run_connection_split` past the opening and the end of
the transaction.
-/

set_option autoImplicit false

namespace EntityGraph

namespace Program

variable {α β : Type} {p : Program α} {f : α → Program β} {before after : List Exchange}
  {x : Exchange}

/-- A program never makes a call, or never with a certain reply. -/
def Avoids (p : Program α) (x : Exchange) : Prop := ∀ log result, p.Run log result → x ∉ log

theorem avoids_done (a : α) : (Program.done a).Avoids x := by
  intro log result h
  rw [(run_done.mp h).1]
  exact List.not_mem_nil

theorem avoids_ofExcept (e : Except Error α) : (ofExcept e).Avoids x := by
  intro log result h
  rw [(run_ofExcept.mp h).1]
  exact List.not_mem_nil

theorem Avoids.bind (hp : p.Avoids x) (hf : ∀ a, (f a).Avoids x) : (p >>= f).Avoids x := by
  intro log result h
  rcases run_bind.mp h with ⟨e, hfail, -⟩ | ⟨a, first, rest, rfl, hfirst, hrest⟩
  · exact hp log _ hfail
  · rw [List.mem_append, not_or]
    exact ⟨hp first _ hfirst, hf a rest _ hrest⟩

theorem Avoids.discard (hp : p.Avoids x) : (Functor.discard p).Avoids x := by
  show ((fun _ => PUnit.unit) <$> p).Avoids x
  rw [map_eq_pure_bind]
  exact hp.bind fun _ => avoids_done _

/-- A call of two programs, one after the other, is made by the first or by the second. -/
theorem run_bind_split {result : Except Error β}
    (h : (p >>= f).Run (before ++ x :: after) result) :
    (∃ e, p.Run (before ++ x :: after) (.error e) ∧ result = .error e) ∨
      (∃ a inner rest, after = inner ++ rest ∧ p.Run (before ++ x :: inner) (.ok a) ∧
        (f a).Run rest result) ∨
      ∃ a first rest, before = first ++ rest ∧ p.Run first (.ok a) ∧
        (f a).Run (rest ++ x :: after) result := by
  rcases run_bind.mp h with hfail | ⟨a, first, rest, hlog, hfirst, hrest⟩
  · exact .inl hfail
  · right
    rcases List.append_eq_append_iff.mp hlog with ⟨more, rfl, hmore⟩ | ⟨more, rfl, rfl⟩
    · cases more with
      | nil =>
        obtain rfl : x :: after = rest := hmore
        rw [List.append_nil] at hfirst
        exact .inr ⟨a, before, [], (List.append_nil before).symm, hfirst, hrest⟩
      | cons y more =>
        obtain ⟨rfl, rfl⟩ := List.cons.inj hmore
        exact .inl ⟨a, more, rest, rfl, hfirst, hrest⟩
    · exact .inr ⟨a, first, more, rfl, hfirst, hrest⟩

/-- A call that the first part of a program does not make is made by the second. -/
theorem run_bind_later {result : Except Error β} (hp : p.Avoids x)
    (h : (p >>= f).Run (before ++ x :: after) result) :
    ∃ a first rest, before = first ++ rest ∧ p.Run first (.ok a) ∧
      (f a).Run (rest ++ x :: after) result := by
  rcases run_bind_split h with ⟨e, hfail, -⟩ | ⟨a, inner, rest, -, hfirst, -⟩ | hlater
  · exact absurd List.mem_append_cons_self (hp _ _ hfail)
  · exact absurd List.mem_append_cons_self (hp _ _ hfirst)
  · exact hlater

/-- A call that the second part of a program does not make is made by the first. -/
theorem run_bind_sooner {result : Except Error β} (hf : ∀ a, (f a).Avoids x)
    (h : (p >>= f).Run (before ++ x :: after) result) :
    (∃ e, p.Run (before ++ x :: after) (.error e) ∧ result = .error e) ∨
      ∃ a inner rest, after = inner ++ rest ∧ p.Run (before ++ x :: inner) (.ok a) ∧
        (f a).Run rest result := by
  rcases run_bind_split h with hfail | hsooner | ⟨a, first, rest, -, -, hrest⟩
  · exact .inl hfail
  · exact .inr hsooner
  · exact absurd List.mem_append_cons_self (hf a _ _ hrest)

end Program

open Program

/-- Where no statement is sent, nothing is written. -/
theorem writing_eq_nil_of_quiet {log : List Exchange}
    (h : ∀ y ∈ log, y.call.isStatement = false) : writing log = [] := by
  refine List.filter_eq_nil_iff.mpr fun y hy hwrite => ?_
  have hquiet := h y hy
  cases hcall : y.call <;> simp_all [Call.isStatement, Call.isWrite]

/-- The end of a transaction sends no statement. It keeps the cause of an error, and it gives no
result that the operation has not had. -/
theorem finish_concludes {α : Type} {d : Dialect} {outcome result : Except Error α}
    {ending : List Exchange} (h : (Connection.finish d outcome).Run ending result) :
    (∀ y ∈ ending, y.call.isStatement = false) ∧
      (∀ e, outcome = .error e → ∃ e', result = .error e' ∧ e'.cause = e.cause) ∧
      ∀ a, result = .ok a → outcome = .ok a := by
  cases outcome with
  | error e =>
    obtain ⟨live, r, rfl, rfl⟩ := run_finish_error.mp h
    refine ⟨by simp [Call.isStatement], fun why hwhy => ?_, fun a ha => by cases ha⟩
    obtain rfl := Except.error.inj hwhy
    exact ⟨_, rfl, cause_rolledBack e r⟩
  | ok a =>
    have hfailed : ∀ e : Error, Except.ok a = .error e →
        ∃ e', result = .error e' ∧ e'.cause = e.cause := fun e he => by cases he
    rcases run_finish_ok.mp h with ⟨_, _, _, _, rfl, rfl⟩ | ⟨_, _, r, rfl, rfl⟩
    · exact ⟨by simp [Call.isStatement], hfailed, fun b hb => by cases hb⟩
    · refine ⟨by simp [Call.isStatement], hfailed, fun b hb => ?_⟩
      cases r with
      | error f => cases hb
      | ok _ => exact hb

/-- The opening and the end of a transaction send no statement, so a statement is sent by the
operation itself, on its connection. An operation that fails does so with its own cause, and one that
has a result has its own. -/
theorem run_connection_split {α : Type} {d : Dialect} {transactional : Bool}
    {body : Connection → Program α} {before after : List Exchange} {x : Exchange}
    {result : Except Error α} (hx : x.call.isStatement = true)
    (h : (Connection.run d transactional body).Run (before ++ x :: after) result) :
    ∃ conn opening first rest ending outcome, conn.dialect = d ∧ before = opening ++ first ∧
      after = rest ++ ending ∧ (∀ y ∈ opening ++ ending, y.call.isStatement = false) ∧
      (body conn).Run (first ++ x :: rest) outcome ∧
      (∀ e, outcome = .error e → ∃ e', result = .error e' ∧ e'.cause = e.cause) ∧
      ∀ a, result = .ok a → outcome = .ok a := by
  cases transactional with
  | false =>
    have hnone : ∀ y ∈ ([] ++ [] : List Exchange), y.call.isStatement = false := fun y hy =>
      absurd hy List.not_mem_nil
    exact ⟨⟨d, false⟩, [], before, after, [], result, rfl, rfl, (List.append_nil _).symm, hnone, h,
      fun e he => ⟨e, he, rfl⟩, fun a ha => ha⟩
  | true =>
    -- `x` neither opens the transaction nor ends it
    have hx : ∀ {y : Exchange}, y.call.isStatement = false → x ≠ y := by
      rintro y hy rfl
      simp [hx] at hy
    rcases run_connection.mp h with
      ⟨live, r, e, hlog, -, -⟩ | ⟨live, inner, ending, outcome, hlog, hinner, hfinish⟩
    · have hmem : x ∈ [(⟨.begin, live, r⟩ : Exchange)] := hlog ▸ List.mem_append_cons_self
      exact absurd (List.mem_singleton.mp hmem) (hx rfl)
    · obtain ⟨hending, hfailed, hdone⟩ := finish_concludes hfinish
      obtain ⟨first, rfl⟩ : ∃ first, before = ⟨.begin, live, (.done () : Outcome Unit)⟩ :: first := by
        cases before with
        | nil => exact absurd (List.cons.inj hlog).1 (hx rfl)
        | cons y first => exact ⟨first, by rw [(List.cons.inj hlog).1]⟩
      obtain ⟨rest, rfl, rfl⟩ : ∃ rest, after = rest ++ ending ∧ inner = first ++ x :: rest := by
        rcases List.append_eq_append_iff.mp (List.cons.inj hlog).2 with
          ⟨more, rfl, hmore⟩ | ⟨more, rfl, hmore⟩
        · cases more with
          | nil =>
            obtain rfl : x :: after = ending := hmore
            exact absurd rfl (hx (hending x List.mem_cons_self))
          | cons y more =>
            obtain ⟨rfl, rfl⟩ := List.cons.inj hmore
            exact ⟨more, rfl, rfl⟩
        · exact absurd rfl (hx (hending x (hmore ▸ List.mem_append_cons_self)))
      refine ⟨⟨d, true⟩, [_], first, rest, ending, outcome, rfl, rfl, rfl, ?_, hinner, hfailed, hdone⟩
      exact List.forall_mem_cons.mpr ⟨rfl, hending⟩

/-- An operation whose transaction can be opened runs on its connection, and all that is written is
what the operation writes. -/
theorem run_connection_body {α : Type} {d : Dialect} {transactional : Bool}
    {body : Connection → Program α} {log : List Exchange} {result : Except Error α}
    (h : (Connection.run d transactional body).Run log result) :
    (∃ live r e, log = [⟨.begin, live, r⟩] ∧ Call.error? d .begin r = some e ∧
      result = .error e) ∨
    ∃ conn inner outcome, conn.dialect = d ∧ inner <:+: log ∧ writing log = writing inner ∧
      (body conn).Run inner outcome ∧
      (∀ e, outcome = .error e → ∃ e', result = .error e' ∧ e'.cause = e.cause) ∧
      ∀ a, result = .ok a → outcome = .ok a := by
  cases transactional with
  | false =>
    exact .inr ⟨⟨d, false⟩, log, result, rfl, List.infix_rfl, rfl, h, fun e he => ⟨e, he, rfl⟩,
      fun a ha => ha⟩
  | true =>
    rcases run_connection.mp h with hopening | ⟨live, inner, ending, outcome, rfl, hinner, hfinish⟩
    · exact .inl hopening
    · obtain ⟨hending, hfailed, hdone⟩ := finish_concludes hfinish
      refine .inr ⟨⟨d, true⟩, inner, outcome, rfl, List.infix_append [_] inner ending, ?_, hinner,
        hfailed, hdone⟩
      have hopening : writing (⟨.begin, live, (.done () : Outcome Unit)⟩ :: (inner ++ ending)) =
          writing (inner ++ ending) := rfl
      rw [hopening, writing_append, writing_eq_nil_of_quiet hending, List.append_nil]

namespace Mutation

variable {d : Dialect} {m : Mutation} {result : Except Error m.Result}

/-- A mutation is refused by its plan without a call, or its transaction cannot be opened, or it runs
its plan, which writes all that is written. -/
theorem run_body {log : List Exchange} (h : (m.program d).Run log result) :
    (log = [] ∧ ∃ e, m.plan = .error e ∧ result = .error e) ∨
    (∃ live r e, log = [⟨.begin, live, r⟩] ∧ Call.error? d .begin r = some e ∧
      result = .error e) ∨
    ∃ p conn inner outcome, m.plan = .ok p ∧ conn.dialect = d ∧ inner <:+: log ∧
      writing log = writing inner ∧ (p.body conn).Run inner outcome ∧
      (∀ e, outcome = .error e → ∃ e', result = .error e' ∧ e'.cause = e.cause) ∧
      ∀ a, result = .ok a → outcome = .ok a := by
  rw [program_eq] at h
  rcases run_bind.mp h with ⟨e, hplan, rfl⟩ | ⟨p, before, after, rfl, hplan, hrun⟩
  · obtain ⟨rfl, hrefused⟩ := run_ofExcept.mp hplan
    exact .inl ⟨rfl, e, hrefused.symm, rfl⟩
  · obtain ⟨rfl, hdecided⟩ := run_ofExcept.mp hplan
    rcases run_connection_body hrun with hopening | ⟨conn, inner, outcome, hbody⟩
    · exact .inr (.inl hopening)
    · exact .inr (.inr ⟨p, conn, inner, outcome, hdecided.symm, hbody⟩)

/-- A statement of a mutation is sent by its plan. -/
theorem run_split {before after : List Exchange} {x : Exchange} (hx : x.call.isStatement = true)
    (h : (m.program d).Run (before ++ x :: after) result) :
    ∃ p conn opening first rest ending outcome, m.plan = .ok p ∧ conn.dialect = d ∧
      before = opening ++ first ∧ after = rest ++ ending ∧
      (∀ y ∈ opening ++ ending, y.call.isStatement = false) ∧
      (p.body conn).Run (first ++ x :: rest) outcome ∧
      (∀ e, outcome = .error e → ∃ e', result = .error e' ∧ e'.cause = e.cause) ∧
      ∀ a, result = .ok a → outcome = .ok a := by
  rw [program_eq] at h
  obtain ⟨p, _, front, rfl, hdecides, hruns⟩ := run_bind_later (avoids_ofExcept _) h
  obtain ⟨rfl, hplan⟩ := run_ofExcept.mp hdecides
  obtain ⟨conn, opening, first, rest, ending, outcome, hrun⟩ := run_connection_split hx hruns
  exact ⟨p, conn, opening, first, rest, ending, outcome, hplan.symm, hrun⟩

end Mutation

end EntityGraph
