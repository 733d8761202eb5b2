import EntityGraph.Proofs.Program.Answered
import EntityGraph.Proofs.Relational.Keys

/-!
# Runs on a database

The replies of a driver are those of a database if a database is there from the first call to the
last and answers each of them. `History` says so of a run; `Program.Leads` is a run with a result,
from one state of the database to another, and its lemmas take such runs apart. Of a call that is
not carried out nothing is said.
-/

set_option autoImplicit false

namespace EntityGraph

/-- A database as an operation finds it: its rows, and what a rollback goes back to. -/
structure Session where
  current : Database
  saved : Option Database

/-- The database answers a call. The keys hold after each statement that is carried out. -/
def Call.Answers (E : Engine) (keys : List (String × String)) :
    (c : Call) → c.Reply → Session → Session → Prop
  | .begin, (.done _ : Outcome Unit), s, s' => s' = { s with saved := some s.current }
  | .exec _ c, (.done r : Outcome ExecResult), s, s' =>
    c.Carried E s.current s'.current ∧ c.Reports E s.current r.rowsAffected ∧
      s'.current.Obeys E keys ∧ s'.saved = s.saved
  | .query _ c, (.done rows : Outcome Rows), s, s' =>
    c.Carried E s.current s'.current ∧ c.Returns E s.current rows ∧
      s'.current.Obeys E keys ∧ s'.saved = s.saved
  | .commit, .ok _, s, s' => s' = { s with saved := none }
  | .rollback, .ok _, s, s' => s' = { current := s.saved.getD s.current, saved := none }
  | .check, _, s, s' => s' = s
  | .draw _, _, s, s' => s' = s
  | .revise _ _, _, s, s' => s' = s
  | .deliver _, _, s, s' => s' = s
  | _, _, _, _ => True

/-- The calls of a run are answered by a database. -/
def History (E : Engine) (keys : List (String × String)) :
    Session → List Exchange → Session → Prop
  | s, [], s' => s' = s
  | s, x :: rest, s' =>
    ∃ mid, x.call.Answers E keys x.reply s mid ∧ History E keys mid rest s'

variable {E : Engine} {keys : List (String × String)} {s s' : Session} {α β : Type}

theorem history_iff_answeredBy {log : List Exchange} :
    History E keys s log s' ↔ AnsweredBy (Call.Answers E keys) s log s' := by
  induction log generalizing s with
  | nil => exact Iff.rfl
  | cons x rest ih => exact exists_congr fun mid => and_congr Iff.rfl ih

namespace Program

/-- A program has a result on a database. -/
def Leads (E : Engine) (keys : List (String × String)) (p : Program α) (s : Session) (a : α)
    (s' : Session) : Prop :=
  ∃ log, p.Run log (.ok a) ∧ History E keys s log s'

theorem leads_iff_reaches {p : Program α} {a : α} :
    p.Leads E keys s a s' ↔ p.Reaches (Call.Answers E keys) s a s' :=
  exists_congr fun _ => and_congr Iff.rfl history_iff_answeredBy

/-- What is known of a run whose calls are answered at least so. -/
theorem Reaches.leads {R : Answering Session} {p : Program α} {a : α} (h : p.Reaches R s a s')
    (hR : ∀ c r s s', R c r s s' → c.Answers E keys r s s') : p.Leads E keys s a s' :=
  leads_iff_reaches.mpr (h.mono hR)

theorem leads_done {a b : α} : (Program.done a).Leads E keys s b s' ↔ b = a ∧ s' = s :=
  leads_iff_reaches.trans reaches_done

theorem leads_fail {e : Error} {a : α} : ¬(Program.fail e).Leads E keys s a s' :=
  fun h => reaches_fail (leads_iff_reaches.mp h)

theorem leads_ofExcept {x : Except Error α} {a : α} :
    (ofExcept x).Leads E keys s a s' ↔ x = .ok a ∧ s' = s :=
  leads_iff_reaches.trans reaches_ofExcept

theorem leads_bind {p : Program α} {f : α → Program β} {b : β} :
    (p >>= f).Leads E keys s b s' ↔
      ∃ a mid, p.Leads E keys s a mid ∧ (f a).Leads E keys mid b s' := by
  simp only [leads_iff_reaches, reaches_bind]

theorem leads_request {c : Call} {f : c.Reply → Program α} {a : α} :
    (request c >>= f).Leads E keys s a s' ↔
      ∃ r mid, c.Answers E keys r s mid ∧ (f r).Leads E keys mid a s' := by
  simp only [leads_iff_reaches, reaches_request]

theorem leads_exec {conn : Connection} {c : Command} {r : ExecResult} :
    (conn.exec c).Leads E keys s r s' ↔
      c.Carried E s.current s'.current ∧ c.Reports E s.current r.rowsAffected ∧
        s'.current.Obeys E keys ∧ s'.saved = s.saved :=
  leads_iff_reaches.trans reaches_exec

theorem leads_query {conn : Connection} {c : Command} {rows : Rows} :
    (conn.query c).Leads E keys s rows s' ↔
      c.Carried E s.current s'.current ∧ c.Returns E s.current rows ∧
        s'.current.Obeys E keys ∧ s'.saved = s.saved :=
  leads_iff_reaches.trans reaches_query

theorem Session.eq_of_current {s s' : Session} (h : s'.current = s.current)
    (hsaved : s'.saved = s.saved) : s' = s := by
  obtain ⟨current, saved⟩ := s
  obtain ⟨current', saved'⟩ := s'
  obtain rfl : current' = current := h
  obtain rfl : saved' = saved := hsaved
  rfl

/-- The database says truly whether a selection has a row. -/
theorem leads_probe {conn : Connection} {q : Selector} {b : Bool}
    (h : (conn.probe q).Leads E keys s b s') :
    b = !(q.outRows E s.current []).isEmpty ∧ s' = s := by
  obtain ⟨rows, mid, hquery, hpure⟩ := leads_bind.mp h
  obtain ⟨hb, rfl⟩ := leads_done.mp hpure
  obtain ⟨hcarried, hreturns, -, hsaved⟩ := leads_query.mp hquery
  refine ⟨?_, Session.eq_of_current hcarried hsaved⟩
  have hreturns : rows.firstValue?.bind Value.asBool? =
    some !(q.outRows E s.current []).isEmpty := hreturns
  rw [hb, hreturns]
  rfl

/-- A loop goes through its list. -/
theorem leads_forM_cons {f : α → Program PUnit} {x : α} {xs : List α} :
    ((x :: xs).forM f).Leads E keys s () s' ↔
      ∃ mid, (f x).Leads E keys s () mid ∧ (xs.forM f).Leads E keys mid () s' := by
  simp only [leads_iff_reaches, reaches_forM_cons]

theorem leads_forM_nil {f : α → Program PUnit} :
    (([] : List α).forM f).Leads E keys s () s' ↔ s' = s :=
  leads_iff_reaches.trans reaches_forM_nil

theorem leads_forM_append {f : α → Program PUnit} {xs ys : List α}
    (h : ((xs ++ ys).forM f).Leads E keys s () s') :
    ∃ mid, (xs.forM f).Leads E keys s () mid ∧ (ys.forM f).Leads E keys mid () s' := by
  induction xs generalizing s with
  | nil => exact ⟨s, leads_forM_nil.mpr rfl, h⟩
  | cons x xs ih =>
    obtain ⟨mid, hx, hrest⟩ := leads_forM_cons.mp h
    obtain ⟨mid', hxs, hys⟩ := ih hrest
    exact ⟨mid', leads_forM_cons.mpr ⟨mid, hx, hxs⟩, hys⟩

theorem leads_discard {p : Program α} :
    (discard p).Leads E keys s () s' ↔ ∃ a, p.Leads E keys s a s' := by
  simp only [leads_iff_reaches, reaches_discard]

/-- An operation inside a transaction has a result if its body has it and the transaction is
committed. -/
theorem leads_transaction {d : Dialect} {body : Connection → Program α} {a : α} :
    (Connection.run d true body).Leads E keys s a s' ↔
      ∃ mid, (body ⟨d, true⟩).Leads E keys { s with saved := some s.current } a mid ∧
        s' = { mid with saved := none } := by
  simp only [leads_iff_reaches, reaches_transaction]
  constructor
  · rintro ⟨opened, written, mid, hbegin, hbody, hcheck, hcommit⟩
    obtain rfl : opened = { s with saved := some s.current } := hbegin
    obtain rfl : mid = written := hcheck
    exact ⟨mid, hbody, hcommit⟩
  · rintro ⟨mid, hbody, rfl⟩
    exact ⟨_, mid, mid, rfl, hbody, rfl, rfl⟩

/-- An operation with a result has a body with it; a transaction around the body changes nothing in
the tables. -/
theorem reaches_connection {d : Dialect} {transactional : Bool} {body : Connection → Program α}
    {a : α} {R : Answering Session} (hR : ∀ c r s s', R c r s s' → c.Answers E keys r s s')
    (h : (Connection.run d transactional body).Reaches R s a s') :
    ∃ inside start mid, start.current = s.current ∧
      (body ⟨d, inside⟩).Reaches R start a mid ∧ s'.current = mid.current := by
  cases transactional with
  | false => exact ⟨false, s, s', rfl, h, rfl⟩
  | true =>
    obtain ⟨opened, written, mid, hbegin, hbody, hcheck, hcommit⟩ := reaches_transaction.mp h
    have hopened : opened = { s with saved := some s.current } := hR _ _ _ _ hbegin
    have hmid : mid = written := hR _ _ _ _ hcheck
    have hcommitted : s' = { mid with saved := none } := hR _ _ _ _ hcommit
    exact ⟨true, opened, written, by rw [hopened], hbody, by rw [hcommitted, hmid]⟩

end Program

end EntityGraph
