import EntityGraph.Proofs.Program.Run

/-!
# Runs in changing surroundings

What the surroundings of an operation reply depends on what has happened before, and changes what
they reply later. Given how a single call is answered in which state, `Program.Reaches` relates a
program to a result and to the states before and after it. Its lemmas take such runs apart as those
of `Program.Run` do, whatever the states are.
-/

set_option autoImplicit false

namespace EntityGraph

/-- How a call is answered: the reply, and the states before and after. -/
abbrev Answering (σ : Type) := (c : Call) → c.Reply → σ → σ → Prop

/-- The calls of a run are answered one after the other. -/
def AnsweredBy {σ : Type} (R : Answering σ) : σ → List Exchange → σ → Prop
  | s, [], s' => s' = s
  | s, x :: rest, s' => ∃ mid, R x.call x.reply s mid ∧ AnsweredBy R mid rest s'

/-- What a call hands to the caller. -/
def Call.delivered : Call → List Delivery
  | .deliver d => [d]
  | _ => []

/-- Surroundings that keep what is delivered, and answer as others do. -/
def Answering.keeping {σ : Type} (R : Answering σ) : Answering (σ × List Delivery) :=
  fun c r s s' => R c r s.1 s'.1 ∧ s'.2 = s.2 ++ c.delivered

variable {σ : Type} {R R' : Answering σ} {s s' : σ} {α β : Type}

theorem answeredBy_append {before after : List Exchange} :
    AnsweredBy R s (before ++ after) s' ↔
      ∃ mid, AnsweredBy R s before mid ∧ AnsweredBy R mid after s' := by
  induction before generalizing s with
  | nil =>
    constructor
    · intro h
      exact ⟨s, rfl, h⟩
    · rintro ⟨_, rfl, h⟩
      exact h
  | cons x rest ih =>
    constructor
    · rintro ⟨mid, hx, h⟩
      obtain ⟨mid', hrest, hafter⟩ := ih.mp h
      exact ⟨mid', ⟨mid, hx, hrest⟩, hafter⟩
    · rintro ⟨mid', ⟨mid, hx, hrest⟩, hafter⟩
      exact ⟨mid, hx, ih.mpr ⟨mid', hrest, hafter⟩⟩

theorem AnsweredBy.mono {log : List Exchange} (h : AnsweredBy R s log s')
    (hR : ∀ c r s s', R c r s s' → R' c r s s') : AnsweredBy R' s log s' := by
  induction log generalizing s with
  | nil => exact h
  | cons x rest ih =>
    obtain ⟨mid, hx, hrest⟩ := h
    exact ⟨mid, hR _ _ _ _ hx, ih hrest⟩

/-- Surroundings that record each call with its reply. -/
def Answering.recording : Answering (List Exchange) :=
  fun c r log log' => ∃ live, log' = log ++ [⟨c, live, r⟩]

theorem answeredBy_recording (before log : List Exchange) :
    AnsweredBy .recording before log (before ++ log) := by
  induction log generalizing before with
  | nil => exact List.append_nil before
  | cons x rest ih =>
    refine ⟨before ++ [x], ⟨x.live, rfl⟩, ?_⟩
    rw [List.append_cons before x rest]
    exact ih (before ++ [x])

namespace Program

/-- A program has a result in surroundings that answer its calls. -/
def Reaches (R : Answering σ) (p : Program α) (s : σ) (a : α) (s' : σ) : Prop :=
  ∃ log, p.Run log (.ok a) ∧ AnsweredBy R s log s'

theorem Reaches.mono {p : Program α} {a : α} (h : p.Reaches R s a s')
    (hR : ∀ c r s s', R c r s s' → R' c r s s') : p.Reaches R' s a s' := by
  obtain ⟨log, hrun, hanswered⟩ := h
  exact ⟨log, hrun, hanswered.mono hR⟩

/-- What is recorded of a run with a result is its calls. -/
theorem reaches_recording {p : Program α} {a : α} {log : List Exchange}
    (h : p.Run log (.ok a)) (before : List Exchange) :
    p.Reaches .recording before a (before ++ log) :=
  ⟨log, h, answeredBy_recording before log⟩

theorem reaches_done {a b : α} : (Program.done a).Reaches R s b s' ↔ b = a ∧ s' = s := by
  constructor
  · rintro ⟨log, hrun, hanswered⟩
    obtain ⟨rfl, hb⟩ := run_done.mp hrun
    exact ⟨Except.ok.inj hb, hanswered⟩
  · rintro ⟨rfl, rfl⟩
    exact ⟨[], .done b, rfl⟩

theorem reaches_fail {e : Error} {a : α} : ¬(Program.fail e).Reaches R s a s' := by
  rintro ⟨log, hrun, -⟩
  cases (run_fail.mp hrun).2

theorem reaches_ofExcept {x : Except Error α} {a : α} :
    (ofExcept x).Reaches R s a s' ↔ x = .ok a ∧ s' = s := by
  constructor
  · rintro ⟨log, hrun, hanswered⟩
    obtain ⟨rfl, hx⟩ := run_ofExcept.mp hrun
    exact ⟨hx.symm, hanswered⟩
  · rintro ⟨rfl, rfl⟩
    exact ⟨[], .done a, rfl⟩

theorem reaches_bind {p : Program α} {f : α → Program β} {b : β} :
    (p >>= f).Reaches R s b s' ↔
      ∃ a mid, p.Reaches R s a mid ∧ (f a).Reaches R mid b s' := by
  constructor
  · rintro ⟨log, hrun, hanswered⟩
    obtain ⟨a, before, after, rfl, hp, hf⟩ := run_bind_ok.mp hrun
    obtain ⟨mid, hbefore, hafter⟩ := answeredBy_append.mp hanswered
    exact ⟨a, mid, ⟨before, hp, hbefore⟩, ⟨after, hf, hafter⟩⟩
  · rintro ⟨a, mid, ⟨before, hp, hbefore⟩, ⟨after, hf, hafter⟩⟩
    exact ⟨before ++ after, run_bind_ok.mpr ⟨a, before, after, rfl, hp, hf⟩,
      answeredBy_append.mpr ⟨mid, hbefore, hafter⟩⟩

theorem reaches_call {c : Call} {next : c.Reply → Program α} {a : α} :
    (Program.call c next).Reaches R s a s' ↔
      ∃ r mid, R c r s mid ∧ (next r).Reaches R mid a s' := by
  constructor
  · rintro ⟨log, hrun, hanswered⟩
    obtain ⟨live, r, rest, rfl, hnext⟩ := run_call.mp hrun
    obtain ⟨mid, hanswer, hrest⟩ := hanswered
    exact ⟨r, mid, hanswer, rest, hnext, hrest⟩
  · rintro ⟨r, mid, hanswer, rest, hnext, hrest⟩
    exact ⟨⟨c, true, r⟩ :: rest, .call true r hnext, mid, hanswer, hrest⟩

theorem reaches_request {c : Call} {f : c.Reply → Program α} {a : α} :
    (request c >>= f).Reaches R s a s' ↔
      ∃ r mid, R c r s mid ∧ (f r).Reaches R mid a s' :=
  reaches_call

/-! ## Statements -/

/-- What follows a reply of the driver follows only if the call was carried out. -/
theorem reaches_settle {d : Dialect} {o : Outcome α} {a : α} :
    (Connection.settle d o).Reaches R s a s' ↔ o = .done a ∧ s' = s := by
  cases o with
  | done b =>
    refine Iff.trans reaches_done ?_
    constructor
    · rintro ⟨rfl, rfl⟩
      exact ⟨rfl, rfl⟩
    · rintro ⟨⟨⟩, rfl⟩
      exact ⟨rfl, rfl⟩
  | failed f =>
    refine iff_of_false reaches_fail ?_
    rintro ⟨⟨⟩, -⟩
  | interrupted why =>
    refine iff_of_false reaches_fail ?_
    rintro ⟨⟨⟩, -⟩

theorem reaches_exec {conn : Connection} {c : Command} {r : ExecResult} :
    (conn.exec c).Reaches R s r s' ↔
      R (.exec conn.inside c) (.done r : Outcome ExecResult) s s' := by
  refine Iff.trans (reaches_call (c := .exec conn.inside c)) ?_
  constructor
  · rintro ⟨reply, mid, hanswer, h⟩
    obtain ⟨rfl, rfl⟩ := reaches_settle.mp h
    exact hanswer
  · intro h
    exact ⟨.done r, s', h, (reaches_settle (d := conn.dialect)).mpr ⟨rfl, rfl⟩⟩

theorem reaches_query {conn : Connection} {c : Command} {rows : Rows} :
    (conn.query c).Reaches R s rows s' ↔
      R (.query conn.inside c) (.done rows : Outcome Rows) s s' := by
  refine Iff.trans (reaches_call (c := .query conn.inside c)) ?_
  constructor
  · rintro ⟨reply, mid, hanswer, h⟩
    obtain ⟨rfl, rfl⟩ := reaches_settle.mp h
    exact hanswer
  · intro h
    exact ⟨.done rows, s', h, (reaches_settle (d := conn.dialect)).mpr ⟨rfl, rfl⟩⟩

/-- An insert is sent if it can be compiled. -/
theorem reaches_execInsert {conn : Connection} {i : Insert} {r : ExecResult} :
    (conn.execInsert i).Reaches R s r s' ↔ ∃ statement, i.compile conn.dialect = .ok statement ∧
      R (.exec conn.inside (.insert statement)) (.done r : Outcome ExecResult) s s' := by
  refine Iff.trans reaches_bind ?_
  constructor
  · rintro ⟨statement, mid, hlift, hexec⟩
    obtain ⟨hcompile, rfl⟩ := reaches_ofExcept.mp hlift
    exact ⟨statement, hcompile, reaches_exec.mp hexec⟩
  · rintro ⟨statement, hcompile, hanswer⟩
    exact ⟨statement, s, reaches_ofExcept.mpr ⟨hcompile, rfl⟩, reaches_exec.mpr hanswer⟩

theorem reaches_queryInsert {conn : Connection} {i : Insert} {rows : Rows} :
    (conn.queryInsert i).Reaches R s rows s' ↔ ∃ statement, i.compile conn.dialect = .ok statement ∧
      R (.query conn.inside (.insert statement)) (.done rows : Outcome Rows) s s' := by
  refine Iff.trans reaches_bind ?_
  constructor
  · rintro ⟨statement, mid, hlift, hquery⟩
    obtain ⟨hcompile, rfl⟩ := reaches_ofExcept.mp hlift
    exact ⟨statement, hcompile, reaches_query.mp hquery⟩
  · rintro ⟨statement, hcompile, hanswer⟩
    exact ⟨statement, s, reaches_ofExcept.mpr ⟨hcompile, rfl⟩, reaches_query.mpr hanswer⟩

/-! ## Loops -/

/-- A loop goes through its list. -/
theorem reaches_forM_cons {f : α → Program PUnit} {x : α} {xs : List α} :
    ((x :: xs).forM f).Reaches R s () s' ↔
      ∃ mid, (f x).Reaches R s () mid ∧ (xs.forM f).Reaches R mid () s' := by
  refine Iff.trans (reaches_bind (p := f x) (f := fun _ => xs.forM f)) ?_
  constructor
  · rintro ⟨_, mid, hx, hxs⟩
    exact ⟨mid, hx, hxs⟩
  · rintro ⟨mid, hx, hxs⟩
    exact ⟨(), mid, hx, hxs⟩

theorem reaches_forM_nil {f : α → Program PUnit} :
    (([] : List α).forM f).Reaches R s () s' ↔ s' = s := by
  refine Iff.trans (reaches_done (a := ())) ?_
  simp

/-- A loop keeps what each of its rounds keeps. -/
theorem reaches_forM_invariant {f : α → Program PUnit} {xs : List α} (keep : σ → Prop)
    (hf : ∀ x ∈ xs, ∀ s s', (f x).Reaches R s () s' → keep s → keep s')
    (h : (xs.forM f).Reaches R s () s') (hs : keep s) : keep s' := by
  induction xs generalizing s with
  | nil =>
    obtain rfl := reaches_forM_nil.mp h
    exact hs
  | cons x xs ih =>
    obtain ⟨mid, hx, hxs⟩ := reaches_forM_cons.mp h
    exact ih (fun y hy => hf y (List.mem_cons_of_mem x hy)) hxs
      (hf x List.mem_cons_self s mid hx hs)

theorem reaches_discard {p : Program α} :
    (discard p).Reaches R s () s' ↔ ∃ a, p.Reaches R s a s' := by
  refine Iff.trans (reaches_bind (p := p) (f := fun _ => Program.done PUnit.unit)) ?_
  constructor
  · rintro ⟨a, mid, hp, hdone⟩
    obtain ⟨-, rfl⟩ := reaches_done.mp hdone
    exact ⟨a, hp⟩
  · rintro ⟨a, hp⟩
    exact ⟨a, s', hp, reaches_done.mpr ⟨rfl, rfl⟩⟩

theorem reaches_mapM_cons {f : α → Program β} {x : α} {xs : List α} {out : List β} :
    ((x :: xs).mapM f).Reaches R s out s' ↔ ∃ b bs mid, out = b :: bs ∧
      (f x).Reaches R s b mid ∧ (xs.mapM f).Reaches R mid bs s' := by
  rw [List.mapM_cons, reaches_bind]
  constructor
  · rintro ⟨b, mid, hx, hrest⟩
    obtain ⟨bs, mid', hxs, hdone⟩ := reaches_bind.mp hrest
    obtain ⟨rfl, rfl⟩ := reaches_done.mp hdone
    exact ⟨b, bs, mid, rfl, hx, hxs⟩
  · rintro ⟨b, bs, mid, rfl, hx, hxs⟩
    exact ⟨b, mid, hx, reaches_bind.mpr ⟨bs, s', hxs, reaches_done.mpr ⟨rfl, rfl⟩⟩⟩

/-! ## Transactions -/

theorem reaches_attempt {p : Program α} {a : α} :
    p.attempt.Reaches R s (.ok a) s' ↔ p.Reaches R s a s' := by
  constructor
  · rintro ⟨log, hrun, hanswered⟩
    obtain ⟨inner, ⟨⟩, hp⟩ := run_attempt.mp hrun
    exact ⟨log, hp, hanswered⟩
  · rintro ⟨log, hp, hanswered⟩
    exact ⟨log, run_attempt.mpr ⟨.ok a, rfl, hp⟩, hanswered⟩

theorem reaches_abort {e : Error} {a : α} : ¬(Connection.abort e).Reaches R s a s' := by
  intro h
  obtain ⟨r, mid, -, h⟩ := (reaches_call (c := .rollback)).mp h
  cases r with
  | ok _ => exact reaches_fail h
  | error f => exact reaches_fail h

theorem reaches_finish {d : Dialect} {x : Except Error α} {a : α} :
    (Connection.finish d x).Reaches R s a s' ↔
      x = .ok a ∧ ∃ mid, R .check (.ok () : Except Interruption Unit) s mid ∧
        R .commit (.ok () : Except Failure Unit) mid s' := by
  cases x with
  | error e =>
    refine iff_of_false reaches_abort ?_
    rintro ⟨⟨⟩, -⟩
  | ok b =>
    constructor
    · intro h
      obtain ⟨live, mid, hcheck, h⟩ := (reaches_call (c := .check)).mp h
      cases live with
      | error why => exact absurd h reaches_abort
      | ok _ =>
        obtain ⟨reply, mid', hcommit, h⟩ := (reaches_call (c := .commit)).mp h
        cases reply with
        | error f => exact absurd h reaches_fail
        | ok _ =>
          obtain ⟨rfl, rfl⟩ := reaches_done.mp h
          exact ⟨rfl, mid, hcheck, hcommit⟩
    · rintro ⟨⟨⟩, mid, hcheck, hcommit⟩
      refine (reaches_call (c := .check)).mpr ⟨.ok (), mid, hcheck, ?_⟩
      refine (reaches_call (c := .commit)).mpr ⟨.ok (), s', hcommit, ?_⟩
      exact reaches_done.mpr ⟨rfl, rfl⟩

/-- An operation inside a transaction has a result if its body has it and the transaction is
committed. -/
theorem reaches_transaction {d : Dialect} {body : Connection → Program α} {a : α} :
    (Connection.run d true body).Reaches R s a s' ↔
      ∃ opened written mid, R .begin (.done () : Outcome Unit) s opened ∧
        (body ⟨d, true⟩).Reaches R opened a written ∧
        R .check (.ok () : Except Interruption Unit) written mid ∧
        R .commit (.ok () : Except Failure Unit) mid s' := by
  have hrun : Connection.run d true body = (request .begin >>= fun reply =>
      Connection.settle d reply >>= fun _ =>
        (body ⟨d, true⟩).attempt >>= Connection.finish d) := rfl
  rw [hrun, reaches_request]
  constructor
  · rintro ⟨reply, opened, hbegin, h⟩
    obtain ⟨_, started, hsettle, hrest⟩ := reaches_bind.mp h
    obtain ⟨rfl, rfl⟩ := reaches_settle.mp hsettle
    obtain ⟨x, written, hbody, hfinish⟩ := reaches_bind.mp hrest
    obtain ⟨rfl, mid, hcheck, hcommit⟩ := reaches_finish.mp hfinish
    exact ⟨started, written, mid, hbegin, reaches_attempt.mp hbody, hcheck, hcommit⟩
  · rintro ⟨opened, written, mid, hbegin, hbody, hcheck, hcommit⟩
    refine ⟨.done (), opened, hbegin, ?_⟩
    refine reaches_bind.mpr ⟨(), opened, (reaches_settle (d := d)).mpr ⟨rfl, rfl⟩, ?_⟩
    exact reaches_bind.mpr ⟨.ok a, written, reaches_attempt.mpr hbody,
      reaches_finish.mpr ⟨rfl, mid, hcheck, hcommit⟩⟩

/-! ## Deliveries -/

/-- A delivery has a result if the caller accepts it. -/
theorem reaches_deliver {d : Delivery} :
    (deliver d).Reaches R s () s' ↔ R (.deliver d) (.ok () : Except Error Unit) s s' := by
  refine Iff.trans (reaches_request (c := .deliver d)) ?_
  constructor
  · rintro ⟨reply, mid, hanswer, h⟩
    obtain ⟨rfl, rfl⟩ := reaches_ofExcept.mp h
    exact hanswer
  · intro h
    exact ⟨.ok (), s', h, reaches_ofExcept.mpr ⟨rfl, rfl⟩⟩

end Program

end EntityGraph
