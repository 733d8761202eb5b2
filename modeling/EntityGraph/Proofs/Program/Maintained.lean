import EntityGraph.Proofs.Program.Answered
import EntityGraph.Proofs.Program.Sending

/-!
# What a program maintains

A program that fails half way has made calls, too. `Program.Maintains` speaks of the states that a
run may leave behind, whether it has a result or not: from a state with one property it ends in a
state with another. Where the first property implies the second it does not matter at which call a
run stops, and that is what the lemmas ask for.

Which statements an operation can send is said of its program, too. `Program.Issues` is what is
maintained of the recorded calls, so it is kept by whatever keeps `Program.Maintains`, and only
single calls need lemmas of their own.
-/

set_option autoImplicit false

namespace EntityGraph

namespace Program

variable {σ : Type} {R : Answering σ} {P P' Q : σ → Prop} {α β : Type}

/-- Every run of a program from a state with a property ends in a state with another. -/
def Maintains (R : Answering σ) (P : σ → Prop) (p : Program α) (Q : σ → Prop) : Prop :=
  ∀ log result s s', p.Run log result → AnsweredBy R s log s' → P s → Q s'

theorem maintains_done (a : α) (h : ∀ s, P s → Q s) : (Program.done a).Maintains R P Q := by
  intro log result s s' hrun hanswered hs
  obtain ⟨rfl, -⟩ := run_done.mp hrun
  obtain rfl := hanswered
  exact h _ hs

theorem maintains_fail (e : Error) (h : ∀ s, P s → Q s) :
    (Program.fail e : Program α).Maintains R P Q := by
  intro log result s s' hrun hanswered hs
  obtain ⟨rfl, -⟩ := run_fail.mp hrun
  obtain rfl := hanswered
  exact h _ hs

/-- The second part may stop before its first call. -/
theorem Maintains.bind {p : Program α} {f : α → Program β} (hp : p.Maintains R P P')
    (hf : ∀ a, (f a).Maintains R P' Q) (h : ∀ s, P' s → Q s) : (p >>= f).Maintains R P Q := by
  intro log result s s' hrun hanswered hs
  rcases run_bind.mp hrun with ⟨e, hbefore, -⟩ | ⟨a, before, after, rfl, hbefore, hafter⟩
  · exact h s' (hp _ _ _ _ hbefore hanswered hs)
  · obtain ⟨mid, hmid, hrest⟩ := answeredBy_append.mp hanswered
    exact hf a _ _ _ _ hafter hrest (hp _ _ _ _ hbefore hmid hs)

/-- What is decided without a call. -/
theorem maintains_lift_bind {x : Except Error α} {f : α → Program β}
    (hf : ∀ a, x = .ok a → (f a).Maintains R P Q) (h : ∀ s, P s → Q s) :
    ((liftM x : Program α) >>= f).Maintains R P Q := by
  cases x with
  | error e => exact maintains_fail e h
  | ok a => exact hf a rfl

theorem maintains_lift (x : Except Error α) (h : ∀ s, P s → Q s) :
    (liftM x : Program α).Maintains R P Q := by
  cases x with
  | error e => exact maintains_fail e h
  | ok a => exact maintains_done a h

theorem maintains_call {c : Call} {next : c.Reply → Program α}
    (hc : ∀ r s s', R c r s s' → P s → P' s') (hnext : ∀ r, (next r).Maintains R P' Q) :
    (Program.call c next).Maintains R P Q := by
  intro log result s s' hrun hanswered hs
  obtain ⟨live, r, rest, rfl, htail⟩ := run_call.mp hrun
  obtain ⟨mid, hanswer, hrest⟩ := hanswered
  exact hnext r _ _ _ _ htail hrest (hc r s mid hanswer hs)

theorem Maintains.discard {p : Program α} (hp : p.Maintains R P Q) :
    (Functor.discard p).Maintains R P Q := by
  show ((fun _ => PUnit.unit) <$> p).Maintains R P Q
  rw [map_eq_pure_bind]
  exact hp.bind (fun a => maintains_done _ fun _ hs => hs) fun _ hs => hs

/-- A loop maintains what each of its rounds does. -/
theorem maintains_forM {f : α → Program PUnit} {l : List α}
    (hf : ∀ a ∈ l, (f a).Maintains R P P) : (l.forM f).Maintains R P P := by
  induction l with
  | nil => exact maintains_done _ fun _ hs => hs
  | cons a l ih =>
    refine (hf a List.mem_cons_self).bind (fun _ => ?_) fun _ hs => hs
    exact ih fun b hb => hf b (List.mem_cons_of_mem a hb)

theorem Maintains.attempt {p : Program α} (hp : p.Maintains R P Q) :
    p.attempt.Maintains R P Q := by
  intro log result s s' hrun hanswered hs
  obtain ⟨inner, -, hinner⟩ := run_attempt.mp hrun
  exact hp _ _ _ _ hinner hanswered hs

/-! ## Calls on a connection -/

theorem maintains_settle {d : Dialect} (o : Outcome α) (h : ∀ s, P s → Q s) :
    (Connection.settle d o).Maintains R P Q := by
  cases o with
  | done a => exact maintains_done a h
  | failed f => exact maintains_fail _ h
  | interrupted why => exact maintains_fail _ h

theorem maintains_exec {conn : Connection} {c : Command}
    (h : ∀ r s s', R (.exec conn.inside c) r s s' → P s → Q s') :
    (conn.exec c).Maintains R P Q :=
  maintains_call h fun r => maintains_settle r fun _ hs => hs

theorem maintains_query {conn : Connection} {c : Command}
    (h : ∀ r s s', R (.query conn.inside c) r s s' → P s → Q s') :
    (conn.query c).Maintains R P Q :=
  maintains_call h fun r => maintains_settle r fun _ hs => hs

/-- An operation in a transaction maintains what its body does, if opening and ending a transaction
changes nothing in it. -/
theorem maintains_transaction {d : Dialect} {body : Connection → Program α}
    (hbegin : ∀ r s s', R .begin r s s' → P s → P s')
    (hbody : (body ⟨d, true⟩).Maintains R P Q) (h : ∀ s, P s → Q s)
    (hend : ∀ c, c = .check ∨ c = .commit ∨ c = .rollback → ∀ r s s', R c r s s' → Q s → Q s') :
    (Connection.run d true body).Maintains R P Q := by
  have hsame : ∀ s, Q s → Q s := fun _ hs => hs
  have habort : ∀ e : Error, (Connection.abort e : Program α).Maintains R Q Q := by
    intro e
    refine maintains_call (c := .rollback) (hend _ (.inr (.inr rfl))) fun r => ?_
    cases r with
    | ok _ => exact maintains_fail _ hsame
    | error f => exact maintains_fail _ hsame
  have hfinish : ∀ x : Except Error α, (Connection.finish d x).Maintains R Q Q := by
    intro x
    cases x with
    | error e => exact habort e
    | ok a =>
      refine maintains_call (c := .check) (hend _ (.inl rfl)) fun live => ?_
      cases live with
      | error why => exact habort _
      | ok _ =>
        refine maintains_call (c := .commit) (hend _ (.inr (.inl rfl))) fun reply => ?_
        cases reply with
        | error f => exact maintains_fail _ hsame
        | ok _ => exact maintains_done a hsame
  refine maintains_call (c := .begin) hbegin fun reply => ?_
  refine (maintains_settle reply fun _ hs => hs).bind (fun _ => ?_) h
  exact hbody.attempt.bind hfinish hsame

end Program

/-! ## The statements that a program issues -/

/-- The statement that a call sends. -/
def Call.statement? : Call → Option Command
  | .exec _ c | .query _ c => some c
  | _ => none

/-- All statements among some calls have a property. -/
def OnlySends (P : Command → Prop) (log : List Exchange) : Prop :=
  ∀ x ∈ log, ∀ c, x.call.statement? = some c → P c

namespace Program

variable {P : Command → Prop} {α β : Type} {conn : Connection}

/-- All statements that a program can send have a property. -/
def Issues (P : Command → Prop) (p : Program α) : Prop :=
  p.Maintains .recording (OnlySends P) (OnlySends P)

/-- It is a property of all statements of every run. -/
theorem Issues.onlySends {p : Program α} {log : List Exchange} {result : Except Error α}
    (h : p.Issues P) (hrun : p.Run log result) : OnlySends P log :=
  h log result [] log hrun (answeredBy_recording [] log) fun _ hx => absurd hx List.not_mem_nil

theorem onlySends_append {log : List Exchange} {x : Exchange}
    (hx : ∀ c, x.call.statement? = some c → P c) (h : OnlySends P log) :
    OnlySends P (log ++ [x]) := by
  intro y hy
  rcases List.mem_append.mp hy with hy | hy
  · exact h y hy
  · rwa [List.mem_singleton.mp hy]

/-- What is recorded of calls sends the statements of the calls. -/
theorem OnlySends.recorded {log before after : List Exchange} (hlog : OnlySends P log)
    (hanswered : AnsweredBy .recording before log after) (h : OnlySends P before) :
    OnlySends P after := by
  induction log generalizing before with
  | nil =>
    obtain rfl := hanswered
    exact h
  | cons x rest ih =>
    obtain ⟨mid, ⟨live, rfl⟩, hrest⟩ := hanswered
    exact ih (fun y hy => hlog y (List.mem_cons_of_mem x hy)) hrest
      (onlySends_append (x := ⟨x.call, live, x.reply⟩) (hlog x List.mem_cons_self) h)

theorem issues_iff {p : Program α} :
    p.Issues P ↔ ∀ log result, p.Run log result → OnlySends P log :=
  ⟨fun h _ _ hrun => h.onlySends hrun, fun h log result _ _ hrun hanswered hbefore =>
    OnlySends.recorded (h log result hrun) hanswered hbefore⟩

theorem Issues.mono {P' : Command → Prop} {p : Program α} (h : p.Issues P)
    (hP : ∀ c, P c → P' c) : p.Issues P' :=
  issues_iff.mpr fun _ _ hrun x hx c hc => hP c (h.onlySends hrun x hx c hc)

theorem issues_done (a : α) : (Program.done a).Issues P := maintains_done a fun _ h => h

theorem issues_fail (e : Error) : (Program.fail e : Program α).Issues P :=
  maintains_fail e fun _ h => h

theorem issues_lift (x : Except Error α) : (liftM x : Program α).Issues P :=
  maintains_lift x fun _ h => h

theorem Issues.bind {p : Program α} {f : α → Program β} (hp : p.Issues P)
    (hf : ∀ a, (f a).Issues P) : (p >>= f).Issues P :=
  Maintains.bind hp hf fun _ h => h

theorem issues_ite {c : Prop} [Decidable c] {p q : Program α} (hp : c → p.Issues P)
    (hq : ¬c → q.Issues P) : (if c then p else q).Issues P := by
  split
  case isTrue hc => exact hp hc
  case isFalse hc => exact hq hc

/-- The second part is only sent after a run of the first. -/
theorem Issues.bind_run {p : Program α} {f : α → Program β} (hp : p.Issues P)
    (hf : ∀ a log, p.Run log (.ok a) → (f a).Issues P) : (p >>= f).Issues P := by
  refine issues_iff.mpr fun log result hrun => ?_
  rcases run_bind.mp hrun with ⟨e, hbefore, -⟩ | ⟨a, before, after, rfl, hbefore, hafter⟩
  · exact hp.onlySends hbefore
  · intro x hx
    rcases List.mem_append.mp hx with hx | hx
    · exact hp.onlySends hbefore x hx
    · exact (hf a before hbefore).onlySends hafter x hx

theorem issues_foldlM {α σ : Type} {f : σ → α → Program σ} {l : List α}
    (hf : ∀ s, ∀ a ∈ l, (f s a).Issues P) (s : σ) : (l.foldlM f s).Issues P := by
  induction l generalizing s with
  | nil => exact issues_done s
  | cons a l ih =>
    rw [List.foldlM_cons]
    exact (hf s a List.mem_cons_self).bind fun s' =>
      ih (fun s a ha => hf s a (List.mem_cons_of_mem _ ha)) s'

theorem issues_mapM {f : α → Program β} {l : List α} (hf : ∀ a ∈ l, (f a).Issues P) :
    (l.mapM f).Issues P := by
  induction l with
  | nil => exact issues_done []
  | cons a l ih =>
    rw [List.mapM_cons]
    refine (hf a List.mem_cons_self).bind fun b => ?_
    exact (ih fun a' ha' => hf a' (List.mem_cons_of_mem a ha')).bind fun bs => issues_done _

theorem issues_lift_bind {x : Except Error α} {f : α → Program β}
    (hf : ∀ a, x = .ok a → (f a).Issues P) : ((liftM x : Program α) >>= f).Issues P :=
  maintains_lift_bind hf fun _ h => h

/-- A call sends its statement, if it sends one. -/
theorem issues_call {c : Call} {next : c.Reply → Program α}
    (hc : ∀ statement, c.statement? = some statement → P statement)
    (hnext : ∀ r, (next r).Issues P) : (Program.call c next).Issues P := by
  refine maintains_call ?_ hnext
  rintro r log _ ⟨live, rfl⟩ h
  exact onlySends_append (x := ⟨c, live, r⟩) hc h

theorem issues_exec {c : Command} (h : P c) : (conn.exec c).Issues P :=
  issues_call (c := .exec conn.inside c) (fun _ hc => Option.some.inj hc ▸ h) fun r =>
    maintains_settle r fun _ h => h

theorem issues_query {c : Command} (h : P c) : (conn.query c).Issues P :=
  issues_call (c := .query conn.inside c) (fun _ hc => Option.some.inj hc ▸ h) fun r =>
    maintains_settle r fun _ h => h

/-- An insert is issued as it is compiled. -/
theorem issues_execInsert {i : Insert}
    (h : ∀ statement, i.compile conn.dialect = .ok statement → P (.insert statement)) :
    (conn.execInsert i).Issues P :=
  issues_lift_bind fun statement hcompile => issues_exec (h statement hcompile)

theorem issues_queryInsert {i : Insert}
    (h : ∀ statement, i.compile conn.dialect = .ok statement → P (.insert statement)) :
    (conn.queryInsert i).Issues P :=
  issues_lift_bind fun statement hcompile => issues_query (h statement hcompile)

theorem issues_probe {s : Selector} (h : P (.anyRow s)) : (conn.probe s).Issues P :=
  (issues_query h).bind fun _ => issues_done _

theorem issues_draw (g : IdGenerator) : (draw g).Issues P :=
  issues_call (c := .draw g) nofun fun _ => issues_done _

theorem issues_revise (position : Nat) (r : Revision) : (revise position r).Issues P :=
  issues_call (c := .revise position r) nofun fun _ => issues_done _

theorem issues_deliver (d : Delivery) : (deliver d).Issues P :=
  issues_call (c := .deliver d) nofun fun r => issues_lift r

/-- A transaction sends no statements of its own. -/
theorem issues_connection {d : Dialect} {transactional : Bool} {body : Connection → Program α}
    (hbody : ∀ inside, (body ⟨d, inside⟩).Issues P) :
    (Connection.run d transactional body).Issues P := by
  cases transactional with
  | false => exact hbody false
  | true =>
    have hsilent : ∀ {c : Call} (r : c.Reply) (log log' : List Exchange), c.statement? = none →
        Answering.recording c r log log' → OnlySends P log → OnlySends P log' := by
      rintro c r log _ hc ⟨live, rfl⟩ h
      exact onlySends_append (fun _ hstatement => by cases hc.symm.trans hstatement) h
    refine maintains_transaction (fun r log log' hanswer h => hsilent r log log' rfl hanswer h)
      (hbody true) (fun _ h => h) ?_
    rintro c (rfl | rfl | rfl) r log log' hanswer h
    all_goals exact hsilent r log log' rfl hanswer h

end Program

end EntityGraph
