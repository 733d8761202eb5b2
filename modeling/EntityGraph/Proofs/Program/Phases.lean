import EntityGraph.Proofs.Transaction.Writes

/-!
# Before, at and after a write

An operation that writes once has three phases: it prepares its write, it writes, and it concludes.
An error of the first phase comes before anything is stored, one of the last comes after. Let some
errors be called late. `Program.Prepares` fails with other errors only and `Program.Concludes` with
late ones only, so `Program.Stores`, which is all three in sequence, has a late error exactly if
its write was sent. The driver is taken to carry out what it is told: such errors are the
operation's own.
-/

set_option autoImplicit false

namespace EntityGraph

variable {α β : Type} {R : Error → Prop}

/-! ## Errors of checks -/

/-- A check fails only with errors of some kind. -/
def FailsOnly (R : Error → Prop) (x : Except Error α) : Prop := ∀ e, x = .error e → R e

theorem failsOnly_ok (a : α) : FailsOnly R (.ok a) := nofun

theorem failsOnly_error {e : Error} (he : R e) : FailsOnly R (.error e : Except Error α) := by
  rintro _ ⟨⟩
  exact he

theorem FailsOnly.bind {x : Except Error α} {f : α → Except Error β} (hx : FailsOnly R x)
    (hf : ∀ a, FailsOnly R (f a)) : FailsOnly R (x >>= f) := by
  cases x with
  | error e => exact failsOnly_error (hx e rfl)
  | ok a => exact hf a

theorem failsOnly_ite {c : Prop} [Decidable c] {x y : Except Error α} (hx : FailsOnly R x)
    (hy : FailsOnly R y) : FailsOnly R (if c then x else y) := by
  split
  case isTrue => exact hx
  case isFalse => exact hy

theorem failsOnly_mapM {l : List α} {f : α → Except Error β} (hf : ∀ a, FailsOnly R (f a)) :
    FailsOnly R (l.mapM f) := by
  induction l with
  | nil => exact failsOnly_ok []
  | cons a l ih =>
    rw [List.mapM_cons]
    exact (hf a).bind fun b => ih.bind fun bs => failsOnly_ok (b :: bs)

theorem failsOnly_foldlM {l : List α} {f : β → α → Except Error β}
    (hf : ∀ b, ∀ a ∈ l, FailsOnly R (f b a)) (b : β) : FailsOnly R (l.foldlM f b) := by
  induction l generalizing b with
  | nil => exact failsOnly_ok b
  | cons a l ih =>
    exact (hf b a List.mem_cons_self).bind (ih fun b a' ha => hf b a' (List.mem_cons_of_mem a ha))

/-! ## Statements that are carried out -/

/-- All statements of a run are carried out. -/
def CarriedOut (log : List Exchange) : Prop :=
  ∀ x ∈ log, x.call.isStatement = true → x.succeeds = true

theorem carriedOut_append {before after : List Exchange} :
    CarriedOut (before ++ after) ↔ CarriedOut before ∧ CarriedOut after :=
  List.forall_mem_append

namespace Program

/-- A statement without rows that is carried out is one call, and has its result. -/
theorem run_exec_carriedOut {conn : Connection} {c : Command} {log : List Exchange}
    {result : Except Error ExecResult} (h : (conn.exec c).Run log result) (hlog : CarriedOut log) :
    ∃ live a, log = [⟨.exec conn.inside c, live, (.done a : Outcome ExecResult)⟩] ∧
      result = .ok a := by
  obtain ⟨live, r, rfl, hr⟩ := run_exec h
  have hdone := hlog _ List.mem_cons_self rfl
  cases r with
  | done a => exact ⟨live, a, rfl, (hr a).mpr rfl⟩
  | failed f => cases hdone
  | interrupted why => cases hdone

/-- A statement with rows that is carried out is one call, and has its rows. -/
theorem run_query_carriedOut {conn : Connection} {c : Command} {log : List Exchange}
    {result : Except Error Rows} (h : (conn.query c).Run log result) (hlog : CarriedOut log) :
    ∃ live a, log = [⟨.query conn.inside c, live, (.done a : Outcome Rows)⟩] ∧
      result = .ok a := by
  obtain ⟨live, r, rfl, hr⟩ := run_query h
  have hdone := hlog _ List.mem_cons_self rfl
  cases r with
  | done a => exact ⟨live, a, rfl, (hr a).mpr rfl⟩
  | failed f => cases hdone
  | interrupted why => cases hdone

/-! ## The phases -/

variable {Late : Error → Prop}

/-- The program writes nothing, and no error of it is late. -/
def Prepares (Late : Error → Prop) (p : Program α) : Prop :=
  ∀ log result, p.Run log result → CarriedOut log →
    writes log = 0 ∧ ∀ e, result = .error e → ¬Late e

/-- The program has written where it has a result, and where it has an error this is late exactly
if the program has written. -/
def Stores (Late : Error → Prop) (p : Program α) : Prop :=
  ∀ log result, p.Run log result → CarriedOut log →
    (∀ a, result = .ok a → 0 < writes log) ∧
      ∀ e, result = .error e → (Late e ↔ 0 < writes log)

/-- All errors of the program are late. -/
def Concludes (Late : Error → Prop) (p : Program α) : Prop :=
  ∀ log e, p.Run log (.error e) → CarriedOut log → Late e

/-! ### Preparing -/

theorem prepares_done (a : α) : (Program.done a).Prepares Late := by
  intro log result h _
  obtain ⟨rfl, rfl⟩ := run_done.mp h
  exact ⟨rfl, nofun⟩

theorem prepares_fail {e : Error} (he : ¬Late e) : (Program.fail e : Program α).Prepares Late := by
  intro log result h _
  obtain ⟨rfl, rfl⟩ := run_fail.mp h
  refine ⟨rfl, ?_⟩
  rintro _ ⟨⟩
  exact he

theorem prepares_ofExcept {x : Except Error α} (hx : FailsOnly (fun e => ¬Late e) x) :
    (ofExcept x).Prepares Late := by
  intro log result h _
  obtain ⟨rfl, rfl⟩ := run_ofExcept.mp h
  exact ⟨rfl, hx⟩

/-- What comes after may rely on how it went. -/
theorem Prepares.bind_of_run {p : Program α} {f : α → Program β} (hp : p.Prepares Late)
    (hf : ∀ a log, p.Run log (.ok a) → (f a).Prepares Late) : (p >>= f).Prepares Late := by
  intro log result h hdone
  rcases run_bind.mp h with ⟨e, hfail, rfl⟩ | ⟨a, before, after, rfl, hbefore, hafter⟩
  · obtain ⟨hnone, he⟩ := hp log _ hfail hdone
    refine ⟨hnone, ?_⟩
    rintro _ ⟨⟩
    exact he e rfl
  · obtain ⟨hbefored, hafterd⟩ := carriedOut_append.mp hdone
    obtain ⟨hnone, -⟩ := hp before _ hbefore hbefored
    obtain ⟨hnone', he⟩ := hf a before hbefore after result hafter hafterd
    exact ⟨by rw [writes_append, hnone, hnone'], he⟩

theorem Prepares.bind {p : Program α} {f : α → Program β} (hp : p.Prepares Late)
    (hf : ∀ a, (f a).Prepares Late) : (p >>= f).Prepares Late :=
  hp.bind_of_run fun a _ _ => hf a

theorem prepares_ite {c : Prop} [Decidable c] {p q : Program α} (hp : p.Prepares Late)
    (hq : q.Prepares Late) : (if c then p else q).Prepares Late := by
  split
  case isTrue => exact hp
  case isFalse => exact hq

theorem prepares_forM {l : List α} {f : α → Program PUnit}
    (hf : ∀ a ∈ l, (f a).Prepares Late) : (l.forM f).Prepares Late := by
  induction l with
  | nil => exact prepares_done _
  | cons a l ih =>
    exact (hf a List.mem_cons_self).bind fun _ => ih fun b hb => hf b (List.mem_cons_of_mem a hb)

/-- A question does not write. -/
theorem prepares_query (conn : Connection) {c : Command} (hc : c.isWrite = false) :
    (conn.query c).Prepares Late := by
  intro log result h hdone
  obtain ⟨live, a, rfl, rfl⟩ := run_query_carriedOut h hdone
  exact ⟨by simp [writes, Call.isWrite, hc], nofun⟩

theorem prepares_probe (conn : Connection) (s : Selector) : (conn.probe s).Prepares Late :=
  (prepares_query conn rfl).bind fun _ => prepares_done _

theorem prepares_revise (position : Nat) (r : Revision) :
    (Program.revise position r).Prepares Late := by
  intro log result h _
  obtain ⟨live, r, rest, rfl, hdone⟩ := run_call.mp h
  obtain ⟨rfl, rfl⟩ := run_done.mp hdone
  exact ⟨rfl, nofun⟩

theorem prepares_draw (g : IdGenerator) : (Program.draw g).Prepares Late := by
  intro log result h _
  obtain ⟨live, r, rest, rfl, hdone⟩ := run_call.mp h
  obtain ⟨rfl, rfl⟩ := run_done.mp hdone
  exact ⟨rfl, nofun⟩

/-! ### Concluding -/

theorem concludes_done (a : α) : (Program.done a).Concludes Late := by
  intro log e h _
  cases (run_done.mp h).2

theorem concludes_fail {e : Error} (he : Late e) : (Program.fail e : Program α).Concludes Late := by
  intro log e' h _
  cases (run_fail.mp h).2
  exact he

theorem concludes_ofExcept {x : Except Error α} (hx : FailsOnly Late x) :
    (ofExcept x).Concludes Late := by
  intro log e h _
  exact hx e (run_ofExcept.mp h).2.symm

theorem Concludes.bind {p : Program α} {f : α → Program β} (hp : p.Concludes Late)
    (hf : ∀ a, (f a).Concludes Late) : (p >>= f).Concludes Late := by
  intro log e h hdone
  rcases run_bind.mp h with ⟨e', hfail, ⟨⟩⟩ | ⟨a, before, after, rfl, hbefore, hafter⟩
  · exact hp log e hfail hdone
  · exact hf a after e hafter (carriedOut_append.mp hdone).2

theorem concludes_ite {c : Prop} [Decidable c] {p q : Program α} (hp : p.Concludes Late)
    (hq : q.Concludes Late) : (if c then p else q).Concludes Late := by
  split
  case isTrue => exact hp
  case isFalse => exact hq

theorem concludes_forM {l : List α} {f : α → Program PUnit}
    (hf : ∀ a ∈ l, (f a).Concludes Late) : (l.forM f).Concludes Late := by
  induction l with
  | nil => exact concludes_done _
  | cons a l ih =>
    exact (hf a List.mem_cons_self).bind fun _ => ih fun b hb => hf b (List.mem_cons_of_mem a hb)

theorem concludes_query (conn : Connection) (c : Command) : (conn.query c).Concludes Late := by
  intro log e h hdone
  obtain ⟨_, _, -, ⟨⟩⟩ := run_query_carriedOut h hdone

theorem concludes_exec (conn : Connection) (c : Command) : (conn.exec c).Concludes Late := by
  intro log e h hdone
  obtain ⟨_, _, -, ⟨⟩⟩ := run_exec_carriedOut h hdone

theorem Concludes.discard {p : Program α} (hp : p.Concludes Late) :
    (Functor.discard p).Concludes Late := by
  show ((fun _ => PUnit.unit) <$> p).Concludes Late
  rw [map_eq_pure_bind]
  exact hp.bind fun _ => concludes_done _

theorem concludes_revise (position : Nat) (r : Revision) :
    (Program.revise position r).Concludes Late := by
  intro log e h _
  obtain ⟨live, r, rest, rfl, hdone⟩ := run_call.mp h
  cases (run_done.mp hdone).2

/-! ### Writing -/

/-- What comes before a write leaves its result to the write, which may rely on how it went. -/
theorem Prepares.stores_of_run {p : Program α} {f : α → Program β} (hp : p.Prepares Late)
    (hf : ∀ a log, p.Run log (.ok a) → (f a).Stores Late) : (p >>= f).Stores Late := by
  intro log result h hdone
  rcases run_bind.mp h with ⟨e, hfail, rfl⟩ | ⟨a, before, after, rfl, hbefore, hafter⟩
  · obtain ⟨hnone, he⟩ := hp log _ hfail hdone
    refine ⟨nofun, ?_⟩
    rintro _ ⟨⟩
    exact iff_of_false (he e rfl) (by omega)
  · obtain ⟨hbefored, hafterd⟩ := carriedOut_append.mp hdone
    obtain ⟨hnone, -⟩ := hp before _ hbefore hbefored
    rw [writes_append, hnone, Nat.zero_add]
    exact hf a before hbefore after result hafter hafterd

theorem Prepares.stores {p : Program α} {f : α → Program β} (hp : p.Prepares Late)
    (hf : ∀ a, (f a).Stores Late) : (p >>= f).Stores Late :=
  hp.stores_of_run fun a _ _ => hf a

/-- What comes after a write fails late. -/
theorem Stores.bind {p : Program α} {f : α → Program β} (hp : p.Stores Late)
    (hf : ∀ a, (f a).Concludes Late) : (p >>= f).Stores Late := by
  intro log result h hdone
  rcases run_bind.mp h with ⟨e, hfail, rfl⟩ | ⟨a, before, after, rfl, hbefore, hafter⟩
  · refine ⟨nofun, ?_⟩
    rintro _ ⟨⟩
    exact (hp log _ hfail hdone).2 e rfl
  · obtain ⟨hbefored, hafterd⟩ := carriedOut_append.mp hdone
    have hwritten := (hp before _ hbefore hbefored).1 a rfl
    rw [writes_append]
    refine ⟨fun _ _ => by omega, ?_⟩
    rintro e rfl
    exact iff_of_true (hf a after e hafter hafterd) (by omega)

theorem Stores.discard {p : Program α} (hp : p.Stores Late) :
    (Functor.discard p).Stores Late := by
  show ((fun _ => PUnit.unit) <$> p).Stores Late
  rw [map_eq_pure_bind]
  exact hp.bind fun _ => concludes_done _

theorem stores_ite {c : Prop} [Decidable c] {p q : Program α} (hp : p.Stores Late)
    (hq : q.Stores Late) : (if c then p else q).Stores Late := by
  split
  case isTrue => exact hp
  case isFalse => exact hq

/-- A refusal that is not late comes before anything is written. -/
theorem stores_fail {e : Error} (he : ¬Late e) : (Program.fail e : Program α).Stores Late := by
  intro log result h _
  obtain ⟨rfl, rfl⟩ := run_fail.mp h
  refine ⟨nofun, ?_⟩
  rintro _ ⟨⟩
  exact iff_of_false he (Nat.lt_irrefl 0)

theorem stores_exec (conn : Connection) {c : Command} (hc : c.isWrite = true) :
    (conn.exec c).Stores Late := by
  intro log result h hdone
  obtain ⟨live, a, rfl, rfl⟩ := run_exec_carriedOut h hdone
  exact ⟨fun _ _ => by simp [writes, Call.isWrite, hc], nofun⟩

theorem stores_query (conn : Connection) {c : Command} (hc : c.isWrite = true) :
    (conn.query c).Stores Late := by
  intro log result h hdone
  obtain ⟨live, a, rfl, rfl⟩ := run_query_carriedOut h hdone
  exact ⟨fun _ _ => by simp [writes, Call.isWrite, hc], nofun⟩

end Program

end EntityGraph
