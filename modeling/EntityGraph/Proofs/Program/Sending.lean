import Mathlib.Data.List.Basic
import EntityGraph.Proofs.Program.Run

/-!
# What a program sends

The calls of an operation that does nothing but send statements are fixed in advance: a run makes
them in their order, and it makes all of them if it has a result. `Program.Sends` says so. A call may
turn out not to exist, where a statement cannot be compiled; a run does not get past it.
-/

set_option autoImplicit false

namespace EntityGraph

/-- The statements of a run that change rows, with their replies. -/
def writing (log : List Exchange) : List Exchange := log.filter fun x => x.call.isWrite

@[simp]
theorem writing_append (before after : List Exchange) :
    writing (before ++ after) = writing before ++ writing after :=
  List.filter_append before after

/-- The calls of a run. -/
def callsOf (log : List Exchange) : List (Except Error Call) := log.map fun x => .ok x.call

@[simp]
theorem callsOf_append (before after : List Exchange) :
    callsOf (before ++ after) = callsOf before ++ callsOf after :=
  List.map_append

namespace Program

variable {α β : Type} {p : Program α} {f : α → Program β} {calls more : List (Except Error Call)}

theorem run_request {c : Call} {f : c.Reply → Program β} {log : List Exchange}
    {result : Except Error β} :
    (request c >>= f).Run log result ↔
      ∃ live r rest, log = ⟨c, live, r⟩ :: rest ∧ (f r).Run rest result :=
  run_call

/-- A run makes these calls in their order, and all of them if it has a result. -/
def Sends (p : Program α) (calls : List (Except Error Call)) : Prop :=
  ∀ log result, p.Run log result →
    callsOf log <+: calls ∧ ∀ a, result = .ok a → callsOf log = calls

theorem sends_done (a : α) : (Program.done a).Sends [] := by
  intro log result h
  obtain ⟨rfl, -⟩ := run_done.mp h
  exact ⟨List.nil_prefix, fun _ _ => rfl⟩

theorem sends_fail (e : Error) (calls : List (Except Error Call)) :
    (Program.fail e : Program α).Sends calls := by
  intro log result h
  obtain ⟨rfl, rfl⟩ := run_fail.mp h
  exact ⟨List.nil_prefix, nofun⟩

/-- What is sent in sequence is sent one after the other. -/
theorem Sends.bind (hp : p.Sends calls) (hf : ∀ a, (f a).Sends more) :
    (p >>= f).Sends (calls ++ more) := by
  intro log result h
  rcases run_bind.mp h with ⟨e, hfail, rfl⟩ | ⟨a, before, after, rfl, hbefore, hafter⟩
  · exact ⟨(hp log _ hfail).1.trans (List.prefix_append _ _), nofun⟩
  · obtain ⟨hfront, hall⟩ := hf a after result hafter
    rw [callsOf_append, (hp before _ hbefore).2 a rfl]
    refine ⟨(List.prefix_append_right_inj calls).mpr hfront, ?_⟩
    intro b hb
    rw [hall b hb]

theorem Sends.discard (hp : p.Sends calls) : (Functor.discard p).Sends calls := by
  show ((fun _ => PUnit.unit) <$> p).Sends calls
  rw [map_eq_pure_bind]
  have h := hp.bind (f := fun _ => Program.done PUnit.unit) fun _ => sends_done _
  rwa [List.append_nil] at h

/-- What has to be decided before anything is sent. -/
theorem sends_lift_bind {x : Except Error α} (hf : ∀ a, x = .ok a → (f a).Sends calls) :
    ((liftM x : Program α) >>= f).Sends calls := by
  cases x with
  | error e => exact sends_fail e calls
  | ok a => exact hf a rfl

/-- Decisions on the members of a list are one decision. -/
theorem mapM_liftM (g : α → Except Error β) (l : List α) :
    (l.mapM fun a => (liftM (g a) : Program β)) = (liftM (l.mapM g) : Program (List β)) := by
  induction l with
  | nil => rfl
  | cons a l ih =>
    rw [List.mapM_cons, List.mapM_cons, ih]
    cases g a with
    | error e => rfl
    | ok b => cases l.mapM g <;> rfl

theorem sends_forM {l : List α} {f : α → Program PUnit} {calls : α → List (Except Error Call)}
    (hf : ∀ a ∈ l, (f a).Sends (calls a)) : (l.forM f).Sends (l.flatMap calls) := by
  induction l with
  | nil => exact sends_done _
  | cons a l ih =>
    rw [List.flatMap_cons]
    refine (hf a List.mem_cons_self).bind fun _ => ?_
    exact ih fun b hb => hf b (List.mem_cons_of_mem a hb)

/-- A call that is followed by a decision. -/
theorem sends_call {c : Call} {next : c.Reply → Program α} (hnext : ∀ r, (next r).Sends []) :
    (Program.call c next).Sends [.ok c] := by
  intro log result h
  obtain ⟨live, r, rest, rfl, htail⟩ := run_call.mp h
  have hnone : callsOf rest = [] := List.prefix_nil.mp (hnext r rest result htail).1
  have hrest : rest = [] := List.map_eq_nil_iff.mp hnone
  subst hrest
  exact ⟨List.prefix_refl _, fun _ _ => rfl⟩

theorem sends_settle {d : Dialect} (r : Outcome α) : (Connection.settle d r).Sends [] := by
  cases r with
  | done a => exact sends_done a
  | failed f => exact sends_fail _ _
  | interrupted why => exact sends_fail _ _

theorem sends_exec (conn : Connection) (c : Command) :
    (conn.exec c).Sends [.ok (.exec conn.inside c)] :=
  sends_call (c := .exec conn.inside c) fun r => sends_settle r

theorem sends_query (conn : Connection) (c : Command) :
    (conn.query c).Sends [.ok (.query conn.inside c)] :=
  sends_call (c := .query conn.inside c) fun r => sends_settle r

/-- An insert is sent if it can be compiled. -/
theorem sends_execInsert (conn : Connection) (i : Insert) :
    (conn.execInsert i).Sends
      [(i.compile conn.dialect).map fun s => .exec conn.inside (.insert s)] := by
  show ((liftM (i.compile conn.dialect) : Program _) >>= fun s => conn.exec (.insert s)).Sends _
  refine sends_lift_bind fun statement hcompile => ?_
  rw [hcompile]
  exact sends_exec conn _

/-- A loop that sends a statement for each member of its list. -/
theorem sends_forM_exec {conn : Connection} {f : α → Except Error β}
    {statement : β → Command} {l : List α} :
    (l.forM fun a => ofExcept (f a) >>= fun b => discard (conn.exec (statement b))).Sends
      ((l.filterMap fun a => (f a).toOption.map statement).map fun c =>
        .ok (.exec conn.inside c)) := by
  have hcalls : ((l.filterMap fun a => (f a).toOption.map statement).map fun c =>
      (.ok (.exec conn.inside c) : Except Error Call)) =
      l.flatMap fun a => ((f a).toOption.map fun b =>
        (.ok (.exec conn.inside (statement b)) : Except Error Call)).toList := by
    rw [List.map_filterMap, List.filterMap_eq_flatMap_toList]
    simp only [Option.map_map, Function.comp_def]
  rw [hcalls]
  refine sends_forM fun a _ => sends_lift_bind fun b hb => ?_
  rw [hb]
  exact (sends_exec conn (statement b)).discard

/-- A loop has a result on replies on which each of its rounds has one. -/
theorem run_forM_ok {log : List Exchange} {P : Exchange → Prop} {l : List α}
    {f : α → Program PUnit} {result : Except Error PUnit}
    (hf : ∀ a ∈ l, ∀ log result, (f a).Run log result → (∀ x ∈ log, P x) → result = .ok ())
    (h : (l.forM f).Run log result) (hlog : ∀ x ∈ log, P x) : result = .ok () := by
  induction l generalizing log with
  | nil => exact (run_done.mp h).2
  | cons a l ih =>
    rcases run_bind.mp h with ⟨e, hround, rfl⟩ | ⟨_, before, after, rfl, -, hrest⟩
    · cases hf a List.mem_cons_self _ _ hround hlog
    · refine ih (fun b hb => hf b (List.mem_cons_of_mem a hb)) hrest fun x hx => ?_
      exact hlog x (List.mem_append_right _ hx)

end Program

end EntityGraph
