import EntityGraph.Proofs.Program.Run

/-!
# Orderly programs

What an operation does on its connection is orderly: it sends its statements on that connection
only, it leaves the beginning and the end of a transaction to the connection, and it stops with the
classified error at the first call that fails. `Program.Orderly` says so of the tree of calls. It is
kept by sequencing, so each part of an operation has one lemma, and `Orderly.run` reads off what it
means for a run.
-/

set_option autoImplicit false

namespace EntityGraph

/-- The calls of an operation between the beginning and the end of its transaction. -/
def Call.OnConnection (inside : Bool) : Call → Prop
  | .exec i _ | .query i _ => i = inside
  | .draw _ | .revise _ _ | .deliver _ => True
  | .begin | .commit | .rollback | .check => False

namespace Program

/-- The program makes only calls of an operation on a connection, and it stops at the first reply
that is an error. -/
def Orderly {α : Type} (conn : Connection) : Program α → Prop
  | .done _ => True
  | .fail _ => True
  | .call c next =>
    c.OnConnection conn.inside ∧
      (∀ r e, c.error? conn.dialect r = some e → next r = .fail e) ∧
      ∀ r, (next r).Orderly conn

variable {α β : Type} {conn : Connection}

@[simp]
theorem orderly_done (a : α) : (Program.done a).Orderly conn := trivial

@[simp]
theorem orderly_ofExcept (x : Except Error α) : (ofExcept x).Orderly conn := by
  cases x <;> trivial

/-- Sequencing keeps programs orderly. -/
theorem Orderly.bind {p : Program α} {f : α → Program β} (hp : p.Orderly conn)
    (hf : ∀ a, (f a).Orderly conn) : (p >>= f).Orderly conn := by
  induction p with
  | done a => exact hf a
  | fail e => trivial
  | call c next ih =>
    obtain ⟨hcall, hstop, hnext⟩ := hp
    refine ⟨hcall, fun r e he => ?_, fun r => ih r (hnext r)⟩
    show next r >>= f = .fail e
    rw [hstop r e he, fail_bind]

/-- A function of the result changes nothing. -/
theorem Orderly.map {p : Program α} (hp : p.Orderly conn) (f : α → β) :
    (f <$> p).Orderly conn := by
  rw [map_eq_pure_bind]
  exact hp.bind fun a => orderly_done _

/-- Throwing a result away changes nothing. -/
theorem Orderly.discard {p : Program α} (hp : p.Orderly conn) :
    (Functor.discard p).Orderly conn :=
  hp.map _

/-- A loop over a list is orderly if each of its rounds is. -/
theorem orderly_forM {l : List α} {f : α → Program PUnit} (hf : ∀ a ∈ l, (f a).Orderly conn) :
    (l.forM f).Orderly conn := by
  induction l with
  | nil => trivial
  | cons a l ih =>
    exact (hf a List.mem_cons_self).bind fun _ => ih fun b hb => hf b (List.mem_cons_of_mem a hb)

/-- A loop over a list that carries a state is orderly if each of its rounds is. -/
theorem orderly_foldlM {l : List α} {f : β → α → Program β} (hf : ∀ b a, (f b a).Orderly conn)
    (b : β) : (l.foldlM f b).Orderly conn := by
  induction l generalizing b with
  | nil => trivial
  | cons a l ih => exact (hf b a).bind fun c => ih c

/-- A list of results is orderly if each of them is. -/
theorem orderly_mapM {l : List α} {f : α → Program β} (hf : ∀ a ∈ l, (f a).Orderly conn) :
    (l.mapM f).Orderly conn := by
  induction l with
  | nil => trivial
  | cons a l ih =>
    rw [List.mapM_cons]
    refine (hf a List.mem_cons_self).bind fun b => ?_
    exact (ih fun c hc => hf c (List.mem_cons_of_mem a hc)).bind fun _ => orderly_done _

theorem orderly_ite {c : Prop} [Decidable c] {p q : Program α} (hp : p.Orderly conn)
    (hq : q.Orderly conn) : (if c then p else q).Orderly conn := by
  split
  case isTrue => exact hp
  case isFalse => exact hq

/-! ## Single calls -/

theorem orderly_exec (conn : Connection) (c : Command) : (conn.exec c).Orderly conn := by
  refine ⟨rfl, fun r e he => ?_, fun r => ?_⟩ <;> cases r
  case refine_1.done => cases he
  case refine_1.failed => cases he; rfl
  case refine_1.interrupted => cases he; rfl
  all_goals trivial

theorem orderly_query (conn : Connection) (c : Command) : (conn.query c).Orderly conn := by
  refine ⟨rfl, fun r e he => ?_, fun r => ?_⟩ <;> cases r
  case refine_1.done => cases he
  case refine_1.failed => cases he; rfl
  case refine_1.interrupted => cases he; rfl
  all_goals trivial

theorem orderly_execInsert (conn : Connection) (i : Insert) : (conn.execInsert i).Orderly conn :=
  (orderly_ofExcept _).bind fun _ => orderly_exec conn _

theorem orderly_queryInsert (conn : Connection) (i : Insert) : (conn.queryInsert i).Orderly conn :=
  (orderly_ofExcept _).bind fun _ => orderly_query conn _

theorem orderly_probe (conn : Connection) (s : Selector) : (conn.probe s).Orderly conn :=
  (orderly_query conn _).bind fun _ => orderly_done _

theorem orderly_revise (conn : Connection) (position : Nat) (r : Revision) :
    (Program.revise position r).Orderly conn := by
  refine ⟨trivial, fun _ _ he => ?_, fun _ => trivial⟩
  simp [Call.error?] at he

theorem orderly_draw (conn : Connection) (g : IdGenerator) : (Program.draw g).Orderly conn := by
  refine ⟨trivial, fun _ _ he => ?_, fun _ => trivial⟩
  simp [Call.error?] at he

theorem orderly_deliver (conn : Connection) (d : Delivery) : (Program.deliver d).Orderly conn := by
  refine ⟨trivial, fun r e he => ?_, fun r => orderly_ofExcept _⟩
  cases r <;> cases he
  rfl

/-! ## Runs of orderly programs -/

/-- No call of the list is an error to the operation. -/
def Smooth (d : Dialect) (log : List Exchange) : Prop := ∀ x ∈ log, x.call.error? d x.reply = none

/-- A run of an orderly program makes only calls on its connection. A call that fails is its last,
and the run fails with that call's error; without such a call nothing is known of the result. -/
theorem Orderly.run {p : Program α} {log : List Exchange} {result : Except Error α}
    (hp : p.Orderly conn) (h : p.Run log result) :
    (∀ x ∈ log, x.call.OnConnection conn.inside) ∧
      (Smooth conn.dialect log ∨ ∃ before x e, log = before ++ [x] ∧ Smooth conn.dialect before ∧
        x.call.error? conn.dialect x.reply = some e ∧ result = .error e) := by
  induction h with
  | done a => exact ⟨by simp, .inl (by simp [Smooth])⟩
  | fail e => exact ⟨by simp, .inl (by simp [Smooth])⟩
  | @call c next log result live r h ih =>
    obtain ⟨hcall, hstop, hnext⟩ := hp
    obtain ⟨hcalls, hlog⟩ := ih (hnext r)
    refine ⟨by simpa using ⟨hcall, hcalls⟩, ?_⟩
    cases hr : c.error? conn.dialect r with
    | some e =>
      rw [hstop r e hr, run_fail] at h
      obtain ⟨rfl, rfl⟩ := h
      exact .inr ⟨[], ⟨c, live, r⟩, e, rfl, by simp [Smooth], hr, rfl⟩
    | none =>
      rcases hlog with hsmooth | ⟨before, x, e, rfl, hsmooth, hx, rfl⟩
      · left
        intro y hy
        rcases List.mem_cons.mp hy with rfl | hy
        · exact hr
        · exact hsmooth y hy
      · right
        refine ⟨⟨c, live, r⟩ :: before, x, e, rfl, fun y hy => ?_, hx, rfl⟩
        rcases List.mem_cons.mp hy with rfl | hy
        · exact hr
        · exact hsmooth y hy

end Program

end EntityGraph
