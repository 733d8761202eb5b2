import EntityGraph.Proofs.Program.Run
import EntityGraph.Script

/-!
# Scripted runs are conducted runs

`Program.play` runs a program against a script in a context. `play_run` places these runs among all
runs: what is played is a run of the program in the sense of `Program.Run`, it takes place in a
context in the sense of `Conducted`, and the events that the script records are the calls that the
driver is told about. So what holds of all conducted runs holds of every script, and a closed script
is a way to give an example of a run.
-/

set_option autoImplicit false

namespace EntityGraph

/-! ## Contexts that interrupt -/

namespace Context

/-- The context is live. -/
def isLive (c : Context) (clock : Clock) : Bool := (c.check clock).isOk

/-- A context whose token is cancelled is not live. -/
theorem isLive_of_cancelled {c : Context} {clock : Clock} (h : c.isCancelled clock = true) :
    c.isLive clock = false := by
  simp [isLive, check, h, Except.isOk, Except.toBool]

/-- A context is not live at its deadline or later. -/
theorem isLive_of_expired {c : Context} {clock : Clock} {deadline : Nat}
    (hd : c.deadline = some deadline) (h : deadline ≤ clock.now) : c.isLive clock = false := by
  simp only [isLive, check, hd, h, if_true]
  split <;> rfl

/-- Work is interrupted only by a context that is done. -/
theorem drive_interrupted {α : Type} {c : Context} {w : Work α} {clock clock' : Clock}
    {why : Interruption} (h : c.drive clock w = some (.error why, clock')) :
    c.isLive clock' = false := by
  induction w generalizing clock with
  | done a => cases h
  | cancel other rest ih => exact ih h
  | yield rest ih =>
    simp only [drive] at h
    split at h
    case h_1 why' hcheck =>
      cases h
      simp [isLive, hcheck, Except.isOk, Except.toBool]
    case h_2 => exact ih h
  | sleep ms rest ih =>
    simp only [drive] at h
    split at h
    case isTrue => exact ih h
    case isFalse =>
      split at h
      case isTrue hcancelled =>
        cases h
        exact isLive_of_cancelled hcancelled
      case isFalse =>
        split at h
        case h_1 deadline hd =>
          split at h
          case isTrue =>
            cases h
            exact isLive_of_expired hd (Nat.le_max_right _ _)
          case isFalse => exact ih h
        case h_2 => exact ih h
  | hang =>
    simp only [drive] at h
    split at h
    case isTrue hcancelled =>
      cases h
      exact isLive_of_cancelled hcancelled
    case isFalse =>
      cases hd : c.deadline with
      | none => simp [hd] at h
      | some deadline =>
        simp only [hd, Option.map_some, Option.some.injEq, Prod.mk.injEq] at h
        obtain ⟨-, rfl⟩ := h
        exact isLive_of_expired hd (Nat.le_max_right _ _)

end Context

/-! ## Events -/

namespace Exchange

/-- What a script records of a call. -/
def event? (x : Exchange) : Option Event :=
  match x.call with
  | .begin => some .begin
  | .commit => some .commit
  | .rollback => some .rollback
  | .exec inside c => some (.statement false inside c)
  | .query inside c => some (.statement true inside c)
  | .check | .draw _ | .revise _ _ | .deliver _ => none

end Exchange

/-- The events of a run. -/
def events (log : List Exchange) : List Event := (received log).filterMap Exchange.event?

/-- A context that is done admits no more than one that is live. -/
theorem Conducted.of_done {live : Bool} {log : List Exchange} (h : Conducted false log) :
    Conducted live log := by
  cases log with
  | nil => trivial
  | cons x rest =>
    obtain ⟨hlive, hadmits, hrest⟩ := h
    have hx : x.live = false := by simpa using hlive
    exact ⟨by simp [hx], hadmits, hrest⟩

namespace World

variable {s : Script} {c : Context} {w after : World}

/-- What a context makes of a call that it stands before: a context that is done changes nothing and
interrupts the call, a live one has the call recorded, and is done if it interrupts it. -/
def Guarded {α : Type} (c : Context) (w : World) (e : Event) (o : Outcome α) (after : World) :
    Prop :=
  match c.isLive w.clock with
  | false => (∃ why, o = .interrupted why) ∧ after = w
  | true => after.log = w.log ++ [e] ∧ (o.isInterrupted = true → c.isLive after.clock = false)

/-- The opening of a transaction is guarded by the context. -/
theorem openTransaction_guarded {o : Outcome Unit} (h : w.openTransaction c s = (o, after)) :
    Guarded c w .begin o after := by
  unfold openTransaction at h
  unfold Guarded Context.isLive
  cases hcheck : c.check w.clock with
  | error why =>
    simp only [hcheck, Prod.mk.injEq] at h
    exact ⟨⟨why, h.1.symm⟩, h.2.symm⟩
  | ok u =>
    simp only [hcheck, Prod.mk.injEq] at h
    obtain ⟨rfl, rfl⟩ := h
    refine ⟨rfl, fun hint => ?_⟩
    cases hs : s.beginFailure <;>
      simp [hs, stepResult, Outcome.ofRun, Outcome.isInterrupted] at hint

/-- Sending a statement is guarded by the context. -/
theorem send_guarded {α : Type} {e : Event} {answer? : ReplyBody → Option (Except Failure α)}
    {missing : α} {o : Outcome α} (h : w.send c e answer? missing = some (o, after)) :
    Guarded c w e o after := by
  unfold send at h
  unfold Guarded Context.isLive
  cases hcheck : c.check w.clock with
  | error why =>
    simp only [hcheck, Option.some.injEq, Prod.mk.injEq] at h
    exact ⟨⟨why, h.1.symm⟩, h.2.symm⟩
  | ok u =>
    simp only [hcheck] at h
    cases hreplies : w.replies with
    | nil =>
      simp only [hreplies, Option.some.injEq, Prod.mk.injEq] at h
      obtain ⟨rfl, rfl⟩ := h
      exact ⟨rfl, fun hint => by cases hint⟩
    | cons r rest =>
      simp only [hreplies, Option.map_eq_some_iff, Prod.mk.injEq, Prod.exists] at h
      obtain ⟨result, clock, hdrive, rfl, rfl⟩ := h
      refine ⟨rfl, fun hint => ?_⟩
      cases result with
      | error why => exact Context.drive_interrupted hdrive
      | ok answer => cases answer <;> cases hint

/-- What one answer does: it is admitted by the context, it is recorded if the driver is told about
the call, and a context that was done or that interrupts the call is done afterwards. -/
theorem answer_exchange {call : Call} {r : call.Reply}
    (h : w.answer s c call = some (r, after)) :
    let x : Exchange := ⟨call, c.isLive w.clock, r⟩
    call.Admits x.live r ∧ after.log = w.log ++ events [x] ∧
      (c.isLive after.clock = true → (x.live && !x.interrupts) = true) := by
  have hguarded : ∀ {α : Type} {e : Event} {o : Outcome α}, Guarded c w e o after →
      (c.isLive w.clock = false → ∃ why, o = .interrupted why) ∧
        after.log = w.log ++ (if c.isLive w.clock then [e] else []) ∧
        (c.isLive after.clock = true → (c.isLive w.clock && !o.isInterrupted) = true) := by
    intro α e o ho
    unfold Guarded at ho
    cases hlive : c.isLive w.clock with
    | false =>
      obtain ⟨hwhy, rfl⟩ := hlive ▸ ho
      exact ⟨fun _ => hwhy, by simp, fun hafter => by simp [hlive] at hafter⟩
    | true =>
      obtain ⟨hlog, hdone⟩ := hlive ▸ ho
      refine ⟨by simp, hlog, fun hafter => ?_⟩
      cases hint : o.isInterrupted with
      | false => rfl
      | true => simp [hdone hint] at hafter
  have hevents : ∀ (call : Call) (e : Event) (r : call.Reply) (live : Bool),
      (⟨call, live, r⟩ : Exchange).reachesDriver = live →
      (⟨call, live, r⟩ : Exchange).event? = some e →
      events [⟨call, live, r⟩] = if live then [e] else [] := by
    intro call e r live hreach hevent
    cases live <;> simp [events, received, hreach, hevent]
  cases call with
  | begin =>
    obtain ⟨hadmits, hlog, hlive⟩ := hguarded (openTransaction_guarded (Option.some.inj h))
    exact ⟨hadmits, (hevents .begin _ r _ rfl rfl) ▸ hlog, hlive⟩
  | exec inside command =>
    obtain ⟨hadmits, hlog, hlive⟩ := hguarded (send_guarded h)
    exact ⟨hadmits, (hevents (.exec inside command) _ r _ rfl rfl) ▸ hlog, hlive⟩
  | query inside command =>
    obtain ⟨hadmits, hlog, hlive⟩ := hguarded (send_guarded h)
    exact ⟨hadmits, (hevents (.query inside command) _ r _ rfl rfl) ▸ hlog, hlive⟩
  | check =>
    obtain ⟨rfl, rfl⟩ := Prod.mk.inj (Option.some.inj h)
    have hcheck : c.isLive w.clock = true ↔ c.check w.clock = .ok () := by
      unfold Context.isLive
      cases c.check w.clock <;> simp [Except.isOk, Except.toBool]
    refine ⟨hcheck, (List.append_nil _).symm, fun hlive => ?_⟩
    simp [Exchange.interrupts, Call.interrupts, hcheck.mp hlive, hlive]
  | commit =>
    obtain ⟨rfl, rfl⟩ := Prod.mk.inj (Option.some.inj h)
    exact ⟨trivial, rfl, fun hlive => Bool.and_eq_true_iff.mpr ⟨hlive, rfl⟩⟩
  | rollback =>
    obtain ⟨rfl, rfl⟩ := Prod.mk.inj (Option.some.inj h)
    exact ⟨trivial, rfl, fun hlive => Bool.and_eq_true_iff.mpr ⟨hlive, rfl⟩⟩
  | draw g =>
    obtain ⟨rfl, rfl⟩ := Prod.mk.inj (Option.some.inj h)
    exact ⟨trivial, (List.append_nil _).symm, fun hlive => Bool.and_eq_true_iff.mpr ⟨hlive, rfl⟩⟩
  | revise position revision =>
    obtain ⟨rfl, rfl⟩ := Prod.mk.inj (Option.some.inj h)
    exact ⟨trivial, (List.append_nil _).symm, fun hlive => Bool.and_eq_true_iff.mpr ⟨hlive, rfl⟩⟩
  | deliver d =>
    have h : w.deliver s d = (r, after) := Option.some.inj h
    have hafter : after.log = w.log ∧ after.clock = w.clock := by
      unfold deliver at h
      split at h <;> (obtain ⟨-, rfl⟩ := Prod.mk.inj h; exact ⟨rfl, rfl⟩)
    refine ⟨trivial, hafter.1.trans (List.append_nil _).symm, fun hlive => ?_⟩
    rw [hafter.2] at hlive
    exact Bool.and_eq_true_iff.mpr ⟨hlive, rfl⟩

end World

/-- A scripted run is a run, in the context that it is played in, and its events are the calls that
the driver is told about. -/
theorem Program.play_run {α : Type} {s : Script} {c : Context} {p : Program α} {w after : World}
    {result : Except Error α} (h : p.play s c w = some (result, after)) :
    ∃ log, p.Run log result ∧ Conducted (c.isLive w.clock) log ∧
      after.log = w.log ++ events log := by
  induction p generalizing w with
  | done a =>
    obtain ⟨rfl, rfl⟩ := Prod.mk.inj (Option.some.inj h)
    exact ⟨[], .done a, trivial, (List.append_nil _).symm⟩
  | fail e =>
    obtain ⟨rfl, rfl⟩ := Prod.mk.inj (Option.some.inj h)
    exact ⟨[], .fail e, trivial, (List.append_nil _).symm⟩
  | call call next ih =>
    simp only [play] at h
    cases hanswer : w.answer s c call with
    | none => simp [hanswer] at h
    | some reply =>
      obtain ⟨r, then'⟩ := reply
      simp only [hanswer] at h
      obtain ⟨log, hrun, hconducted, hlog⟩ := ih r h
      obtain ⟨hadmits, hsent, hdone⟩ := World.answer_exchange hanswer
      refine ⟨⟨call, c.isLive w.clock, r⟩ :: log, .call _ r hrun, ⟨id, hadmits, ?_⟩, ?_⟩
      · cases hthen : c.isLive then'.clock with
        | true => exact hdone hthen ▸ hthen ▸ hconducted
        | false => exact (hthen ▸ hconducted).of_done
      · rw [hlog, hsent, List.append_assoc]
        simp only [events, ← List.filterMap_append, ← received_append, List.singleton_append]

end EntityGraph
