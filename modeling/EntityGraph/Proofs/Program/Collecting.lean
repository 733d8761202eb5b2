import EntityGraph.Proofs.Program.Answered
import EntityGraph.Proofs.Program.Orderly

/-!
# Programs whose deliveries are collected

A program that collects what another delivers makes the other's calls but for the deliveries, and
its state answers these. `run_collecting` says this for all runs; `collecting_bind` and the lemmas
with it compute what is collected by composed programs. Two programs that deliver the same things in
different forms can be collected into states of different types, which `Program.Mimics` relates.
-/

set_option autoImplicit false

namespace EntityGraph

/-- The things that are handed to the caller in a run. -/
def deliveries (log : List Exchange) : List Delivery := log.flatMap fun x => x.call.delivered

theorem deliveries_append (log log' : List Exchange) :
    deliveries (log ++ log') = deliveries log ++ deliveries log' := List.flatMap_append

theorem deliveries_cons (x : Exchange) (log : List Exchange) :
    deliveries (x :: log) = x.call.delivered ++ deliveries log := rfl

theorem deliveries_flatten (logs : List (List Exchange)) :
    deliveries logs.flatten = logs.flatMap deliveries := by
  induction logs with
  | nil => rfl
  | cons log logs ih => rw [List.flatten_cons, deliveries_append, ih, List.flatMap_cons]

theorem deliveries_of_calls {log : List Exchange} {ds : List Delivery}
    (h : log.map Exchange.call = ds.map Call.deliver) : deliveries log = ds := by
  induction log generalizing ds with
  | nil =>
    cases ds with
    | nil => rfl
    | cons d ds => cases h
  | cons x log ih =>
    cases ds with
    | nil => cases h
    | cons d ds =>
      obtain ⟨hx, hlog⟩ := List.cons.inj h
      rw [deliveries_cons, hx]
      exact congrArg (d :: ·) (ih hlog)

/-- A run without what is handed to the caller. -/
def exchanged (log : List Exchange) : List Exchange :=
  log.filter fun x => x.call.delivered.isEmpty

/-- A caller that takes what it is handed into its state, or refuses it. -/
def Answering.taking {σ : Type} (absorb : σ → Delivery → Except Error σ) : Answering σ
  | .deliver d, (r : Except Error Unit), s, s' =>
    (r = .ok () ∧ absorb s d = .ok s') ∨ ∃ e, r = .error e ∧ absorb s d = .error e ∧ s' = s
  | _, _, s, s' => s' = s

section Taking

variable {σ : Type} {A : σ → Delivery → Except Error σ} {s s' : σ} {c : Call} {r : c.Reply}

/-- Calls that deliver nothing are of no concern to the caller. -/
theorem taking_of_silent (hc : c.delivered = []) : Answering.taking A c r s s' ↔ s' = s := by
  cases c with
  | deliver d => cases hc
  | _ => rfl

theorem exchanged_cons_of_silent (hc : c.delivered = []) (live : Bool) (log : List Exchange) :
    exchanged (⟨c, live, r⟩ :: log) = ⟨c, live, r⟩ :: exchanged log :=
  List.filter_cons_of_pos (by simp [hc])

/-- A caller who has refused nothing has taken everything, in its order. -/
theorem foldlM_of_answered {d : Dialect} {log : List Exchange}
    (h : AnsweredBy (.taking A) s log s') (hsmooth : Program.Smooth d log) :
    (deliveries log).foldlM A s = .ok s' := by
  induction log generalizing s with
  | nil =>
    obtain rfl : s' = s := h
    rfl
  | cons x log ih =>
    obtain ⟨mid, hx, hrest⟩ := h
    obtain ⟨hfirst, hlog⟩ := List.forall_mem_cons.mp hsmooth
    obtain ⟨call, live, reply⟩ := x
    by_cases hc : call.delivered = []
    · obtain rfl := (taking_of_silent hc).mp hx
      rw [deliveries_cons, hc]
      exact ih hrest hlog
    · cases call with
      | deliver dl =>
        rcases hx with ⟨-, htake⟩ | ⟨e, rfl, -, -⟩
        · show A s dl >>= (deliveries log).foldlM A = _
          rw [htake]
          exact ih hrest hlog
        · cases hfirst
      | _ => exact absurd rfl hc

end Taking

namespace Program

variable {α β σ τ : Type} {A : σ → Delivery → Except Error σ} {B : τ → Delivery → Except Error τ}
  {s : σ} {φ : σ → τ}

/-! ## What is collected -/

@[simp]
theorem collecting_done (a : α) : collecting A s (.done a) = .done (a, s) := rfl

@[simp]
theorem collecting_fail (e : Error) : collecting A s (.fail e : Program α) = .fail e := rfl

/-- A call that delivers nothing is made. -/
theorem collecting_call {c : Call} (hc : c.delivered = []) (next : c.Reply → Program α) :
    collecting A s (.call c next) = .call c fun r => collecting A s (next r) := by
  cases c with
  | deliver d => cases hc
  | _ => rfl

theorem collecting_bind (p : Program α) (f : α → Program β) (s : σ) :
    collecting A s (p >>= f) = collecting A s p >>= fun r => collecting A r.2 (f r.1) := by
  induction p generalizing s with
  | done a => rfl
  | fail e => rfl
  | call c next ih =>
    by_cases hc : c.delivered = []
    · rw [call_bind, collecting_call hc, collecting_call hc, call_bind]
      exact congrArg (Program.call c) (funext fun r => ih r s)
    · cases c with
      | deliver d =>
        rw [call_bind, collecting, collecting]
        cases A s d with
        | ok t => exact ih _ t
        | error e => exact ih _ s
      | _ => exact absurd rfl hc

@[simp]
theorem collecting_ofExcept (x : Except Error α) :
    collecting A s (ofExcept x) = (fun a => (a, s)) <$> ofExcept x := by
  cases x <;> rfl

theorem collecting_query (conn : Connection) (c : Command) :
    collecting A s (conn.query c) = (fun rows => (rows, s)) <$> conn.query c := by
  refine (collecting_call (c := .query conn.inside c) rfl _).trans ?_
  refine congrArg (Program.call (.query conn.inside c)) (funext fun r => ?_)
  cases (r : Outcome Rows) <;> rfl

theorem collecting_deliver (d : Delivery) :
    collecting A s (deliver d) = (fun t => ((), t)) <$> ofExcept (A s d) := by
  show collecting A s (.call (.deliver d) _) = _
  rw [collecting]
  cases A s d <;> rfl

/-- What is delivered in a loop is taken one after the other. -/
theorem collecting_forM_deliver {ι : Type} (f : ι → Delivery) (xs : List ι) (s : σ) :
    collecting A s (xs.forM fun x => deliver (f x)) =
      (fun t => ((), t)) <$> ofExcept (xs.foldlM (fun s x => A s (f x)) s) := by
  induction xs generalizing s with
  | nil => rfl
  | cons x xs ih =>
    show collecting A s (deliver (f x) >>= fun _ => xs.forM fun x => deliver (f x)) = _
    rw [collecting_bind, collecting_deliver, List.foldlM_cons]
    cases A s (f x) with
    | ok t => exact ih t
    | error e => rfl

/-- Programs that differ only in what is done with results that they cannot have are the same. -/
theorem bind_congr_of_run {p : Program α} {f g : α → Program β}
    (h : ∀ log a, p.Run log (.ok a) → f a = g a) : (p >>= f) = p >>= g := by
  induction p with
  | done a => exact h [] a (.done a)
  | fail e => rfl
  | call c next ih =>
    rw [call_bind, call_bind]
    refine congrArg (Program.call c) (funext fun r => ih r fun log a hrun => ?_)
    exact h _ a (.call true r hrun)

/-! ## The same things in different forms -/

/-- What the one program delivers, taken into its state, corresponds to what the other delivers,
taken into its own. -/
def Mimics (A : σ → Delivery → Except Error σ) (B : τ → Delivery → Except Error τ) (φ : σ → τ)
    (p p' : Program α) : Prop :=
  ∀ s, collecting B (φ s) p' = (fun r => (r.1, φ r.2)) <$> collecting A s p

theorem Mimics.bind {p p' : Program α} {f f' : α → Program β} (hp : Mimics A B φ p p')
    (hf : ∀ a, Mimics A B φ (f a) (f' a)) : Mimics A B φ (p >>= f) (p' >>= f') := by
  intro s
  rw [collecting_bind, collecting_bind, hp, map_bind, bind_map_left]
  exact bind_congr fun r => hf r.1 r.2

theorem mimics_done (a : α) : Mimics A B φ (.done a) (.done a) := fun _ => rfl

theorem mimics_ofExcept (x : Except Error α) : Mimics A B φ (ofExcept x) (ofExcept x) := by
  intro s
  rw [collecting_ofExcept, collecting_ofExcept, Functor.map_map]

theorem mimics_query (conn : Connection) (c : Command) :
    Mimics A B φ (conn.query c) (conn.query c) := by
  intro s
  rw [collecting_query, collecting_query, Functor.map_map]

theorem mimics_deliver {d d' : Delivery} (h : ∀ s, B (φ s) d' = φ <$> A s d) :
    Mimics A B φ (deliver d) (deliver d') := by
  intro s
  rw [collecting_deliver, collecting_deliver, h]
  cases A s d <;> rfl

theorem mimics_mapM {ι : Type} {f f' : ι → Program α} (h : ∀ x, Mimics A B φ (f x) (f' x))
    (xs : List ι) : Mimics A B φ (xs.mapM f) (xs.mapM f') := by
  induction xs with
  | nil => exact mimics_done []
  | cons x xs ih =>
    rw [List.mapM_cons, List.mapM_cons]
    exact (h x).bind fun _ => ih.bind fun _ => mimics_done _

/-! ## Runs -/

/-- A run of a program whose deliveries are collected is a run of the program without them, in which
they are taken into the state. -/
theorem run_collecting {p : Program α} {log : List Exchange} {x : Except Error (α × σ)} :
    (collecting A s p).Run log x ↔ ∃ log' y s', p.Run log' y ∧
      AnsweredBy (.taking A) s log' s' ∧ log = exchanged log' ∧ x = y.map fun a => (a, s') := by
  induction p generalizing s log x with
  | done a =>
    constructor
    · intro h
      obtain ⟨rfl, rfl⟩ := run_done.mp h
      exact ⟨[], .ok a, s, .done a, rfl, rfl, rfl⟩
    · rintro ⟨log', y, s', hrun, hanswered, rfl, rfl⟩
      obtain ⟨rfl, rfl⟩ := run_done.mp hrun
      obtain rfl : s' = s := hanswered
      exact .done _
  | fail e =>
    constructor
    · intro h
      obtain ⟨rfl, rfl⟩ := run_fail.mp h
      exact ⟨[], .error e, s, .fail e, rfl, rfl, rfl⟩
    · rintro ⟨log', y, s', hrun, hanswered, rfl, rfl⟩
      obtain ⟨rfl, rfl⟩ := run_fail.mp hrun
      exact .fail e
  | call c next ih =>
    by_cases hc : c.delivered = []
    · rw [collecting_call hc, run_call]
      constructor
      · rintro ⟨live, r, rest, rfl, h⟩
        obtain ⟨log', y, s', hrun, hanswered, rfl, rfl⟩ := (ih r).mp h
        refine ⟨⟨c, live, r⟩ :: log', y, s', .call live r hrun, ⟨s, ?_, hanswered⟩, ?_, rfl⟩
        · exact (taking_of_silent hc).mpr rfl
        · exact (exchanged_cons_of_silent hc live log').symm
      · rintro ⟨log', y, s', hrun, hanswered, rfl, rfl⟩
        obtain ⟨live, r, rest, rfl, hrest⟩ := run_call.mp hrun
        obtain ⟨mid, hmid, hrest'⟩ := hanswered
        obtain rfl := (taking_of_silent hc).mp hmid
        refine ⟨live, r, exchanged rest, exchanged_cons_of_silent hc live rest, ?_⟩
        exact (ih r).mpr ⟨rest, y, s', hrest, hrest', rfl, rfl⟩
    · cases c with
      | deliver d =>
        constructor
        · intro h
          rw [collecting] at h
          cases hd : A s d with
          | ok t =>
            rw [hd] at h
            obtain ⟨log', y, s', hrun, hanswered, rfl, rfl⟩ := (ih _).mp h
            exact ⟨⟨.deliver d, true, .ok ()⟩ :: log', y, s', .call true _ hrun,
              ⟨t, .inl ⟨rfl, hd⟩, hanswered⟩, rfl, rfl⟩
          | error e =>
            rw [hd] at h
            obtain ⟨log', y, s', hrun, hanswered, rfl, rfl⟩ := (ih _).mp h
            exact ⟨⟨.deliver d, true, .error e⟩ :: log', y, s', .call true _ hrun,
              ⟨s, .inr ⟨e, rfl, hd, rfl⟩, hanswered⟩, rfl, rfl⟩
        · rintro ⟨log', y, s', hrun, hanswered, rfl, rfl⟩
          obtain ⟨live, r, rest, rfl, hrest⟩ := run_call.mp hrun
          obtain ⟨mid, hmid, hrest'⟩ := hanswered
          rw [collecting]
          rcases hmid with ⟨rfl, hd⟩ | ⟨e, rfl, hd, rfl⟩
          all_goals
            rw [hd]
            exact (ih _).mpr ⟨rest, y, s', hrest, hrest', rfl, rfl⟩
      | _ => exact absurd rfl hc

/-- A program that goes on with what it has collected. -/
theorem run_collected {p : Program α} {f : σ → Except Error β} {log : List Exchange}
    {x : Except Error β} :
    (collecting A s p >>= fun r => ofExcept (f r.2)).Run log x ↔ ∃ log' y s', p.Run log' y ∧
      AnsweredBy (.taking A) s log' s' ∧ log = exchanged log' ∧ x = y.bind fun _ => f s' := by
  rw [run_bind]
  constructor
  · rintro (⟨e, hfail, rfl⟩ | ⟨⟨a, t⟩, before, after, rfl, hp, hf⟩)
    · obtain ⟨log', y, s', hrun, hanswered, rfl, hy⟩ := run_collecting.mp hfail
      cases y with
      | ok a => cases hy
      | error e' =>
        obtain rfl := Except.error.inj hy
        exact ⟨log', _, s', hrun, hanswered, rfl, rfl⟩
    · obtain ⟨log', y, s', hrun, hanswered, rfl, hy⟩ := run_collecting.mp hp
      obtain ⟨rfl, rfl⟩ := run_ofExcept.mp hf
      cases y with
      | ok a' =>
        cases hy
        exact ⟨log', _, _, hrun, hanswered, List.append_nil _, rfl⟩
      | error e => cases hy
  · rintro ⟨log', y, s', hrun, hanswered, rfl, rfl⟩
    have hcollect := run_collecting.mpr ⟨log', y, s', hrun, hanswered, rfl, rfl⟩
    cases y with
    | ok a =>
      refine .inr ⟨(a, s'), exchanged log', [], (List.append_nil _).symm, hcollect, ?_⟩
      exact run_ofExcept.mpr ⟨rfl, rfl⟩
    | error e => exact .inl ⟨e, hcollect, rfl⟩

/-- An orderly program that has a result has not been refused anything. -/
theorem Orderly.smooth {conn : Connection} {p : Program α} {log : List Exchange} {a : α}
    (hp : p.Orderly conn) (h : p.Run log (.ok a)) : Smooth conn.dialect log := by
  rcases (hp.run h).2 with hsmooth | ⟨_, _, e, -, -, -, hfail⟩
  · exact hsmooth
  · cases hfail

/-! ## The same runs with other results -/

/-- Two programs make the same calls with the same replies, and their results are related. -/
structure Alike (R : Except Error α → Except Error α → Prop) (p p' : Program α) : Prop where
  left : ∀ log x, p.Run log x → ∃ y, p'.Run log y ∧ R x y
  right : ∀ log y, p'.Run log y → ∃ x, p.Run log x ∧ R x y

theorem alike_refl {R : Except Error α → Except Error α → Prop} (hR : ∀ x, R x x)
    (p : Program α) : Alike R p p :=
  ⟨fun _ x h => ⟨x, h, hR x⟩, fun _ y h => ⟨y, h, hR y⟩⟩

theorem alike_fail {R : Except Error α → Except Error α → Prop} {e e' : Error}
    (h : R (.error e) (.error e')) : Alike R (.fail e) (.fail e') := by
  constructor
  · intro log x hrun
    obtain ⟨rfl, rfl⟩ := run_fail.mp hrun
    exact ⟨_, .fail e', h⟩
  · intro log y hrun
    obtain ⟨rfl, rfl⟩ := run_fail.mp hrun
    exact ⟨_, .fail e, h⟩

/-- It is enough that what follows is alike for the results that there can be. -/
theorem alike_bind {R : Except Error β → Except Error β → Prop} (hR : ∀ x, R x x) {p : Program α}
    {f g : α → Program β} (h : ∀ log a, p.Run log (.ok a) → Alike R (f a) (g a)) :
    Alike R (p >>= f) (p >>= g) := by
  constructor
  · intro log x hrun
    rcases run_bind.mp hrun with ⟨e, hfail, rfl⟩ | ⟨a, before, after, rfl, hp, hf⟩
    · exact ⟨_, run_bind.mpr (.inl ⟨e, hfail, rfl⟩), hR _⟩
    · obtain ⟨y, hg, hxy⟩ := (h before a hp).left after x hf
      exact ⟨y, run_bind.mpr (.inr ⟨a, before, after, rfl, hp, hg⟩), hxy⟩
  · intro log y hrun
    rcases run_bind.mp hrun with ⟨e, hfail, rfl⟩ | ⟨a, before, after, rfl, hp, hg⟩
    · exact ⟨_, run_bind.mpr (.inl ⟨e, hfail, rfl⟩), hR _⟩
    · obtain ⟨x, hf, hxy⟩ := (h before a hp).right after y hg
      exact ⟨x, run_bind.mpr (.inr ⟨a, before, after, rfl, hp, hf⟩), hxy⟩

end Program

end EntityGraph
