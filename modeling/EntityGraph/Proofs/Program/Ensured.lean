import EntityGraph.Proofs.Program.Answered
import EntityGraph.Proofs.Program.Checks

/-!
# What a program is bound to do

`Program.Reaches` speaks of one run. `Program.Ensures` speaks of all of them: each call can be
answered, and however the calls are answered the program has a result, which has a property together
with the state that is left. Its lemmas take a program apart call by call, as those of
`Program.Reaches` take a run apart.
-/

set_option autoImplicit false

namespace EntityGraph

/-- The reply to a call tells of no failure. -/
def Call.IsDone : (c : Call) → c.Reply → Prop
  | .begin, (.done _ : Outcome Unit) => True
  | .exec _ _, (.done _ : Outcome ExecResult) => True
  | .query _ _, (.done _ : Outcome Rows) => True
  | .commit, .ok _ => True
  | .rollback, .ok _ => True
  | .check, .ok _ => True
  | .deliver _, .ok _ => True
  | .draw _, _ => True
  | .revise _ _, _ => True
  | _, _ => False

/-- In these surroundings no call fails. -/
def Answering.Succeeds {σ : Type} (R : Answering σ) : Prop :=
  ∀ c r s s', R c r s s' → c.IsDone r

variable {σ : Type} {R : Answering σ} {s : σ} {α β : Type}

namespace Program

/-- Each call of a program can be answered, and however they are answered it has a result, which has
a property together with the state afterwards. -/
def Ensures (R : Answering σ) : Program α → σ → (α → σ → Prop) → Prop
  | .done a, s, Q => Q a s
  | .fail _, _, _ => False
  | .call c next, s, Q =>
    (∃ r s', R c r s s') ∧ ∀ r s', R c r s s' → (next r).Ensures R s' Q

variable {p : Program α} {Q Q' : α → σ → Prop}

/-- There is a run whose calls are answered. -/
theorem Ensures.exists_run (h : p.Ensures R s Q) : ∃ a s', p.Reaches R s a s' ∧ Q a s' := by
  induction p generalizing s with
  | done a => exact ⟨a, s, reaches_done.mpr ⟨rfl, rfl⟩, h⟩
  | fail e => exact absurd h id
  | call c next ih =>
    obtain ⟨⟨r, mid, hanswer⟩, hall⟩ := h
    obtain ⟨a, s', hreaches, hQ⟩ := ih r (hall r mid hanswer)
    exact ⟨a, s', reaches_call.mpr ⟨r, mid, hanswer, hreaches⟩, hQ⟩

/-- Every run whose calls are answered has a result with the property. -/
theorem Ensures.of_run {log : List Exchange} {result : Except Error α} {s' : σ}
    (h : p.Ensures R s Q) (hrun : p.Run log result) (hlog : AnsweredBy R s log s') :
    ∃ a, result = .ok a ∧ Q a s' := by
  induction p generalizing s log with
  | done a =>
    obtain ⟨rfl, rfl⟩ := run_done.mp hrun
    obtain rfl : s' = s := hlog
    exact ⟨a, rfl, h⟩
  | fail e => exact absurd h id
  | call c next ih =>
    obtain ⟨live, r, rest, rfl, hnext⟩ := run_call.mp hrun
    obtain ⟨mid, hanswer, hrest⟩ := hlog
    exact ih r (h.2 r mid hanswer) hnext hrest

theorem Ensures.mono (h : p.Ensures R s Q) (hQ : ∀ a s', Q a s' → Q' a s') :
    p.Ensures R s Q' := by
  induction p generalizing s with
  | done a => exact hQ a s h
  | fail e => exact h
  | call c next ih => exact ⟨h.1, fun r s' hanswer => ih r (h.2 r s' hanswer)⟩

theorem ensures_bind {f : α → Program β} {Q : β → σ → Prop} :
    (p >>= f).Ensures R s Q ↔ p.Ensures R s fun a s' => (f a).Ensures R s' Q := by
  induction p generalizing s with
  | done a => exact Iff.rfl
  | fail e => exact Iff.rfl
  | call c next ih =>
    refine and_congr_right fun _ => forall_congr' fun r => forall_congr' fun s' => ?_
    exact imp_congr_right fun _ => ih r

theorem ensures_ofExcept {x : Except Error α} {a : α} (hx : x = .ok a) (h : Q a s) :
    (ofExcept x).Ensures R s Q := by
  rw [hx]
  exact h

theorem ensures_discard {Q : Unit → σ → Prop} :
    (discard p).Ensures R s Q ↔ p.Ensures R s fun _ s' => Q () s' :=
  ensures_bind (f := fun _ => Program.done PUnit.unit)

/-- A loop keeps an invariant that each of its rounds keeps. -/
theorem ensures_forM {f : α → Program PUnit} {xs : List α} (I : List α → σ → Prop)
    (hf : ∀ before x after, xs = before ++ x :: after → ∀ s, I before s →
      (f x).Ensures R s fun _ s' => I (before ++ [x]) s')
    (hs : I [] s) : (xs.forM f).Ensures R s fun _ s' => I xs s' := by
  have hloop : ∀ after before s, xs = before ++ after → I before s →
      (after.forM f).Ensures R s fun _ s' => I xs s' := by
    intro after
    induction after with
    | nil =>
      intro before s hsplit hI
      rw [hsplit, List.append_nil]
      exact hI
    | cons x after ih =>
      intro before s hsplit hI
      refine (ensures_bind (p := f x) (f := fun _ => after.forM f)).mpr ?_
      refine (hf before x after hsplit s hI).mono fun _ s' hI' => ?_
      exact ih (before ++ [x]) s' (by rw [hsplit]; simp) hI'
  exact hloop xs [] s rfl hs

/-- What is decided for each member of a list, without a call. -/
theorem ensures_mapM_ofExcept {g : α → Except Error β} {l : List α} {out : List β}
    {Q : List β → σ → Prop} (hl : List.Forall₂ (fun a b => g a = .ok b) l out) (h : Q out s) :
    (l.mapM fun a => ofExcept (g a)).Ensures R s Q := by
  induction hl generalizing Q with
  | nil => exact h
  | @cons a b l out hab _ ih =>
    rw [List.mapM_cons]
    refine ensures_bind.mpr (ensures_ofExcept hab ?_)
    exact ensures_bind.mpr (ih h)

/-! ## Statements -/

section Statements

variable {conn : Connection}

/-- A reply that is settled has to be the result of a call. -/
theorem ensures_settle {A : Outcome α → σ → Prop} (hA : ∀ o s', A o s' → ∃ a, o = .done a)
    {d : Dialect} :
    ((∃ o s', A o s') ∧ ∀ o s', A o s' → (Connection.settle d o).Ensures R s' Q) ↔
      (∃ a s', A (.done a) s') ∧ ∀ a s', A (.done a) s' → Q a s' := by
  constructor
  · rintro ⟨⟨o, s', hanswer⟩, hall⟩
    obtain ⟨a, rfl⟩ := hA o s' hanswer
    exact ⟨⟨a, s', hanswer⟩, fun a s' hanswer => hall _ s' hanswer⟩
  · rintro ⟨⟨a, s', hanswer⟩, hall⟩
    refine ⟨⟨_, s', hanswer⟩, fun o s' hanswer => ?_⟩
    obtain ⟨a, rfl⟩ := hA o s' hanswer
    exact hall a s' hanswer

variable (hR : R.Succeeds)

include hR

theorem ensures_exec {c : Command} {Q : ExecResult → σ → Prop} :
    (conn.exec c).Ensures R s Q ↔
      (∃ r s', R (.exec conn.inside c) (.done r : Outcome ExecResult) s s') ∧
        ∀ r s', R (.exec conn.inside c) (.done r : Outcome ExecResult) s s' → Q r s' := by
  refine ensures_settle (A := fun o => R (.exec conn.inside c) o s) fun o s' hanswer => ?_
  have hdone := hR _ _ _ _ hanswer
  cases o with
  | done r => exact ⟨r, rfl⟩
  | failed f => exact absurd hdone id
  | interrupted why => exact absurd hdone id

theorem ensures_query {c : Command} {Q : Rows → σ → Prop} :
    (conn.query c).Ensures R s Q ↔
      (∃ r s', R (.query conn.inside c) (.done r : Outcome Rows) s s') ∧
        ∀ r s', R (.query conn.inside c) (.done r : Outcome Rows) s s' → Q r s' := by
  refine ensures_settle (A := fun o => R (.query conn.inside c) o s) fun o s' hanswer => ?_
  have hdone := hR _ _ _ _ hanswer
  cases o with
  | done r => exact ⟨r, rfl⟩
  | failed f => exact absurd hdone id
  | interrupted why => exact absurd hdone id

end Statements

/-! ## Transactions -/

theorem Ensures.attempt {Q : Except Error α → σ → Prop}
    (h : p.Ensures R s fun a s' => Q (.ok a) s') : p.attempt.Ensures R s Q := by
  induction p generalizing s with
  | done a => exact h
  | fail e => exact absurd h id
  | call c next ih => exact ⟨h.1, fun r s' hanswer => ih r (h.2 r s' hanswer)⟩

/-- An operation inside a transaction is bound to what its body is bound to, if the transaction can
be opened and committed around it. -/
theorem ensures_transaction (hR : R.Succeeds) {d : Dialect} {body : Connection → Program α}
    (hbegin : ∃ opened, R .begin (.done () : Outcome Unit) s opened)
    (hbody : ∀ opened, R .begin (.done () : Outcome Unit) s opened →
      (body ⟨d, true⟩).Ensures R opened fun a written =>
        (∃ mid, R .check (.ok () : Except Interruption Unit) written mid) ∧
        ∀ mid, R .check (.ok () : Except Interruption Unit) written mid →
          (∃ s', R .commit (.ok () : Except Failure Unit) mid s') ∧
          ∀ s', R .commit (.ok () : Except Failure Unit) mid s' → Q a s') :
    (Connection.run d true body).Ensures R s Q := by
  refine ⟨?_, fun reply opened hanswer => ?_⟩
  · obtain ⟨opened, hopened⟩ := hbegin
    exact ⟨_, opened, hopened⟩
  · have hdone := hR _ _ _ _ hanswer
    cases reply with
    | failed f => exact absurd hdone id
    | interrupted why => exact absurd hdone id
    | done _ =>
      show ((body ⟨d, true⟩).attempt >>= Connection.finish d).Ensures R opened Q
      refine ensures_bind.mpr (Ensures.attempt ((hbody opened hanswer).mono ?_))
      rintro a written ⟨⟨mid, hmid⟩, hcheck⟩
      refine ⟨⟨_, mid, hmid⟩, fun live mid hlive => ?_⟩
      have hdone := hR _ _ _ _ hlive
      cases live with
      | error why => exact absurd hdone id
      | ok _ =>
        obtain ⟨⟨s', hs'⟩, hcommit⟩ := hcheck mid hlive
        refine ⟨⟨_, s', hs'⟩, fun reply s' hreply => ?_⟩
        have hdone := hR _ _ _ _ hreply
        cases reply with
        | error f => exact absurd hdone id
        | ok _ => exact hcommit s' hreply

end Program

end EntityGraph
