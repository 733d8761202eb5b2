import EntityGraph.Proofs.Relational.LinkColumns
import EntityGraph.Proofs.Transaction.Endings

/-!
# Programs that share a database

Several programs run on one database. Each statement is carried out at once, those of different
programs follow each other in any order, and every statement sees what the others have written,
whether it has been committed or not. What each program has written is remembered as the databases
before and after its statements; when it is rolled back, that is taken back, and nothing else.

For a column whose links the statements preserve, a state is consistent if every link that a program
has set and not taken back is there, and no two programs have set the link of the same row. A step
keeps that, and so does a run.
-/

set_option autoImplicit false

namespace EntityGraph

open Program

/-- An ID that is drawn, or that an INSERT returns, is there. -/
def Call.TellsId : (c : Call) → c.Reply → Prop
  | .draw _, (v : Value) => v.isNull = false
  | .query _ (.insert _), (.done rows : Outcome Rows) =>
    ∀ v, rows.firstValue? = some v → v.isNull = false
  | _, _ => True

/-- A statement that is carried out, and sets the link of a row that had none. -/
structure Exchange.Sets (E : Engine) (S : Schema) (f : LinkColumn) (x : Exchange) (t v : Value) :
    Prop where
  statement : ∃ c, x.call.statement? = some c
  succeeds : x.succeeds = true
  changes : ∀ db db', db.Obeys E S.keys →
    x.call.Records E S x.reply ⟨db, none⟩ ⟨db', none⟩ → ∃ old, f.Changes E db db' t old v

/-- A database that programs share. -/
structure Shared (ι : Type) where
  current : Database
  /-- The calls that each program has made. -/
  log : ι → List Exchange
  /-- The database before and after each of a program's statements that has not been taken back. -/
  images : ι → List (Database × Database)

namespace Shared

variable {ι : Type}

/-- A program has changed the link of a row. -/
def Changed (E : Engine) (f : LinkColumn) (s : Shared ι) (i : ι) (t old new : Value) : Prop :=
  ∃ image ∈ s.images i, f.Changes E image.1 image.2 t old new

/-- A program has added a row. -/
def Added (E : Engine) (f : LinkColumn) (s : Shared ι) (i : ι) (t : Value) : Prop :=
  ∃ image ∈ s.images i, f.Adds E image.1 image.2 t

/-- A row becomes another when a program's writes are taken back: a link that the program has
changed gets an old value, any other stays. -/
structure Restores (E : Engine) (f : LinkColumn) (s : Shared ι) (i : ι) (r r' : Tuple) : Prop where
  sameId : f.SameId E r r'
  link : (∃ new, s.Changed E f i (r f.id) (r' f.column) new) ∨
    (∀ old new, ¬s.Changed E f i (r f.id) old new) ∧ r' f.column = r f.column

/-- A program's own writes are taken back, and nothing else is changed. A row that the program has
added goes, unless another program has written to it. (No program deletes rows here.) -/
structure TakenBack (E : Engine) (S : Schema) (f : LinkColumn) (s : Shared ι) (i : ι)
    (db : Database) : Prop where
  obeys : db.Obeys E S.keys
  stays : ∀ r ∈ f.rows s.current, (∃ r' ∈ f.rows db, s.Restores E f i r r') ∨
    s.Added E f i (r f.id) ∧ ∀ j, j ≠ i → ∀ old new, ¬s.Changed E f j (r f.id) old new
  comes : ∀ r' ∈ f.rows db, ∃ r ∈ f.rows s.current, s.Restores E f i r r'

/-- A program goes on with a call. An ID that the reply tells is there. -/
structure Continues (p : ι → Program Value) (s : Shared ι) (i : ι) (x : Exchange) : Prop where
  run : ∃ rest result, (p i).Run (s.log i ++ x :: rest) result
  tellsId : x.call.TellsId x.reply

variable [DecidableEq ι] (E : Engine) (S : Schema) (f : LinkColumn) (p : ι → Program Value)

/-- A step of one of the programs. A statement is carried out as a whole; if the reply does not say
that it was, it may have been all the same. -/
inductive Step : Shared ι → ι → Exchange → Shared ι → Prop
  | carriedOut {s : Shared ι} {i : ι} {x : Exchange} {c : Command} {r : x.call.Reply}
      {db : Database} (continues : s.Continues p i x) (statement : x.call.statement? = some c)
      (effect : x.call.Records E S r ⟨s.current, none⟩ ⟨db, none⟩)
      (succeeds : x.call.succeeds r = true) (reply : x.succeeds = true → r = x.reply) :
      Step s i x
        { current := db
          log := Function.update s.log i (s.log i ++ [x])
          images := Function.update s.images i (s.images i ++ [(s.current, db)]) }
  | idle {s : Shared ι} {i : ι} {x : Exchange} (continues : s.Continues p i x)
      (idle : x.call.isStatement = true ∨ x.call = .rollback → x.succeeds = false) :
      Step s i x { s with log := Function.update s.log i (s.log i ++ [x]) }
  | takenBack {s : Shared ι} {i : ι} {x : Exchange} {db : Database}
      (continues : s.Continues p i x) (givesUp : x.GivesUp)
      (takenBack : s.TakenBack E S f i db) :
      Step s i x
        { current := db
          log := Function.update s.log i (s.log i ++ [x])
          images := Function.update s.images i [] }

/-- The states that the programs can reach together from a database that keeps its keys. -/
inductive Reached : Shared ι → Prop
  | start {db : Database} (obeys : db.Obeys E S.keys) : Reached ⟨db, fun _ => [], fun _ => []⟩
  | step {s s' : Shared ι} {i : ι} {x : Exchange} (reached : Reached s)
      (step : Step E S f p s i x s') : Reached s'

end Shared

/-- The statement preserves links in every database that keeps its keys. -/
def Command.Preserves (E : Engine) (S : Schema) (f : LinkColumn) (c : Command) : Prop :=
  ∀ db db', db.Obeys E S.keys → c.Effect E S db db' → f.Preserves E db db'

section Invariants

variable {ι : Type} {E : Engine} {S : Schema} {f : LinkColumn} {p : ι → Program Value}
  {s s' : Shared ι} {i j : ι} {x : Exchange} {t t' v w old new : Value}

/-- A link that changes from none is one. -/
theorem Value.isNull_of_ne (hold : old.isNull = true) (hne : old ≠ new) : new.isNull = false := by
  rw [Bool.eq_false_iff]
  intro hnew
  exact hne ((Value.eq_null_of_isNull hold).trans (Value.eq_null_of_isNull hnew).symm)

theorem LinkColumn.HasLink.congr {db : Database} (h : f.HasLink E db t v)
    (ht : E.equal t t' = true) : f.HasLink E db t' v := by
  obtain ⟨r, hr, hrt, hv⟩ := h
  exact ⟨r, hr, Engine.equal_trans hrt ht, hv⟩

theorem Shared.Changed.congr (h : s.Changed E f i t old new) (ht : E.equal t t' = true) :
    s.Changed E f i t' old new := by
  obtain ⟨image, himage, hold, hnew, hne⟩ := h
  exact ⟨image, himage, hold.congr ht, hnew.congr ht, hne⟩

namespace Shared

/-- Every link that a program has set is there, and no other program has set it. -/
structure Consistent (E : Engine) (S : Schema) (f : LinkColumn) (s : Shared ι) : Prop where
  obeys : s.current.Obeys E S.keys
  written : ∀ i t old new, s.Changed E f i t old new →
    old.isNull = true ∧ f.HasLink E s.current t new
  owner : ∀ i j t old new old' new', s.Changed E f i t old new → s.Changed E f j t old' new' →
    i = j

variable [DecidableEq ι]

/-- What a further statement has changed. -/
theorem changed_append {db : Database} {log : ι → List Exchange} :
    Changed E f ⟨db, log, Function.update s.images i (s.images i ++ [(s.current, db)])⟩ j t old
      new ↔ s.Changed E f j t old new ∨ j = i ∧ f.Changes E s.current db t old new := by
  unfold Changed
  by_cases hj : j = i
  · subst hj
    simp [or_and_right, exists_or]
  · simp [hj]

/-- What is left of what has been changed when one program's writes are taken back. -/
theorem changed_takenBack {db : Database} {log : ι → List Exchange} :
    Changed E f ⟨db, log, Function.update s.images i []⟩ j t old new ↔
      j ≠ i ∧ s.Changed E f j t old new := by
  unfold Changed
  by_cases hj : j = i
  · subst hj
    simp
  · simp [hj]

/-- A statement that preserves links keeps a state consistent. -/
theorem Consistent.carriedOut {c : Command} {db : Database} {log : ι → List Exchange}
    (h : s.Consistent E S f) (hf : f.IsDeclared S) (hpreserves : c.Preserves E S f)
    (heffect : c.Effect E S s.current db) :
    Consistent E S f ⟨db, log, Function.update s.images i (s.images i ++ [(s.current, db)])⟩ := by
  have hkept := hpreserves _ _ h.obeys heffect
  -- a link that has been set before is not set once more
  have hfresh : ∀ {j t old new old' new'}, s.Changed E f j t old new →
      ¬f.Changes E s.current db t old' new' := by
    intro j t old new old' new' hchanged hchanges
    obtain ⟨hold, hlink⟩ := h.written j t old new hchanged
    obtain ⟨-, -, -, -, hne⟩ := hchanged
    have hnull := hkept.isNull hf heffect.obeys hchanges
    rw [← hlink.unique hf h.obeys hchanges.1, Value.isNull_of_ne hold hne] at hnull
    cases hnull
  refine ⟨heffect.obeys, fun j t old new hchanged => ?_, ?_⟩
  · rcases changed_append.mp hchanged with hbefore | ⟨-, hchanges⟩
    · obtain ⟨hold, hlink⟩ := h.written j t old new hbefore
      obtain ⟨-, -, -, -, hne⟩ := hbefore
      exact ⟨hold, hkept.hasLink (Value.isNull_of_ne hold hne) hlink⟩
    · exact ⟨hkept.isNull hf heffect.obeys hchanges, hchanges.2.1⟩
  · intro j k t old new old' new' hchanged hchanged'
    rcases changed_append.mp hchanged with hbefore | ⟨rfl, hchanges⟩
    · rcases changed_append.mp hchanged' with hbefore' | ⟨-, hchanges'⟩
      · exact h.owner j k t old new old' new' hbefore hbefore'
      · exact absurd hchanges' (hfresh hbefore)
    · rcases changed_append.mp hchanged' with hbefore' | ⟨rfl, -⟩
      · exact absurd hchanges (hfresh hbefore')
      · rfl

/-- Taking one program's writes back keeps a state consistent. -/
theorem Consistent.takenBack {db : Database} {log : ι → List Exchange} (h : s.Consistent E S f)
    (htaken : s.TakenBack E S f i db) :
    Consistent E S f ⟨db, log, Function.update s.images i []⟩ := by
  refine ⟨htaken.obeys, fun j t old new hchanged => ?_, ?_⟩
  · obtain ⟨hj, hbefore⟩ := changed_takenBack.mp hchanged
    obtain ⟨hold, r, hr, ht, hnew⟩ := h.written j t old new hbefore
    refine ⟨hold, ?_⟩
    have hrow := hbefore.congr (Engine.equal_symm ht)
    rcases htaken.stays r hr with ⟨r', hr', hsame, ⟨_, hown⟩ | ⟨-, hkept⟩⟩ | ⟨-, hothers⟩
    · exact absurd (h.owner _ _ _ _ _ _ _ hrow hown) hj
    · exact ⟨r', hr', hsame.equal ht, hkept.trans hnew⟩
    · exact absurd hrow (hothers j hj old new)
  · intro j k t old new old' new' hchanged hchanged'
    exact h.owner j k t old new old' new' (changed_takenBack.mp hchanged).2
      (changed_takenBack.mp hchanged').2

/-- A step whose statement preserves links. -/
theorem Consistent.step (h : s.Consistent E S f) (hf : f.IsDeclared S)
    (hx : ∀ c, x.call.statement? = some c → c.Preserves E S f) (hstep : Step E S f p s i x s') :
    s'.Consistent E S f := by
  cases hstep with
  | carriedOut _ statement effect succeeds =>
    exact h.carriedOut hf (hx _ statement) (effect.effect statement succeeds)
  | idle => exact ⟨h.obeys, h.written, h.owner⟩
  | takenBack _ _ htaken => exact h.takenBack htaken

/-- A node's link does not become another one. It is lost at most, where the writes of a program are
taken back. -/
theorem Consistent.link_kept (h : s.Consistent E S f) (hf : f.IsDeclared S)
    (hx : ∀ c, x.call.statement? = some c → c.Preserves E S f) (hstep : Step E S f p s i x s')
    (hv : f.HasLink E s.current t v) (hnull : v.isNull = false)
    (hw : f.HasLink E s'.current t w) : w = v ∨ x.GivesUp ∧ w.isNull = true := by
  cases hstep with
  | carriedOut _ statement effect succeeds =>
    have heffect := effect.effect statement succeeds
    have hkept := hx _ statement _ _ h.obeys heffect
    exact .inl (hw.unique hf heffect.obeys (hkept.hasLink hnull hv))
  | idle => exact .inl (hw.unique hf h.obeys hv)
  | takenBack _ givesUp htaken =>
    obtain ⟨r, hr, ht, rfl⟩ := hv
    obtain ⟨r', hr', ht', rfl⟩ := hw
    obtain ⟨q, hq, hsame, hlink⟩ := htaken.comes r' hr'
    have hqt : E.equal (q f.id) t = true := by
      rcases hsame with hsame | hsame
      · rwa [← hsame]
      · exact Engine.equal_trans hsame ht'
    obtain rfl := LinkColumn.eq_of_equal hf h.obeys hr hq ht hqt
    rcases hlink with ⟨_, hown⟩ | ⟨-, hkept⟩
    · exact .inr ⟨givesUp, (h.written _ _ _ _ hown).1⟩
    · exact .inl hkept

/-- What the statements of a program have set is among its changes, as long as it has not given
up. -/
def RemembersLinks (E : Engine) (S : Schema) (f : LinkColumn) (s : Shared ι) : Prop :=
  ∀ i, (∀ x ∈ s.log i, ¬x.GivesUp) → ∀ x ∈ s.log i, ∀ t v, x.Sets E S f t v →
    ∃ old, s.Changed E f i t old v

/-- The call of a step is added to the log of its program. -/
theorem Step.log_cases (h : Step E S f p s i x s') (j : ι) :
    (j = i ∧ s'.log j = s.log j ++ [x]) ∨ (j ≠ i ∧ s'.log j = s.log j) := by
  have hlog : s'.log = Function.update s.log i (s.log i ++ [x]) := by
    cases h <;> rfl
  rw [hlog]
  by_cases hj : j = i
  · subst hj
    exact .inl ⟨rfl, Function.update_self ..⟩
  · exact .inr ⟨hj, Function.update_of_ne hj ..⟩

/-- What a program has changed stays changed until it gives up. -/
theorem Step.changed (hstep : Step E S f p s i x s') (hj : j ≠ i ∨ ¬x.GivesUp)
    (h : s.Changed E f j t old new) : s'.Changed E f j t old new := by
  cases hstep with
  | carriedOut => exact changed_append.mpr (.inl h)
  | idle => exact h
  | takenBack _ givesUp _ =>
    exact changed_takenBack.mpr ⟨hj.resolve_right (not_not_intro givesUp), h⟩

/-- A step that sets a link changes it. -/
theorem Step.changed_of_sets (hstep : Step E S f p s i x s') (hs : s.current.Obeys E S.keys)
    (hgoes : ¬x.GivesUp) (h : x.Sets E S f t v) : ∃ old, s'.Changed E f i t old v := by
  cases hstep with
  | carriedOut _ _ effect _ reply =>
    obtain rfl := reply h.succeeds
    obtain ⟨old, hchanges⟩ := h.changes _ _ hs effect
    exact ⟨old, changed_append.mpr (.inr ⟨rfl, hchanges⟩)⟩
  | idle _ hidle =>
    obtain ⟨c, hc⟩ := h.statement
    have hstatement : x.call.isStatement = true := by
      cases hcall : x.call <;> rw [hcall] at hc <;> first | rfl | cases hc
    have hfails := hidle (.inl hstatement)
    rw [h.succeeds] at hfails
    cases hfails
  | takenBack _ givesUp _ => exact absurd givesUp hgoes

theorem RemembersLinks.step (h : s.RemembersLinks E S f) (hs : s.Consistent E S f)
    (hstep : Step E S f p s i x s') : s'.RemembersLinks E S f := by
  intro j hgoes y hy t v hsets
  rcases hstep.log_cases j with ⟨rfl, hlog⟩ | ⟨hj, hlog⟩
  · rw [hlog] at hgoes hy
    have hx := hgoes x (by simp)
    rcases List.mem_append.mp hy with hy | hy
    · obtain ⟨old, hchanged⟩ :=
        h j (fun z hz => hgoes z (List.mem_append_left _ hz)) y hy t v hsets
      exact ⟨old, hstep.changed (.inr hx) hchanged⟩
    · obtain rfl := List.mem_singleton.mp hy
      exact hstep.changed_of_sets hs.obeys hx hsets
  · rw [hlog] at hgoes hy
    obtain ⟨old, hchanged⟩ := h j hgoes y hy t v hsets
    exact ⟨old, hstep.changed (.inl hj) hchanged⟩

/-! ## Runs -/

theorem Step.continues (h : Step E S f p s i x s') : s.Continues p i x := by
  cases h <;> assumption

/-- A call that has been made stays in the log. -/
theorem Step.log_subset (h : Step E S f p s i x s') (j : ι) : s.log j ⊆ s'.log j := by
  rcases h.log_cases j with ⟨-, hlog⟩ | ⟨-, hlog⟩
  · rw [hlog]
    exact List.subset_append_left _ _
  · rw [hlog]
    exact List.Subset.refl _

/-- The call of a step is in the log. -/
theorem Step.mem_log (h : Step E S f p s i x s') : x ∈ s'.log i := by
  rcases h.log_cases i with ⟨-, hlog⟩ | ⟨hi, -⟩
  · rw [hlog]
    exact List.mem_append_right _ List.mem_cons_self
  · exact absurd rfl hi

/-- What has been sent is the beginning of a run. -/
theorem Reached.run (h : Reached E S f p s) (i : ι) (hlog : s.log i ≠ []) :
    ∃ rest result, (p i).Run (s.log i ++ rest) result := by
  induction h with
  | start => exact absurd rfl hlog
  | @step s s' j x _ hstep ih =>
    rcases hstep.log_cases i with ⟨rfl, hnext⟩ | ⟨-, hsame⟩
    · obtain ⟨rest, result, hrun⟩ := hstep.continues.run
      refine ⟨rest, result, ?_⟩
      rwa [hnext, List.append_assoc, List.singleton_append]
    · rw [hsame] at hlog ⊢
      exact ih hlog

/-- All IDs that have been told are there. -/
theorem Reached.tellsId (h : Reached E S f p s) : ∀ x ∈ s.log i, x.call.TellsId x.reply := by
  induction h with
  | start => exact fun _ hx => absurd hx List.not_mem_nil
  | @step s s' j y _ hstep ih =>
    intro x hx
    rcases hstep.log_cases i with ⟨rfl, hnext⟩ | ⟨-, hsame⟩
    · rw [hnext] at hx
      rcases List.mem_append.mp hx with hx | hx
      · exact ih x hx
      · rw [List.mem_singleton.mp hx]
        exact hstep.continues.tellsId
    · rw [hsame] at hx
      exact ih x hx

/-- All that has been sent is among the statements that the programs issue. -/
theorem Reached.onlySends {P : Command → Prop} (h : Reached E S f p s) (hp : (p i).Issues P) :
    OnlySends P (s.log i) := by
  intro x hx
  obtain ⟨rest, result, hrun⟩ := h.run i (List.ne_nil_of_mem hx)
  exact hp.onlySends hrun x (List.mem_append_left rest hx)

/-- A state that is reached by statements which preserve links is consistent. -/
theorem Reached.consistent (h : Reached E S f p s) (hf : f.IsDeclared S)
    (hlog : ∀ i, OnlySends (Command.Preserves E S f) (s.log i)) :
    s.Consistent E S f ∧ s.RemembersLinks E S f := by
  induction h with
  | start obeys =>
    refine ⟨⟨obeys, ?_, ?_⟩, ?_⟩
    · rintro i t old new ⟨_, hnone, -⟩
      cases hnone
    · rintro i j t old new old' new' ⟨_, hnone, -⟩
      cases hnone
    · intro i _ x hx
      cases hx
  | step _ hstep ih =>
    obtain ⟨hconsistent, hremembers⟩ := ih fun i x hx => hlog i x (hstep.log_subset i hx)
    exact ⟨hconsistent.step hf (hlog _ _ hstep.mem_log) hstep, hremembers.step hconsistent hstep⟩

end Shared

end Invariants

end EntityGraph
