import EntityGraph.Proofs.Graph.EdgesReadBack
import EntityGraph.Proofs.Graph.LinkingRuns

/-!
# The first writer keeps a link

Operations that link rows to their nodes over one column run on a shared database, in any
interleaving of their statements. Three things hold together: a link is only set where there is
none, an operation fails if it has not linked all of its targets, and a transaction that fails takes
its links back. So a link that an operation has set is there and belongs to no other operation
(`Shared.Consistent`), and an operation that has committed has set the links of all its targets.
-/

set_option autoImplicit false

namespace EntityGraph

open Program

variable {ι : Type} [DecidableEq ι] {E : Engine} {S : Schema} {f : LinkColumn} {d : Dialect}
  {ops : ι → LinkingOperation} {s s' : Shared ι} {i : ι} {x : Exchange}

namespace Shared

/-- A program has committed. -/
def Commits (s : Shared ι) (i : ι) : Prop :=
  ∃ x ∈ s.log i, x.call = .commit ∧ x.succeeds = true

/-- The statements of operations that link rows preserve links, if they let rows keep their IDs. -/
theorem Reached.preserves (h : Reached E S f (fun i => (ops i).program d) s) (hf : f.IsDeclared S)
    (hops : (ops i).WritesByLinks f) (hids : OnlySends (Command.KeepsIds E S f) (s.log i)) :
    OnlySends (Command.Preserves E S f) (s.log i) :=
  fun x hx c hc => (h.onlySends hops.issues_program x hx c hc).preserves hf (hids x hx c hc)

/-- An operation that has committed has a result, and it has set the links of all its targets. -/
theorem Reached.changed_of_commits (h : Reached E S f (fun i => (ops i).program d) s)
    (hf : f.IsDeclared S) (hops : (ops i).WritesByLinks f) (hlinks : s.RemembersLinks E S f)
    (hcommits : s.Commits i) :
    ∃ v, ((ops i).program d).Run (s.log i) (.ok v) ∧
      ∀ t ∈ (ops i).targets f, ∃ old, s.Changed E f i t old v := by
  obtain ⟨x, hx, hcommit, hsucceeds⟩ := hcommits
  obtain ⟨rest, result, hrun⟩ := h.run i (List.ne_nil_of_mem hx)
  obtain ⟨rfl, v, rfl⟩ := (LinkingOperation.endsLast hrun).committed hx hcommit hsucceeds
  rw [List.append_nil] at hrun
  refine ⟨v, hrun, fun t ht => ?_⟩
  obtain ⟨hmade, hid⟩ := LinkingOperation.run_ok hrun
  obtain ⟨e, he, ht⟩ := List.mem_flatMap.mp ht
  obtain ⟨he, hstored⟩ := List.mem_filter.mp he
  simp only [Bool.and_eq_true, beq_iff_eq] at hstored
  obtain ⟨⟨hforeign, htable⟩, hcolumns⟩ := hstored
  have htarget : e.target.id.column = f.id := by
    rcases hops.links e he hforeign htable with ⟨-, htarget⟩ | hother
    · exact htarget
    · exact absurd (columnName_plain hf.plain) (hother f.column (by simp [hcolumns]))
  obtain ⟨y, hy, hlinked⟩ := hmade e he hforeign (List.ne_nil_of_mem ht)
  exact hlinks i (LinkingOperation.endsLast hrun).not_givesUp y hy t v
    (hlinked.sets hf ⟨hforeign, htable, hcolumns⟩ htarget (hid h.tellsId) ht)

end Shared

/-- Links are kept by the operation that has set them first. After any step of operations that write
a column by links only, on a shared database whose rows keep the IDs by which targets are named: an
operation that commits has a result, and all of its targets are linked to its node; a link that was
there has not become another one, and it is only lost if the operation of the step gives its own
writes up; and of the operations with a common target one has committed at most. -/
theorem links_first_writer_wins (hf : f.IsDeclared S) (hops : ∀ j, (ops j).WritesByLinks f)
    (hreached : Shared.Reached E S f (fun j => (ops j).program d) s)
    (hstep : Shared.Step E S f (fun j => (ops j).program d) s i x s')
    (hids : ∀ j, OnlySends (Command.KeepsIds E S f) (s'.log j)) :
    (x.call = .commit → x.succeeds = true → ∃ v, ((ops i).program d).Run (s'.log i) (.ok v) ∧
      ∀ t ∈ (ops i).targets f, f.HasLink E s'.current t v) ∧
    (∀ t v w, f.HasLink E s.current t v → v.isNull = false → f.HasLink E s'.current t w →
      w = v ∨ x.GivesUp ∧ w.isNull = true) ∧
    ∀ j k, s'.Commits j → s'.Commits k → ∀ t ∈ (ops j).targets f, ∀ t' ∈ (ops k).targets f,
      t = t' ∨ E.equal t t' = true → j = k := by
  have hreached' := hreached.step hstep
  have hpreserves := fun j => hreached'.preserves hf (hops j) (hids j)
  obtain ⟨hconsistent, hremembers⟩ := hreached'.consistent hf hpreserves
  refine ⟨fun hcommit hsucceeds => ?_, fun t v w hv hnull hw => ?_, ?_⟩
  · obtain ⟨v, hrun, hlinks⟩ := hreached'.changed_of_commits hf (hops i) hremembers
      ⟨x, hstep.mem_log, hcommit, hsucceeds⟩
    refine ⟨v, hrun, fun t ht => ?_⟩
    obtain ⟨old, hchanged⟩ := hlinks t ht
    exact (hconsistent.written _ _ _ _ hchanged).2
  · obtain ⟨hbefore, -⟩ :=
      hreached.consistent hf fun j y hy => hpreserves j y (hstep.log_subset j hy)
    exact hbefore.link_kept hf (hpreserves i x hstep.mem_log) hstep hv hnull hw
  · intro j k hj hk t ht t' ht' hsame
    obtain ⟨v, -, hlinks⟩ := hreached'.changed_of_commits hf (hops j) hremembers hj
    obtain ⟨v', -, hlinks'⟩ := hreached'.changed_of_commits hf (hops k) hremembers hk
    obtain ⟨old, hchanged⟩ := hlinks t ht
    obtain ⟨old', hchanged'⟩ := hlinks' t' ht'
    have hchanged : s'.Changed E f j t' old v := by
      rcases hsame with rfl | hequal
      · exact hchanged
      · exact hchanged.congr hequal
    exact hconsistent.owner _ _ _ _ _ _ _ hchanged hchanged'

/-- The references of users to their parents. -/
def parentLinks : LinkColumn := ⟨"users", "id", "parent_id"⟩

/-- The first and the third user are both to have the second as a child. -/
def adoptions (first : Bool) : LinkingOperation :=
  let parent : Field := { column := "id", type := .int, value := .int (if first then 1 else 3) }
  .update { NodeUpdate.ofNode (.ofTable "users" parent) with
    edges := { add := [childEdge [.int 2]], clear := [] } }

/-- Three users without parents. -/
def orphans : Database :=
  familyDatabase [userRow (.int 1) .null .null, userRow (.int 2) .null .null,
    userRow (.int 3) .null .null] []

/-- The first user has got the second as a child. -/
def secondAdopted : Database :=
  (ForeignKey.linking (.int 1) "parent_id" (childEdge [.int 2])).applied keyEngine orphans

/-- The UPDATE for the third user has followed. -/
def secondKept : Database :=
  (ForeignKey.linking (.int 3) "parent_id" (childEdge [.int 2])).applied keyEngine secondAdopted

/-- The question whether a user is there. -/
def askUser (id : Int64) : Exchange :=
  ⟨.query true (.anyRow ((Selector.ofTable "users").filter (.eq "id" (.int id)))), true,
    (.done ⟨["exists"], [[.int 1]]⟩ : Outcome Rows)⟩

/-- The UPDATE that makes the second user a child. -/
def adoptSecond (parent : Int64) (rows : Nat) : Exchange :=
  ⟨.exec true (.update (ForeignKey.linking (.int parent) "parent_id" (childEdge [.int 2]))), true,
    (.done ⟨rows, none⟩ : Outcome ExecResult)⟩

/-- What each of them does if the first user is faster. -/
def adoptionRun : Bool → List Exchange
  | true => [⟨.begin, true, (.done () : Outcome Unit)⟩, askUser 1, adoptSecond 1 1,
      ⟨.check, true, (.ok () : Except Interruption Unit)⟩,
      ⟨.commit, true, (.ok () : Except Failure Unit)⟩]
  | false => [⟨.begin, true, (.done () : Outcome Unit)⟩, askUser 3, adoptSecond 3 0,
      ⟨.rollback, true, (.ok () : Except Failure Unit)⟩]

theorem adoptions_run (first : Bool) :
    ∃ result, ((adoptions first).program .sqlite).Run (adoptionRun first) result := by
  cases first with
  | true =>
    refine ⟨.ok (.int 1), ?_⟩
    apply Run.call
    apply Run.call
    apply Run.call
    apply Run.call
    apply Run.call
    exact .done _
  | false =>
    refine ⟨.error (LinkConflict.targetsTaken [.int 2] "parent_id").toError, ?_⟩
    apply Run.call
    apply Run.call
    apply Run.call
    apply Run.call
    exact .fail _

/-- A state in which the first user has made some calls, and the third some others. -/
structure AdoptionsAt (s : Shared Bool) (db : Database) (made : Nat × Nat) : Prop where
  reached : Shared.Reached keyEngine friendsSchema parentLinks
    (fun j => (adoptions j).program .sqlite) s
  current : s.current = db
  log : ∀ j, s.log j = (adoptionRun j).take (if j then made.1 else made.2)

/-- One of them makes the next call, which changes nothing or is a statement that is carried out. -/
theorem AdoptionsAt.next {s : Shared Bool} {db : Database} {made : Nat × Nat}
    (h : AdoptionsAt s db made) (j : Bool) {x : Exchange} (db' : Database) (made' : Nat × Nat)
    (hx : (adoptionRun j)[if j then made.1 else made.2]? = some x)
    (hmade : made' = if j then (made.1 + 1, made.2) else (made.1, made.2 + 1))
    (htells : x.call.TellsId x.reply)
    (heffect : (x.call.isStatement = false ∧ x.call ≠ .rollback ∧ db' = db) ∨
      ∃ c, x.call.statement? = some c ∧ x.succeeds = true ∧
        x.call.Records keyEngine friendsSchema x.reply ⟨db, none⟩ ⟨db', none⟩) :
    ∃ s', Shared.Step keyEngine friendsSchema parentLinks (fun j => (adoptions j).program .sqlite)
      s j x s' ∧ AdoptionsAt s' db' made' := by
  have hcontinues : s.Continues (fun j => (adoptions j).program .sqlite) j x := by
    obtain ⟨result, hrun⟩ := adoptions_run j
    obtain ⟨hlength, rfl⟩ := List.getElem?_eq_some_iff.mp hx
    refine ⟨⟨(adoptionRun j).drop ((if j then made.1 else made.2) + 1), result, ?_⟩, htells⟩
    rwa [h.log, ← List.drop_eq_getElem_cons hlength, List.take_append_drop]
  have hat : ∀ {s' : Shared Bool}, Shared.Step keyEngine friendsSchema parentLinks
      (fun j => (adoptions j).program .sqlite) s j x s' → s'.current = db' →
        AdoptionsAt s' db' made' := by
    intro s' hstep hcurrent
    refine ⟨h.reached.step hstep, hcurrent, fun k => ?_⟩
    rcases hstep.log_cases k with ⟨rfl, hlog⟩ | ⟨hk, hlog⟩
    · have hnext : (if k then made'.1 else made'.2) = (if k then made.1 else made.2) + 1 := by
        rw [hmade]
        cases k <;> rfl
      rw [hlog, hnext, List.take_add_one, hx, h.log]
      rfl
    · have hsame : (if k then made'.1 else made'.2) = if k then made.1 else made.2 := by
        rw [hmade]
        cases k <;> cases j <;> first | rfl | exact absurd rfl hk
      rw [hlog, hsame, h.log]
  rcases heffect with ⟨hquiet, hback, rfl⟩ | ⟨c, hc, hsucceeds, hrecords⟩
  · have hstep := Shared.Step.idle (E := keyEngine) (S := friendsSchema) (f := parentLinks)
      hcontinues fun hloud => (hloud.elim (fun h => absurd h (Bool.eq_false_iff.mp hquiet))
        fun h => absurd h hback)
    exact ⟨_, hstep, hat hstep h.current⟩
  · rw [← h.current] at hrecords
    have hstep := Shared.Step.carriedOut (f := parentLinks) hcontinues hc hrecords hsucceeds
      fun _ => rfl
    exact ⟨_, hstep, hat hstep rfl⟩

theorem adoptions_writesByLinks (j : Bool) : (adoptions j).WritesByLinks parentLinks := by
  refine ⟨by cases j <;> rfl, fun e he _ _ => ?_, by cases j <;> decide⟩
  have he : e ∈ [childEdge [.int 2]] := by cases j <;> exact he
  rw [List.mem_singleton.mp he]
  exact .inl ⟨rfl, rfl⟩

theorem adoptions_keepIds (j : Bool) :
    OnlySends (Command.KeepsIds keyEngine friendsSchema parentLinks) (adoptionRun j) := by
  have hask : ∀ id c, (askUser id).call.statement? = some c →
      c.KeepsIds keyEngine friendsSchema parentLinks := by
    intro id c hc
    rw [← Option.some.inj hc]
    trivial
  have hlink : ∀ parent n c, (adoptSecond parent n).call.statement? = some c →
      c.KeepsIds keyEngine friendsSchema parentLinks := by
    intro parent n c hc
    rw [← Option.some.inj hc]
    have hspared : ∀ c ∈ ["parent_id"], columnName c ≠ "id" := by decide
    intro _ db r _
    exact .inl (Update.assigned_of_ne
      (u := ForeignKey.linking (.int parent) "parent_id" (childEdge [.int 2])) hspared r)
  cases j with
  | true =>
    exact List.forall_mem_cons.mpr ⟨nofun, List.forall_mem_cons.mpr ⟨hask 1,
      List.forall_mem_cons.mpr ⟨hlink 1 1, List.forall_mem_cons.mpr ⟨nofun,
        List.forall_mem_singleton.mpr nofun⟩⟩⟩⟩
  | false =>
    exact List.forall_mem_cons.mpr ⟨nofun, List.forall_mem_cons.mpr ⟨hask 3,
      List.forall_mem_cons.mpr ⟨hlink 3 0, List.forall_mem_singleton.mpr nofun⟩⟩⟩

/-- The second user is asked for by both, and the first one gets the child before the third can. -/
theorem links_first_writer_wins_adoptions :
    ∃ s s' : Shared Bool, ∃ x : Exchange, x.call = .commit ∧ Shared.Step keyEngine friendsSchema
      parentLinks (fun j => (adoptions j).program .sqlite) s true x s' ∧
        parentLinks.HasLink keyEngine s'.current (.int 2) (.int 1) ∧
          ∀ j, s'.Commits j → j = true := by
  have hobeys : orphans.Obeys keyEngine friendsSchema.keys := by decide
  have hselector : ∀ id, (Selector.ofTable "users").filter (.eq "id" (.int id)) =
      ⟨[], .table "users" none, [], some (.eq "id" (.int id)), [], none, none, false, false⟩ :=
    fun _ => rfl
  have hpresent : ∀ id, (orphans (nameParts "users")).rows.any
      (orphans.meets keyEngine "users" (some (.eq "id" (.int id)))) = true →
        (Command.anyRow ((Selector.ofTable "users").filter (.eq "id" (.int id)))).Returns keyEngine
          orphans ⟨["exists"], [[.int 1]]⟩ := by
    intro id hfound
    unfold Command.Returns
    dsimp only
    rw [hselector, isEmpty_outRows_table, hfound]
    rfl
  have hfirst : 1 ≤ ((ForeignKey.linking (.int 1) "parent_id" (childEdge [.int 2])).reached
      keyEngine orphans).length := by decide
  have hstart : AdoptionsAt ⟨orphans, fun _ => [], fun _ => []⟩ orphans (0, 0) :=
    ⟨.start hobeys, rfl, fun j => by cases j <;> rfl⟩
  obtain ⟨s₁, -, h₁⟩ := hstart.next true orphans (1, 0) rfl rfl trivial (.inl ⟨rfl, nofun, rfl⟩)
  obtain ⟨s₂, -, h₂⟩ := h₁.next false orphans (1, 1) rfl rfl trivial (.inl ⟨rfl, nofun, rfl⟩)
  obtain ⟨s₃, -, h₃⟩ := h₂.next true orphans (2, 1) (x := askUser 1) rfl rfl trivial
    (.inr ⟨_, rfl, rfl, ⟨rfl, hpresent 1 (by decide), hobeys, rfl⟩, trivial⟩)
  obtain ⟨s₄, -, h₄⟩ := h₃.next false orphans (2, 2) (x := askUser 3) rfl rfl trivial
    (.inr ⟨_, rfl, rfl, ⟨rfl, hpresent 3 (by decide), hobeys, rfl⟩, trivial⟩)
  obtain ⟨s₅, -, h₅⟩ := h₄.next true secondAdopted (3, 2) (x := adoptSecond 1 1) rfl rfl trivial
    (.inr ⟨_, rfl, rfl, ⟨⟨by decide, rfl⟩, hfirst, by decide, rfl⟩, trivial⟩)
  obtain ⟨s₆, -, h₆⟩ := h₅.next false secondKept (3, 3) (x := adoptSecond 3 0) rfl rfl trivial
    (.inr ⟨_, rfl, rfl, ⟨⟨by decide, rfl⟩, Nat.zero_le _, by decide, rfl⟩, trivial⟩)
  obtain ⟨s₇, -, h₇⟩ := h₆.next true secondKept (4, 3) rfl rfl trivial (.inl ⟨rfl, nofun, rfl⟩)
  obtain ⟨s₈, hstep, h₈⟩ := h₇.next true secondKept (5, 3) rfl rfl trivial (.inl ⟨rfl, nofun, rfl⟩)
  have hids : ∀ j, OnlySends (Command.KeepsIds keyEngine friendsSchema parentLinks) (s₈.log j) := by
    intro j y hy
    rw [h₈.log] at hy
    exact adoptions_keepIds j y (List.mem_of_mem_take hy)
  obtain ⟨hcommit, -, hone⟩ := links_first_writer_wins (f := parentLinks) ⟨by decide, by decide⟩
    adoptions_writesByLinks h₇.reached hstep hids
  have htarget : ∀ j, .int 2 ∈ (adoptions j).targets parentLinks := by
    intro j
    cases j <;> exact List.mem_cons_self
  refine ⟨s₇, s₈, _, rfl, hstep, ?_, fun j hj => ?_⟩
  · obtain ⟨v, hrun, hlinks⟩ := hcommit rfl rfl
    obtain ⟨id, _, _, -, hbind, hupdate⟩ := run_bind_ok.mp hrun
    obtain ⟨_, _, _, -, -, hdone⟩ := run_bind_ok.mp hupdate
    obtain rfl : v = id := Except.ok.inj (run_done.mp hdone).2
    obtain rfl : v = .int 1 := Except.ok.inj (run_ofExcept.mp hbind).2
    exact hlinks _ (htarget true)
  · exact hone j true hj ⟨_, hstep.mem_log, rfl, rfl⟩ _ (htarget j) _ (htarget true) (.inl rfl)

end EntityGraph
