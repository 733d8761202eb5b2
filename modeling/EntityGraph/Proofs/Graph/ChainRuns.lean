import Mathlib.Data.List.TakeWhile
import EntityGraph.Proofs.Graph.CreationTurns
import EntityGraph.Proofs.Graph.EdgesReadBack
import EntityGraph.Proofs.Graph.ReferenceOrder
import EntityGraph.Proofs.Transaction.SplitRuns

/-!
# Batches whose nodes refer to each other

The nodes of such a batch take turns in the order of their references. When it is the turn of a node,
the IDs of all nodes that it refers to are known from their own INSERTs, and they take the place of
the references. `BatchCreation.references_resolved` says so of every run, for arbitrary replies.
-/

set_option autoImplicit false

namespace EntityGraph

open Program

variable {conn : Connection} {b : BatchCreation} {c : NodeCreation} {log : List Exchange}

/-! ## References replaced by IDs -/

namespace Edge

/-- An edge whose references are replaced by IDs, which stand after its other targets. -/
def withIds (idOf : Nat → Value) (e : Edge) : Edge :=
  { e with target :=
    { e.target with nodes := e.target.nodes ++ e.target.pending.map idOf, pending := [] } }

theorem withIds_congr {idOf idOf' : Nat → Value} {e : Edge}
    (h : ∀ i ∈ e.target.pending, idOf i = idOf' i) : e.withIds idOf = e.withIds idOf' := by
  have hmap : e.target.pending.map idOf = e.target.pending.map idOf' := List.map_congr_left h
  simp only [withIds, hmap]

/-- References are resolved if all of them have an ID. -/
theorem resolve_complete {ids : List Value} {e : Edge} (h : (e.resolve ids).2 = true) :
    (e.resolve ids).1 = e.withIds (fun i => ids[i]?.getD .null) ∧
      ∀ i ∈ e.target.pending, (ids[i]?.getD .null).isNull = false := by
  have hall : (e.target.pending.map fun i => ids[i]?.getD .null).takeWhile (fun id => !id.isNull) =
      e.target.pending.map fun i => ids[i]?.getD .null := by
    refine (List.takeWhile_prefix _).eq_of_length ?_
    rw [List.length_map]
    exact eq_of_beq h
  refine ⟨?_, ?_⟩
  · simp only [resolve, hall, withIds]
  · intro i hi
    have hmem : ids[i]?.getD .null ∈ (e.target.pending.map fun i =>
        ids[i]?.getD .null).takeWhile fun id => !id.isNull := by
      rw [hall]
      exact List.mem_map.mpr ⟨i, hi, rfl⟩
    simpa using List.mem_takeWhile_imp hmem

theorem resolveAll_complete {ids : List Value} {edges : List Edge}
    (h : (resolveAll ids edges).2 = true) :
    (resolveAll ids edges).1 = edges.map (withIds fun i => ids[i]?.getD .null) ∧
      ∀ e ∈ edges, ∀ i ∈ e.target.pending, (ids[i]?.getD .null).isNull = false := by
  induction edges with
  | nil => simp [resolveAll]
  | cons e edges ih =>
    cases hresolve : e.resolve ids with
    | mk resolved complete =>
      cases complete with
      | false => simp [resolveAll, hresolve] at h
      | true =>
        simp only [resolveAll, hresolve] at h ⊢
        obtain ⟨hrest, hids⟩ := ih h
        have hcomplete : (e.resolve ids).2 = true := by rw [hresolve]
        obtain ⟨hfirst, hfirst'⟩ := resolve_complete hcomplete
        rw [hresolve] at hfirst
        refine ⟨by rw [List.map_cons, ← hfirst, hrest], ?_⟩
        intro f hf
        rcases List.mem_cons.mp hf with rfl | hf
        · exact hfirst'
        · exact hids f hf

end Edge

/-- A node of a batch with its references replaced by IDs. -/
def BatchCreation.resolved (b : BatchCreation) (idOf : Nat → Value) (c : NodeCreation) :
    NodeCreation :=
  { c with edges := c.edges.map (Edge.withIds idOf), policy := b.policy.or c.policy }

theorem BatchCreation.resolved_congr {idOf idOf' : Nat → Value}
    (h : ∀ i ∈ c.dependencies, idOf i = idOf' i) : b.resolved idOf c = b.resolved idOf' c := by
  have hedges : c.edges.map (Edge.withIds idOf) = c.edges.map (Edge.withIds idOf') := by
    refine List.map_congr_left fun e he => Edge.withIds_congr fun i hi => ?_
    exact h i (List.mem_flatMap.mpr ⟨e, he, hi⟩)
  simp only [resolved, hedges]

/-! ## One node -/

namespace BatchCreation

theorem createLink_eq {s : Chain} {i : Nat} (hc : b.nodes[i]? = some c) :
    createLink conn b s i =
      (Program.revise i (.edges (Edge.resolveAll s.ids c.edges).1) >>= fun _ =>
        if (Edge.resolveAll s.ids c.edges).2 then
          (liftM (PartnerClaim.addAll c.node s.claims (Edge.resolveAll s.ids c.edges).1) :
            Program (List PartnerClaim)) >>= fun claims =>
          b.policy.toList.forM (fun policy => Program.revise i (.policy policy)) >>= fun _ =>
          NodeCreation.write conn i
            { c with
              edges := (Edge.resolveAll s.ids c.edges).1
              policy := b.policy.or c.policy } >>= fun id =>
          pure { ids := s.ids.set i id, claims }
        else Program.fail (.notFound c.node.label)) := by
  unfold createLink
  rw [hc]
  dsimp only
  cases Edge.resolveAll s.ids c.edges with
  | mk edges complete => cases complete <;> rfl

/-- Every run of a node of a chain stops before it writes, or has a turn of the node in which its
references are resolved by the IDs that are known. -/
theorem run_createLink {s : Chain} {i : Nat} {result : Except Error Chain}
    (hc : b.nodes[i]? = some c) (h : (createLink conn b s i).Run log result) :
    (writing log = [] ∧ ∃ e, result = .error e) ∨ ∃ t : Turn, t.position = i ∧
      t.creation = b.resolved (fun i => s.ids[i]?.getD .null) c ∧
      (∀ i ∈ c.dependencies, (s.ids[i]?.getD .null).isNull = false) ∧ t.log = log ∧
      t.Conforms conn ∧ ∀ s', result = .ok s' →
        ∃ id, t.id = some id ∧ t.IsComplete conn ∧ s'.ids = s.ids.set i id := by
  rw [createLink_eq hc] at h
  obtain ⟨live, r, log₁, rfl, hrest⟩ := run_request.mp h
  have hfirst : ∀ more, writing (⟨.revise i (.edges (Edge.resolveAll s.ids c.edges).1), live, r⟩ ::
      more) = writing more := fun _ => rfl
  split at hrest
  case isFalse =>
    obtain ⟨rfl, rfl⟩ := run_fail.mp hrest
    exact .inl ⟨rfl, _, rfl⟩
  case isTrue hcomplete =>
    obtain ⟨hedges, hids⟩ := Edge.resolveAll_complete hcomplete
    rcases run_bind.mp hrest with ⟨e, hlift, rfl⟩ | ⟨claims, before, log₂, rfl, hlift, hpolicy⟩
    · obtain ⟨rfl, -⟩ := run_ofExcept.mp hlift
      exact .inl ⟨rfl, e, rfl⟩
    obtain ⟨rfl, -⟩ := run_ofExcept.mp hlift
    have hrevises : (b.policy.toList.forM fun policy =>
        Program.revise i (.policy policy)).WritesAtMost 0 :=
      writesAtMost_forM fun policy _ => writesAtMost_revise i (.policy policy)
    rcases run_bind.mp hpolicy with ⟨e, hrevise, rfl⟩ | ⟨_, revises, log₃, rfl, hrevise, hcreate⟩
    · left
      rw [hfirst, writing_append, hrevises.writing_eq_nil hrevise]
      exact ⟨rfl, e, rfl⟩
    have hquiet : writing (⟨.revise i (.edges (Edge.resolveAll s.ids c.edges).1), live, r⟩ ::
        ([] ++ revises)) = [] := by
      rw [hfirst, List.nil_append, hrevises.writing_eq_nil hrevise]
    have hdependencies : ∀ i ∈ c.dependencies, (s.ids[i]?.getD .null).isNull = false := by
      intro i hi
      obtain ⟨e, he, hi⟩ := List.mem_flatMap.mp hi
      exact hids e he i hi
    have hwritten : ∃ sent, (NodeCreation.write conn i
        { c with
          edges := (Edge.resolveAll s.ids c.edges).1
          policy := b.policy.or c.policy }).Run log₃ sent ∧
        ((∃ e, sent = .error e) → ∃ e, result = .error e) ∧
        ∀ s', result = .ok s' → ∃ id, sent = .ok id ∧ s'.ids = s.ids.set i id := by
      rcases run_bind.mp hcreate with ⟨e, hwrite, rfl⟩ | ⟨id, writes, rest, rfl, hwrite, hdone⟩
      · exact ⟨_, hwrite, fun _ => ⟨e, rfl⟩, nofun⟩
      · obtain ⟨rfl, rfl⟩ := run_done.mp hdone
        rw [List.append_nil]
        refine ⟨_, hwrite, nofun, ?_⟩
        rintro s' ⟨⟩
        exact ⟨id, rfl, rfl⟩
    obtain ⟨sent, hwrite, hfails, hresult⟩ := hwritten
    rcases NodeCreation.run_write hwrite with ⟨hnone, hfail⟩ | ⟨t, ht, hcreation, hlog, hconforms, hok⟩
    · left
      rw [← List.append_assoc, ← List.cons_append, writing_append, hquiet, hnone]
      exact ⟨rfl, hfails hfail⟩
    · right
      refine ⟨{ t with log := _ ++ t.log }, ht, ?_, hdependencies, ?_, hconforms.prepend hquiet, ?_⟩
      · rw [hcreation, hedges]
        rfl
      · rw [hlog, List.cons_append, List.append_assoc]
      · intro s' hs'
        obtain ⟨id, hid, hids⟩ := hresult s' hs'
        obtain ⟨hobtained, hcomplete⟩ := hok id hid
        exact ⟨id, hobtained, hcomplete, hids⟩

/-! ## A chain of nodes -/

/-- The IDs of nodes once some turns have been taken: those told by the turns, and those known
before. -/
def idsFrom (ids : List Value) (turns : List Turn) (i : Nat) : Value :=
  ((turns.find? fun t => t.position == i).bind Turn.id).getD (ids[i]?.getD .null)

/-- The IDs that turns have obtained. -/
def idsOf (turns : List Turn) (i : Nat) : Value :=
  ((turns.find? fun t => t.position == i).bind Turn.id).getD .null

theorem idsFrom_of_not_mem {ids : List Value} {turns : List Turn} {i : Nat}
    (hi : i ∉ turns.map Turn.position) : idsFrom ids turns i = ids[i]?.getD .null := by
  have hnone : turns.find? (fun t => t.position == i) = none := by
    rw [List.find?_eq_none]
    intro t ht hti
    exact hi (eq_of_beq hti ▸ List.mem_map_of_mem ht)
  rw [idsFrom, hnone]
  rfl

/-- The ID that the first of some turns obtains is known in the others. -/
theorem idsFrom_cons {ids : List Value} {t : Turn} {turns : List Turn} {id : Value}
    (hid : t.id = some id) (hlt : t.position < ids.length)
    (hnew : t.position ∉ turns.map Turn.position) :
    idsFrom ids (t :: turns) = idsFrom (ids.set t.position id) turns := by
  funext i
  by_cases hi : t.position = i
  · subst hi
    rw [idsFrom_of_not_mem hnew]
    simp [idsFrom, hid, hlt]
  · simp [idsFrom, hi]

/-- The nodes of a batch have taken turns in an order: each has sent what it has to, with its
references replaced by the IDs of the nodes they lead to, and all but the last to its end. -/
structure TakesTurns (b : BatchCreation) (conn : Connection) (idOf : Nat → Value)
    (order : List Nat) (turns : List Turn) : Prop where
  inOrder : turns.map Turn.position <+: order
  conforms : ∀ t ∈ turns, t.Conforms conn
  resolved : ∀ t ∈ turns, ∃ c, b.nodes[t.position]? = some c ∧ t.creation = b.resolved idOf c ∧
    ∀ i ∈ c.dependencies, (idOf i).isNull = false
  complete : ∀ t ∈ turns.dropLast, t.IsComplete conn

theorem takesTurns_nil (b : BatchCreation) (conn : Connection) (idOf : Nat → Value)
    (order : List Nat) : b.TakesTurns conn idOf order [] :=
  ⟨List.nil_prefix, by simp, by simp, by simp⟩

/-- A node whose references have been resolved by what was known takes the first turn. -/
theorem TakesTurns.cons {ids : List Value} {t : Turn} {turns : List Turn} {order : List Nat}
    (hrest : b.TakesTurns conn (idsFrom ids (t :: turns)) order turns)
    (hfresh : ∀ i ∈ t.position :: order, ids[i]?.getD .null = .null)
    (hnode : b.nodes[t.position]? = some c) (hconforms : t.Conforms conn)
    (hcreation : t.creation = b.resolved (fun i => ids[i]?.getD .null) c)
    (hids : ∀ i ∈ c.dependencies, (ids[i]?.getD .null).isNull = false)
    (hcomplete : turns ≠ [] → t.IsComplete conn) :
    b.TakesTurns conn (idsFrom ids (t :: turns)) (t.position :: order) (t :: turns) := by
  have hknown : ∀ i ∈ c.dependencies, ids[i]?.getD .null = idsFrom ids (t :: turns) i := by
    intro i hi
    refine (idsFrom_of_not_mem fun hmem => ?_).symm
    have hposition : i ∈ t.position :: order := by
      rcases List.mem_cons.mp hmem with rfl | hmem
      · exact List.mem_cons_self
      · exact List.mem_cons_of_mem _ (hrest.inOrder.subset hmem)
    have hpresent := hids i hi
    rw [hfresh i hposition] at hpresent
    cases hpresent
  refine ⟨List.cons_prefix_cons.mpr ⟨rfl, hrest.inOrder⟩, ?_, ?_, ?_⟩
  · exact List.forall_mem_cons.mpr ⟨hconforms, hrest.conforms⟩
  · refine List.forall_mem_cons.mpr ⟨⟨c, hnode, ?_, ?_⟩, hrest.resolved⟩
    · rw [hcreation]
      exact resolved_congr hknown
    · intro i hi
      rw [← hknown i hi]
      exact hids i hi
  · intro x hx
    by_cases hnone : turns = []
    · simp [hnone] at hx
    · rw [List.dropLast_cons_of_ne_nil hnone] at hx
      rcases List.mem_cons.mp hx with rfl | hx
      · exact hcomplete hnone
      · exact hrest.complete x hx

/-- Every run of a chain is a list of turns. -/
theorem run_chain {order : List Nat} {s : Chain} {result : Except Error Chain}
    (hnodup : order.Nodup) (hrange : ∀ i ∈ order, i < b.nodes.length)
    (hlength : s.ids.length = b.nodes.length)
    (hfresh : ∀ i ∈ order, s.ids[i]?.getD .null = .null)
    (h : (order.foldlM (createLink conn b) s).Run log result) :
    ∃ turns rest, log = turns.flatMap Turn.log ++ rest ∧ writing rest = [] ∧
      b.TakesTurns conn (idsFrom s.ids turns) order turns ∧
      ∀ s', result = .ok s' → turns.map Turn.position = order ∧
        (∀ t ∈ turns, t.IsComplete conn) ∧
        s'.ids = (List.range b.nodes.length).map (idsFrom s.ids turns) := by
  induction order generalizing s log with
  | nil =>
    obtain ⟨rfl, rfl⟩ := run_done.mp h
    refine ⟨[], [], rfl, rfl, takesTurns_nil _ _ _ _, ?_⟩
    rintro _ ⟨⟩
    refine ⟨rfl, by simp, ?_⟩
    rw [← hlength]
    apply List.ext_getElem
    · simp
    · intro i hi _
      simp [idsFrom, hi]
  | cons i order ih =>
    obtain ⟨hnew, hrestnodup⟩ := List.nodup_cons.mp hnodup
    have hi := hrange i List.mem_cons_self
    have hnode : b.nodes[i]? = some b.nodes[i] := List.getElem?_eq_getElem hi
    rw [List.foldlM_cons] at h
    have hnone (hquiet : writing log = []) (hfail : ∃ e, result = .error e) :
        ∃ turns rest, log = turns.flatMap Turn.log ++ rest ∧ writing rest = [] ∧
          b.TakesTurns conn (idsFrom s.ids turns) (i :: order) turns ∧
          ∀ s', result = .ok s' → turns.map Turn.position = i :: order ∧
            (∀ t ∈ turns, t.IsComplete conn) ∧
            s'.ids = (List.range b.nodes.length).map (idsFrom s.ids turns) := by
      obtain ⟨e, rfl⟩ := hfail
      exact ⟨[], log, rfl, hquiet, takesTurns_nil _ _ _ _, nofun⟩
    rcases run_bind.mp h with ⟨e, hlink, rfl⟩ | ⟨next, first, log', rfl, hlink, hrest⟩
    · rcases run_createLink hnode hlink with
        ⟨hquiet, -⟩ | ⟨t, rfl, hcreation, hids, hlog, hconforms, -⟩
      · exact hnone hquiet ⟨e, rfl⟩
      · refine ⟨[t], [], by simp [hlog], rfl, ?_, nofun⟩
        exact TakesTurns.cons (takesTurns_nil _ _ _ _) hfresh hnode hconforms hcreation hids
          (fun hne => absurd rfl hne)
    · rcases run_createLink hnode hlink with
        ⟨-, e, hfail⟩ | ⟨t, rfl, hcreation, hids, hlog, hconforms, hok⟩
      · cases hfail
      · obtain ⟨id, hid, hcomplete, hset⟩ := hok next rfl
        have hfresh' : ∀ j ∈ order, next.ids[j]?.getD .null = .null := by
          intro j hj
          have hne : t.position ≠ j := by
            rintro rfl
            exact hnew hj
          rw [hset, List.getElem?_set_ne hne]
          exact hfresh j (List.mem_cons_of_mem _ hj)
        obtain ⟨turns, rest, rfl, hquiet, hturns, hdone⟩ := ih hrestnodup
          (fun j hj => hrange j (List.mem_cons_of_mem _ hj)) (by rw [hset, List.length_set, hlength])
          hfresh' hrest
        have hknown : idsFrom s.ids (t :: turns) = idsFrom next.ids turns := by
          rw [hset]
          refine idsFrom_cons hid (hlength ▸ hi) fun hmem => ?_
          exact hnew (hturns.inOrder.subset hmem)
        rw [← hknown] at hturns hdone
        refine ⟨t :: turns, rest, by simp [hlog], hquiet, ?_, ?_⟩
        · exact hturns.cons hfresh hnode hconforms hcreation hids fun _ => hcomplete
        · intro s' hs'
          obtain ⟨hall, hcompletes, hresult⟩ := hdone s' hs'
          refine ⟨by rw [List.map_cons, hall], ?_, hresult⟩
          exact List.forall_mem_cons.mpr ⟨hcomplete, hcompletes⟩

/-- The turn of a node is found by its position. -/
theorem idsOf_eq {turns : List Turn} {t : Turn} {id : Value}
    (hnodup : (turns.map Turn.position).Nodup) (ht : t ∈ turns) (hid : t.id = some id) :
    idsOf turns t.position = id := by
  induction turns with
  | nil => cases ht
  | cons u turns ih =>
    obtain ⟨hnew, hrest⟩ := List.nodup_cons.mp hnodup
    rcases List.mem_cons.mp ht with rfl | ht
    · simp [idsOf, hid]
    · have hne : u.position ≠ t.position := by
        intro hsame
        exact hnew (hsame ▸ List.mem_map_of_mem ht)
      rw [← ih hrest ht]
      simp [idsOf, hne]

/-- The end of a transaction does not write, and it keeps the result. -/
theorem quiet_of_finish {α : Type} {d : Dialect} {outcome result : Except Error α}
    (h : (Connection.finish d outcome).Run log result) :
    writing log = [] ∧ ∀ a, result = .ok a → outcome = .ok a := by
  obtain ⟨hquiet, -, hdone⟩ := finish_concludes h
  exact ⟨writing_eq_nil_of_quiet hquiet, hdone⟩

/-- A batch with references runs as a chain, in one transaction. -/
theorem run_eq_of_references (d : Dialect) (hpending : ∃ c ∈ b.nodes, c.dependencies ≠ [])
    {result : Except Error (List Value)} (h : (b.run d).Run log result) :
    (log = [] ∧ ∃ e, result = .error e) ∨ ∃ order, b.order = .ok order ∧
      (Connection.run d true fun conn => createChain conn b order).Run log result := by
  obtain ⟨c, hc, hdependencies⟩ := hpending
  rw [Mutation.batch_run_eq] at h
  rcases run_bind.mp h with ⟨e, hplan, rfl⟩ | ⟨p, before, after, rfl, hplan, hrun⟩
  · exact .inl ⟨(run_ofExcept.mp hplan).1, e, rfl⟩
  · obtain ⟨rfl, hp⟩ := run_ofExcept.mp hplan
    cases Mutation.batch_planned hp.symm with
    | nothing hnone =>
      rw [hnone] at hc
      cases hc
    | chain _ _ horder => exact .inr ⟨_, horder, hrun⟩
    | bulk _ hdirect => exact absurd (hdirect c hc) hdependencies

/-- When a chain begins, no node of the batch has an ID. -/
theorem no_id_at_start (b : BatchCreation) (i : Nat) :
    (b.nodes.map fun _ => Value.null)[i]?.getD Value.null = Value.null := by
  rw [List.getElem?_map]
  cases b.nodes[i]? <;> rfl

theorem run_createChain {order : List Nat} {result : Except Error (List Value)}
    (hperm : order.Perm (List.range b.nodes.length))
    (h : (createChain conn b order).Run log result) :
    ∃ turns rest, log = turns.flatMap Turn.log ++ rest ∧ writing rest = [] ∧
      b.TakesTurns conn (idsOf turns) order turns ∧
      ∀ ids, result = .ok ids → turns.map Turn.position = order ∧
        (∀ t ∈ turns, t.IsComplete conn) ∧
        ids = (List.range b.nodes.length).map (idsOf turns) := by
  have hnodup : order.Nodup := hperm.nodup_iff.mpr List.nodup_range
  have hrange : ∀ i ∈ order, i < b.nodes.length := fun i hi =>
    List.mem_range.mp (hperm.mem_iff.mp hi)
  have hknown : ∀ turns, idsFrom (b.nodes.map fun _ => .null) turns = idsOf turns := by
    intro turns
    funext i
    rw [idsFrom, b.no_id_at_start, idsOf]
  have hchain : ∃ outcome, (order.foldlM (createLink conn b)
      ⟨b.nodes.map fun _ => .null, []⟩).Run log outcome ∧
      ∀ ids, result = .ok ids → ∃ s, outcome = .ok s ∧ s.ids = ids := by
    rcases run_bind.mp h with ⟨e, hfold, rfl⟩ | ⟨s, before, after, rfl, hfold, hdone⟩
    · exact ⟨_, hfold, nofun⟩
    · obtain ⟨rfl, rfl⟩ := run_done.mp hdone
      rw [List.append_nil]
      exact ⟨_, hfold, fun ids hids => ⟨s, rfl, Except.ok.inj hids⟩⟩
  obtain ⟨outcome, hfold, hresult⟩ := hchain
  obtain ⟨turns, rest, hlog, hquiet, hturns, hdone⟩ := run_chain hnodup hrange
    (by simp) (fun i _ => b.no_id_at_start i) hfold
  rw [hknown] at hturns hdone
  refine ⟨turns, rest, hlog, hquiet, hturns, ?_⟩
  intro ids hids
  obtain ⟨s, houtcome, rfl⟩ := hresult ids hids
  exact hdone s houtcome

/-- References to nodes of the same batch are resolved. Every run of a batch whose references lead to
its own nodes and not in a circle takes turns in the order of the references, which is that of the
least free node. In its turn a node is inserted, and its edges are written, with the IDs that the
nodes it refers to have obtained by their own INSERTs in the place of the references; these are not
NULL. If the batch has a result, each of its nodes has had its turn to the end, and the IDs are those
that the nodes have obtained, in the order of the batch. -/
theorem references_resolved {d : Dialect} {result : Except Error (List Value)}
    (hrange : CreationOrder.InRange b.references) (hacyclic : CreationOrder.Acyclic b.references)
    (hpending : ∃ c ∈ b.nodes, c.dependencies ≠ []) (h : (b.run d).Run log result) :
    ∃ order opening turns closing, b.order = .ok order ∧
      CreationOrder.InTurn b.references order ∧ order.Perm (List.range b.nodes.length) ∧
      log = opening ++ turns.flatMap Turn.log ++ closing ∧
      writing opening = [] ∧ writing closing = [] ∧
      b.TakesTurns ⟨d, true⟩ (idsOf turns) order turns ∧
      ∀ ids, result = .ok ids → turns.map Turn.position = order ∧
        ids = (List.range b.nodes.length).map (idsOf turns) ∧
        ∀ t ∈ turns, t.IsComplete ⟨d, true⟩ ∧ ids[t.position]? = t.id := by
  obtain ⟨order, horder, hturn, hperm⟩ := order_eq_ok hrange hacyclic
  rcases run_eq_of_references d hpending h with ⟨rfl, e, rfl⟩ | ⟨order', horder', hrun⟩
  · exact ⟨order, [], [], [], horder, hturn, hperm, rfl, rfl, rfl, takesTurns_nil _ _ _ _, nofun⟩
  obtain rfl : order = order' := Except.ok.inj (horder.symm.trans horder')
  rcases run_connection.mp hrun with ⟨live, r, e, rfl, -, rfl⟩ |
    ⟨live, inner, ending, outcome, rfl, hinner, hfinish⟩
  · exact ⟨order, [_], [], [], horder, hturn, hperm, rfl, rfl, rfl, takesTurns_nil _ _ _ _, nofun⟩
  obtain ⟨turns, rest, rfl, hquiet, hturns, hdone⟩ := run_createChain hperm hinner
  refine ⟨order, [⟨.begin, live, (.done () : Outcome Unit)⟩], turns, rest ++ ending, horder, hturn,
    hperm, by simp, rfl, ?_, hturns, ?_⟩
  · rw [writing_append, hquiet, (quiet_of_finish hfinish).1]
    rfl
  · rintro ids rfl
    obtain ⟨hall, hcomplete, hids⟩ := hdone ids ((quiet_of_finish hfinish).2 ids rfl)
    refine ⟨hall, hids, ?_⟩
    intro t ht
    have hlt : t.position < b.nodes.length := by
      refine List.mem_range.mp (hperm.mem_iff.mp ?_)
      rw [← hall]
      exact List.mem_map_of_mem ht
    obtain ⟨id, hid, -⟩ := hcomplete t ht
    have hnodup : (turns.map Turn.position).Nodup := by
      rw [hall]
      exact hperm.nodup_iff.mpr List.nodup_range
    refine ⟨hcomplete t ht, ?_⟩
    rw [hids, List.getElem?_map, List.getElem?_range hlt, Option.map_some,
      idsOf_eq hnodup ht hid, hid]

end BatchCreation

/-- A child that is listed before its parent, with whom it is friends, as with user 7. -/
def childAndParent : BatchCreation :=
  let parent : NodeCreation := .ofNode userNode
  let toParent (e : Edge) : Edge := { e with target := { e.target with pending := [1] } }
  { nodes :=
      [{ parent with
        edges := [toParent (Edge.manyToOne "users" "parent_id"), toParent (friendEdge [.int 7])] },
      parent]
    policy := none }

/-- A run that creates them, the parent first. -/
def childAndParentRun : List Exchange :=
  let noColumns : InsertStatement :=
    { table := "users", columns := [], rows := [], conflict := none, returning := ["id"] }
  let withParent : InsertStatement :=
    { noColumns with columns := ["parent_id"], rows := [[.int 1]] }
  let friends : InsertStatement :=
    { joinFriend with
      rows := [[.int 2, .int 7], [.int 7, .int 2], [.int 2, .int 1], [.int 1, .int 2]] }
  let returned (id : Int64) : Outcome Rows := .done ⟨["id"], [[.int id]]⟩
  let parentEdge := { Edge.manyToOne "users" "parent_id" with
    target := { nodes := [.int 1], id := ⟨"id", .int, .null⟩, fields := [], pending := [] } }
  [⟨.begin, true, (.done () : Outcome Unit)⟩, ⟨.revise 1 (.edges []), true, ()⟩,
    ⟨.query true (.insert noColumns), true, returned 1⟩, ⟨.revise 1 (.id (.int 1)), true, ()⟩,
    ⟨.revise 0 (.edges [parentEdge, friendEdge [.int 7, .int 1]]), true, ()⟩,
    ⟨.query true (.insert withParent), true, returned 2⟩, ⟨.revise 0 (.id (.int 2)), true, ()⟩,
    ⟨.exec true (.insert friends), true, (.done ⟨4, none⟩ : Outcome ExecResult)⟩,
    ⟨.check, true, (.ok () : Except Interruption Unit)⟩,
    ⟨.commit, true, (.ok () : Except Failure Unit)⟩]

theorem childAndParent_runs :
    (childAndParent.run .sqlite).Run childAndParentRun (.ok [.int 2, .int 1]) := by
  apply Run.call
  apply Run.call
  apply Run.call
  apply Run.call
  apply Run.call
  apply Run.call
  apply Run.call
  apply Run.call
  apply Run.call
  apply Run.call
  exact .done _

/-- The child refers to the parent only, which comes after it. -/
theorem childAndParent_references {i target : Nat}
    (h : target ∈ CreationOrder.targetsOf childAndParent.references i) : i = 0 ∧ target = 1 := by
  have hreferences : childAndParent.references = [[1, 1], []] := rfl
  rw [hreferences] at h
  match i with
  | 0 => simpa [CreationOrder.targetsOf] using h
  | 1 => simp [CreationOrder.targetsOf] at h
  | n + 2 => simp [CreationOrder.targetsOf] at h

theorem references_resolved_child_and_parent :
    ∃ order opening turns closing, childAndParent.order = .ok order ∧
      CreationOrder.InTurn childAndParent.references order ∧ order.Perm (List.range 2) ∧
      childAndParentRun = opening ++ turns.flatMap Turn.log ++ closing ∧
      writing opening = [] ∧ writing closing = [] ∧
      childAndParent.TakesTurns ⟨.sqlite, true⟩ (BatchCreation.idsOf turns) order turns ∧
      ∀ ids, Except.ok [.int 2, .int 1] = (.ok ids : Except Error (List Value)) →
        turns.map Turn.position = order ∧
        ids = (List.range 2).map (BatchCreation.idsOf turns) ∧
        ∀ t ∈ turns, t.IsComplete ⟨.sqlite, true⟩ ∧ ids[t.position]? = t.id := by
  refine BatchCreation.references_resolved ?_ ?_ ?_ childAndParent_runs
  · intro i target h
    rw [(childAndParent_references h).2]
    decide
  · refine CreationOrder.acyclic_of_rank (fun i => 2 - i) ?_
    intro i target h
    obtain ⟨rfl, rfl⟩ := childAndParent_references h
    decide
  · exact ⟨_, List.mem_cons_self, by decide⟩

end EntityGraph
