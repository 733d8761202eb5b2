import EntityGraph.Proofs.Graph.AddedLinks
import EntityGraph.Proofs.Transaction.Leftovers

/-!
# Partners that are listed, and partners that are linked

An edge of one to one has room for one target, and so has a column of a node's own row: a mutation
that lists two is refused before it has written anything. Edges that are stored in the rows of their
targets are not compared with each other. What a mutation with a result has linked is what its edges
list, and these may be several targets of one node through one column.
-/

set_option autoImplicit false

namespace EntityGraph

open Program

variable {d : Dialect} {conn : Connection} {log : List Exchange}

/-! ## Malformed operations -/

theorem failsOnly_forM {α : Type} {R : Error → Prop} {l : List α} {f : α → Except Error PUnit}
    (hf : ∀ a, FailsOnly R (f a)) : FailsOnly R (l.forM f) := by
  induction l with
  | nil => exact failsOnly_ok _
  | cons a l ih => exact (hf a).bind fun _ => ih

theorem Edge.validate_malformed (e : Edge) : FailsOnly Error.IsMalformed e.validate :=
  failsOnly_ite (failsOnly_error trivial) (failsOnly_ite (failsOnly_error trivial) (failsOnly_ok _))

theorem Edge.checkAdd_malformed (e : Edge) : FailsOnly Error.IsMalformed e.checkAdd := by
  have hfields : FailsOnly Error.IsMalformed (e.target.fields.forM fun f => discard f.bindValue) :=
    failsOnly_forM fun f => f.bindValue_malformed.bind fun _ => failsOnly_ok _
  refine e.validate_malformed.bind fun _ => ?_
  dsimp only
  refine failsOnly_ite (failsOnly_error trivial) (failsOnly_ite (failsOnly_error trivial) ?_)
  exact failsOnly_ite (failsOnly_error trivial) hfields

theorem Edge.checkDirect_malformed (e : Edge) : FailsOnly Error.IsMalformed e.checkDirect :=
  failsOnly_ite e.checkAdd_malformed (failsOnly_error trivial)

theorem NodeUpdate.check_malformed (u : NodeUpdate) : FailsOnly Error.IsMalformed u.check := by
  refine (failsOnly_forM Edge.checkDirect_malformed).bind fun _ => ?_
  refine (failsOnly_forM Edge.validate_malformed).bind fun _ => ?_
  dsimp only
  split
  case h_1 => exact failsOnly_error trivial
  case h_2 =>
    split
    case h_1 => exact failsOnly_error trivial
    case h_2 => exact failsOnly_ok _

theorem BatchCreation.order_malformed (b : BatchCreation) : FailsOnly Error.IsMalformed b.order := by
  unfold order
  dsimp only
  split
  case h_1 => exact failsOnly_error trivial
  case h_2 =>
    split
    case h_1 => exact failsOnly_ok _
    case h_2 => exact failsOnly_error trivial

namespace Mutation

theorem batchPlan_malformed (b : BatchCreation) : FailsOnly Error.IsMalformed (batchPlan b) := by
  unfold batchPlan
  split
  case h_1 => exact failsOnly_ok _
  case h_2 =>
    split
    case h_1 => exact failsOnly_error trivial
    case h_2 =>
      refine (failsOnly_forM Edge.checkAdd_malformed).bind fun _ => failsOnly_ite ?_ ?_
      · exact b.order_malformed.bind fun _ => failsOnly_ok _
      · exact failsOnly_ok _

/-- A mutation without a plan is malformed. -/
theorem plan_malformed (m : Mutation) : FailsOnly Error.IsMalformed m.plan := by
  cases m with
  | createNode c => exact (failsOnly_forM Edge.checkDirect_malformed).bind fun _ => failsOnly_ok _
  | batchCreate b => exact batchPlan_malformed b
  | updateNode u =>
    refine u.node.id.bindValue_malformed.bind fun id => failsOnly_ite (failsOnly_error trivial) ?_
    exact u.check_malformed.bind fun _ => failsOnly_ok _
  | updateNodes u => exact u.check_malformed.bind fun _ => failsOnly_ok _
  | deleteNode x =>
    refine x.node.id.bindValue_malformed.bind fun id => ?_
    exact failsOnly_ite (failsOnly_error trivial) (failsOnly_ok _)
  | deleteNodes x => exact failsOnly_ok _

/-- The edges that a mutation adds, node by node. -/
def addedEdges : Mutation → List (List Edge)
  | .createNode c => [c.edges]
  | .batchCreate b => b.nodes.map NodeCreation.edges
  | .updateNode u | .updateNodes u => [u.edges.add]
  | .deleteNode _ | .deleteNodes _ => []

/-- A mutation with a plan adds edges to one target, where there is room for one only. -/
theorem single_of_plan {m : Mutation} {p : Plan m.Result} (h : m.plan = .ok p) {edges : List Edge}
    (hedges : edges ∈ m.addedEdges) {e : Edge} (he : e ∈ edges)
    (hroom : e.isOneToOne = true ∨ e.writesOwnColumn = true) :
    e.target.nodes.length + e.target.pending.length = 1 := by
  have hdirect : ∀ {e : Edge}, e.checkDirect = .ok () → e.checkAdd = .ok () := by
    intro e hcheck
    unfold Edge.checkDirect at hcheck
    split at hcheck
    case isTrue => exact hcheck
    case isFalse => cases hcheck
  refine (Edge.counts_of_check (?_ : e.checkAdd = .ok ())).2.2 hroom
  have hupdate : ∀ {u : NodeUpdate}, u.check = .ok () → e ∈ u.edges.add → e.checkAdd = .ok () := by
    intro u hcheck he
    obtain ⟨_, hadd, -⟩ := bind_eq_ok.mp hcheck
    exact hdirect (forM_eq_ok.mp hadd e he)
  cases planned h with
  | createNode hcheck =>
    obtain rfl := List.mem_singleton.mp hedges
    exact hdirect (hcheck e he)
  | batchCreate hbatch =>
    obtain ⟨c, hc, rfl⟩ := List.mem_map.mp hedges
    cases hbatch with
    | nothing hnil =>
      rw [hnil] at hc
      cases hc
    | chain hchecked => exact hchecked.edges c hc e he
    | bulk hchecked => exact hchecked.edges c hc e he
  | updateNode _ _ hcheck =>
    obtain rfl := List.mem_singleton.mp hedges
    exact hupdate hcheck he
  | updateFound hcheck =>
    obtain rfl := List.mem_singleton.mp hedges
    exact hupdate hcheck he
  | updateRows hcheck =>
    obtain rfl := List.mem_singleton.mp hedges
    exact hupdate hcheck he
  | deleteNode => cases hedges
  | deleteNodes => cases hedges

/-- An edge with room for one target is refused with several, before anything is sent. -/
theorem refused_of_targets {m : Mutation} {result : Except Error m.Result}
    (h : (m.program d).Run log result) {edges : List Edge} (hedges : edges ∈ m.addedEdges)
    {e : Edge} (he : e ∈ edges) (hroom : e.isOneToOne = true ∨ e.writesOwnColumn = true)
    (hcount : 1 < e.target.nodes.length + e.target.pending.length) :
    log = [] ∧ ∃ why, result = .error why ∧ why.IsRefusal := by
  rw [program_eq] at h
  cases hplan : m.plan with
  | ok p =>
    have hone := single_of_plan hplan hedges he hroom
    omega
  | error why =>
    rw [hplan] at h
    obtain ⟨rfl, rfl⟩ := run_fail.mp h
    exact ⟨rfl, why, rfl, (m.plan_malformed why hplan).isRefusal⟩

end Mutation

/-! ## Columns of own rows -/

/-- The edges that are stored in a node's own row are in different columns. -/
def OwnColumnsDiffer (edges : List Edge) : Prop :=
  (edges.filter Edge.writesOwnColumn).Pairwise fun e f => e.columns ≠ f.columns

/-- No column of an own row is written twice. -/
theorem Node.ownColumnsDiffer {node : Node} {fields : List Field} {edges : List Edge}
    {columns : List (String × Value)} (h : node.ownColumns fields edges = .ok columns) :
    OwnColumnsDiffer edges := by
  obtain ⟨written, linked, -, hlinked, rfl, hnone⟩ := ownColumns_eq_ok.mp h
  have hnodup := (nodup_of_firstRepeated hnone).1
  rw [List.map_append] at hnodup
  exact Node.pairwise_of_isLinkedAs hlinked (List.nodup_append.mp hnodup).2.1

theorem ownColumnsDiffer_withIds {idOf : Nat → Value} {edges : List Edge} :
    OwnColumnsDiffer (edges.map (Edge.withIds idOf)) ↔ OwnColumnsDiffer edges := by
  unfold OwnColumnsDiffer
  rw [List.filter_map, List.pairwise_map]
  rfl

theorem NodeCreation.ownColumnsDiffer_of_turn {t : Turn} (h : t.Conforms conn) :
    OwnColumnsDiffer t.creation.edges := by
  obtain ⟨i, hinsertion, -⟩ := bind_eq_ok.mp h.own
  obtain ⟨own, hown, -⟩ := insertion_ok hinsertion
  exact Node.ownColumnsDiffer hown

theorem NodeUpdate.ownColumnsDiffer {u : NodeUpdate} {own : Update} (h : u.ownUpdate = .ok own) :
    OwnColumnsDiffer u.edges.add := by
  obtain ⟨sets, hsets, -⟩ := bind_eq_ok.mp h
  exact Node.ownColumnsDiffer hsets

/-- In a batch that has a result no node has two edges in one column. -/
theorem BatchCreation.ownColumnsDiffer_of_plan {b : BatchCreation} {ids : List Value}
    {p : Plan (List Value)} (hplan : b.Planned p) (h : (p.body conn).Run log (.ok ids))
    {c : NodeCreation} (hc : c ∈ b.nodes) : OwnColumnsDiffer c.edges := by
  cases hplan with
  | nothing hnil =>
    rw [hnil] at hc
    cases hc
  | chain _ _ horder =>
    have hperm := perm_of_order horder
    obtain ⟨turns, rest, -, -, hturns, hdone⟩ := run_createChain hperm h
    obtain ⟨hall, -, -⟩ := hdone ids rfl
    -- each node has had its turn
    obtain ⟨i, hi⟩ := List.mem_iff_getElem?.mp hc
    have hposition : i ∈ turns.map Turn.position := by
      rw [hall]
      exact hperm.mem_iff.mpr (List.mem_range.mpr (List.getElem?_eq_some_iff.mp hi).1)
    obtain ⟨t, ht, rfl⟩ := List.mem_map.mp hposition
    obtain ⟨c', hc', hcreation, -⟩ := hturns.resolved t ht
    obtain rfl := Option.some.inj (hi.symm.trans hc')
    have hdiffer := NodeCreation.ownColumnsDiffer_of_turn (hturns.conforms t ht)
    rw [hcreation] at hdiffer
    exact ownColumnsDiffer_withIds.mp hdiffer
  | bulk =>
    obtain ⟨rows, _, _, -, hrows, -⟩ := run_bind_ok.mp h
    obtain ⟨r, -, hr⟩ := exists_of_forall₂ (ownRows_are_of hrows) hc
    exact Node.ownColumnsDiffer hr.columns

namespace Mutation

/-- The mutation has found no node to change. -/
def FoundNone : (m : Mutation) → m.Result → Prop
  | .updateNodes _, n => n = (0 : Nat)
  | _, _ => False

/-- A mutation that has a result writes each column of an own row once, unless it has found no
node. -/
theorem ownColumnsDiffer_of_run {m : Mutation} {a : m.Result} (h : (m.program d).Run log (.ok a)) :
    m.FoundNone a ∨ ∀ edges ∈ m.addedEdges, OwnColumnsDiffer edges := by
  obtain ⟨p, conn, inner, hplan, -, -, hbody, -⟩ := sends_plan h
  cases planned hplan with
  | createNode =>
    refine .inr (List.forall_mem_singleton.mpr ?_)
    rcases NodeCreation.run_write hbody with ⟨-, e, he⟩ | ⟨t, -, rfl, -, hconforms, -⟩
    · cases he
    · exact NodeCreation.ownColumnsDiffer_of_turn hconforms
  | batchCreate hbatch =>
    refine .inr fun edges hedges => ?_
    obtain ⟨c, hc, rfl⟩ := List.mem_map.mp hedges
    exact BatchCreation.ownColumnsDiffer_of_plan hbatch hbody hc
  | updateNode =>
    obtain ⟨_, _, _, -, -, hbody⟩ := run_bind_ok.mp hbody
    obtain ⟨_, _, _, -, hrow, -⟩ := run_bind_ok.mp hbody
    obtain ⟨own, _, _, -, hown, -⟩ := run_bind_ok.mp hrow
    refine .inr (List.forall_mem_singleton.mpr ?_)
    exact NodeUpdate.ownColumnsDiffer (run_ofExcept.mp hown).2.symm
  | updateFound =>
    obtain ⟨ids, _, _, -, -, hbody⟩ := run_bind_ok.mp hbody
    dsimp only at hbody
    split at hbody
    case isTrue => exact .inl (Except.ok.inj (run_done.mp hbody).2)
    case isFalse =>
      obtain ⟨_, _, _, -, -, hbody⟩ := run_bind_ok.mp hbody
      obtain ⟨own, _, _, -, hown, -⟩ := run_bind_ok.mp hbody
      refine .inr (List.forall_mem_singleton.mpr ?_)
      exact NodeUpdate.ownColumnsDiffer (run_ofExcept.mp hown).2.symm
  | updateRows =>
    obtain ⟨own, _, _, -, hown, -⟩ := run_bind_ok.mp hbody
    refine .inr (List.forall_mem_singleton.mpr ?_)
    exact NodeUpdate.ownColumnsDiffer (run_ofExcept.mp hown).2.symm
  | deleteNode => exact .inr fun edges hedges => absurd hedges List.not_mem_nil
  | deleteNodes => exact .inr fun edges hedges => absurd hedges List.not_mem_nil

end Mutation

/-! ## Rejections -/

/-- Nothing goes wrong around an operation: the driver carries out what it is told, and the context
stays live. -/
def Unhindered (log : List Exchange) : Prop :=
  ∀ x ∈ log, x.interrupts = false ∧
    (x.call.isStatement = true ∨ x.call = .begin ∨ x.call = .commit → x.succeeds = true)

/-- The error tells the caller that the operation is malformed, or that a constraint stands against
it. -/
def Error.IsRejection (e : Error) : Prop := e.isValidation = true ∨ e.isConstraint = true

theorem Error.IsRefusal.isRejection {e : Error} (h : e.IsRefusal) : e.IsRejection := by
  cases e with
  | validation => exact .inl rfl
  | constraint => exact .inr rfl
  | _ => exact h.elim

theorem Error.not_late_of_refusal (e : Error) (h : e.IsRefusal) : ¬¬e.IsRejection :=
  not_not.mpr h.isRejection

/-- A rollback does not change what the caller is told. -/
theorem rolledBack_isRejection {e : Error} {r : Except Failure Unit} (h : e.IsRejection) :
    (rolledBack e r).IsRejection := by
  cases r <;> exact h

/-- What follows a check that fails is not reached. -/
theorem Program.prepares_failing {α β : Type} {Late : Error → Prop} {x : Except Error α}
    {f : α → Program β} (hx : (ofExcept x).Prepares Late) (hnone : ∀ a, x ≠ .ok a) :
    (ofExcept x >>= f).Prepares Late :=
  hx.bind_of_run fun a _ h => absurd (run_ofExcept.mp h).2.symm (hnone a)

section Rejections

variable {Late : Error → Prop} (hlate : ∀ e : Error, e.IsRefusal → ¬Late e)

include hlate

/-- A creation that writes an own column twice does not get as far as writing. -/
theorem NodeCreation.write_prepares {c : NodeCreation} {position : Nat}
    (hrepeats : ¬OwnColumnsDiffer c.edges) : (write conn position c).Prepares Late := by
  rw [write_eq]
  refine (Partner.check_prepares hlate conn _ _ _ _).bind fun _ => ?_
  refine (supplyId_prepares (fun e he => hlate e he.isRefusal) position c.node).bind fun supplied => ?_
  refine prepares_failing (prepares_check hlate (c.insertion_refused _ _)) fun i hi => hrepeats ?_
  obtain ⟨own, hown, -⟩ := insertion_ok hi
  exact Node.ownColumnsDiffer hown

/-- Nor does a bulk insert with such a node. -/
theorem BatchCreation.createBulk_prepares {b : BatchCreation} {c : NodeCreation} (hc : c ∈ b.nodes)
    (hrepeats : ¬OwnColumnsDiffer c.edges) : (createBulk conn b).Prepares Late := by
  refine (ownRows_prepares hlate conn b.nodes 0 []).bind_of_run fun rows log hrows => ?_
  obtain ⟨r, -, hr⟩ := exists_of_forall₂ (ownRows_are_of hrows) hc
  exact absurd (Node.ownColumnsDiffer hr.columns) hrepeats

namespace NodeUpdate

variable {u : NodeUpdate} (hrepeats : ¬OwnColumnsDiffer u.edges.add)

include hrepeats

/-- Nor does an update. -/
theorem ownUpdate_prepares {α : Type} {f : Update → Program α} :
    (ofExcept u.ownUpdate >>= f).Prepares Late := by
  have hsets : FailsOnly Error.IsRefusal (u.node.ownColumns u.fields.set u.edges.add) :=
    (u.node.ownColumns_malformed _ _).refused
  have hown : ∀ own, u.ownUpdate ≠ .ok own := fun own h => hrepeats (ownColumnsDiffer h)
  refine prepares_failing (prepares_check hlate fun e he => ?_) hown
  unfold ownUpdate at he
  cases hcolumns : u.node.ownColumns u.fields.set u.edges.add with
  | error e' =>
    rw [hcolumns] at he
    obtain rfl : e' = e := Except.error.inj he
    exact hsets e' hcolumns
  | ok sets => exact absurd (Node.ownColumnsDiffer hcolumns) hrepeats

theorem writeOne_prepares {id : Value} : (u.writeOne conn id).Prepares Late := by
  refine (Partner.check_prepares hlate conn _ _ _ _).bind fun _ => ?_
  exact Prepares.bind_of_run (ownUpdate_prepares hlate hrepeats) fun changed log h => by
    obtain ⟨own, _, _, -, hown, -⟩ := run_bind_ok.mp h
    exact absurd (ownColumnsDiffer (run_ofExcept.mp hown).2.symm) hrepeats

theorem writeRows_prepares : (u.writeRows conn).Prepares Late :=
  ownUpdate_prepares hlate hrepeats

end NodeUpdate

end Rejections

/-- An update of the nodes that it finds asks for them before it fails. -/
theorem NodeUpdate.writeMany_prepares {u : NodeUpdate}
    (hrepeats : ¬OwnColumnsDiffer u.edges.add) :
    (u.writeMany conn).Prepares fun e => ¬e.IsRejection := by
  have hread : ∀ v, FailsOnly (fun e : Error => ¬¬e.IsRejection) (u.node.readId v) := by
    intro v
    unfold Node.readId readColumn
    split
    case h_1 => exact failsOnly_ok _
    case h_2 => exact failsOnly_error (not_not.mpr (.inl rfl))
  have hids : (u.matchedIds conn).Prepares fun e => ¬e.IsRejection :=
    (prepares_query conn rfl).bind fun rows => prepares_ofExcept (failsOnly_mapM hread)
  refine hids.bind fun ids => prepares_ite (prepares_done _) ?_
  refine Prepares.bind (prepares_ite (prepares_ite ?_ ?_) (prepares_done _)) fun _ => ?_
  · exact prepares_fail (Error.not_late_of_refusal _ trivial)
  · exact Partner.check_prepares Error.not_late_of_refusal conn _ _ _ _
  · exact ownUpdate_prepares Error.not_late_of_refusal hrepeats

namespace Mutation

/-- No node of the mutation refers to another one of the same batch. -/
def IsDirect : Mutation → Prop
  | .batchCreate b => ∀ c ∈ b.nodes, c.dependencies = []
  | _ => True

/-- A mutation that writes an own column twice does not get as far as writing. -/
theorem plan_prepares {m : Mutation} {p : Plan m.Result} (hplan : m.plan = .ok p)
    (hdirect : m.IsDirect) {edges : List Edge} (hedges : edges ∈ m.addedEdges)
    (hrepeats : ¬OwnColumnsDiffer edges) :
    (p.body conn).Prepares fun e => ¬e.IsRejection := by
  cases planned hplan with
  | createNode =>
    obtain rfl := List.mem_singleton.mp hedges
    exact NodeCreation.write_prepares Error.not_late_of_refusal hrepeats
  | batchCreate hbatch =>
    obtain ⟨c, hc, rfl⟩ := List.mem_map.mp hedges
    rw [hbatch.body_eq (List.ne_nil_of_mem hc) hdirect]
    exact BatchCreation.createBulk_prepares Error.not_late_of_refusal hc hrepeats
  | updateNode =>
    obtain rfl := List.mem_singleton.mp hedges
    exact NodeUpdate.writeOne_prepares Error.not_late_of_refusal hrepeats
  | updateFound =>
    obtain rfl := List.mem_singleton.mp hedges
    exact NodeUpdate.writeMany_prepares hrepeats
  | updateRows =>
    obtain rfl := List.mem_singleton.mp hedges
    exact NodeUpdate.writeRows_prepares Error.not_late_of_refusal hrepeats
  | deleteNode => cases hedges
  | deleteNodes => cases hedges

/-- Where nothing else goes wrong, a mutation that writes an own column twice is rejected, and has
written nothing. -/
theorem rejected_of_repeats {m : Mutation} {why : Error}
    (h : (m.program d).Run log (.error why)) (hdirect : m.IsDirect) (hunhindered : Unhindered log)
    {edges : List Edge} (hedges : edges ∈ m.addedEdges) (hrepeats : ¬OwnColumnsDiffer edges) :
    writes log = 0 ∧ why.IsRejection := by
  rw [program_eq] at h
  rcases run_bind.mp h with ⟨e, hplan, heq⟩ | ⟨p, none, after, rfl, hplan, hrun⟩
  · obtain rfl : why = e := Except.error.inj heq
    obtain ⟨rfl, hp⟩ := run_ofExcept.mp hplan
    exact ⟨rfl, (m.plan_malformed why hp.symm).isRefusal.isRejection⟩
  obtain ⟨rfl, hp⟩ := run_ofExcept.mp hplan
  rw [List.nil_append] at hunhindered ⊢
  have hcarried : ∀ part ⊆ after, CarriedOut part := fun part hsub x hx hs =>
    (hunhindered x (hsub hx)).2 (.inl hs)
  have hbody : ∀ inner outcome, inner ⊆ after → (p.body ⟨d, p.transactional⟩).Run inner outcome →
      writes inner = 0 ∧ ∀ e, outcome = .error e → e.IsRejection := by
    intro inner outcome hsub hinner
    obtain ⟨hnone, herror⟩ :=
      plan_prepares hp.symm hdirect hedges hrepeats inner outcome hinner (hcarried inner hsub)
    exact ⟨hnone, fun e he => not_not.mp (herror e he)⟩
  cases htx : p.transactional with
  | false =>
    rw [htx] at hrun hbody
    obtain ⟨hnone, herror⟩ := hbody after _ (List.Subset.refl after) hrun
    exact ⟨hnone, herror why rfl⟩
  | true =>
    rw [htx] at hrun hbody
    rcases run_connection.mp hrun with
      ⟨live, r, e, rfl, hbegin, -⟩ | ⟨live, inner, ending, outcome, rfl, hinner, hfinish⟩
    · have hopened := (hunhindered _ List.mem_cons_self).2 (.inr (.inl rfl))
      cases r with
      | done _ => cases hbegin
      | failed f => cases hopened
      | interrupted w => cases hopened
    · obtain ⟨hnone, herror⟩ := hbody inner outcome (fun x hx => by simp [hx]) hinner
      cases outcome with
      | error e =>
        obtain ⟨live', r, rfl, heq⟩ := run_finish_error.mp hfinish
        rw [Except.error.inj heq]
        refine ⟨?_, rolledBack_isRejection (herror e rfl)⟩
        simpa [writes, Call.isWrite] using hnone
      | ok a =>
        -- an update that has found no node: only the end of its transaction could fail
        rcases run_finish_ok.mp hfinish with
          ⟨live', w, _, _, rfl, -⟩ | ⟨_, live', r, rfl, heq⟩
        · have hcheck := (hunhindered ⟨.check, live', .error w⟩ (by simp)).1
          cases hcheck
        · have hcommit := (hunhindered ⟨.commit, live', r⟩ (by simp)).2 (.inr (.inr rfl))
          cases r with
          | error f => cases hcommit
          | ok _ => cases heq

end Mutation

/-! ## Targets that are linked -/

theorem Predicate.oneOf_inj {column column' : String} {vs vs' : List Value}
    (h : oneOf column vs = oneOf column' vs') : vs = vs' := by
  unfold oneOf at h
  split at h
  case h_1 =>
    split at h
    case h_1 => rw [(compare.inj h).2.2]
    case h_2 => cases h
  case h_2 =>
    split at h
    case h_1 => cases h
    case h_2 => exact (isIn.inj h).2

theorem Predicate.oneOf_and (column : String) (vs : List Value) (p : Predicate) :
    (oneOf column vs).and p = .conj [oneOf column vs, p] := by
  unfold oneOf
  split <;> rfl

/-- An UPDATE that links targets to a node says which targets, which node, and through what. -/
theorem ForeignKey.linking_inj {id id' : Value} {fk fk' : String} {e e' : Edge}
    (h : linking id fk e = linking id' fk' e') :
    id = id' ∧ fk = fk' ∧ e.table = e'.table ∧ e.target.nodes = e'.target.nodes := by
  obtain ⟨htable, -, hsets, hrows⟩ := Update.mk.inj h
  obtain ⟨hfk, hid⟩ := Prod.mk.inj (List.head_eq_of_cons_eq hsets)
  have hrows : (Predicate.oneOf e.target.id.column e.target.nodes).and (.isNull fk) =
      (Predicate.oneOf e'.target.id.column e'.target.nodes).and (.isNull fk') :=
    Option.some.inj hrows
  rw [Predicate.oneOf_and, Predicate.oneOf_and] at hrows
  refine ⟨Assignment.value.inj hid, hfk, htable, ?_⟩
  exact Predicate.oneOf_inj (List.head_eq_of_cons_eq (Predicate.conj.inj hrows))

/-- The targets whose foreign keys the statements of a run have refer to a node, where they refer to
none. -/
def linkedTargets (log : List Exchange) (id : Value) (table column : String) : Set Value :=
  {t | ∃ x ∈ log, ∃ e : Edge,
    x.call.statement? = some (.update (ForeignKey.linking id column e)) ∧ e.table = table ∧
      t ∈ e.target.nodes}

/-- The targets that edges of a node list, where the targets' rows have the foreign key. -/
def listedTargets (links : List (List Value × Edge)) (id : Value) (table column : String) :
    Set Value :=
  {t | ∃ e : Edge, ([id], e) ∈ links ∧ e.isForeignKeyEdge = true ∧ e.table = table ∧
    e.columns = [column] ∧ t ∈ e.target.nodes}

namespace Mutation

/-- The mutation writes own rows, or clears edges, by an UPDATE that looks like one that links targets
of a table to a node. -/
def LinksInOwnRows (d : Dialect) (m : Mutation) (id : Value) (table column : String) : Prop :=
  ∃ e : Edge, e.table = table ∧ m.WritesRows d (.update (ForeignKey.linking id column e))

/-- What is linked to a node beside own rows is what the edges of the node list. -/
theorem linkedTargets_eq {m : Mutation} {links : List (List Value × Edge)} {id : Value}
    {table column : String} (hsends : OnlySends (m.SendsFor d links) log)
    (hsent : ∀ e, ([id], e) ∈ links → e.IsSent conn id log)
    (hown : ¬m.LinksInOwnRows d id table column) :
    linkedTargets log id table column = listedTargets links id table column := by
  refine Set.Subset.antisymm ?_ ?_
  · rintro t ⟨x, hx, e, hs, htable, ht⟩
    rcases hsends x hx _ hs with hread | hrow | hlinks
    · cases hread
    · exact absurd ⟨e, htable, hrow⟩ hown
    · obtain ⟨w, hw⟩ : ∃ w, w = ForeignKey.linking id column e := ⟨_, rfl⟩
      rw [← hw] at hlinks
      cases hlinks with
      | targets hmem hstored hcolumns =>
        obtain ⟨rfl, rfl, hsame, hnodes⟩ := ForeignKey.linking_inj hw
        exact ⟨_, hmem, hstored, hsame.trans htable, hcolumns, hnodes ▸ ht⟩
  · rintro t ⟨e, hmem, hstored, htable, hcolumns, ht⟩
    obtain ⟨fk, hfk, x, hx, hcall⟩ := (hsent e hmem).link hstored (List.ne_nil_of_mem ht)
    obtain rfl : column = fk :=
      List.head_eq_of_cons_eq (hcolumns.symm.trans (Edge.foreignKey_eq_ok.mp hfk))
    exact ⟨x, hx, e, by rw [hcall]; rfl, htable, ht⟩

end Mutation

/-! ## A user with two cards -/

/-- A new user with cards, each by an edge of its own. -/
def cardOwner (cards : List Value) : NodeCreation :=
  { NodeCreation.ofNode userNode with edges := cards.map fun card => cardEdge [card] }

/-- The call that gives the user a card. -/
def sendCard (card : Value) : Exchange :=
  ⟨.exec true (.update (ForeignKey.linking (.int 1) "user_id" (cardEdge [card]))), true,
    (.done ⟨1, none⟩ : Outcome ExecResult)⟩

/-- The run that creates the user. -/
def cardOwnerRun (cards : List Value) : List Exchange :=
  let noColumns : InsertStatement :=
    { table := "users", columns := [], rows := [], conflict := none, returning := ["id"] }
  [⟨.begin, true, (.done () : Outcome Unit)⟩,
    ⟨.query true (.insert noColumns), true, (.done ⟨["id"], [[.int 1]]⟩ : Outcome Rows)⟩,
    ⟨.revise 0 (.id (.int 1)), true, ()⟩] ++ (cards.map sendCard ++
    [⟨.check, true, (.ok () : Except Interruption Unit)⟩,
      ⟨.commit, true, (.ok () : Except Failure Unit)⟩])

end EntityGraph
