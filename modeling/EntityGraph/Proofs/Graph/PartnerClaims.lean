import EntityGraph.Proofs.Graph.ChainRuns

/-!
# Claims of partners in a batch

The nodes of a batch claim the targets of their edges of one to one, before any of their rows is
written or in turn. `ClaimsApart` says of two nodes that they do not claim the same target by the
same foreign key. A batch whose creations have a result has claimed apart; so one that does not is
never committed.
-/

set_option autoImplicit false

namespace EntityGraph

open Program

variable {conn : Connection} {b : BatchCreation} {c : NodeCreation} {log : List Exchange}

/-! ## Claims -/

namespace PartnerClaim

variable {node : Node} {claims claims' : List PartnerClaim} {p q : PartnerClaim} {e : Edge}

/-- An edge makes this claim. -/
def IsOf (e : Edge) (p : PartnerClaim) : Prop :=
  p.table = e.table ∧ e.columns = [p.column] ∧ p.target ∈ e.target.nodes

theorem add_all_ok {ps : List PartnerClaim} (h : ps.foldlM (add node) claims = .ok claims') :
    claims' = claims ++ ps ∧ ∀ p ∈ ps, ∀ q ∈ claims, p.equals q = false := by
  induction ps generalizing claims with
  | nil =>
    obtain rfl := Except.ok.inj h
    simp
  | cons p ps ih =>
    rw [List.foldlM_cons] at h
    obtain ⟨mid, hadd, hrest⟩ := bind_eq_ok.mp h
    unfold add at hadd
    split at hadd
    case isTrue => cases hadd
    case isFalse hnone =>
      obtain rfl := Except.ok.inj hadd
      obtain ⟨rfl, hapart⟩ := ih hrest
      refine ⟨by simp, ?_⟩
      intro p' hp' q hq
      rcases List.mem_cons.mp hp' with rfl | hp'
      · rw [Bool.eq_false_iff]
        intro hequals
        exact hnone (List.any_eq_true.mpr ⟨q, hq, hequals⟩)
      · exact hapart p' hp' q (List.mem_append_left _ hq)

theorem ofEdge_eq_ok {ps : List PartnerClaim} (h : ofEdge e = .ok ps) :
    (∃ fk, e.columns = [fk]) ∧ ∀ p, p.IsOf e → p ∈ ps := by
  obtain ⟨fk, hfk, hps⟩ := bind_eq_ok.mp h
  obtain rfl := Except.ok.inj hps
  have hcolumns := Edge.foreignKey_eq_ok.mp hfk
  refine ⟨⟨fk, hcolumns⟩, ?_⟩
  rintro ⟨table, column, target⟩ ⟨rfl, hcolumn, htarget⟩
  obtain rfl : fk = column := by simpa using hcolumns.symm.trans hcolumn
  exact List.mem_map_of_mem htarget

/-- The claims of a node are added to others if none of them is there already. -/
theorem addAll_eq_ok {edges : List Edge} (h : addAll node claims edges = .ok claims') :
    claims ⊆ claims' ∧ ∀ e ∈ edges, e.isOneToOne = true →
      (∃ fk, e.columns = [fk]) ∧
        ∀ p, p.IsOf e → p ∈ claims' ∧ ∀ q ∈ claims, p.equals q = false := by
  have hfold : ∀ l : List Edge, ∀ claims, (l.foldlM (fun claims e => do
      (← ofEdge e).foldlM (add node) claims) claims : Except Error _) = .ok claims' →
      claims ⊆ claims' ∧ ∀ e ∈ l, (∃ fk, e.columns = [fk]) ∧
        ∀ p, p.IsOf e → p ∈ claims' ∧ ∀ q ∈ claims, p.equals q = false := by
    intro l
    induction l with
    | nil =>
      intro claims h
      obtain rfl := Except.ok.inj h
      simp
    | cons e l ih =>
      intro claims h
      rw [List.foldlM_cons] at h
      obtain ⟨mid, he, hrest⟩ := bind_eq_ok.mp h
      obtain ⟨ps, hps, hadd⟩ := bind_eq_ok.mp he
      obtain ⟨rfl, hapart⟩ := add_all_ok hadd
      obtain ⟨hcolumn, hmem⟩ := ofEdge_eq_ok hps
      obtain ⟨hsub, hall⟩ := ih _ hrest
      refine ⟨fun q hq => hsub (List.mem_append_left _ hq), ?_⟩
      intro e' he'
      rcases List.mem_cons.mp he' with rfl | he'
      · refine ⟨hcolumn, fun p hp => ⟨?_, hapart p (hmem p hp)⟩⟩
        exact hsub (List.mem_append_right _ (hmem p hp))
      · obtain ⟨hcolumn', hall'⟩ := hall e' he'
        refine ⟨hcolumn', fun p hp => ⟨(hall' p hp).1, fun q hq => ?_⟩⟩
        exact (hall' p hp).2 q (List.mem_append_left _ hq)
  obtain ⟨hsub, hall⟩ := hfold _ _ h
  exact ⟨hsub, fun e he hone => hall e (List.mem_filter.mpr ⟨he, hone⟩)⟩

end PartnerClaim

/-- The later of two nodes claims no target that the earlier has claimed by the same foreign key. -/
def NodeCreation.ClaimsApart (c c' : NodeCreation) : Prop :=
  ∀ e ∈ c.edges, ∀ e' ∈ c'.edges, e.isOneToOne = true → e'.isOneToOne = true →
    e.table = e'.table → e.columns = e'.columns →
      ∀ t ∈ e.target.nodes, ∀ t' ∈ e'.target.nodes, t'.equals t = false

/-- All claims of a node are among those that have been made. -/
def NodeCreation.HasClaimed (c : NodeCreation) (claims : List PartnerClaim) : Prop :=
  ∀ e ∈ c.edges, e.isOneToOne = true →
    (∃ fk, e.columns = [fk]) ∧ ∀ p, PartnerClaim.IsOf e p → p ∈ claims

theorem NodeCreation.HasClaimed.apart {claims claims' : List PartnerClaim} {c' : NodeCreation}
    (h : c.HasClaimed claims) (hadd : PartnerClaim.addAll c'.node claims c'.edges = .ok claims') :
    c.ClaimsApart c' := by
  intro e he e' he' hone hone' htable hcolumns t ht t' ht'
  obtain ⟨⟨fk, hfk⟩, hmade⟩ := h e he hone
  have hclaim := hmade ⟨e.table, fk, t⟩ ⟨rfl, hfk, ht⟩
  obtain ⟨-, hall⟩ := PartnerClaim.addAll_eq_ok hadd
  have hnew := (((hall e' he' hone').2 ⟨e'.table, fk, t'⟩ ⟨rfl, hcolumns ▸ hfk, ht'⟩).2 _ hclaim)
  simpa [PartnerClaim.equals, htable] using hnew

theorem NodeCreation.hasClaimed_of_addAll {claims claims' : List PartnerClaim}
    (hadd : PartnerClaim.addAll c.node claims c.edges = .ok claims') : c.HasClaimed claims' := by
  obtain ⟨-, hall⟩ := PartnerClaim.addAll_eq_ok hadd
  intro e he hone
  exact ⟨(hall e he hone).1, fun p hp => ((hall e he hone).2 p hp).1⟩

theorem NodeCreation.HasClaimed.mono {claims claims' : List PartnerClaim}
    (h : c.HasClaimed claims) (hsub : claims ⊆ claims') : c.HasClaimed claims' :=
  fun e he hone => ⟨(h e he hone).1, fun p hp => hsub ((h e he hone).2 p hp)⟩

/-- An ID is one that a node can have: it has been bound or read as a value of its ID type. -/
def Node.CanHave (node : Node) (id : Value) : Prop :=
  (∃ v, (node.withId v).id.bindValue = .ok id) ∨ ∃ v, node.readId v = .ok id

theorem Node.Supplies.canHave {node : Node} {id : Value} (h : node.Supplies log (some id)) :
    node.CanHave id := by
  cases h with
  | given _ hbind => exact .inl ⟨node.id.value, hbind⟩
  | drawn _ _ _ hbind => exact .inl ⟨_, hbind⟩

/-- The ID of a node that has been written is one that it can have, and is written down. -/
theorem NodeCreation.revises_id {position : Nat} {id : Value}
    (h : (NodeCreation.write conn position c).Run log (.ok id)) :
    c.node.CanHave id ∧ ∃ x ∈ log, x.call = .revise position (.id id) := by
  rw [NodeCreation.write_eq] at h
  obtain ⟨_, _, log₁, rfl, -, h₁⟩ := run_bind_ok.mp h
  obtain ⟨supplied, _, log₂, rfl, hsupply, h₂⟩ := run_bind_ok.mp h₁
  obtain ⟨i, _, log₃, rfl, hinsertion, h₃⟩ := run_bind_ok.mp h₂
  obtain ⟨own, _, log₄, rfl, hrow, h₄⟩ := run_bind_ok.mp h₃
  obtain ⟨live, r, log₅, rfl, h₅⟩ := run_request.mp h₄
  obtain ⟨_, _, log₆, rfl, -, h₆⟩ := run_bind_ok.mp h₅
  obtain rfl := Except.ok.inj (run_done.mp h₆).2
  refine ⟨?_, ⟨.revise position (.id id), live, r⟩, by simp, rfl⟩
  have hsupplies := NodeCreation.run_supplyId hsupply
  rcases NodeCreation.run_insertRow (run_ofExcept.mp hinsertion).2.symm hrow with
    ⟨-, e, hfail⟩ | ⟨insert, -, -, -, hobtains⟩
  · cases hfail
  · cases hobtains id rfl with
    | returned _ hread => exact .inr ⟨_, hread⟩
    | reported _ _ _ hread => exact .inr ⟨_, hread⟩
    | unreturned _ hsupplied | supplied hsupplied =>
      rw [hsupplied] at hsupplies
      exact hsupplies.canHave

/-! ## Claims of nodes that are inserted together -/

namespace BatchCreation

/-- In a run the ID of a node has been written down, and it is one that the node can have. -/
structure IsTold (b : BatchCreation) (log : List Exchange) (i : Nat) (id : Value) : Prop where
  written : ∃ x ∈ log, x.call = .revise i (.id id)
  canHave : ∃ c, b.nodes[i]? = some c ∧ c.node.CanHave id

theorem IsTold.mono {log' : List Exchange} {i : Nat} {id : Value} (h : b.IsTold log i id)
    (hsub : log ⊆ log') : b.IsTold log' i id := by
  obtain ⟨x, hx, hcall⟩ := h.written
  exact ⟨⟨x, hsub hx, hcall⟩, h.canHave⟩

/-- Nodes whose own rows have been found claim apart. -/
theorem ownRows_apart {nodes : List NodeCreation} {i : Nat} {claims : List PartnerClaim}
    {rows : List OwnRow} (h : (ownRows conn i claims nodes).Run log (.ok rows)) :
    (∀ c : NodeCreation, c.HasClaimed claims → ∀ c' ∈ nodes, c.ClaimsApart c') ∧
      nodes.Pairwise NodeCreation.ClaimsApart := by
  induction nodes generalizing i claims log rows with
  | nil => exact ⟨fun _ _ _ h => absurd h List.not_mem_nil, .nil⟩
  | cons c rest ih =>
    obtain ⟨_, _, _, _, _, _, _, -, -, hadd, -, -, hothers⟩ := run_ownRows_cons h
    obtain ⟨hlater, hapart⟩ := ih hothers
    refine ⟨fun d hd c' hc' => ?_, List.pairwise_cons.mpr ⟨?_, hapart⟩⟩
    · rcases List.mem_cons.mp hc' with rfl | hc'
      · exact hd.apart hadd
      · exact hlater d (hd.mono (PartnerClaim.addAll_eq_ok hadd).1) c' hc'
    · exact hlater c (NodeCreation.hasClaimed_of_addAll hadd)

/-! ## Claims of nodes that are inserted in turn -/

/-- A node whose turn has come to its end has claimed the targets of its edges, with its references
replaced by IDs that are known. Its own ID is written down. -/
theorem claims_of_link {s s' : Chain} {i : Nat} (hc : b.nodes[i]? = some c)
    (h : (createLink conn b s i).Run log (.ok s')) :
    (∀ d ∈ c.dependencies, (s.ids[d]?.getD .null).isNull = false) ∧
      PartnerClaim.addAll c.node s.claims
        (b.resolved (fun d => s.ids[d]?.getD .null) c).edges = .ok s'.claims ∧
      ∃ id, s'.ids = s.ids.set i id ∧ b.IsTold log i id := by
  rw [createLink_eq hc] at h
  obtain ⟨_, _, log₁, rfl, -, h⟩ := run_bind_ok.mp h
  split at h
  case isFalse => cases (run_fail.mp h).2
  case isTrue hcomplete =>
    obtain ⟨hedges, hids⟩ := Edge.resolveAll_complete hcomplete
    obtain ⟨claims, _, log₂, rfl, hadd, h⟩ := run_bind_ok.mp h
    obtain ⟨_, _, log₃, rfl, -, h⟩ := run_bind_ok.mp h
    obtain ⟨id, written, log₄, rfl, hwrite, h⟩ := run_bind_ok.mp h
    obtain ⟨rfl, hdone⟩ := run_done.mp h
    obtain rfl := Except.ok.inj hdone
    refine ⟨fun d hd => ?_, ?_, id, rfl, ?_⟩
    · obtain ⟨e, he, hd⟩ := List.mem_flatMap.mp hd
      exact hids e he d hd
    · rw [(run_ofExcept.mp hadd).2, hedges]
      rfl
    · obtain ⟨hhave, x, hx, hcall⟩ := NodeCreation.revises_id hwrite
      exact ⟨⟨x, by simp [hx], hcall⟩, c, hc, hhave⟩

/-- Nodes that have been created in turn have claimed apart. IDs that were known have not changed,
and those that were not have been written down. -/
theorem claims_of_chain {order : List Nat} {s s' : Chain} (hnodup : order.Nodup)
    (hrange : ∀ i ∈ order, i < b.nodes.length)
    (hfresh : ∀ i ∈ order, s.ids[i]?.getD .null = .null)
    (hlength : s.ids.length = b.nodes.length)
    (h : (order.foldlM (createLink conn b) s).Run log (.ok s')) :
    (∀ j, j ∉ order → s'.ids[j]? = s.ids[j]?) ∧
      (∀ i ∈ order, b.IsTold log i (s'.ids[i]?.getD .null)) ∧
      (∀ i ∈ order, ∀ c, b.nodes[i]? = some c →
        (∀ d ∈ c.dependencies, (s'.ids[d]?.getD .null).isNull = false) ∧
          ∀ c₀ : NodeCreation, c₀.HasClaimed s.claims →
            c₀.ClaimsApart (b.resolved (fun d => s'.ids[d]?.getD .null) c)) ∧
      order.Pairwise fun i j => ∀ c c', b.nodes[i]? = some c → b.nodes[j]? = some c' →
        (b.resolved (fun d => s'.ids[d]?.getD .null) c).ClaimsApart
          (b.resolved (fun d => s'.ids[d]?.getD .null) c') := by
  induction order generalizing s log with
  | nil =>
    obtain ⟨-, hdone⟩ := run_done.mp h
    obtain rfl := Except.ok.inj hdone
    simp
  | cons i order ih =>
    obtain ⟨hnew, hrest⟩ := List.nodup_cons.mp hnodup
    have hi := hrange i List.mem_cons_self
    have hnode : b.nodes[i]? = some b.nodes[i] := List.getElem?_eq_getElem hi
    rw [List.foldlM_cons] at h
    obtain ⟨next, first, log', rfl, hlink, hothers⟩ := run_bind_ok.mp h
    obtain ⟨hids, hadd, id, hset, hrevised⟩ := claims_of_link hnode hlink
    have hother : ∀ j, j ≠ i → next.ids[j]? = s.ids[j]? := by
      intro j hj
      rw [hset, List.getElem?_set_ne (Ne.symm hj)]
    obtain ⟨hkept, hrecorded, hall, hapart⟩ := ih hrest
      (fun j hj => hrange j (List.mem_cons_of_mem _ hj))
      (fun j hj => by
        have hne : j ≠ i := by
          rintro rfl
          exact hnew hj
        rw [hother j hne]
        exact hfresh j (List.mem_cons_of_mem _ hj))
      (by rw [hset, List.length_set, hlength]) hothers
    have hown : s'.ids[i]?.getD .null = id := by
      rw [hkept i hnew, hset]
      simp [hlength, hi]
    -- what the first node refers to is known already, and remains so
    have hsame : ∀ d ∈ b.nodes[i].dependencies, s'.ids[d]?.getD .null = s.ids[d]?.getD .null := by
      intro d hd
      have hpresent := hids d hd
      have hd' : d ∉ i :: order := by
        intro hmem
        rw [hfresh d hmem] at hpresent
        cases hpresent
      rw [hkept d fun hmem => hd' (List.mem_cons_of_mem _ hmem), hother d fun hdi =>
        hd' (hdi ▸ List.mem_cons_self)]
    have hresolved := b.resolved_congr hsame
    rw [← hresolved] at hadd
    have hclaimed : (b.resolved (fun d => s'.ids[d]?.getD .null) b.nodes[i]).HasClaimed
        next.claims := NodeCreation.hasClaimed_of_addAll hadd
    refine ⟨?_, ?_, ?_, ?_⟩
    · intro j hj
      rw [List.mem_cons, not_or] at hj
      rw [hkept j hj.2, hother j hj.1]
    · intro j hj
      rcases List.mem_cons.mp hj with rfl | hj
      · rw [hown]
        exact hrevised.mono (List.subset_append_left _ _)
      · exact (hrecorded j hj).mono (List.subset_append_right _ _)
    · intro j hj c hc
      rcases List.mem_cons.mp hj with rfl | hj
      · obtain rfl := Option.some.inj (hnode.symm.trans hc)
        refine ⟨fun d hd => ?_, fun c₀ hc₀ => hc₀.apart hadd⟩
        rw [hsame d hd]
        exact hids d hd
      · obtain ⟨hknown, hlater⟩ := hall j hj c hc
        exact ⟨hknown, fun c₀ hc₀ => hlater c₀ (hc₀.mono (PartnerClaim.addAll_eq_ok hadd).1)⟩
    · refine List.pairwise_cons.mpr ⟨?_, hapart⟩
      intro j hj c c' hc hc'
      obtain rfl := Option.some.inj (hnode.symm.trans hc)
      exact (hall j hj c' hc').2 _ hclaimed

/-! ## Batches that are committed -/

/-- A transaction is committed only if the operation inside it has a result. -/
theorem run_committed {α : Type} {d : Dialect} {transactional : Bool}
    {body : Connection → Program α} {result : Except Error α}
    (hbody : ∀ conn, (body conn).Orderly conn)
    (h : (Connection.run d transactional body).Run log result)
    (hcommit : ∃ x ∈ log, x.call = .commit) :
    ∃ inner a, inner ⊆ log ∧ (body ⟨d, true⟩).Run inner (.ok a) := by
  have hnone : ∀ {conn : Connection} {inner : List Exchange} {outcome : Except Error α},
      (body conn).Run inner outcome → ∀ x ∈ inner, x.call ≠ .commit := by
    intro conn inner outcome hinner x hx hcall
    have hon := ((hbody conn).run hinner).1 x hx
    rw [hcall] at hon
    exact hon
  obtain ⟨x, hx, hcall⟩ := hcommit
  cases transactional with
  | false => exact absurd hcall (hnone h x hx)
  | true =>
    rcases run_connection.mp h with ⟨live, r, e, rfl, -, -⟩ |
      ⟨live, inner, ending, outcome, rfl, hinner, hfinish⟩
    · rw [List.mem_singleton.mp hx] at hcall
      cases hcall
    · cases outcome with
      | ok a => exact ⟨inner, a, fun y hy => by simp [hy], hinner⟩
      | error e =>
        obtain ⟨live', r, rfl, -⟩ := run_finish_error.mp hfinish
        simp only [List.mem_cons, List.mem_append, List.not_mem_nil, or_false] at hx
        rcases hx with rfl | hx | rfl
        · cases hcall
        · exact absurd hcall (hnone hinner x hx)
        · cases hcall

theorem withIds_of_none {idOf : Nat → Value} {e : Edge} (h : e.target.pending = []) :
    e.withIds idOf = e := by
  obtain ⟨relation, inverse, bidi, table, columns, nodes, id, fields, pending⟩ := e
  obtain rfl : pending = [] := h
  simp [Edge.withIds]

/-- One of two nodes of a batch has claimed apart from the other, with references replaced by IDs. -/
def ClaimsApart (b : BatchCreation) (idOf : Nat → Value) (i j : Nat) : Prop :=
  ∀ c c', b.nodes[i]? = some c → b.nodes[j]? = some c' →
    (b.resolved idOf c).ClaimsApart (b.resolved idOf c') ∨
      (b.resolved idOf c').ClaimsApart (b.resolved idOf c)

instance (b : BatchCreation) (idOf : Nat → Value) : Std.Symm (b.ClaimsApart idOf) :=
  ⟨fun _ _ h c c' hc hc' => (h c' c hc' hc).symm⟩

/-- The nodes of a batch have claimed apart, with their references replaced by IDs that have been
written down. -/
def ClaimsAllApart (b : BatchCreation) (log : List Exchange) : Prop :=
  ∃ idOf : Nat → Value,
    (∀ i j, i ≠ j → b.ClaimsApart idOf i j) ∧
    ∀ c ∈ b.nodes, ∀ k ∈ c.dependencies, (idOf k).isNull = false ∧ b.IsTold log k (idOf k)

theorem ClaimsAllApart.mono {log' : List Exchange} (h : b.ClaimsAllApart log) (hsub : log ⊆ log') :
    b.ClaimsAllApart log' := by
  obtain ⟨idOf, hapart, htold⟩ := h
  refine ⟨idOf, hapart, fun c hc k hk => ?_⟩
  obtain ⟨hid, hk⟩ := htold c hc k hk
  exact ⟨hid, hk.mono hsub⟩

theorem claimsAllApart_of_createChain {order : List Nat} {ids : List Value}
    (hperm : order.Perm (List.range b.nodes.length))
    (h : (createChain conn b order).Run log (.ok ids)) : b.ClaimsAllApart log := by
  obtain ⟨s', chain, rest, rfl, hchain, -⟩ := run_bind_ok.mp h
  obtain ⟨hkept, hrecorded, hall, hapart⟩ := claims_of_chain
    (hperm.nodup_iff.mpr List.nodup_range)
    (fun i hi => List.mem_range.mp (hperm.mem_iff.mp hi)) (fun i _ => b.no_id_at_start i) (by simp)
    hchain
  have hmem : ∀ {i : Nat} {c : NodeCreation}, b.nodes[i]? = some c → i ∈ order := by
    intro i c hc
    exact hperm.mem_iff.mpr (List.mem_range.mpr (List.getElem?_eq_some_iff.mp hc).1)
  refine ⟨fun k => s'.ids[k]?.getD .null, ?_, ?_⟩
  · intro i j hij c c' hc hc'
    have heither : order.Pairwise (b.ClaimsApart fun k => s'.ids[k]?.getD .null) :=
      hapart.imp fun h c c' hc hc' => .inl (h c c' hc hc')
    exact heither.forall (hmem hc) (hmem hc') hij c c' hc hc'
  · intro c hc k hk
    obtain ⟨i, hi, rfl⟩ := List.getElem_of_mem hc
    have hnode : b.nodes[i]? = some b.nodes[i] := List.getElem?_eq_getElem hi
    have hknown := (hall i (hmem hnode) _ hnode).1 k hk
    by_cases hkorder : k ∈ order
    · exact ⟨hknown, (hrecorded k hkorder).mono fun x hx => List.mem_append_left _ hx⟩
    · rw [hkept k hkorder, b.no_id_at_start] at hknown
      cases hknown

theorem claimsAllApart_of_createBulk {ids : List Value}
    (hdirect : ∀ c ∈ b.nodes, c.dependencies = [])
    (h : (createBulk conn b).Run log (.ok ids)) : b.ClaimsAllApart log := by
  obtain ⟨rows, found, after, rfl, hrows, -⟩ := run_bind_ok.mp h
  have hsame : ∀ c ∈ b.nodes, (b.resolved (fun _ => .null) c).edges = c.edges := by
    intro c hc
    have hmap : c.edges.map (Edge.withIds fun _ => .null) = c.edges.map id := by
      refine List.map_congr_left fun e he => withIds_of_none ?_
      exact List.flatMap_eq_nil_iff.mp (hdirect c hc) e he
    exact hmap.trans (List.map_id _)
  refine ⟨fun _ => .null, ?_, ?_⟩
  · intro i j hij c c' hc hc'
    have hapart := (ownRows_apart hrows).2
    rw [List.pairwise_iff_getElem] at hapart
    obtain ⟨hi, rfl⟩ := List.getElem?_eq_some_iff.mp hc
    obtain ⟨hj, rfl⟩ := List.getElem?_eq_some_iff.mp hc'
    unfold NodeCreation.ClaimsApart
    rw [hsame _ (List.getElem_mem hi), hsame _ (List.getElem_mem hj)]
    rcases Nat.lt_or_gt_of_ne hij with hlt | hlt
    · exact .inl (hapart i j hi hj hlt)
    · exact .inr (hapart j i hj hi hlt)
  · intro c hc k hk
    rw [hdirect c hc] at hk
    cases hk

/-- A batch that is committed has claimed partners for each of its nodes apart from the others. -/
theorem claims_of_commit {d : Dialect} {result : Except Error (List Value)}
    (h : (b.run d).Run log result) (hcommit : ∃ x ∈ log, x.call = .commit) :
    b.ClaimsAllApart log := by
  rw [Mutation.batch_run_eq] at h
  rcases run_bind.mp h with ⟨e, hplan, rfl⟩ | ⟨p, before, after, rfl, hplan, hrun⟩
  · rw [(run_ofExcept.mp hplan).1] at hcommit
    obtain ⟨x, hx, -⟩ := hcommit
    cases hx
  obtain ⟨rfl, hp⟩ := run_ofExcept.mp hplan
  rw [List.nil_append] at hcommit ⊢
  have hp : (Mutation.batchCreate b).plan = .ok p := hp.symm
  obtain ⟨inner, ids, hsub, hbody⟩ := run_committed (Mutation.plan_orderly hp) hrun hcommit
  refine ClaimsAllApart.mono ?_ hsub
  cases Mutation.batch_planned hp with
  | nothing hnone =>
    refine ⟨fun _ => .null, fun i j _ c c' hc => ?_, fun c hc => ?_⟩
    · simp [hnone] at hc
    · simp [hnone] at hc
  | chain _ _ horder => exact claimsAllApart_of_createChain (perm_of_order horder) hbody
  | bulk _ hdirect => exact claimsAllApart_of_createBulk hdirect hbody

end BatchCreation

end EntityGraph
