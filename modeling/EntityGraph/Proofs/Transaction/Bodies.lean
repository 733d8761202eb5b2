import EntityGraph.Graph.Batch
import EntityGraph.Graph.Delete
import EntityGraph.Graph.Update
import EntityGraph.Proofs.Program.Orderly

/-!
# What mutations do on their connection is orderly

One lemma for each part of an operation: it sends its statements on its own connection, it neither
begins nor ends a transaction, and it stops at the first call that fails.
-/

set_option autoImplicit false

namespace EntityGraph

open Program

/-! ## Edges -/

theorem Partner.checkEdge_orderly (conn : Connection) (node : Node) (id? : Option Value)
    (e : Edge) : (Partner.checkEdge conn node id? e).Orderly conn := by
  unfold Partner.checkEdge
  split
  case h_1 => trivial
  case h_2 =>
    refine (orderly_ofExcept _).bind fun fk => orderly_forM fun q _ => ?_
    exact (orderly_probe conn _).bind fun _ => orderly_ite trivial trivial

theorem Partner.check_orderly (conn : Connection) (node : Node) (id? : Option Value)
    (add clear : List Edge) : (Partner.check conn node id? add clear).Orderly conn :=
  orderly_forM fun e _ => Partner.checkEdge_orderly conn node id? e

theorem JoinTable.clear_orderly (conn : Connection) (ids : List Value) (edges : List Edge) :
    (JoinTable.clear conn ids edges).Orderly conn := by
  refine orderly_ite trivial (orderly_forM fun _ _ => ?_)
  exact (orderly_ofExcept _).bind fun _ => (orderly_exec conn _).discard

theorem JoinTable.add_orderly (conn : Connection) (links : List (List Value × Edge)) :
    (JoinTable.add conn links).Orderly conn := by
  refine (orderly_mapM fun _ _ => orderly_ofExcept _).bind fun inserts => orderly_forM fun i _ => ?_
  exact orderly_ite trivial (orderly_execInsert conn i).discard

theorem ForeignKey.clear_orderly (conn : Connection) (ids : List Value) (edges : List Edge) :
    (ForeignKey.clear conn ids edges).Orderly conn := by
  refine orderly_ite trivial (orderly_forM fun _ _ => ?_)
  exact (orderly_ofExcept _).bind fun _ => (orderly_exec conn _).discard

theorem ForeignKey.link_orderly (conn : Connection) (id : Value) (e : Edge) :
    (ForeignKey.link conn id e).Orderly conn := by
  refine (orderly_ofExcept _).bind fun fk => (orderly_exec conn _).bind fun result => ?_
  exact orderly_ite trivial trivial

theorem ForeignKey.add_orderly (conn : Connection) (ids : List Value) (edges : List Edge) :
    (ForeignKey.add conn ids edges).Orderly conn := by
  unfold ForeignKey.add
  split
  case h_1 => trivial
  case h_2 id _ => exact orderly_forM fun e _ => ForeignKey.link_orderly conn id e
  case h_3 => trivial

theorem ExternalEdges.create_orderly (conn : Connection) (id : Value) (edges : List Edge) :
    (ExternalEdges.create conn id edges).Orderly conn :=
  (JoinTable.add_orderly conn _).bind fun _ => ForeignKey.add_orderly conn _ _

theorem ExternalEdges.change_orderly (conn : Connection) (ids : List Value)
    (changes : EdgeChanges) : (ExternalEdges.change conn ids changes).Orderly conn :=
  (JoinTable.clear_orderly conn _ _).bind fun _ => (JoinTable.add_orderly conn _).bind fun _ =>
    (ForeignKey.clear_orderly conn _ _).bind fun _ => ForeignKey.add_orderly conn _ _

/-! ## Creating nodes -/

namespace NodeCreation

theorem supplyId_orderly (conn : Connection) (position : Nat) (node : Node) :
    (supplyId position node).Orderly conn := by
  unfold supplyId
  split
  case isTrue => exact (orderly_ofExcept _).bind fun _ => orderly_done _
  case isFalse =>
    split
    case h_1 => trivial
    case h_2 => trivial
    case h_3 g _ =>
      exact (orderly_draw conn g).bind fun _ => (orderly_revise conn _ _).bind fun _ =>
        (orderly_ofExcept _).bind fun _ => orderly_done _

theorem insertedId_orderly (conn : Connection) (node : Node) (i : Insert)
    (supplied : Option Value) : (insertedId conn node i supplied).Orderly conn := by
  unfold insertedId
  split
  case isTrue =>
    refine (orderly_queryInsert conn _).bind fun rows => ?_
    split
    case h_1 => exact orderly_ofExcept _
    all_goals trivial
  case isFalse =>
    refine (orderly_execInsert conn i).bind fun result => ?_
    split
    case h_1 => trivial
    case h_2 =>
      refine (orderly_ofExcept _).bind fun _ => ?_
      split
      case h_1 => split <;> first | exact orderly_ofExcept _ | trivial
      case h_2 => trivial

theorem write_orderly (conn : Connection) (position : Nat) (c : NodeCreation) :
    (write conn position c).Orderly conn := by
  have htail : ∀ id : Value, (do
      Program.revise position (.id id)
      ExternalEdges.create conn id c.edges
      pure id : Program Value).Orderly conn := fun id =>
    (orderly_revise conn position _).bind fun _ =>
      (ExternalEdges.create_orderly conn id c.edges).bind fun _ => orderly_done id
  unfold write
  refine (Partner.check_orderly conn _ _ _ _).bind fun _ =>
    (supplyId_orderly conn position c.node).bind fun supplied =>
      (orderly_ofExcept _).bind fun i => ?_
  split
  case h_1 id _ => exact ((orderly_execInsert conn i).discard).bind fun _ => htail id
  case h_2 => exact (insertedId_orderly conn _ i _).bind htail

end NodeCreation

namespace BoundRows

theorem storedRows_orderly (conn : Connection) (b : BoundRows) (node : Node) (i : Insert)
    (policy : ConflictPolicy) : (b.storedRows conn node i policy).Orderly conn := by
  have hread : ∀ select : Selector, (do
      let rows ← conn.query (.select select)
      pure rows.rows : Program (List (List Value))).Orderly conn := fun select =>
    (orderly_query conn _).bind fun _ => orderly_done _
  refine orderly_ite ((orderly_queryInsert conn _).bind fun _ => orderly_done _) ?_
  -- Whether IDs are generated decides only whether their type is checked first.
  refine orderly_ite ((orderly_ofExcept _).bind fun _ => ?_) ?_
  all_goals
    refine (orderly_execInsert conn i).bind fun result => orderly_ite ?_ (hread _)
    split
    case h_1 => exact orderly_ite (hread _) trivial
    case h_2 => trivial

theorem upsertedIds_orderly (conn : Connection) (b : BoundRows) (node : Node) (i : Insert)
    (policy : ConflictPolicy) : (b.upsertedIds conn node i policy).Orderly conn :=
  (storedRows_orderly conn b node i policy).bind fun _ => orderly_ofExcept _

theorem insertedIds_orderly (conn : Connection) (b : BoundRows) (node : Node) (i : Insert) :
    (b.insertedIds conn node i).Orderly conn := by
  unfold insertedIds
  split
  case isTrue => exact (orderly_queryInsert conn _).bind fun _ => orderly_ofExcept _
  case isFalse =>
    refine (orderly_ofExcept _).bind fun _ => (orderly_execInsert conn i).bind fun result => ?_
    split
    case h_1 => trivial
    case h_2 => exact orderly_ofExcept _

end BoundRows

namespace BatchCreation

theorem createLink_orderly (conn : Connection) (b : BatchCreation) (s : Chain) (i : Nat) :
    (createLink conn b s i).Orderly conn := by
  unfold createLink
  split
  case h_1 => trivial
  case h_2 c _ =>
    have hrest : ∀ edges : List Edge, (do
        let claims ← PartnerClaim.addAll c.node s.claims edges
        b.policy.toList.forM fun policy => Program.revise i (.policy policy)
        let id ← NodeCreation.write conn i { c with edges, policy := b.policy.or c.policy }
        pure { ids := s.ids.set i id, claims } : Program Chain).Orderly conn := fun edges =>
      (orderly_ofExcept _).bind fun _ =>
        (orderly_forM fun _ _ => orderly_revise conn i _).bind fun _ =>
          (NodeCreation.write_orderly conn i _).bind fun _ => orderly_done _
    refine (orderly_revise conn i _).bind fun _ => ?_
    split
    case isTrue => trivial
    case isFalse => exact hrest _

theorem createChain_orderly (conn : Connection) (b : BatchCreation) (order : List Nat) :
    (createChain conn b order).Orderly conn :=
  (orderly_foldlM (fun s i => createLink_orderly conn b s i) _).bind fun _ => orderly_done _

theorem ownRows_orderly (conn : Connection) (nodes : List NodeCreation) (i : Nat)
    (claims : List PartnerClaim) : (ownRows conn i claims nodes).Orderly conn := by
  induction nodes generalizing i claims with
  | nil => trivial
  | cons c rest ih =>
    exact (orderly_ofExcept _).bind fun claimed =>
      (Partner.check_orderly conn _ _ _ _).bind fun _ =>
        (NodeCreation.supplyId_orderly conn i c.node).bind fun _ =>
          (orderly_ofExcept _).bind fun _ => (ih (i + 1) claimed).bind fun _ => orderly_done _

theorem insertRows_orderly (conn : Connection) (node : Node) (policy : Option ConflictPolicy)
    (supplied : List Value) (b : BoundRows) :
    (insertRows conn node policy supplied b).Orderly conn := by
  unfold insertRows
  split
  case h_1 => exact BoundRows.upsertedIds_orderly conn b node _ _
  case h_2 =>
    split
    case isTrue => exact BoundRows.insertedIds_orderly conn b node _
    case isFalse => exact ((orderly_execInsert conn _).discard).bind fun _ => orderly_done _

theorem createEach_orderly (conn : Connection) (nodes : List NodeCreation) (i : Nat) :
    (createEach conn i nodes).Orderly conn := by
  induction nodes generalizing i with
  | nil => trivial
  | cons c rest ih =>
    exact (NodeCreation.write_orderly conn i c).bind fun _ =>
      (ih (i + 1)).bind fun _ => orderly_done _

theorem reviseIds_orderly (conn : Connection) (ids : List Value) (i : Nat) :
    (reviseIds i ids).Orderly conn := by
  induction ids generalizing i with
  | nil => trivial
  | cons id ids ih => exact (orderly_revise conn i _).bind fun _ => ih (i + 1)

theorem addEdges_orderly (conn : Connection) (nodes : List NodeCreation) (ids : List Value) :
    (addEdges conn nodes ids).Orderly conn :=
  (JoinTable.add_orderly conn _).bind fun _ =>
    orderly_forM fun _ _ => ForeignKey.add_orderly conn _ _

theorem createBulk_orderly (conn : Connection) (b : BatchCreation) :
    (createBulk conn b).Orderly conn := by
  unfold createBulk
  refine (ownRows_orderly conn b.nodes 0 []).bind fun rows => ?_
  split
  case h_1 => trivial
  case h_2 first _ _ =>
    have hinsert : ∀ (supplied : List Value) (bound : BoundRows), (do
        let ids ← insertRows conn first.node (b.policy.or first.policy) supplied bound
        reviseIds 0 ids
        addEdges conn b.nodes ids
        pure ids : Program (List Value)).Orderly conn := fun supplied bound =>
      (insertRows_orderly conn _ _ _ _).bind fun ids =>
        (reviseIds_orderly conn ids 0).bind fun _ =>
          (addEdges_orderly conn _ _).bind fun _ => orderly_done _
    refine orderly_ite trivial ?_
    exact orderly_ite (createEach_orderly conn b.nodes 0) (hinsert _ _)

end BatchCreation

/-! ## Updating and deleting nodes -/

namespace NodeUpdate

theorem readBack_orderly (conn : Connection) (u : NodeUpdate) (id : Value) :
    (u.readBack conn id).Orderly conn := by
  unfold readBack
  refine (orderly_query conn _).bind fun rows => ?_
  split
  case h_1 => trivial
  case h_2 =>
    exact (orderly_ofExcept _).bind fun _ => (orderly_ofExcept _).bind fun _ =>
      orderly_deliver conn _

theorem writeOwnRow_orderly (conn : Connection) (u : NodeUpdate) (id : Value) :
    (u.writeOwnRow conn id).Orderly conn := by
  refine (orderly_ofExcept _).bind fun own => ?_
  exact orderly_ite trivial ((orderly_exec conn _).bind fun _ => orderly_done _)

theorem writeOne_orderly (conn : Connection) (u : NodeUpdate) (id : Value) :
    (u.writeOne conn id).Orderly conn := by
  have htail : (do
      ExternalEdges.change conn [id] u.edges
      if u.delivers then u.readBack conn id : Program Unit).Orderly conn := by
    refine (ExternalEdges.change_orderly conn _ _).bind fun _ => ?_
    exact orderly_ite (readBack_orderly conn u id) trivial
  unfold writeOne
  refine (Partner.check_orderly conn _ _ _ _).bind fun _ =>
    (writeOwnRow_orderly conn u id).bind fun changed => orderly_ite ?_ htail
  exact (orderly_probe conn _).bind fun _ => orderly_ite trivial htail

theorem matchedIds_orderly (conn : Connection) (u : NodeUpdate) :
    (u.matchedIds conn).Orderly conn :=
  (orderly_query conn _).bind fun _ => orderly_ofExcept _

theorem checkPartners_orderly (conn : Connection) (u : NodeUpdate) (ids : List Value) :
    (u.checkPartners conn ids).Orderly conn := by
  exact orderly_ite (orderly_ite trivial (Partner.check_orderly conn _ _ _ _)) trivial

theorem writeMany_orderly (conn : Connection) (u : NodeUpdate) :
    (u.writeMany conn).Orderly conn := by
  have htail : ∀ ids : List Value, (do
      ExternalEdges.change conn ids u.edges
      pure ids.length : Program Nat).Orderly conn := fun ids =>
    (ExternalEdges.change_orderly conn ids _).bind fun _ => orderly_done _
  unfold writeMany
  refine (matchedIds_orderly conn u).bind fun ids => orderly_ite trivial ?_
  refine (checkPartners_orderly conn u ids).bind fun _ => (orderly_ofExcept _).bind fun own => ?_
  exact orderly_ite (((orderly_exec conn _).discard).bind fun _ => htail ids) (htail ids)

theorem writeRows_orderly (conn : Connection) (u : NodeUpdate) :
    (u.writeRows conn).Orderly conn := by
  refine (orderly_ofExcept _).bind fun own => ?_
  exact orderly_ite trivial ((orderly_exec conn _).bind fun _ => orderly_done _)

end NodeUpdate

end EntityGraph
