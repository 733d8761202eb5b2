import EntityGraph.Proofs.Program.Phases
import EntityGraph.Proofs.Transaction.Atomicity

/-!
# What a failed mutation leaves behind

A mutation can fail although the driver carries out all that it is told: the mutation contradicts
itself, nothing is found, or a link is taken. What it has written by then is gone if it was written
in a transaction, which is rolled back. A mutation without a transaction writes last but for one
thing: it still has to find the IDs of the rows that it inserted. `leaves_nothing_iff` says that
this, and batches of bare nodes, are the only ways in which a failed mutation leaves rows behind.
-/

set_option autoImplicit false

namespace EntityGraph

open Program

/-! ## Errors about reported IDs -/

namespace Error

/-- What the database reports as an ID is no ID: there is nothing, or a value of another type. -/
def IsMisread : Error → Prop
  | .notFound _ => True
  | .validation _ (.coercion _) => True
  | _ => False

/-- The dialect does not report IDs of the type at all. -/
def IsUnreported : Error → Prop
  | .validation _ (.unreportedId _ _) => True
  | _ => False

/-- The error is about an ID that the database was to report. -/
def ConcernsReportedId (e : Error) : Prop := e.IsMisread ∨ e.IsUnreported

/-- The error does not come from an ID that the database was to report. -/
def IsForeseen : Error → Prop
  | .notFound _ => False
  | .validation _ (.coercion _) => False
  | .validation _ (.unreportedId _ _) => False
  | _ => True

theorem IsForeseen.not_concerns {e : Error} (h : e.IsForeseen) : ¬e.ConcernsReportedId := by
  cases e with
  | notFound => exact h.elim
  | validation field reason =>
    cases reason with
    | coercion => exact h.elim
    | unreportedId => exact h.elim
    | _ => exact (Or.elim · id id)
  | _ => exact (Or.elim · id id)

end Error

/-- The error says that an operation is malformed in itself. -/
def Error.IsMalformed : Error → Prop
  | .validation _ (.coercion _) | .validation _ (.unreportedId _ _) => False
  | .validation _ _ => True
  | _ => False

/-- The error refuses an operation: the operation is malformed in itself, or a constraint stands
against it. -/
def Error.IsRefusal : Error → Prop
  | .validation _ (.coercion _) | .validation _ (.unreportedId _ _) => False
  | .validation _ _ | .constraint _ => True
  | _ => False

theorem Error.IsMalformed.isRefusal {e : Error} (h : e.IsMalformed) : e.IsRefusal := by
  cases e with
  | validation field reason =>
    cases reason with
    | coercion => exact h.elim
    | unreportedId => exact h.elim
    | _ => trivial
  | _ => exact h.elim

theorem Error.IsRefusal.isForeseen {e : Error} (h : e.IsRefusal) : e.IsForeseen := by
  cases e with
  | validation field reason =>
    cases reason with
    | coercion => exact h.elim
    | unreportedId => exact h.elim
    | _ => trivial
  | notFound => exact h.elim
  | _ => trivial

theorem Error.not_concerns_of_refusal (e : Error) (h : e.IsRefusal) : ¬e.ConcernsReportedId :=
  h.isForeseen.not_concerns

theorem Error.not_misread_of_refusal (e : Error) (h : e.IsRefusal) : ¬e.IsMisread :=
  fun hmisread => e.not_concerns_of_refusal h (.inl hmisread)

/-! ## Checks -/

theorem FailsOnly.refused {α : Type} {x : Except Error α} (h : FailsOnly Error.IsMalformed x) :
    FailsOnly Error.IsRefusal x := fun e he => (h e he).isRefusal

theorem Field.bindValue_malformed (f : Field) : FailsOnly Error.IsMalformed f.bindValue := by
  unfold bindValue
  refine failsOnly_ite (failsOnly_error trivial) ?_
  split <;> exact failsOnly_ok _

theorem Edge.foreignKey_malformed (e : Edge) : FailsOnly Error.IsMalformed e.foreignKey := by
  unfold foreignKey
  split
  case h_1 => exact failsOnly_ok _
  case h_2 => exact failsOnly_error trivial

theorem Edge.joinColumns_malformed (e : Edge) : FailsOnly Error.IsMalformed e.joinColumns := by
  unfold joinColumns
  split
  case h_1 => exact failsOnly_ok _
  case h_2 => exact failsOnly_error trivial

theorem Node.ownColumns_malformed (node : Node) (fields : List Field) (edges : List Edge) :
    FailsOnly Error.IsMalformed (node.ownColumns fields edges) := by
  have hfield : ∀ f, FailsOnly Error.IsMalformed (node.fieldColumn f) := fun f =>
    FailsOnly.bind (failsOnly_ite (failsOnly_ok _) (failsOnly_error trivial)) fun _ =>
      f.bindValue_malformed.bind fun _ => failsOnly_ok _
  refine (failsOnly_mapM hfield).bind fun written => ?_
  refine FailsOnly.bind (failsOnly_mapM fun e => ?_) fun linked => ?_
  · refine e.foreignKey_malformed.bind fun column => ?_
    split
    case h_1 => exact failsOnly_ok _
    case h_2 => exact failsOnly_error trivial
  · dsimp only
    split
    case h_1 => exact failsOnly_error trivial
    case h_2 => exact failsOnly_ok _

theorem Insert.compile_refused (d : Dialect) (i : Insert) :
    FailsOnly Error.IsRefusal (i.compile d) := by
  have hrows : FailsOnly Error.IsRefusal i.checkRows := by
    unfold checkRows
    split
    case h_1 => exact failsOnly_error trivial
    case h_2 => exact failsOnly_ok _
  have hconflict : ∀ policy, FailsOnly Error.IsRefusal (i.conflictClause policy) := by
    intro policy
    unfold conflictClause
    dsimp only
    split
    case h_1 => exact failsOnly_ok _
    all_goals exact failsOnly_ite (failsOnly_error trivial) (failsOnly_ok _)
  have hduplicate : ∀ policy, FailsOnly Error.IsRefusal (i.duplicateClause policy) := by
    intro policy
    unfold duplicateClause
    split
    case h_1 =>
      split
      case h_1 => exact failsOnly_ok _
      case h_2 => exact failsOnly_error trivial
    case h_2 => exact failsOnly_ok _
  refine hrows.bind fun _ => ?_
  dsimp only
  split
  case h_1 => exact failsOnly_ok _
  case h_2 policy _ =>
    split
    case h_1 => exact (hduplicate policy).bind fun _ => failsOnly_ok _
    all_goals exact (hconflict policy).bind fun _ => failsOnly_ok _

/-- The error refuses to link a node to a target of one of its edges of one to one, which another
node has claimed or is linked to. -/
def NodeCreation.RefusesLink (c : NodeCreation) (why : Error) : Prop :=
  ∃ e ∈ c.edges, e.isOneToOne = true ∧ ∃ target ∈ e.target.nodes, ∃ column,
    why = (LinkConflict.claimedTwice target c.node.label column).toError ∨
      why = (LinkConflict.targetTaken target c.node.label column).toError

theorem NodeCreation.RefusesLink.isRefusal {c : NodeCreation} {why : Error}
    (h : c.RefusesLink why) : why.IsRefusal := by
  obtain ⟨e, -, -, target, -, column, rfl | rfl⟩ := h <;> trivial

theorem PartnerClaim.addAll_refuses (c : NodeCreation) (claims : List PartnerClaim) :
    FailsOnly (fun why => why.IsMalformed ∨ c.RefusesLink why) (addAll c.node claims c.edges) := by
  refine failsOnly_foldlM (fun claims e he => ?_) claims
  obtain ⟨he, hone⟩ := List.mem_filter.mp he
  unfold ofEdge
  rw [bind_assoc]
  refine FailsOnly.bind (fun why hwhy => .inl (e.foreignKey_malformed why hwhy)) fun column => ?_
  refine failsOnly_foldlM (fun claims claim hclaim => ?_) claims
  obtain ⟨target, htarget, rfl⟩ := List.mem_map.mp hclaim
  refine failsOnly_ite (failsOnly_error (.inr ?_)) (failsOnly_ok _)
  exact ⟨e, he, hone, target, htarget, column, .inl rfl⟩

theorem NodeCreation.insertion_refused (d : Dialect) (c : NodeCreation)
    (supplied : Option Value) : FailsOnly Error.IsRefusal (c.insertion d supplied) := by
  refine (c.node.ownColumns_malformed _ _).refused.bind fun own => ?_
  dsimp only
  split
  case h_1 => exact failsOnly_ok _
  case h_2 => exact failsOnly_ite (failsOnly_ok _) (failsOnly_ok _)

/-- An ID that cannot be read is misread. -/
theorem Node.readId_misread (node : Node) (v : Value) :
    FailsOnly Error.IsMisread (node.readId v) := by
  unfold readId readColumn
  split
  case h_1 => exact failsOnly_ok _
  case h_2 => exact failsOnly_error trivial

/-! ## The phases of operations -/

section Phases

variable {Late : Error → Prop}

section Malformed

variable (hmalformed : ∀ e : Error, e.IsMalformed → ¬Late e)
include hmalformed

theorem prepares_malformed {α : Type} {x : Except Error α} (hx : FailsOnly Error.IsMalformed x) :
    (Program.ofExcept x).Prepares Late :=
  prepares_ofExcept fun e he => hmalformed e (hx e he)

/-- Partners are checked by questions, which do not write. -/
theorem Partner.check_prepares_of {conn : Connection} {node : Node} {id? : Option Value}
    {add clear : List Edge} (hlinks : ∀ e ∈ add, e.isOneToOne = true → ∀ fk,
      ∀ target ∈ e.target.nodes, ∀ q ∈ questions node id? e fk target, ¬Late q.conflict.toError) :
    (check conn node id? add clear).Prepares Late := by
  refine prepares_forM fun e he => ?_
  obtain ⟨he, hone⟩ := List.mem_filter.mp he
  unfold checkEdge
  split
  case h_1 => exact prepares_done _
  case h_2 target _ htargets =>
    refine (prepares_malformed hmalformed e.foreignKey_malformed).bind fun fk =>
      prepares_forM fun q hq => (prepares_probe conn _).bind fun taken => ?_
    refine prepares_ite (prepares_fail ?_) (prepares_done _)
    exact hlinks e he (Bool.and_eq_true_iff.mp hone).1 fk target (htargets ▸ List.mem_cons_self) q hq

theorem NodeCreation.supplyId_prepares (position : Nat) (node : Node) :
    (supplyId position node).Prepares Late := by
  have hbind : ∀ id : Field, (ofExcept id.bindValue >>= fun v =>
      Program.done (some v)).Prepares Late := fun id =>
    (prepares_malformed hmalformed id.bindValue_malformed).bind fun _ => prepares_done _
  unfold supplyId
  refine prepares_ite (hbind _) ?_
  split
  case h_1 => exact prepares_done _
  case h_2 => exact prepares_fail (hmalformed _ trivial)
  case h_3 g _ =>
    exact (prepares_draw g).bind fun _ => (prepares_revise position _).bind fun _ => hbind _

theorem BatchCreation.ownRows_prepares_of (conn : Connection) {nodes : List NodeCreation} (i : Nat)
    (claims : List PartnerClaim)
    (hlinks : ∀ c ∈ nodes, ∀ why, c.RefusesLink why → ¬Late why) :
    (ownRows conn i claims nodes).Prepares Late := by
  induction nodes generalizing i claims with
  | nil => exact prepares_done _
  | cons c rest ih =>
    obtain ⟨hlink, hlinks⟩ := List.forall_mem_cons.mp hlinks
    refine (prepares_ofExcept fun why hwhy => ?_).bind fun claimed => ?_
    · exact (PartnerClaim.addAll_refuses c claims why hwhy).elim (hmalformed why) (hlink why)
    refine (Partner.check_prepares_of hmalformed fun e he hone fk target htarget q hq => ?_).bind
      fun _ => ?_
    · -- a node that is not stored yet is asked about by its targets only
      have hconflict : q.conflict = .targetTaken target c.node.label fk := by
        unfold Partner.questions at hq
        cases hown : e.writesOwnColumn <;> simp_all
      rw [hconflict]
      exact hlink _ ⟨e, he, hone, target, htarget, fk, .inr rfl⟩
    refine (NodeCreation.supplyId_prepares hmalformed i c.node).bind fun id => ?_
    refine (prepares_malformed hmalformed (c.node.ownColumns_malformed _ _)).bind fun columns => ?_
    exact (ih (i + 1) claimed hlinks).bind fun _ => prepares_done _

end Malformed

variable (hlate : ∀ e : Error, e.IsRefusal → ¬Late e)
include hlate

theorem prepares_check {α : Type} {x : Except Error α} (hx : FailsOnly Error.IsRefusal x) :
    (Program.ofExcept x).Prepares Late :=
  prepares_ofExcept fun e he => hlate e (hx e he)

theorem Partner.check_prepares (conn : Connection) (node : Node) (id? : Option Value)
    (add clear : List Edge) : (check conn node id? add clear).Prepares Late :=
  check_prepares_of (fun e he => hlate e he.isRefusal) fun _ _ _ _ _ _ _ _ => hlate _ trivial

theorem BatchCreation.ownRows_prepares (conn : Connection) (nodes : List NodeCreation) (i : Nat)
    (claims : List PartnerClaim) : (ownRows conn i claims nodes).Prepares Late :=
  ownRows_prepares_of (fun e he => hlate e he.isRefusal) conn i claims fun _ _ why hwhy =>
    hlate why hwhy.isRefusal

theorem stores_execInsert (conn : Connection) (i : Insert) : (conn.execInsert i).Stores Late :=
  (prepares_check hlate (i.compile_refused _)).stores fun _ => stores_exec conn rfl

theorem stores_queryInsert (conn : Connection) (i : Insert) : (conn.queryInsert i).Stores Late :=
  (prepares_check hlate (i.compile_refused _)).stores fun _ => stores_query conn rfl

end Phases

/-- Edges that need no transaction are not written on their own. -/
theorem ExternalEdges.create_done {conn : Connection} {id : Value} {edges : List Edge}
    (h : needTransaction edges = false) : create conn id edges = .done () := by
  have hjoin : (edges.map fun e => ([id], e)).filter (fun l => l.2.isManyToMany) = [] := by
    refine List.filter_eq_nil_iff.mpr fun l hl => ?_
    obtain ⟨e, he, rfl⟩ := List.mem_map.mp hl
    simp [Edge.isManyToMany, (not_external h he).2]
  have hkeys : (edges.filter fun e => e.isForeignKeyEdge && !e.target.nodes.isEmpty) = [] := by
    refine List.filter_eq_nil_iff.mpr fun e he => ?_
    simp [Edge.isForeignKeyEdge, (not_external h he).2]
  simp only [create, JoinTable.add, ForeignKey.add, hjoin, hkeys]
  rfl

namespace NodeCreation

/-- What follows the insert of a node whose edges are in its own row is no error. -/
theorem finish_concludes {conn : Connection} {Late : Error → Prop} {position : Nat} (id : Value)
    {edges : List Edge} (h : ExternalEdges.needTransaction edges = false) :
    (do
      Program.revise position (.id id)
      ExternalEdges.create conn id edges
      pure id : Program Value).Concludes Late := by
  rw [ExternalEdges.create_done h]
  exact (concludes_revise position _).bind fun _ => concludes_done _

/-- An insert whose ID is read back fails late exactly if the ID cannot be had. -/
theorem insertedId_stores (conn : Connection) (node : Node) (i : Insert)
    (supplied : Option Value) :
    (insertedId conn node i supplied).Stores Error.ConcernsReportedId := by
  have hread : ∀ v, (ofExcept (node.readId v)).Concludes Error.ConcernsReportedId := fun v =>
    concludes_ofExcept fun e he => .inl (node.readId_misread v e he)
  have hnone : (Program.fail (.notFound node.label) : Program Value).Concludes
      Error.ConcernsReportedId := concludes_fail (.inl trivial)
  unfold insertedId
  refine stores_ite ?_ ?_
  · refine (stores_queryInsert Error.not_concerns_of_refusal conn _).bind fun rows => ?_
    split
    case h_1 => exact hread _
    case h_2 => exact concludes_done _
    case h_3 => exact hnone
  · refine (stores_execInsert Error.not_concerns_of_refusal conn i).bind fun result => ?_
    split
    case h_1 => exact concludes_done _
    case h_2 =>
      refine Concludes.bind (concludes_ofExcept ?_) fun _ => ?_
      · exact failsOnly_ite (failsOnly_ok _) (failsOnly_error (.inr trivial))
      · split
        case h_1 => exact concludes_ite (hread _) hnone
        case h_2 => exact hnone

/-- A creation whose edges are in the node's own row fails late exactly if it has inserted the row
but cannot find its ID. -/
theorem write_stores {conn : Connection} {position : Nat} {c : NodeCreation}
    (h : ExternalEdges.needTransaction c.edges = false) :
    (write conn position c).Stores Error.ConcernsReportedId := by
  unfold write
  refine (Partner.check_prepares Error.not_concerns_of_refusal conn _ _ _ _).stores fun _ => ?_
  refine (supplyId_prepares (fun e he => e.not_concerns_of_refusal he.isRefusal) position
    c.node).stores fun supplied => ?_
  refine (prepares_check Error.not_concerns_of_refusal (c.insertion_refused _ _)).stores fun i => ?_
  split
  case h_1 id _ =>
    have hinsert := stores_execInsert Error.not_concerns_of_refusal conn i
    exact hinsert.discard.bind fun _ => finish_concludes id h
  case h_2 => exact (insertedId_stores conn _ i _).bind fun id => finish_concludes id h

end NodeCreation

/-! ## The phases of batches -/

theorem checkReported_prepares (d : Dialect) (node : Node) :
    (Program.ofExcept (NodeCreation.checkReported d node)).Prepares Error.IsMisread :=
  prepares_ofExcept (failsOnly_ite (failsOnly_ok _) (failsOnly_error id))

namespace BoundRows

theorem storedRows_stores (conn : Connection) (b : BoundRows) (node : Node) (i : Insert)
    (policy : ConflictPolicy) : (b.storedRows conn node i policy).Stores Error.IsMisread := by
  have hread : ∀ select : Selector, (do
      let rows ← conn.query (.select select)
      pure rows.rows : Program (List (List Value))).Concludes Error.IsMisread := fun select =>
    (concludes_query conn _).bind fun _ => concludes_done _
  unfold storedRows
  refine stores_ite ((stores_queryInsert Error.not_misread_of_refusal conn _).bind fun _ =>
    concludes_done _) ?_
  -- Whether IDs are generated decides only whether their type is checked first.
  refine stores_ite ((checkReported_prepares _ node).stores fun _ => ?_) ?_
  all_goals
    refine (stores_execInsert Error.not_misread_of_refusal conn i).bind fun result => ?_
    refine concludes_ite ?_ (hread _)
    split
    case h_1 => exact concludes_ite (hread _) (concludes_done _)
    case h_2 => exact concludes_done _

theorem identifyAll_misread (b : BoundRows) (node : Node) (keys : List Nat)
    (stored : List (List Value)) : FailsOnly Error.IsMisread (b.identifyAll node keys stored) := by
  refine failsOnly_foldlM (fun ids row _ => ?_) _
  unfold identify
  split
  case h_1 => exact failsOnly_ok _
  case h_2 =>
    split
    case h_1 => exact failsOnly_ok _
    case h_2 => exact (node.readId_misread _).bind fun _ => failsOnly_ok _

theorem returnedIds_misread (node : Node) (ids : List Value) (rows : List (List Value)) :
    FailsOnly Error.IsMisread (returnedIds node ids rows) := by
  induction ids generalizing rows with
  | nil => exact failsOnly_ok _
  | cons id ids ih =>
    cases rows with
    | nil => exact failsOnly_ok _
    | cons row rows =>
      cases row with
      | nil => exact (failsOnly_ok _).bind fun _ => (ih rows).bind fun _ => failsOnly_ok _
      | cons v row =>
        exact (node.readId_misread v).bind fun _ => (ih rows).bind fun _ => failsOnly_ok _

theorem consecutiveIds_misread (node : Node) (count : Nat) (next : Int64) (ids : List Value) :
    FailsOnly Error.IsMisread (consecutiveIds node count next ids) := by
  induction ids generalizing count next with
  | nil => cases count <;> exact failsOnly_ok _
  | cons id ids ih =>
    cases count with
    | zero => exact failsOnly_ok _
    | succ count =>
      exact (node.readId_misread _).bind fun _ => (ih count (next + 1)).bind fun _ => failsOnly_ok _

theorem insertedIds_stores (conn : Connection) (b : BoundRows) (node : Node) (i : Insert) :
    (b.insertedIds conn node i).Stores Error.IsMisread := by
  unfold insertedIds
  refine stores_ite ?_ ((checkReported_prepares _ node).stores fun _ => ?_)
  · refine (stores_queryInsert Error.not_misread_of_refusal conn _).bind fun rows => ?_
    exact concludes_ofExcept (returnedIds_misread node _ _)
  · refine (stores_execInsert Error.not_misread_of_refusal conn i).bind fun result => ?_
    split
    case h_1 => exact concludes_fail trivial
    case h_2 => exact concludes_ofExcept (consecutiveIds_misread node _ _ _)

end BoundRows

namespace BatchCreation

theorem insertRows_stores (conn : Connection) (node : Node) (policy : Option ConflictPolicy)
    (supplied : List Value) (b : BoundRows) :
    (insertRows conn node policy supplied b).Stores Error.IsMisread := by
  unfold insertRows
  split
  case h_1 =>
    exact (BoundRows.storedRows_stores conn b node _ _).bind fun _ =>
      concludes_ofExcept (b.identifyAll_misread node _ _)
  case h_2 =>
    refine stores_ite (BoundRows.insertedIds_stores conn b node _) ?_
    have hinsert := stores_execInsert Error.not_misread_of_refusal conn
    exact (hinsert _).discard.bind fun _ => concludes_done _

theorem reviseIds_concludes {Late : Error → Prop} (ids : List Value) (i : Nat) :
    (reviseIds i ids).Concludes Late := by
  induction ids generalizing i with
  | nil => exact concludes_done _
  | cons id ids ih => exact (concludes_revise i _).bind fun _ => ih (i + 1)

/-- Edges that need no transaction are written with the rows of their nodes. -/
theorem addEdges_concludes {Late : Error → Prop} {conn : Connection} {nodes : List NodeCreation}
    (ids : List Value) (h : ∀ c ∈ nodes, ExternalEdges.needTransaction c.edges = false) :
    (addEdges conn nodes ids).Concludes Late := by
  have hedges : ∀ p ∈ (nodes.zip ids).filter (fun p => !p.2.isNull), ∀ e ∈ p.1.edges,
      e.relation = .manyToOne := fun p hp e he =>
    (ExternalEdges.not_external (h _ (List.of_mem_zip (List.mem_filter.mp hp).1).1) he).2
  have hjoin : (((nodes.zip ids).filter fun p => !p.2.isNull).flatMap fun p =>
      p.1.edges.map fun e => ([p.2], e)).filter (fun l => l.2.isManyToMany) = [] := by
    refine List.filter_eq_nil_iff.mpr fun l hl => ?_
    obtain ⟨p, hp, hl⟩ := List.mem_flatMap.mp hl
    obtain ⟨e, he, rfl⟩ := List.mem_map.mp hl
    simp [Edge.isManyToMany, hedges p hp e he]
  refine Concludes.bind ?_ fun _ => concludes_forM fun p hp => ?_
  · unfold JoinTable.add
    rw [hjoin]
    exact concludes_done _
  · have hkeys : (p.1.edges.filter fun e => e.isForeignKeyEdge && !e.target.nodes.isEmpty) = [] := by
      refine List.filter_eq_nil_iff.mpr fun e he => ?_
      simp [Edge.isForeignKeyEdge, hedges p hp e he]
    simp only [ForeignKey.add, hkeys]
    exact concludes_done _

/-- A bulk insert whose edges need no transaction fails late exactly if it has inserted its rows but
cannot find their IDs. Bare nodes are not inserted in bulk. -/
theorem createBulk_stores {conn : Connection} {b : BatchCreation} (hnodes : b.nodes ≠ [])
    (hedges : ∀ c ∈ b.nodes, ExternalEdges.needTransaction c.edges = false)
    (hbare : ¬∀ c ∈ b.nodes, c.IsBare) : (createBulk conn b).Stores Error.IsMisread := by
  have hprepares := ownRows_prepares Error.not_misread_of_refusal conn b.nodes 0 []
  refine hprepares.stores_of_run fun rows log hrows => ?_
  have hrest : ∀ (first : NodeCreation) (rest : List NodeCreation) (ids : List Value),
      b.nodes = first :: rest → (do
        reviseIds 0 ids
        addEdges conn (first :: rest) ids
        pure ids : Program (List Value)).Concludes Error.IsMisread := fun first rest ids hb =>
    (reviseIds_concludes ids 0).bind fun _ =>
      (addEdges_concludes ids (hb ▸ hedges)).bind fun _ => concludes_done _
  dsimp only
  cases hb : b.nodes with
  | nil => exact absurd hb hnodes
  | cons first rest =>
    refine stores_ite (stores_fail id) ?_
    split
    case isTrue hcolumns =>
      exact absurd (bare_of_columnless (ownRows_are_of hrows) hedges
        (List.isEmpty_iff.mp hcolumns)) hbare
    case isFalse =>
      exact (insertRows_stores conn first.node _ _ _).bind fun ids => hrest first rest ids hb

end BatchCreation

/-! ## Batches of bare nodes -/

/-- All statements of the program change rows. -/
def Program.OnlyWrites {α : Type} (p : Program α) : Prop :=
  ∀ log result, p.Run log result →
    ∀ x ∈ log, x.call.isStatement = true → x.call.isWrite = true

section OnlyWrites

variable {α β : Type}

theorem onlyWrites_done (a : α) : (Program.done a).OnlyWrites := by
  intro log result h
  obtain ⟨rfl, -⟩ := run_done.mp h
  exact fun x hx => absurd hx List.not_mem_nil

theorem onlyWrites_fail (e : Error) : (Program.fail e : Program α).OnlyWrites := by
  intro log result h
  obtain ⟨rfl, -⟩ := run_fail.mp h
  exact fun x hx => absurd hx List.not_mem_nil

theorem onlyWrites_ofExcept (x : Except Error α) : (Program.ofExcept x).OnlyWrites := by
  intro log result h
  obtain ⟨rfl, -⟩ := run_ofExcept.mp h
  exact fun x hx => absurd hx List.not_mem_nil

theorem Program.OnlyWrites.bind {p : Program α} {f : α → Program β} (hp : p.OnlyWrites)
    (hf : ∀ a, (f a).OnlyWrites) : (p >>= f).OnlyWrites := by
  intro log result h x hx
  rcases run_bind.mp h with ⟨e, hfail, -⟩ | ⟨a, before, after, rfl, hbefore, hafter⟩
  · exact hp log _ hfail x hx
  · rcases List.mem_append.mp hx with hx | hx
    · exact hp before _ hbefore x hx
    · exact hf a after result hafter x hx

/-- A call that sends no statement, or writes, is followed by writes only. -/
theorem onlyWrites_call {c : Call} {next : c.Reply → Program α}
    (hc : c.isStatement = true → c.isWrite = true) (hnext : ∀ r, (next r).OnlyWrites) :
    (Program.call c next).OnlyWrites := by
  intro log result h
  obtain ⟨live, r, rest, rfl, hrest⟩ := run_call.mp h
  exact List.forall_mem_cons.mpr ⟨hc, hnext r rest result hrest⟩

theorem onlyWrites_settle (d : Dialect) (r : Outcome α) :
    (Connection.settle d r).OnlyWrites := by
  cases r with
  | done a => exact onlyWrites_done a
  | failed f => exact onlyWrites_fail _
  | interrupted why => exact onlyWrites_fail _

theorem onlyWrites_execInsert (conn : Connection) (i : Insert) :
    (conn.execInsert i).OnlyWrites :=
  (onlyWrites_ofExcept _).bind fun statement =>
    onlyWrites_call (c := .exec conn.inside (.insert statement)) (fun _ => rfl)
      (onlyWrites_settle conn.dialect)

theorem onlyWrites_queryInsert (conn : Connection) (i : Insert) :
    (conn.queryInsert i).OnlyWrites :=
  (onlyWrites_ofExcept _).bind fun statement =>
    onlyWrites_call (c := .query conn.inside (.insert statement)) (fun _ => rfl)
      (onlyWrites_settle conn.dialect)

theorem onlyWrites_revise (position : Nat) (r : Revision) :
    (Program.revise position r).OnlyWrites :=
  onlyWrites_call (c := .revise position r) nofun onlyWrites_done

end OnlyWrites

namespace NodeCreation

theorem insertedId_onlyWrites (conn : Connection) (node : Node) (i : Insert)
    (supplied : Option Value) : (insertedId conn node i supplied).OnlyWrites := by
  unfold insertedId
  split
  case isTrue =>
    refine (onlyWrites_queryInsert conn _).bind fun rows => ?_
    split
    case h_1 => exact onlyWrites_ofExcept _
    case h_2 => exact onlyWrites_done _
    case h_3 => exact onlyWrites_fail _
  case isFalse =>
    refine (onlyWrites_execInsert conn i).bind fun result => ?_
    split
    case h_1 => exact onlyWrites_done _
    case h_2 =>
      refine (onlyWrites_ofExcept _).bind fun _ => ?_
      split
      case h_1 =>
        split
        case isTrue => exact onlyWrites_ofExcept _
        case isFalse => exact onlyWrites_fail _
      case h_2 => exact onlyWrites_fail _

variable {c : NodeCreation}

theorem IsBare.supplyId (h : c.IsBare) (position : Nat) :
    supplyId position c.node = .done none := by
  obtain ⟨-, -, hnull, hstrategy⟩ := h
  simp only [NodeCreation.supplyId, hnull, hstrategy, Bool.not_true, Bool.false_eq_true, if_false]
  rfl

theorem IsBare.ownColumns (h : c.IsBare) : c.node.ownColumns c.fields c.edges = .ok [] := by
  rw [h.1, h.2.1]
  rfl

/-- The creation of a bare node sends nothing but its insert. -/
theorem IsBare.write_onlyWrites (h : c.IsBare) (conn : Connection) (position : Nat) :
    (write conn position c).OnlyWrites := by
  have hwrite : write conn position c = (Program.ofExcept (c.insertion conn.dialect none) >>=
      fun i => insertedId conn c.node i none >>= fun id =>
        Program.revise position (.id id) >>= fun _ => Program.done id) := by
    unfold write
    rw [h.2.1, h.supplyId]
    rfl
  rw [hwrite]
  refine (onlyWrites_ofExcept _).bind fun i => (insertedId_onlyWrites conn _ i none).bind fun id => ?_
  exact (onlyWrites_revise position _).bind fun _ => onlyWrites_done id

end NodeCreation

namespace BatchCreation

/-- Bare nodes have nothing to insert together. -/
theorem ownRows_bare {conn : Connection} {nodes : List NodeCreation}
    (h : ∀ c ∈ nodes, c.IsBare) (i : Nat) (claims : List PartnerClaim) :
    ownRows conn i claims nodes = .done (nodes.map fun _ => ⟨none, []⟩) := by
  induction nodes generalizing i claims with
  | nil => rfl
  | cons c rest ih =>
    obtain ⟨hc, hrest⟩ := List.forall_mem_cons.mp h
    have hclaims : PartnerClaim.addAll c.node claims c.edges = .ok claims := by
      rw [hc.2.1]
      rfl
    have hpartners : Partner.check conn c.node none c.edges [] = .done () := by
      rw [hc.2.1]
      rfl
    simp only [ownRows, hclaims, hpartners, hc.supplyId, hc.ownColumns, ih hrest]
    rfl

theorem createEach_onlyWrites (conn : Connection) {nodes : List NodeCreation}
    (h : ∀ c ∈ nodes, c.IsBare) (i : Nat) : (createEach conn i nodes).OnlyWrites := by
  induction nodes generalizing i with
  | nil => exact onlyWrites_done _
  | cons c rest ih =>
    obtain ⟨hc, hrest⟩ := List.forall_mem_cons.mp h
    exact (hc.write_onlyWrites conn i).bind fun _ =>
      (ih hrest (i + 1)).bind fun _ => onlyWrites_done _

/-- A batch of bare nodes sends nothing but the inserts of its nodes. -/
theorem createBulk_onlyWrites (conn : Connection) {b : BatchCreation}
    (h : ∀ c ∈ b.nodes, c.IsBare) : (createBulk conn b).OnlyWrites := by
  have hids : ∀ nodes : List NodeCreation,
      (nodes.map fun _ => (⟨none, []⟩ : OwnRow)).filterMap OwnRow.id = [] := fun nodes => by
    induction nodes with
    | nil => rfl
    | cons c rest ih => exact ih
  have hcolumns : ∀ (nodes : List NodeCreation) (column : String),
      columnsOf column [] (nodes.map fun _ => (⟨none, []⟩ : OwnRow)) = [] := fun nodes column => by
    have hnames : (nodes.map fun _ => (⟨none, []⟩ : OwnRow)).flatMap
        (fun r => r.columns.map (·.1)) = [] := by
      refine List.flatMap_eq_nil_iff.mpr fun r hr => ?_
      obtain ⟨_, -, rfl⟩ := List.mem_map.mp hr
      rfl
    rw [columnsOf, hnames]
    rfl
  unfold createBulk
  rw [ownRows_bare h]
  simp only [done_bind, hids]
  cases hb : b.nodes with
  | nil => exact onlyWrites_done _
  | cons first rest =>
    simp only [hcolumns]
    exact createEach_onlyWrites conn (hb ▸ h) 0

end BatchCreation

/-! ## What is left behind -/

/-- The driver was told one transaction, which was rolled back. -/
def RolledBack (log : List Exchange) : Prop :=
  ∃ opening inner last, received log = opening :: (inner ++ [last]) ∧ opening.opens ∧
    (∀ x ∈ inner, x.call.isStatement = true ∧ x.call.isInside = true) ∧
    last.call = .rollback ∧ last.succeeds = true

/-- Whatever the driver was told to write was inside a transaction that was rolled back. -/
def LeavesNothing (log : List Exchange) : Prop :=
  ∀ x ∈ received log, x.call.isWrite = true → x.call.isInside = true ∧ RolledBack log

namespace Mutation

/-- The mutation deletes nodes. -/
def IsDeletion : Mutation → Prop
  | .deleteNode _ => True
  | .deleteNodes _ => True
  | _ => False

/-- The mutation is planned without a transaction. -/
def IsPlain (m : Mutation) : Prop := ∃ p, m.plan = .ok p ∧ p.transactional = false

/-- The mutation fails when it has stored a row already. A creation does so if it cannot have the
ID of its row. A batch knows in advance which IDs are never reported; but one of bare nodes, which
are inserted one by one, fails late as soon as anything has been sent. An update checks all it
writes beforehand. -/
def FailsLate (e : Error) (log : List Exchange) : Mutation → Prop
  | .createNode _ => e.ConcernsReportedId
  | .batchCreate b =>
    (∀ c ∈ b.nodes, c.IsBare) ∧ (∃ x ∈ log, x.call.isStatement = true) ∨
      (¬∀ c ∈ b.nodes, c.IsBare) ∧ e.IsMisread
  | _ => False

end Mutation

/-- A write is a statement. -/
theorem Call.isStatement_of_isWrite {c : Call} (h : c.isWrite = true) : c.isStatement = true := by
  cases c with
  | exec => rfl
  | query => rfl
  | _ => cases h

/-- An update of rows has checked everything before it writes. -/
theorem NodeUpdate.writeRows_failure {conn : Connection} {u : NodeUpdate} {log : List Exchange}
    {e : Error} (h : (u.writeRows conn).Run log (.error e)) (hlog : CarriedOut log) :
    writes log = 0 := by
  rcases run_bind.mp h with ⟨e', hown, -⟩ | ⟨own, before, after, rfl, hown, h⟩
  · obtain ⟨rfl, -⟩ := run_ofExcept.mp hown
    rfl
  · split at h
    case isTrue => cases (run_done.mp h).2
    case isFalse =>
      rcases run_bind.mp h with ⟨e', hexec, -⟩ | ⟨r, _, _, rfl, -, hdone⟩
      · obtain ⟨_, _, -, ⟨⟩⟩ := run_exec_carriedOut hexec (carriedOut_append.mp hlog).2
      · cases (run_done.mp hdone).2

/-- What the body of a plain mutation has written by the time it fails is told by its error. -/
theorem Mutation.plain_failure {d : Dialect} {m : Mutation} {p : Plan m.Result}
    {log : List Exchange} {e : Error} (hm : ¬m.IsDeletion) (hp : m.plan = .ok p)
    (hplain : p.transactional = false) (h : (p.body ⟨d, false⟩).Run log (.error e))
    (hlog : CarriedOut log) : m.FailsLate e log ↔ 0 < writes log := by
  cases planned hp with
  | createNode => exact (NodeCreation.write_stores hplain log _ h hlog).2 e rfl
  | @batchCreate b _ hbatch =>
    cases hbatch with
    | nothing => cases (run_done.mp h).2
    | chain => cases hplain
    | bulk hchecked =>
      by_cases hbare : ∀ c ∈ b.nodes, c.IsBare
      · have hwrites := BatchCreation.createBulk_onlyWrites ⟨d, false⟩ hbare log _ h
        rw [writes, List.countP_pos_iff]
        constructor
        · rintro (⟨-, x, hx, hs⟩ | ⟨hnot, -⟩)
          · exact ⟨x, hx, hwrites x hx hs⟩
          · exact absurd hbare hnot
        · rintro ⟨x, hx, hw⟩
          exact .inl ⟨hbare, x, hx, Call.isStatement_of_isWrite hw⟩
      · have hedges : ∀ c ∈ b.nodes, ExternalEdges.needTransaction c.edges = false := by
          intro c hc
          simpa using List.any_eq_false.mp hplain c hc
        have hstores : (BatchCreation.createBulk ⟨d, false⟩ b).Stores Error.IsMisread :=
          BatchCreation.createBulk_stores hchecked.ne_nil hedges hbare
        simpa [FailsLate, hbare] using (hstores log _ h hlog).2 e rfl
  | updateNode => cases hplain
  | updateFound => cases hplain
  | updateRows => exact iff_of_false id (by simp [NodeUpdate.writeRows_failure h hlog])
  | deleteNode => exact absurd trivial hm
  | deleteNodes => exact absurd trivial hm

/-- In a context nothing gets through to the driver once it is done. -/
theorem Conducted.admits {live : Bool} {log : List Exchange} (h : Conducted live log) :
    ∀ x ∈ log, x.call.Admits x.live x.reply := by
  induction log generalizing live with
  | nil => exact fun x hx => absurd hx List.not_mem_nil
  | cons x rest ih =>
    obtain ⟨-, hadmits, hrest⟩ := h
    exact List.forall_mem_cons.mpr ⟨hadmits, ih hrest⟩

/-- A statement that the context holds back is interrupted. -/
theorem Exchange.interrupted_of_admits {x : Exchange} (h : x.call.Admits x.live x.reply)
    (hs : x.call.isStatement = true) (hlive : x.live = false) (d : Dialect) :
    x.succeeds = false ∧ ∃ why, x.call.error? d x.reply = some (.interrupted why) := by
  obtain ⟨c, live, r⟩ := x
  cases c with
  | exec =>
    obtain ⟨why, rfl⟩ := h hlive
    exact ⟨rfl, why, rfl⟩
  | query =>
    obtain ⟨why, rfl⟩ := h hlive
    exact ⟨rfl, why, rfl⟩
  | _ => cases hs

/-- A statement reaches the driver in a live context. -/
theorem Exchange.reachesDriver_of_live {x : Exchange} (hs : x.call.isStatement = true)
    (hlive : x.live = true) : x.reachesDriver = true := by
  obtain ⟨c, live, r⟩ := x
  cases c with
  | exec => exact hlive
  | query => exact hlive
  | _ => cases hs

/-- Where the driver carries out all that it is told and the operation was not interrupted, all its
statements are carried out. -/
theorem carriedOut_of_orderly {α : Type} {conn : Connection} {p : Program α} {live : Bool}
    {log : List Exchange} {result : Except Error α} (hp : p.Orderly conn) (h : p.Run log result)
    (hc : Conducted live log) (hdone : ∀ x ∈ received log, x.succeeds = true)
    (hresult : ∀ why, result ≠ .error (.interrupted why)) :
    CarriedOut log ∧ ∀ x ∈ log, x.call.isStatement = true → x.live = true := by
  have hlive : ∀ x ∈ log, x.call.isStatement = true → x.live = true := by
    intro x hx hs
    cases hl : x.live with
    | true => rfl
    | false =>
      obtain ⟨-, why, he⟩ := Exchange.interrupted_of_admits (hc.admits x hx) hs hl conn.dialect
      rcases (hp.run h).2 with hsmooth | ⟨before, y, e, rfl, hsmooth, hy, rfl⟩
      · rw [hsmooth x hx] at he
        cases he
      · rcases List.mem_append.mp hx with hx | hx
        · rw [hsmooth x hx] at he
          cases he
        · obtain rfl := List.mem_singleton.mp hx
          rw [hy] at he
          cases he
          exact absurd rfl (hresult why)
  refine ⟨fun x hx hs => hdone x (List.mem_filter.mpr ⟨hx, ?_⟩), hlive⟩
  exact Exchange.reachesDriver_of_live hs (hlive x hx hs)

/-- Only statements inside the transaction write. -/
theorem RolledBack.leavesNothing {log : List Exchange} (h : RolledBack log) :
    LeavesNothing log := by
  intro x hx hw
  refine ⟨?_, h⟩
  obtain ⟨opening, inner, last, hreceived, ⟨hopen, -⟩, hinner, hlast, -⟩ := h
  rw [hreceived, List.mem_cons, List.mem_append, List.mem_singleton] at hx
  rcases hx with rfl | hx | rfl
  · rw [hopen] at hw
    cases hw
  · exact (hinner x hx).2
  · rw [hlast] at hw
    cases hw

/-- A transaction whose operation fails, though the driver carries out all that it is told, is
rolled back. -/
theorem rolledBack_of_error {α : Type} {d : Dialect} {body : Connection → Program α} {live : Bool}
    {log : List Exchange} {e : Error} (hbody : ∀ conn, (body conn).Orderly conn)
    (h : (Connection.run d true body).Run log (.error e)) (hc : Conducted live log)
    (hdone : ∀ x ∈ received log, x.succeeds = true) : LeavesNothing log := by
  rcases run_connection.mp h with
    ⟨live', r, e', rfl, -, -⟩ | ⟨live', inner, ending, outcome, rfl, hin, hend⟩
  · intro x hx hw
    obtain rfl := List.mem_singleton.mp (List.mem_filter.mp hx).1
    cases hw
  have hopened : live' = true := by
    cases live' with
    | true => rfl
    | false => obtain ⟨why, hwhy⟩ := hc.2.1 rfl; cases hwhy
  subst hopened
  have hinner := (hbody ⟨d, true⟩).received hin
  -- Each way to end without a result but the failed commit tells the driver one rollback.
  suffices hlast : ∃ last, received ending = [last] ∧ last.call = .rollback by
    obtain ⟨last, hlast, hcall⟩ := hlast
    have hreceived : received
        (⟨.begin, true, (.done () : Outcome Unit)⟩ :: (inner ++ ending)) =
          ⟨.begin, true, (.done () : Outcome Unit)⟩ :: (received inner ++ [last]) := by
      rw [← hlast, ← received_append]
      rfl
    have hsucceeds : last.succeeds = true := hdone last (by rw [hreceived]; simp)
    exact RolledBack.leavesNothing
      ⟨_, received inner, last, hreceived, ⟨rfl, rfl⟩, hinner, hcall, hsucceeds⟩
  cases outcome with
  | error e' =>
    obtain ⟨live, r, rfl, -⟩ := run_finish_error.mp hend
    exact ⟨_, rfl, rfl⟩
  | ok a =>
    rcases run_finish_ok.mp hend with ⟨_, why, _, r, rfl, -⟩ | ⟨live₁, live₂, r, rfl, hr⟩
    · exact ⟨_, rfl, rfl⟩
    · cases r with
      | ok u => cases hr
      | error f =>
        have hcommit := hdone ⟨.commit, live₂, .error f⟩
          (List.mem_filter.mpr ⟨by simp, rfl⟩)
        cases hcommit

/-- A failed mutation leaves nothing behind, but for one slip. Take any run of a creation, of a batch
of creations or of an update in which the driver carries out all that it is told and which fails all
the same: the mutation is malformed, or something is not found or linked already. Everything that
the driver was told to write was inside a transaction that has been rolled back, unless the mutation
was planned without a transaction and fails late: a creation whose ID cannot be had after its INSERT,
a batch of which some ID cannot be read, or a batch of bare nodes of which one has been inserted. In
these cases, and in no others, rows are left. -/
theorem leaves_nothing_iff {d : Dialect} {m : Mutation} {live : Bool} {log : List Exchange}
    {e : Error} (hm : ¬m.IsDeletion) (h : (m.program d).Run log (.error e))
    (hc : Conducted live log) (hdone : ∀ x ∈ received log, x.succeeds = true)
    (he : e.isValidation = true ∨ e.isNotFound = true ∨ e.isConstraint = true) :
    LeavesNothing log ↔ ¬(m.IsPlain ∧ m.FailsLate e log) := by
  have hinterrupted : ∀ why, (.error e : Except Error m.Result) ≠ .error (.interrupted why) := by
    rintro why ⟨⟩
    rcases he with he | he | he <;> cases he
  rw [Mutation.program_eq] at h
  rcases run_bind.mp h with ⟨e', hplan, -⟩ | ⟨p, before, after, rfl, hplan, hrun⟩
  · obtain ⟨rfl, hp⟩ := run_ofExcept.mp hplan
    refine iff_of_true (fun x hx => absurd hx List.not_mem_nil) ?_
    rintro ⟨⟨p, hp', -⟩, -⟩
    rw [hp'] at hp
    cases hp
  obtain ⟨rfl, hp⟩ := run_ofExcept.mp hplan
  rw [List.nil_append] at hc hdone ⊢
  have hbody := Mutation.plan_orderly hp.symm
  cases htx : p.transactional with
  | true =>
    rw [htx] at hrun
    refine iff_of_true (rolledBack_of_error hbody hrun hc hdone) ?_
    rintro ⟨⟨p', hp', hplain⟩, -⟩
    rw [← hp] at hp'
    cases hp'
    rw [htx] at hplain
    cases hplain
  | false =>
    rw [htx] at hrun
    have hplain : (p.body ⟨d, false⟩).Run after (.error e) := hrun
    obtain ⟨hcarried, hlive⟩ := carriedOut_of_orderly (hbody _) hplain hc hdone hinterrupted
    have hlate := Mutation.plain_failure hm hp.symm htx hplain hcarried
    have hisPlain : m.IsPlain := ⟨p, hp.symm, htx⟩
    rw [and_iff_right hisPlain, hlate, writes, List.countP_pos_iff]
    -- Outside a transaction a write is left behind as soon as it is sent.
    constructor
    · rintro hnothing ⟨x, hx, hw⟩
      have hs := Call.isStatement_of_isWrite hw
      have hreceived : x ∈ received after := List.mem_filter.mpr ⟨hx, ?_⟩
      · have hinside := (hnothing x hreceived hw).1
        rw [((hbody _).received hplain x hreceived).2] at hinside
        cases hinside
      · exact Exchange.reachesDriver_of_live hs (hlive x hx hs)
    · intro hnone x hx hw
      exact absurd ⟨x, (List.mem_filter.mp hx).1, hw⟩ hnone

/-- A run of the creation of a user and the link of its pet, where the pet has an owner already. -/
def petOwnedRun : List Exchange :=
  let none : Outcome ExecResult := .done ⟨0, .none⟩
  let pet : Update :=
    (((Update.ofTable "pets").set "user_id" (.int 1)).filter (.oneOf "id" [.int 7])).filter
      (.isNull "user_id")
  userWithPetRun.take 3 ++ [⟨.exec true (.update pet), true, none⟩,
    ⟨.rollback, true, (.ok () : Except Failure Unit)⟩]

/-- Where the pet has an owner already, the user is not left behind. -/
theorem leaves_nothing_pet_owned :
    ((Mutation.createNode userWithPet).program .sqlite).Run petOwnedRun
        (.error (LinkConflict.targetsTaken [.int 7] "user_id").toError) ∧
      0 < writes (received petOwnedRun) ∧ LeavesNothing petOwnedRun := by
  have hrun : ((Mutation.createNode userWithPet).program .sqlite).Run petOwnedRun
      (.error (LinkConflict.targetsTaken [.int 7] "user_id").toError) := by
    apply Run.call
    apply Run.call
    apply Run.call
    apply Run.call
    apply Run.call
    exact .fail _
  have hc : Conducted true petOwnedRun :=
    ⟨id, nofun, id, nofun, id, trivial, id, nofun, id, trivial, trivial⟩
  refine ⟨hrun, by decide, (leaves_nothing_iff id hrun hc (by decide) (.inr (.inr rfl))).mpr ?_⟩
  rintro ⟨⟨p, hp, hplain⟩, -⟩
  cases hp
  cases hplain

/-- A user whose ID is a UUID that the database is to generate. -/
def userWithUuid : NodeCreation :=
  { NodeCreation.ofNode { Node.ofTable "users" ⟨"id", .uuid, .null⟩ with strategy := .sequence } with
    fields := [⟨"name", .string, .string "a"⟩] }

/-- A run of its creation: an insert that is carried out. -/
def userWithUuidRun : List Exchange :=
  let user : InsertStatement :=
    { table := "users", columns := ["name"], rows := [[.string "a"]], conflict := none,
      returning := [] }
  [⟨.exec false (.insert user), true, (.done ⟨1, none⟩ : Outcome ExecResult)⟩]

/-- On MySQL the creation of a user with a generated UUID is refused as malformed after the user has
been inserted. A batch with this user alone is refused with the same error, and sends nothing. -/
theorem user_with_uuid_left_behind :
    ((Mutation.createNode userWithUuid).program .mysql).Run userWithUuidRun
        (.error (.validation "id" (.unreportedId .mysql .uuid))) ∧
      Conducted true userWithUuidRun ∧ (∀ x ∈ received userWithUuidRun, x.succeeds = true) ∧
      ¬LeavesNothing userWithUuidRun ∧
      ((Mutation.batchCreate ⟨[userWithUuid], none⟩).program .mysql).Run []
        (.error (.validation "id" (.unreportedId .mysql .uuid))) := by
  refine ⟨?_, ⟨id, nofun, trivial⟩, by decide, ?_, .fail _⟩
  · apply Run.call
    exact .fail _
  · intro hnothing
    cases (hnothing _ List.mem_cons_self rfl).1

end EntityGraph
