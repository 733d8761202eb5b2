import EntityGraph.Proofs.Program.Checks
import EntityGraph.Proofs.Transaction.Bodies

/-!
# Mutations

The operations that change a graph, as one family. A mutation first decides, without any call,
whether it is well-formed, whether it needs a transaction and what it does on its connection:
`Mutation.plan`. Then it runs that plan on a connection: `Mutation.program_eq`. So what is said of
all mutations is said of plans and of `Connection.run`. `Mutation.Planned` lists the plans that there
are and what has been checked for each of them.
-/

set_option autoImplicit false

namespace EntityGraph

open Program

/-- An operation that changes a graph. -/
inductive Mutation where
  | createNode (c : NodeCreation)
  | batchCreate (b : BatchCreation)
  | updateNode (u : NodeUpdate)
  | updateNodes (u : NodeUpdate)
  | deleteNode (x : NodeDeletion)
  | deleteNodes (x : NodeDeletion)

/-- What an operation does on a connection, and whether it does so inside a transaction. -/
structure Plan (α : Type) where
  transactional : Bool
  body : Connection → Program α

namespace Mutation

/-- What a mutation results in. -/
def Result : Mutation → Type
  | .createNode _ => Value
  | .batchCreate _ => List Value
  | .updateNode _ => Unit
  | .updateNodes _ => Nat
  | .deleteNode _ => Unit
  | .deleteNodes _ => Nat

/-- The program of a mutation. -/
def program (d : Dialect) : (m : Mutation) → Program m.Result
  | .createNode c => c.run d
  | .batchCreate b => b.run d
  | .updateNode u => u.runOne d
  | .updateNodes u => u.runMany d
  | .deleteNode x => x.runOne d
  | .deleteNodes x => x.runMany d

/-- The plan of a batch: nothing, a chain of creations, or one insert of all nodes. -/
def batchPlan (b : BatchCreation) : Except Error (Plan (List Value)) :=
  match b.nodes with
  | [] => .ok ⟨false, fun _ => pure []⟩
  | first :: _ =>
    match b.nodes.find? fun c => c.node.table != first.node.table with
    | some other => .error (.validation other.node.table (.otherTable first.node.table))
    | none => do
      (b.nodes.flatMap NodeCreation.edges).forM Edge.checkAdd
      if b.nodes.any fun c => !c.dependencies.isEmpty then do
        let order ← b.order
        pure ⟨true, fun conn => BatchCreation.createChain conn b order⟩
      else
        pure ⟨b.nodes.any fun c => ExternalEdges.needTransaction c.edges,
          fun conn => BatchCreation.createBulk conn b⟩

/-- The plan of a mutation; none if the mutation is malformed. -/
def plan : (m : Mutation) → Except Error (Plan m.Result)
  | .createNode c => do
    c.edges.forM Edge.checkDirect
    pure ⟨ExternalEdges.needTransaction c.edges, fun conn => NodeCreation.write conn 0 c⟩
  | .batchCreate b => batchPlan b
  | .updateNode u => do
    let id ← u.node.id.bindValue
    if id.isNull then .error (.validation u.node.id.column .updateWithoutId)
    else do
      u.check
      pure ⟨true, fun conn => u.writeOne conn id⟩
  | .updateNodes u => do
    u.check
    pure (if u.needsIds then ⟨true, fun conn => u.writeMany conn⟩
      else ⟨false, fun conn => u.writeRows conn⟩)
  | .deleteNode x => do
    let id ← x.node.id.bindValue
    if id.isNull then .error (.validation x.node.id.column .deletionWithoutId)
    else pure ⟨false, fun conn => do
      let statement := ((Delete.ofTable x.node.table).filter
        (.eq x.node.id.column id)).filterOpt x.predicate
      let result ← conn.exec (.delete statement)
      if result.rowsAffected = 0 then throw (.notFound x.node.label)⟩
  | .deleteNodes x => pure ⟨false, fun conn => do
      let result ← conn.exec (.delete ((Delete.ofTable x.node.table).filterOpt x.predicate))
      pure result.rowsAffected⟩

/-- The plan of a batch is what the batch runs. -/
theorem batch_run_eq (d : Dialect) (b : BatchCreation) :
    b.run d = (ofExcept (batchPlan b) >>= fun p => Connection.run d p.transactional p.body) := by
  rcases b with ⟨_ | ⟨first, rest⟩, policy⟩
  · rfl
  · simp only [BatchCreation.run, batchPlan, liftM_eq_ofExcept]
    cases (first :: rest).find? fun c => c.node.table != first.node.table with
    | some other => rfl
    | none =>
      cases ((first :: rest).flatMap NodeCreation.edges).forM Edge.checkAdd with
      | error e => rfl
      | ok _ =>
        cases (first :: rest).any fun c => !c.dependencies.isEmpty with
        | false => rfl
        | true => cases BatchCreation.order ⟨first :: rest, policy⟩ <;> rfl

/-- A mutation runs its plan on a connection. -/
theorem program_eq (d : Dialect) (m : Mutation) :
    m.program d = (ofExcept m.plan >>= fun p => Connection.run d p.transactional p.body) := by
  cases m with
  | createNode c =>
    simp only [program, plan, NodeCreation.run, liftM_eq_ofExcept]
    cases c.edges.forM Edge.checkDirect <;> rfl
  | batchCreate b => exact batch_run_eq d b
  | updateNode u =>
    simp only [program, plan, NodeUpdate.runOne, liftM_eq_ofExcept]
    cases u.node.id.bindValue with
    | error e => rfl
    | ok id =>
      show (if id.isNull then _ else _) =
        Program.ofExcept (if id.isNull then _ else _) >>= _
      cases id.isNull with
      | true => rfl
      | false => cases u.check <;> rfl
  | updateNodes u =>
    simp only [program, plan, NodeUpdate.runMany, liftM_eq_ofExcept]
    cases u.check with
    | error e => rfl
    | ok _ => cases u.needsIds <;> rfl
  | deleteNode x =>
    simp only [program, plan, NodeDeletion.runOne, liftM_eq_ofExcept]
    cases x.node.id.bindValue with
    | error e => rfl
    | ok id =>
      show (if id.isNull then _ else _) =
        Program.ofExcept (if id.isNull then _ else _) >>= _
      cases id.isNull <;> rfl
  | deleteNodes x => rfl

end Mutation

/-! ## How a plan comes about -/

/-- The checks that a batch passes before it is written: all nodes share the table of the first one,
and each edge to add is complete. -/
structure BatchCreation.IsChecked (b : BatchCreation) (first : NodeCreation) : Prop where
  head : b.nodes.head? = some first
  tables : ∀ c ∈ b.nodes, c.node.table = first.node.table
  edges : ∀ c ∈ b.nodes, ∀ e ∈ c.edges, e.checkAdd = .ok ()

theorem BatchCreation.IsChecked.mem {b : BatchCreation} {first : NodeCreation}
    (h : b.IsChecked first) : first ∈ b.nodes :=
  List.mem_of_head? h.head

theorem BatchCreation.IsChecked.ne_nil {b : BatchCreation} {first : NodeCreation}
    (h : b.IsChecked first) : b.nodes ≠ [] :=
  List.ne_nil_of_mem h.mem

/-- The plans of a batch: nothing if it has no nodes, a chain if some node refers to another one, and
else one insert of all nodes. -/
inductive BatchCreation.Planned (b : BatchCreation) : Plan (List Value) → Prop
  | nothing (empty : b.nodes = []) : b.Planned ⟨false, fun _ => pure []⟩
  | chain {first : NodeCreation} {order : List Nat} (checked : b.IsChecked first)
      (refers : ∃ c ∈ b.nodes, c.dependencies ≠ []) (ordered : b.order = .ok order) :
      b.Planned ⟨true, fun conn => createChain conn b order⟩
  | bulk {first : NodeCreation} (checked : b.IsChecked first)
      (direct : ∀ c ∈ b.nodes, c.dependencies = []) :
      b.Planned ⟨b.nodes.any fun c => ExternalEdges.needTransaction c.edges,
        fun conn => createBulk conn b⟩

namespace Mutation

/-- The plans of a mutation, with what has been checked for them. -/
inductive Planned : (m : Mutation) → Plan m.Result → Prop
  | createNode {c : NodeCreation} (checked : ∀ e ∈ c.edges, e.checkDirect = .ok ()) :
      Planned (.createNode c)
        ⟨ExternalEdges.needTransaction c.edges, fun conn => NodeCreation.write conn 0 c⟩
  | batchCreate {b : BatchCreation} {p : Plan (List Value)} (planned : b.Planned p) :
      Planned (.batchCreate b) p
  | updateNode {u : NodeUpdate} {id : Value} (bound : u.node.id.bindValue = .ok id)
      (present : id.isNull = false) (checked : u.check = .ok ()) :
      Planned (.updateNode u) ⟨true, fun conn => u.writeOne conn id⟩
  | updateFound {u : NodeUpdate} (checked : u.check = .ok ()) (needs : u.needsIds = true) :
      Planned (.updateNodes u) ⟨true, fun conn => u.writeMany conn⟩
  | updateRows {u : NodeUpdate} (checked : u.check = .ok ()) (plain : u.needsIds = false) :
      Planned (.updateNodes u) ⟨false, fun conn => u.writeRows conn⟩
  | deleteNode {x : NodeDeletion} {id : Value} (bound : x.node.id.bindValue = .ok id)
      (present : id.isNull = false) :
      Planned (.deleteNode x) ⟨false, fun conn => do
        let statement := ((Delete.ofTable x.node.table).filter
          (.eq x.node.id.column id)).filterOpt x.predicate
        let result ← conn.exec (.delete statement)
        if result.rowsAffected = 0 then throw (.notFound x.node.label)⟩
  | deleteNodes {x : NodeDeletion} :
      Planned (.deleteNodes x) ⟨false, fun conn => do
        let result ← conn.exec (.delete ((Delete.ofTable x.node.table).filterOpt x.predicate))
        pure result.rowsAffected⟩

theorem batch_planned {b : BatchCreation} {p : Plan (List Value)} (h : batchPlan b = .ok p) :
    b.Planned p := by
  unfold batchPlan at h
  split at h
  case h_1 hnone =>
    obtain rfl := Except.ok.inj h
    exact .nothing hnone
  case h_2 first rest hcons =>
    split at h
    case h_1 => cases h
    case h_2 hsame =>
      obtain ⟨_, hedges, h⟩ := bind_eq_ok.mp h
      have hchecked : b.IsChecked first :=
        { head := by rw [hcons, List.head?_cons]
          tables := fun c hc => by simpa using List.find?_eq_none.mp hsame c hc
          edges := fun c hc e he =>
            forM_eq_ok.mp hedges e (List.mem_flatMap.mpr ⟨c, hc, he⟩) }
      split at h
      case isTrue hrefers =>
        obtain ⟨order, horder, h⟩ := bind_eq_ok.mp h
        obtain rfl := Except.ok.inj h
        exact .chain hchecked (by simpa using hrefers) horder
      case isFalse hdirect =>
        obtain rfl := Except.ok.inj h
        exact .bulk hchecked (by simpa using hdirect)

/-- Every plan of a mutation is one of these. -/
theorem planned {m : Mutation} {p : Plan m.Result} (h : m.plan = .ok p) : m.Planned p := by
  cases m with
  | createNode c =>
    obtain ⟨_, hchecked, h⟩ := bind_eq_ok.mp h
    obtain rfl := Except.ok.inj h
    exact .createNode (forM_eq_ok.mp hchecked)
  | batchCreate b => exact .batchCreate (batch_planned h)
  | updateNode u =>
    obtain ⟨id, hbound, h⟩ := bind_eq_ok.mp h
    split at h
    case isTrue => cases h
    case isFalse hpresent =>
      obtain ⟨_, hchecked, h⟩ := bind_eq_ok.mp h
      obtain rfl := Except.ok.inj h
      exact .updateNode hbound (by simpa using hpresent) hchecked
  | updateNodes u =>
    obtain ⟨_, hchecked, h⟩ := bind_eq_ok.mp h
    obtain rfl := Except.ok.inj h
    split
    case isTrue hneeds => exact .updateFound hchecked hneeds
    case isFalse hplain => exact .updateRows hchecked (by simpa using hplain)
  | deleteNode x =>
    obtain ⟨id, hbound, h⟩ := bind_eq_ok.mp h
    split at h
    case isTrue => cases h
    case isFalse hpresent =>
      obtain rfl := Except.ok.inj h
      exact .deleteNode hbound (by simpa using hpresent)
  | deleteNodes x =>
    obtain rfl := Except.ok.inj h
    exact .deleteNodes

end Mutation

/-- A batch with nodes that do not refer to each other is planned as one insert. -/
theorem BatchCreation.Planned.body_eq {b : BatchCreation} {p : Plan (List Value)}
    (h : b.Planned p) (hsome : b.nodes ≠ []) (hdirect : ∀ c ∈ b.nodes, c.dependencies = [])
    (conn : Connection) : p.body conn = createBulk conn b := by
  cases h with
  | nothing hnone => exact absurd hnone hsome
  | chain _ hrefers =>
    obtain ⟨c, hc, hrefers⟩ := hrefers
    exact absurd (hdirect c hc) hrefers
  | bulk => rfl

end EntityGraph
