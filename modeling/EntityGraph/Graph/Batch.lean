import EntityGraph.Graph.CreationOrder
import EntityGraph.Graph.Upsert

/-!
# Creating several nodes

Nodes of one table that do not refer to each other are inserted by one statement. As soon as one of
them refers to another, they are created one after another in the order of their references, in one
transaction, so that each sees the IDs of those before it.
-/

set_option autoImplicit false

namespace EntityGraph

namespace Edge

/-- The edge with its references replaced by IDs, up to the first that has none; and whether all of
them have one. -/
def resolve (ids : List Value) (e : Edge) : Edge × Bool :=
  let found := (e.target.pending.map fun i => ids[i]?.getD .null).takeWhile fun id => !id.isNull
  ({ e with target := { e.target with nodes := e.target.nodes ++ found, pending := [] } },
    found.length == e.target.pending.length)

/-- Edges with their references resolved, up to the first that cannot be. -/
def resolveAll (ids : List Value) : List Edge → List Edge × Bool
  | [] => ([], true)
  | e :: rest =>
    match e.resolve ids with
    | (resolved, false) => (resolved :: rest, false)
    | (resolved, true) =>
      let (others, complete) := resolveAll ids rest
      (resolved :: others, complete)

end Edge

namespace BatchCreation

/-- How far a chain of creations has come. -/
structure Chain where
  /-- The IDs of the nodes, absent for those not created yet. -/
  ids : List Value
  claims : List PartnerClaim

/-- Creates the node at a position of a batch, whose references have been created. -/
def createLink (conn : Connection) (b : BatchCreation) (s : Chain) (i : Nat) : Program Chain :=
  match b.nodes[i]? with
  | none => pure s
  | some c => do
    let (edges, complete) := Edge.resolveAll s.ids c.edges
    Program.revise i (.edges edges)
    if !complete then throw (.notFound c.node.label)
    let claims ← PartnerClaim.addAll c.node s.claims edges
    b.policy.toList.forM fun policy => Program.revise i (.policy policy)
    let id ← NodeCreation.write conn i { c with edges, policy := b.policy.or c.policy }
    pure { ids := s.ids.set i id, claims }

/-- Creates nodes one after another. -/
def createChain (conn : Connection) (b : BatchCreation) (order : List Nat) :
    Program (List Value) := do
  let final ← order.foldlM (createLink conn b) ⟨b.nodes.map fun _ => .null, []⟩
  pure final.ids

/-- The own row of a node of a batch. -/
structure OwnRow where
  id : Option Value
  columns : List (String × Value)

/-- The value that a row has for a column, and what is left of the row. -/
def OwnRow.take (columns : List (String × Value)) (column : String) :
    Value × List (String × Value) :=
  ((columns.lookup column).getD .null, columns.filter fun c => c.1 != column)

/-- The values that a row has for some columns, absent where the row does not have the column. -/
def OwnRow.valuesOf : List String → List (String × Value) → List Value
  | [], _ => []
  | column :: rest, columns =>
    let (v, left) := OwnRow.take columns column
    v :: OwnRow.valuesOf rest left

/-- The columns of a row with its ID. -/
def OwnRow.withId (idColumn : String) (r : OwnRow) : List (String × Value) :=
  match r.id with
  | some id => (idColumn, id) :: r.columns.filter fun c => c.1 != idColumn
  | none => r.columns

/-- Finds the own rows of nodes, checking the partners of each. -/
def ownRows (conn : Connection) : Nat → List PartnerClaim → List NodeCreation →
    Program (List OwnRow)
  | _, _, [] => pure []
  | i, claims, c :: rest => do
    let claimed ← PartnerClaim.addAll c.node claims c.edges
    Partner.check conn c.node none c.edges []
    let id ← NodeCreation.supplyId i c.node
    let columns ← c.node.ownColumns c.fields c.edges
    let others ← ownRows conn (i + 1) claimed rest
    pure (⟨id, columns⟩ :: others)

/-- The columns of an insert of some rows: the ID where it is supplied, then all others in order. -/
def columnsOf (idColumn : String) (supplied : List Value) (rows : List OwnRow) : List String :=
  (if supplied.isEmpty then [] else [idColumn]) ++
    sortedNames (rows.flatMap fun r => r.columns.map (·.1))

/-- Inserts rows of a node type and finds the IDs of their nodes. -/
def insertRows (conn : Connection) (node : Node) (policy : Option ConflictPolicy)
    (supplied : List Value) (b : BoundRows) : Program (List Value) := do
  let i := b.rows.foldl Insert.addRow ((Insert.into node.table).withColumns b.columns)
  match policy with
  | some policy => b.upsertedIds conn node (i.onConflict policy) policy
  | none =>
    if supplied.isEmpty then b.insertedIds conn node i
    else do
      discard (conn.execInsert i)
      pure supplied

/-- Creates nodes one after another, each on its own. -/
def createEach (conn : Connection) : Nat → List NodeCreation → Program (List Value)
  | _, [] => pure []
  | i, c :: rest => do
    let id ← NodeCreation.write conn i c
    let ids ← createEach conn (i + 1) rest
    pure (id :: ids)

/-- Writes down the IDs of nodes. -/
def reviseIds : Nat → List Value → Program Unit
  | _, [] => pure ()
  | i, id :: ids => do
    Program.revise i (.id id)
    reviseIds (i + 1) ids

/-- Writes the edges of created nodes; nodes without an ID were skipped and get none. -/
def addEdges (conn : Connection) (nodes : List NodeCreation) (ids : List Value) : Program Unit := do
  let created := (nodes.zip ids).filter fun (_, id) => !id.isNull
  JoinTable.add conn (created.flatMap fun (c, id) => c.edges.map fun e => ([id], e))
  created.forM fun (c, id) => ForeignKey.add conn [id] c.edges

/-- Creates nodes that do not refer to each other by one insert. Where no node writes a column they
are inserted one after another. -/
def createBulk (conn : Connection) (b : BatchCreation) : Program (List Value) := do
  let rows ← ownRows conn 0 [] b.nodes
  let supplied := rows.filterMap OwnRow.id
  match b.nodes with
  | [] => pure []
  | first :: _ => do
    let idColumn := first.node.id.column
    if !supplied.isEmpty ∧ supplied.length ≠ rows.length then
      throw (.validation idColumn .mixedIds)
    let columns := columnsOf idColumn supplied rows
    if columns.isEmpty then createEach conn 0 b.nodes
    else do
      let bound : BoundRows :=
        { columns
          rows := rows.map fun r => OwnRow.valuesOf columns (r.withId idColumn)
          generated := supplied.isEmpty }
      let ids ← insertRows conn first.node (b.policy.or first.policy) supplied bound
      reviseIds 0 ids
      addEdges conn b.nodes ids
      pure ids

/-- Creates the nodes of a batch. The result are their IDs, absent for nodes that the conflict
policy skipped. -/
def run (d : Dialect) (b : BatchCreation) : Program (List Value) :=
  match b.nodes with
  | [] => pure []
  | first :: _ => do
    let table := first.node.table
    match b.nodes.find? fun c => c.node.table != table with
    | some other => throw (.validation other.node.table (.otherTable table))
    | none => pure ()
    ((b.nodes.flatMap NodeCreation.edges).forM Edge.checkAdd : Except Error Unit)
    if b.nodes.any fun c => !c.dependencies.isEmpty then do
      let order ← b.order
      Connection.run d true fun conn => createChain conn b order
    else
      Connection.run d (b.nodes.any fun c => ExternalEdges.needTransaction c.edges) fun conn =>
        createBulk conn b

end BatchCreation

end EntityGraph
