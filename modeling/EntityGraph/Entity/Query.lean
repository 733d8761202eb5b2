import EntityGraph.Entity.Basic
import EntityGraph.Graph.Query

/-!
# Querying entities

A query of entities is a query of their nodes whose rows are read as entities. The neighbors of the
entities are loaded afterwards, edge by edge, and attached to the entities that they belong to.
-/

set_option autoImplicit false

namespace EntityGraph

/-- The load of neighbors of entities over an edge. -/
structure EdgeLoader (P : Type) where
  /-- The type of the neighbors. -/
  Child : Type
  childType : EntityType Child
  edge : Edge
  predicate : Option Predicate
  order : List OrderTerm
  /-- Attaches a neighbor to an entity that it belongs to. -/
  attach : Child → P → P

namespace EdgeLoader

variable {P : Type}

/-- A load of the neighbors of a type. -/
def ofEdge {C : Type} (edge : Edge) (childType : EntityType C) (attach : C → P → P) :
    EdgeLoader P :=
  { Child := C, childType, edge, predicate := none, order := [], attach }

/-- A further condition on the neighbors. -/
def filter (l : EdgeLoader P) (p : Predicate) : EdgeLoader P :=
  { l with predicate := some (Predicate.conjoin l.predicate p) }

/-- A further column to order the neighbors by. -/
def orderBy (l : EdgeLoader P) (term : OrderTerm) : EdgeLoader P :=
  { l with order := l.order ++ [term] }

/-- The load of the neighbors' rows. -/
def edgeLoad (l : EdgeLoader P) : EdgeLoad :=
  { EdgeLoad.ofEdge l.edge l.childType.node l.childType.scan with
    predicate := l.predicate
    order := l.order }

/-- Takes a delivered row as a neighbor, with the positions of its parents. -/
def absorb (l : EdgeLoader P) (found : List (List Nat × l.Child)) :
    Delivery → Except Error (List (List Nat × l.Child))
  | .neighbor _ positions columns row => do
    let child ← l.childType.ofRow columns row
    pure (found ++ [(positions, child)])
  | _ => .ok found

/-- Attaches a neighbor to the entities at some positions. -/
def attachAt (l : EdgeLoader P) (parents : List P) (found : List Nat × l.Child) : List P :=
  found.1.foldl (fun ps i => ps.modify i (l.attach found.2)) parents

/-- Loads the neighbors of entities and attaches them, in the order in which they come. -/
def run (d : Dialect) (t : EntityType P) (parents : List P) (l : EdgeLoader P) :
    Program (List P) := do
  let keys := parents.map fun p => t.value p (l.edge.keyColumn t.node)
  let (_, found) ← Program.collecting l.absorb [] (l.edgeLoad.run d keys)
  pure (found.foldl l.attachAt parents)

end EdgeLoader

/-- A query of entities. -/
structure EntityQuery (E : Type) where
  type : EntityType E
  /-- The selected columns; all of them if there are none. -/
  columns : List String
  source : Option Selector
  predicate : Option Predicate
  order : List OrderTerm
  limit : Option Nat
  offset : Option Nat
  unique : Bool
  loaders : List (EdgeLoader E)

namespace EntityQuery

variable {E : Type}

/-- A query of all entities of a type. -/
def ofType (type : EntityType E) : EntityQuery E :=
  { type, columns := [], source := none, predicate := none, order := [], limit := none
    offset := none, unique := false, loaders := [] }

/-- A further condition. -/
def filter (q : EntityQuery E) (p : Predicate) : EntityQuery E :=
  { q with predicate := some (Predicate.conjoin q.predicate p) }

/-- A further column to order by. -/
def orderBy (q : EntityQuery E) (term : OrderTerm) : EntityQuery E :=
  { q with order := q.order ++ [term] }

/-- Selects the neighbors that a step reaches, each once, instead of the whole table. -/
def fromStep (q : EntityQuery E) (s : Step) : EntityQuery E :=
  { q with source := some s.neighbors, unique := true }

/-- Loads neighbors, too. -/
def withEdge (q : EntityQuery E) (l : EdgeLoader E) : EntityQuery E :=
  { q with loaders := q.loaders ++ [l] }

/-- The requested columns with those by which neighbors are found. Without requested columns all
are selected anyway. -/
def projection (q : EntityQuery E) : List String :=
  if q.columns.isEmpty then []
  else
    q.loaders.foldl
      (fun columns l =>
        let key := l.edge.keyColumn q.type.node
        if columns.contains key then columns else columns ++ [key])
      q.columns

/-- The query of the nodes. -/
def nodeQuery (q : EntityQuery E) : NodeQuery :=
  { NodeQuery.ofNode q.type.node with
    columns := q.projection
    source := q.source
    predicate := q.predicate
    order := q.order
    limit := q.limit
    offset := q.offset
    unique := q.unique }

/-- Takes a delivered row as an entity. -/
def absorb (q : EntityQuery E) (found : List E) : Delivery → Except Error (List E)
  | .row columns row => do
    let entity ← q.type.ofRow columns row
    pure (found ++ [entity])
  | _ => .ok found

/-- The entities of the selected rows, of which there are at most so many if there is a cap. -/
def collect (d : Dialect) (q : EntityQuery E) (cap : Option Nat) : Program (List E) := do
  let nodes := q.nodeQuery
  let limited : NodeQuery :=
    { nodes with
      limit := match cap with
        | some n => nodes.capped n
        | none => nodes.limit
      scan := some q.type.scan
      delivers := true }
  let (_, found) ← Program.collecting q.absorb [] (limited.all d)
  pure found

/-- Loads the neighbors of entities. -/
def loadNeighbors (d : Dialect) (q : EntityQuery E) (entities : List E) : Program (List E) :=
  if entities.isEmpty then pure entities
  else q.loaders.foldlM (EdgeLoader.run d q.type) entities

/-- All entities. -/
def all (d : Dialect) (q : EntityQuery E) : Program (List E) := do
  let entities ← q.collect d none
  q.loadNeighbors d entities

/-- The last of some entities, which there must be. -/
def last (q : EntityQuery E) (entities : List E) : Except Error E :=
  match entities.getLast? with
  | some entity => .ok entity
  | none => .error (.notFound q.type.label)

/-- The first entity, which there must be. -/
def first (d : Dialect) (q : EntityQuery E) : Program E := do
  let entities ← q.collect d (some 1)
  let loaded ← q.loadNeighbors d entities
  q.last loaded

/-- The only entity; neighbors are not loaded unless there is exactly one. -/
def only (d : Dialect) (q : EntityQuery E) : Program E := do
  let entities ← q.collect d (some 2)
  match entities with
  | [] => throw (.notFound q.type.label)
  | [_] => do
    let loaded ← q.loadNeighbors d entities
    q.last loaded
  | _ => throw (.notSingular q.type.label)

/-- The IDs of all entities. -/
def ids (d : Dialect) (q : EntityQuery E) : Program (List Value) := q.nodeQuery.ids d

/-- The ID of the first entity, which there must be. -/
def firstId (d : Dialect) (q : EntityQuery E) : Program Value := q.nodeQuery.firstId d

/-- The ID of the only entity. -/
def onlyId (d : Dialect) (q : EntityQuery E) : Program Value := q.nodeQuery.onlyId d

/-- The number of entities. -/
def count (d : Dialect) (q : EntityQuery E) : Program Nat := q.nodeQuery.count d

/-- Whether there is an entity. -/
def exist (d : Dialect) (q : EntityQuery E) : Program Bool := q.nodeQuery.exist d

end EntityQuery

end EntityGraph
