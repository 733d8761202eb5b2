import EntityGraph.Operation

/-!
# The order in which a batch is created

Nodes of a batch may refer to others of the same batch, which have to be created first. Each node
counts the references that it still waits for. In each round the first of the nodes that wait for
nothing is taken, and all that refer to it wait for one reference less.
-/

set_option autoImplicit false

namespace EntityGraph

/-- How far a batch has been put into order. -/
structure CreationOrder where
  /-- For each node the number of references that it waits for. -/
  waiting : List Nat
  /-- The nodes that wait for nothing and have not been taken, in order. -/
  ready : List Nat
  /-- The nodes that have been taken. -/
  taken : List Nat
deriving DecidableEq, Repr

namespace CreationOrder

/-- Puts a node into an ordered list without repetitions. -/
def insertNode (i : Nat) : List Nat → List Nat
  | [] => [i]
  | j :: rest =>
    if i < j then i :: j :: rest
    else if i = j then j :: rest
    else j :: insertNode i rest

/-- The nodes that refer to a node, once for each reference. -/
def referrers (references : List (List Nat)) (i : Nat) : List Nat :=
  references.zipIdx.flatMap fun (targets, j) => (targets.filter (· == i)).map fun _ => j

/-- A node waits for one reference less, and is ready if that was the last. -/
def release (s : CreationOrder) (j : Nat) : CreationOrder :=
  let waiting := s.waiting.modify j (· - 1)
  { s with waiting, ready := if waiting[j]? = some 0 then insertNode j s.ready else s.ready }

/-- Nothing has been taken. -/
def start (references : List (List Nat)) : CreationOrder :=
  { waiting := references.map List.length
    ready := (List.range references.length).filter fun i => references[i]? == some []
    taken := [] }

/-- One round: the first ready node is taken. -/
def round (references : List (List Nat)) (s : CreationOrder) : CreationOrder :=
  match s.ready with
  | [] => s
  | i :: rest =>
    (referrers references i).foldl release { s with ready := rest, taken := s.taken ++ [i] }

/-- Some rounds. -/
def rounds (references : List (List Nat)) : Nat → CreationOrder → CreationOrder
  | 0, s => s
  | n + 1, s => rounds references n (round references s)

/-- The order of the nodes of a batch, none if they refer to each other in a cycle. -/
def ofReferences? (references : List (List Nat)) : Option (List Nat) :=
  let final := rounds references references.length (start references)
  if final.taken.length = references.length then some final.taken else none

/-- The first reference that leads out of a batch of some size, with the node that has it. -/
def dangling? (size : Nat) (references : List (List Nat)) : Option (Nat × Nat) :=
  references.zipIdx.findSome? fun (targets, i) =>
    (targets.find? fun target => size ≤ target).map fun target => (i, target)

end CreationOrder

/-- The order in which the nodes of a batch are created. -/
def BatchCreation.order (b : BatchCreation) : Except Error (List Nat) :=
  let references := b.nodes.map NodeCreation.dependencies
  let table := (b.nodes.head?.map fun c => c.node.table).getD ""
  match CreationOrder.dangling? b.nodes.length references with
  | some (node, target) =>
    .error (.validation table (.danglingReference node target b.nodes.length))
  | none =>
    match CreationOrder.ofReferences? references with
    | some order => .ok order
    | none => .error (.validation table .referenceCycle)

end EntityGraph
