import EntityGraph.Connection

/-!
# Partners of one to one edges

Neither end of an edge of one to one may get a second partner. Before such an edge is added the
database is asked whether one of its ends is linked already. The rows of one batch are not there to
be asked about before they are written, so a batch also keeps the claims of its own nodes.
-/

set_option autoImplicit false

namespace EntityGraph

/-- The claim of a target through a foreign key. -/
structure PartnerClaim where
  table : String
  column : String
  target : Value

namespace PartnerClaim

/-- The claims are of the same target through the same foreign key. -/
def equals (a b : PartnerClaim) : Bool :=
  a.table == b.table && a.column == b.column && a.target.equals b.target

/-- Adds a claim that has not been made yet. -/
def add (node : Node) (claims : List PartnerClaim) (claim : PartnerClaim) :
    Except Error (List PartnerClaim) :=
  if claims.any claim.equals then
    .error (LinkConflict.claimedTwice claim.target node.label claim.column).toError
  else .ok (claims ++ [claim])

/-- The claims that an edge makes. -/
def ofEdge (e : Edge) : Except Error (List PartnerClaim) := do
  let column ← e.foreignKey
  pure (e.target.nodes.map fun target => ⟨e.table, column, target⟩)

/-- Adds the claims of the edges of a node. -/
def addAll (node : Node) (claims : List PartnerClaim) (edges : List Edge) :
    Except Error (List PartnerClaim) :=
  (edges.filter Edge.isOneToOne).foldlM
    (fun claims e => do (← ofEdge e).foldlM (add node) claims) claims

end PartnerClaim

namespace Partner

/-- A selection that must have no row, and the conflict if it has one. -/
structure Question where
  rows : Selector
  conflict : LinkConflict

/-- What must not be in the database for a node to be linked to a target by an edge of one to one.
Where the foreign key is in the node's row, no other row may refer to the target, and a stored node
may not refer to another target. Where it is in the target's row, no other target may refer to a
stored node. -/
def questions (node : Node) (id? : Option Value) (e : Edge) (fk : String) (target : Value) :
    List Question :=
  let idColumn := node.id.column
  let taken : Question :=
    { rows := ((Selector.ofTable e.table).filter (.eq fk target)).filterOpt
        (id?.map fun id => .ne idColumn id)
      conflict := .targetTaken target node.label fk }
  let current (id : Value) : Question :=
    { rows := (((Selector.ofTable node.table).filter (.eq idColumn id)).filter (.notNull fk)).filter
        (.ne fk target)
      conflict := .nodeLinked node.label id fk }
  let other (id : Value) : Question :=
    { rows := ((Selector.ofTable e.table).filter (.eq fk id)).filter
        (.ne e.target.id.column target)
      conflict := .nodeLinkedIn node.label id e.table fk }
  (if e.writesOwnColumn then taken :: id?.toList.map current else []) ++
    (if e.writesExternal then id?.toList.map other else [])

/-- Refuses an edge of one to one if one of its ends has a partner already. -/
def checkEdge (conn : Connection) (node : Node) (id? : Option Value) (e : Edge) : Program Unit :=
  match e.target.nodes with
  | [] => pure ()
  | target :: _ => do
    let fk ← e.foreignKey
    (questions node id? e fk target).forM fun q => do
      if ← conn.probe q.rows then throw q.conflict.toError

/-- Refuses edges of one to one that would give one of their ends a second partner. An edge that is
cleared at the same time gets its partner replaced. -/
def check (conn : Connection) (node : Node) (id? : Option Value) (add clear : List Edge) :
    Program Unit :=
  (add.filter fun e => e.isOneToOne && !clear.any fun c => c.sameRelation e).forM
    (checkEdge conn node id?)

end Partner

end EntityGraph
