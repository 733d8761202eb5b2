import EntityGraph.Relation
import EntityGraph.Sql.Query

/-!
# Steps of a traversal

A step goes from the rows of one table across an edge to their neighbors in another. It is
compiled in three ways: to the selection of the neighbors of one row, to the condition that a row
has a neighbor, and to the condition that it has a neighbor that meets a condition.
-/

set_option autoImplicit false

namespace EntityGraph

/-- Where a step starts: the column whose value names a row, and the value. -/
structure StepFrom where
  table : String
  column : String
  value : Value

/-- The edge that a step crosses. -/
structure StepEdge where
  relation : Relation
  inverse : Bool
  table : String
  columns : List String
deriving DecidableEq, Repr

/-- Where a step leads. -/
structure StepTo where
  table : String
  column : String
deriving DecidableEq, Repr

/-- A step of a traversal. -/
structure Step where
  start : StepFrom
  edge : StepEdge
  goal : StepTo

/-- Where a relation is stored, as seen along a step. -/
inductive StepLayout where
  /-- A join table has both ends. -/
  | joinTable
  /-- The foreign key is in the table where the step starts. -/
  | startOwner
  /-- The foreign key is in the table where the step leads. -/
  | goalOwner
deriving DecidableEq, Repr

namespace Step

/-- Where the relation of a step is stored. -/
def layout (s : Step) : StepLayout :=
  match s.edge.relation with
  | .manyToMany => .joinTable
  | .manyToOne => .startOwner
  | .oneToOne => if s.edge.inverse then .startOwner else .goalOwner
  | .oneToMany => .goalOwner

/-- A column of the edge, empty if there is none. -/
def column (s : Step) (i : Nat) : String := s.edge.columns[i]?.getD ""

/-- The column of a join table that refers to the neighbor. -/
def goalColumn (s : Step) : String := if s.edge.inverse then s.column 0 else s.column 1

/-- The column of a join table that refers to the row where the step starts. -/
def startColumn (s : Step) : String := if s.edge.inverse then s.column 1 else s.column 0

/-- A column with its table. -/
def qualify (table column : String) : String := table ++ "." ++ column

/-- The name under which the linking rows are joined. -/
def linkAlias : String := "t1"

/-- The rows where the step leads that are linked to the row where it starts. -/
def neighbors (s : Step) : Selector :=
  let edge := s.edge.table
  let goal := Selector.ofTable s.goal.table
  let goalKey := qualify s.goal.table s.goal.column
  match s.layout with
  | .joinTable =>
    let links := ((Selector.ofTable edge).withColumns [qualify edge s.goalColumn]).filter
      (.eq (qualify edge s.startColumn) s.start.value)
    goal.join (.select links linkAlias) goalKey (qualify linkAlias s.goalColumn)
  | .startOwner =>
    let owner := ((Selector.ofTable edge).withColumns [s.column 0]).filter
      (.eq s.start.column s.start.value)
    goal.join (.select owner linkAlias) goalKey (qualify linkAlias (s.column 0))
  | .goalOwner => goal.filter (.eq (qualify s.goal.table (s.column 0)) s.start.value)

/-- The rows where the step starts that have a neighbor. -/
def hasNeighbors (s : Step) : Predicate :=
  let startKey := qualify s.start.table s.start.column
  let edge := s.edge.table
  match s.layout with
  | .joinTable =>
    .inSelect startKey ((Selector.ofTable edge).withColumns [qualify edge s.startColumn])
  | .startOwner => .notNull (qualify s.start.table (s.column 0))
  | .goalOwner =>
    let key := qualify edge (s.column 0)
    .inSelect startKey (((Selector.ofTable edge).withColumns [key]).filter (.notNull key))

/-- The rows where the step starts that have a neighbor which meets a condition. -/
def hasNeighborsWith (s : Step) (p : Predicate) : Predicate :=
  let startKey := qualify s.start.table s.start.column
  let edge := s.edge.table
  let goalKeys := ((Selector.ofTable s.goal.table).withColumns
    [qualify s.goal.table s.goal.column]).filter p
  match s.layout with
  | .joinTable =>
    .inSelect startKey (((Selector.ofTable edge).withColumns [qualify edge s.startColumn]).filter
      (.inSelect (qualify edge s.goalColumn) goalKeys))
  | .startOwner => .inSelect (qualify s.start.table (s.column 0)) goalKeys
  | .goalOwner =>
    let key := qualify edge (s.column 0)
    let linked := ((Selector.ofTable edge).withColumns [key]).filter (.notNull key)
    .inSelect startKey (linked.filter p)

end Step

end EntityGraph
