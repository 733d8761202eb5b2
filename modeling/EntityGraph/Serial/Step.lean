import EntityGraph.Serial.Query
import EntityGraph.Step

/-!
# Serialized steps, statements and conflict policies

Each is a record of its parts in the order of their declaration.
-/

set_option autoImplicit false

namespace EntityGraph

open Serial

namespace Step

/-- The serialized form of a step. -/
def serialText (s : Step) : String :=
  recordText
    [("from", recordText
        [("table", write s.start.table), ("column", write s.start.column),
          ("value", write s.start.value)]),
      ("edge", recordText
        [("rel", write s.edge.relation), ("inverse", (Json.bool s.edge.inverse).text),
          ("table", write s.edge.table), ("columns", write s.edge.columns)]),
      ("to", recordText [("table", write s.goal.table), ("column", write s.goal.column)])]

/-- Reads where a step starts. -/
def startOfSerial? : Nat → Bool → JsonSource → Option StepFrom
  | 0, _, _ => none
  | depth + 1, held, x => do
    match ← parts? ["table", "column", "value"] x with
    | [table, column, value] =>
      pure ⟨← table.bind string?, ← column.bind string?, ← value.bind (read? depth held)⟩
    | _ => none

/-- Reads the edge of a step. -/
def edgeOfSerial? : Nat → Bool → JsonSource → Option StepEdge
  | 0, _, _ => none
  | depth + 1, held, x => do
    match ← parts? ["rel", "inverse", "table", "columns"] x with
    | [relation, inverse, table, columns] =>
      pure ⟨← relation.bind (read? depth held), ← inverse.bind bool?, ← table.bind string?,
        ← columns.bind (read? depth held)⟩
    | _ => none

/-- Reads where a step leads. -/
def goalOfSerial? : Nat → Bool → JsonSource → Option StepTo
  | 0, _, _ => none
  | _ + 1, _, x => do
    match ← parts? ["table", "column"] x with
    | [table, column] => pure ⟨← table.bind string?, ← column.bind string?⟩
    | _ => none

/-- Reads a step. -/
def ofSerial? : Nat → Bool → JsonSource → Option Step
  | 0, _, _ => none
  | depth + 1, held, x => do
    match ← parts? ["from", "edge", "to"] x with
    | [start, edge, goal] =>
      pure ⟨← start.bind (startOfSerial? depth held), ← edge.bind (edgeOfSerial? depth held),
        ← goal.bind (goalOfSerial? depth held)⟩
    | _ => none

instance : Serial Step := ⟨serialText, ofSerial?⟩

end Step

namespace Statement

/-- The serialized form of a statement. -/
def serialText (s : Statement) : String :=
  recordText [("sql", write s.sql), ("args", write s.args)]

/-- Reads a statement. -/
def ofSerial? : Nat → Bool → JsonSource → Option Statement
  | 0, _, _ => none
  | depth + 1, held, x => do
    match ← parts? ["sql", "args"] x with
    | [sql, args] => pure ⟨← sql.bind string?, ← args.bind (read? depth held)⟩
    | _ => none

instance : Serial Statement := ⟨serialText, ofSerial?⟩

end Statement

namespace ConflictPolicy

/-- The serialized form of a conflict policy. -/
def serialText (p : ConflictPolicy) : String :=
  recordText [("columns", write p.columns), ("action", write p.action)]

/-- Reads a conflict policy. -/
def ofSerial? : Nat → Bool → JsonSource → Option ConflictPolicy
  | 0, _, _ => none
  | depth + 1, held, x => do
    match ← parts? ["columns", "action"] x with
    | [columns, action] =>
      pure ⟨← columns.bind (read? depth held), ← action.bind (read? depth held)⟩
    | _ => none

instance : Serial ConflictPolicy := ⟨serialText, ofSerial?⟩

end ConflictPolicy

end EntityGraph
