import EntityGraph.Serial.Enumeration
import EntityGraph.Serial.Value

/-!
# Serialized conditions and selections

A condition is tagged with its kind, beside its parts. A table is an object whose only member is
named for what it selects from.
-/

set_option autoImplicit false

namespace EntityGraph

open Serial

namespace OrderTerm

/-- The serialized form of an ordering column. -/
def serialText (t : OrderTerm) : String :=
  recordText [("column", write t.column), ("direction", write t.direction)]

/-- Reads an ordering column. -/
def ofSerial? : Nat → Bool → JsonSource → Option OrderTerm
  | 0, _, _ => none
  | depth + 1, held, x => do
    match ← parts? ["column", "direction"] x with
    | [column, direction] =>
      pure ⟨← column.bind string?, ← direction.bind (read? depth held)⟩
    | _ => none

instance : Serial OrderTerm := ⟨serialText, ofSerial?⟩

end OrderTerm

/-! ## Writing -/

mutual

/-- The serialized form of a condition. -/
def Predicate.serialText : Predicate → String
  | .compare column op value => recordText
    [("op", "\x22compare\x22"), ("column", write column), ("cmp", write op), ("value", write value)]
  | .isIn column values => recordText
    [("op", "\x22in\x22"), ("column", write column), ("values", write values)]
  | .notIn column values => recordText
    [("op", "\x22not_in\x22"), ("column", write column), ("values", write values)]
  | .isNull column => recordText [("op", "\x22is_null\x22"), ("column", write column)]
  | .notNull column => recordText [("op", "\x22not_null\x22"), ("column", write column)]
  | .like column pattern => recordText
    [("op", "\x22like\x22"), ("column", write column), ("pattern", write pattern)]
  | .inSelect column select => recordText
    [("op", "\x22in_select\x22"), ("column", write column), ("select", select.serialText)]
  | .anyRow select => recordText [("op", "\x22exists\x22"), ("select", select.serialText)]
  | .conj preds => recordText
    [("op", "\x22and\x22"), ("preds", listText (Predicate.serialTexts preds))]
  | .disj preds => recordText
    [("op", "\x22or\x22"), ("preds", listText (Predicate.serialTexts preds))]
  | .neg pred => recordText [("op", "\x22not\x22"), ("pred", pred.serialText)]

/-- The serialized forms of conditions. -/
def Predicate.serialTexts : List Predicate → List String
  | [] => []
  | p :: rest => p.serialText :: Predicate.serialTexts rest

/-- The serialized form of a condition, if there is one. -/
def Predicate.serialTextOpt : Option Predicate → String
  | some p => p.serialText
  | none => "null"

/-- The serialized form of what is selected from. -/
def TableRef.serialText : TableRef → String
  | .table name asName => recordText
    [("Table", recordText [("name", write name), ("alias", write asName)])]
  | .select select asName => recordText
    [("Select", recordText [("select", select.serialText), ("alias", write asName)])]

/-- The serialized form of a join. -/
def Join.serialText : Join → String
  | ⟨table, left, right⟩ => recordText
    [("table", table.serialText), ("left", write left), ("right", write right)]

/-- The serialized forms of joins. -/
def Join.serialTexts : List Join → List String
  | [] => []
  | j :: rest => j.serialText :: Join.serialTexts rest

/-- The serialized form of a selection. -/
def Selector.serialText : Selector → String
  | ⟨columns, source, joins, predicate, order, limit, offset, distinct, count⟩ => recordText
    [("columns", write columns), ("from", source.serialText),
      ("joins", listText (Join.serialTexts joins)),
      ("predicate", Predicate.serialTextOpt predicate), ("order", write order),
      ("limit", optionText (limit.map toString)), ("offset", optionText (offset.map toString)),
      ("distinct", (Json.bool distinct).text), ("count", (Json.bool count).text)]

end

/-! ## Reading -/

/-- The kinds of conditions with the names of their parts. -/
def Predicate.kinds : List (String × List String) :=
  [("compare", ["column", "cmp", "value"]), ("in", ["column", "values"]),
    ("not_in", ["column", "values"]), ("is_null", ["column"]), ("not_null", ["column"]),
    ("like", ["column", "pattern"]), ("in_select", ["column", "select"]), ("exists", ["select"]),
    ("and", ["preds"]), ("or", ["preds"]), ("not", ["pred"])]

/-- The kind that a tag stands for: its name or, in a held form, its position. -/
def Predicate.kind? (held : Bool) : JsonSource → Option (String × List String)
  | .string s => s.bind fun s => Predicate.kinds.find? fun k => k.1 == s
  | .number l =>
    if held then (natural? (.number l)).bind fun n => Predicate.kinds[n]? else none
  | _ => none

mutual

/-- Reads a condition. -/
def Predicate.ofSerial? : Nat → Bool → JsonSource → Option Predicate
  | 0, _, _ => none
  | depth + 1, held, x => do
    if !held && (x.value? (depth + 1)).isNone then none
    let (tag, rest) ← splitTag? "op" x
    let (kind, names) ← Predicate.kind? held tag
    match kind, ← parts? names rest with
    | "compare", [column, op, value] =>
      pure (.compare (← column.bind string?) (← op.bind (read? depth true))
        (← value.bind (read? depth true)))
    | "in", [column, values] =>
      pure (.isIn (← column.bind string?) (← values.bind (read? depth true)))
    | "not_in", [column, values] =>
      pure (.notIn (← column.bind string?) (← values.bind (read? depth true)))
    | "is_null", [column] => pure (.isNull (← column.bind string?))
    | "not_null", [column] => pure (.notNull (← column.bind string?))
    | "like", [column, pattern] =>
      pure (.like (← column.bind string?) (← pattern.bind string?))
    | "in_select", [column, some select] =>
      pure (.inSelect (← column.bind string?) (← Selector.ofSerial? depth true select))
    | "exists", [some select] => pure (.anyRow (← Selector.ofSerial? depth true select))
    | "and", [some preds] => pure (.conj (← Predicate.listOfSerial? depth preds))
    | "or", [some preds] => pure (.disj (← Predicate.listOfSerial? depth preds))
    | "not", [some pred] => pure (.neg (← Predicate.ofSerial? depth true pred))
    | _, _ => none

/-- Reads a list of conditions, which is part of a held form. -/
def Predicate.listOfSerial? : Nat → JsonSource → Option (List Predicate)
  | depth + 1, .array items => readAll? (Predicate.ofSerial? depth true) items
  | _, _ => none

/-- Reads what is selected from. -/
def TableRef.ofSerial? : Nat → Bool → JsonSource → Option TableRef
  | depth + 1, held, .object [(some name, body)] => TableRef.ofBody? depth held name body
  | _, _, _ => none

/-- Reads the body of what is selected from. -/
def TableRef.ofBody? : Nat → Bool → String → JsonSource → Option TableRef
  | 0, _, _, _ => none
  | depth + 1, held, name, body =>
    if name = "Table" then do
      match ← parts? ["name", "alias"] body with
      | [name, asName] => pure (.table (← name.bind string?) (← optional? string? asName))
      | _ => none
    else if name = "Select" then do
      match ← parts? ["select", "alias"] body with
      | [some select, asName] =>
        pure (.select (← Selector.ofSerial? depth held select) (← asName.bind string?))
      | _ => none
    else none

/-- Reads a join. -/
def Join.ofSerial? : Nat → Bool → JsonSource → Option Join
  | 0, _, _ => none
  | depth + 1, held, x => do
    match ← parts? ["table", "left", "right"] x with
    | [some table, left, right] =>
      pure ⟨← TableRef.ofSerial? depth held table, ← left.bind string?, ← right.bind string?⟩
    | _ => none

/-- Reads a list of joins. -/
def Join.listOfSerial? : Nat → Bool → JsonSource → Option (List Join)
  | depth + 1, held, .array items => readAll? (Join.ofSerial? depth held) items
  | _, _, _ => none

/-- Reads a selection. -/
def Selector.ofSerial? : Nat → Bool → JsonSource → Option Selector
  | 0, _, _ => none
  | depth + 1, held, x => do
    let names := ["columns", "from", "joins", "predicate", "order", "limit", "offset", "distinct",
      "count"]
    match ← parts? names x with
    | [columns, some source, some joins, predicate, order, limit, offset, distinct, count] =>
      pure
        { columns := ← columns.bind (read? depth held)
          source := ← TableRef.ofSerial? depth held source
          joins := ← Join.listOfSerial? depth held joins
          predicate := ← optional? (Predicate.ofSerial? depth held) predicate
          order := ← order.bind (read? depth held)
          limit := ← optional? natural? limit
          offset := ← optional? natural? offset
          distinct := ← distinct.bind bool?
          count := ← count.bind bool? }
    | _ => none

end

instance : Serial Predicate := ⟨Predicate.serialText, Predicate.ofSerial?⟩

instance : Serial TableRef := ⟨TableRef.serialText, TableRef.ofSerial?⟩

instance : Serial Selector := ⟨Selector.serialText, Selector.ofSerial?⟩

end EntityGraph
