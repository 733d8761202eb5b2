import EntityGraph.Entity.Record
import EntityGraph.Operation

/-!
# Entity types

An entity type says how the values of a type are stored, one as each row of a table: which columns
there are, which types they have, and how an entity is read from a row and shown as column values.
-/

set_option autoImplicit false

namespace EntityGraph

/-- The storage of entities of a type. -/
structure EntityType (E : Type) where
  table : String
  /-- The name in messages. -/
  label : String
  idColumn : String
  idType : FieldType
  /-- The columns without the ID. Foreign keys that neighbors are found by must be among them. -/
  columns : List String
  columnType : String → FieldType
  strategy : IdStrategy
  /-- Reads an entity from the columns of a row. -/
  ofRow : List String → List Value → Except Error E
  /-- The value of a column, absent for an unknown one. -/
  value : E → String → Value

namespace EntityType

variable {E : Type}

/-- The ID of an entity. -/
def id (t : EntityType E) (entity : E) : Value := t.value entity t.idColumn

/-- The node type of the entities. -/
def node (t : EntityType E) : Node :=
  { table := t.table
    columns := t.columns
    id := { column := t.idColumn, type := t.idType }
    strategy := t.strategy
    givenLabel := some t.label }

/-- The types as which columns are read. -/
def scanTypes (t : EntityType E) (columns : List String) : List FieldType :=
  columns.map fun c => if c = t.idColumn then t.idType else t.columnType c

/-- The types as which a query reads columns. -/
def scan (t : EntityType E) : Scan := fun columns => .ok (t.scanTypes columns)

/-- All columns of an entity with their values. -/
def fields (t : EntityType E) (entity : E) : List (String × Value) :=
  (t.idColumn :: t.columns).map fun c => (c, t.value entity c)

end EntityType

end EntityGraph
