import EntityGraph.Relation
import EntityGraph.Serial.Basic
import EntityGraph.Sql.Insert
import EntityGraph.Sql.Query

/-!
# Serialized enumerations

A case without parts is serialized as its name.
-/

set_option autoImplicit false

namespace EntityGraph

/-- A type whose values are finitely many named cases. -/
class Enumeration (α : Type) where
  /-- The cases in the order of their declaration. -/
  cases : List α
  /-- The serialized name of a case. -/
  name : α → String

namespace Enumeration

variable {α : Type} [Enumeration α]

/-- The case with a name. -/
def ofName? (s : String) : Option α := cases.find? fun a => name a == s

instance : Serial α :=
  ⟨fun a => Json.stringText (name a),
    fun depth held x => (Serial.caseName? depth held x).bind ofName?⟩

end Enumeration

instance : Enumeration FieldType := ⟨FieldType.all, FieldType.name⟩

instance : Enumeration Relation := ⟨Relation.all, Relation.code⟩

instance : Enumeration Dialect where
  cases := Dialect.all
  name
    | .mysql => "mysql"
    | .postgres => "postgres"
    | .sqlite => "sqlite"

instance : Enumeration Comparison where
  cases := [.eq, .ne, .gt, .gte, .lt, .lte]
  name
    | .eq => "eq"
    | .ne => "ne"
    | .gt => "gt"
    | .gte => "gte"
    | .lt => "lt"
    | .lte => "lte"

instance : Enumeration Direction where
  cases := [.ascending, .descending]
  name
    | .ascending => "ASC"
    | .descending => "DESC"

instance : Enumeration ConflictAction where
  cases := [.doNothing, .ignore, .updateNewValues]
  name
    | .doNothing => "do_nothing"
    | .ignore => "ignore"
    | .updateNewValues => "update_new_values"

end EntityGraph
