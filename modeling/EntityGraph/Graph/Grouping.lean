/-!
# Names in order

Statements of one kind are sent table by table, in the order of the table names, so that what an
operation sends does not depend on the order in which edges were declared.
-/

set_option autoImplicit false

namespace EntityGraph

/-- Puts a name into an ordered list without repetitions. -/
def insertName (name : String) : List String → List String
  | [] => [name]
  | n :: rest =>
    if name < n then name :: n :: rest
    else if name = n then n :: rest
    else n :: insertName name rest

/-- The names of a list in order, each once. -/
def sortedNames (names : List String) : List String := names.foldr insertName []

/-- The items of a list by name, in the order of the names; items of one name keep their order. -/
def groupByName {α : Type} (name : α → String) (items : List α) : List (String × List α) :=
  (sortedNames (items.map name)).map fun n => (n, items.filter fun item => name item == n)

end EntityGraph
