/-!
# Kinds of relations

A kind tells how many partners each end of an edge may have, and with that how many columns store
the edge.
-/

set_option autoImplicit false

namespace EntityGraph

/-- The cardinality of a relation, seen from the node type that declares it. -/
inductive Relation where
  | oneToOne
  | oneToMany
  | manyToOne
  | manyToMany
deriving DecidableEq, Repr, Inhabited

namespace Relation

/-- The short name of a kind of relation, in messages and in serialized form. -/
def code : Relation → String
  | .oneToOne => "O2O"
  | .oneToMany => "O2M"
  | .manyToOne => "M2O"
  | .manyToMany => "M2M"

/-- All kinds, in the order of their declaration. -/
def all : List Relation := [.oneToOne, .oneToMany, .manyToOne, .manyToMany]

/-- The kind with a short name. -/
def ofCode? (s : String) : Option Relation := all.find? fun r => r.code == s

/-- The number of columns that locate a relation of this kind. -/
def columnCount : Relation → Nat
  | .manyToMany => 2
  | _ => 1

end Relation

end EntityGraph
