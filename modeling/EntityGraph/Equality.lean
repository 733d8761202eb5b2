import EntityGraph.Step

/-!
# Equality of conditions, selections and steps

Two trees are equal if they have the same shape and their values are equal as numbers: zeros of
either sign are equal, and what is not a number is equal to nothing, not even to itself.
-/

set_option autoImplicit false

namespace EntityGraph

mutual

/-- Equality of conditions. -/
def Predicate.equals : Predicate → Predicate → Bool
  | .compare a f v, .compare b g w => a == b && f == g && v.equals w
  | .isIn a vs, .isIn b ws | .notIn a vs, .notIn b ws => a == b && Value.equalsAll vs ws
  | .isNull a, .isNull b | .notNull a, .notNull b => a == b
  | .like a s, .like b t => a == b && s == t
  | .inSelect a s, .inSelect b t => a == b && s.equals t
  | .anyRow s, .anyRow t => s.equals t
  | .conj ps, .conj qs | .disj ps, .disj qs => Predicate.equalsAll ps qs
  | .neg p, .neg q => p.equals q
  | _, _ => false

/-- Equality of lists of conditions. -/
def Predicate.equalsAll : List Predicate → List Predicate → Bool
  | [], [] => true
  | p :: ps, q :: qs => p.equals q && Predicate.equalsAll ps qs
  | _, _ => false

/-- Equality of conditions that may be absent. -/
def Predicate.equalsOpt : Option Predicate → Option Predicate → Bool
  | none, none => true
  | some p, some q => p.equals q
  | _, _ => false

/-- Equality of what is selected from. -/
def TableRef.equals : TableRef → TableRef → Bool
  | .table a b, .table c d => a == c && b == d
  | .select s a, .select t b => s.equals t && a == b
  | _, _ => false

/-- Equality of joins. -/
def Join.equals : Join → Join → Bool
  | ⟨r, a, b⟩, ⟨t, c, d⟩ => r.equals t && a == c && b == d

/-- Equality of lists of joins. -/
def Join.equalsAll : List Join → List Join → Bool
  | [], [] => true
  | x :: xs, y :: ys => x.equals y && Join.equalsAll xs ys
  | _, _ => false

/-- Equality of selections. -/
def Selector.equals : Selector → Selector → Bool
  | ⟨columns, source, joins, predicate, order, limit, offset, distinct, count⟩, t =>
    columns == t.columns && source.equals t.source && Join.equalsAll joins t.joins &&
      Predicate.equalsOpt predicate t.predicate && order == t.order && limit == t.limit &&
      offset == t.offset && distinct == t.distinct && count == t.count

end

/-- Equality of steps. -/
def Step.equals (s t : Step) : Bool :=
  s.start.table == t.start.table && s.start.column == t.start.column &&
    s.start.value.equals t.start.value && s.edge == t.edge && s.goal == t.goal

end EntityGraph
