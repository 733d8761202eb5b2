import EntityGraph.Proofs.Relational.Database
import EntityGraph.Sql.Render

/-!
# What a selection selects

The steps of a selection, each on lists of rows: joining a further source, keeping the rows that
meet the condition, ordering them, taking the selected columns, leaving out repeated rows, counting
and cutting out the window. They say nothing of how a selection is written.
-/

set_option autoImplicit false

namespace EntityGraph

/-- What is taken from the rows. -/
inductive Projection where
  | rowCount
  | distinctCount (names : List (List String))
  | columns (distinct : Bool) (names : List (List String))

/-- What a selection does with the rows that meet its condition. -/
structure Shape where
  projection : Projection
  order : List (List String × Direction)
  limit : Option Nat
  offset : Option Nat

/-- The rows of two sources side by side, where two columns are equal. -/
def joined (E : Engine) (outer : Env) (levels : List Level) (frames : List Frame)
    (left right : List String) : List Level :=
  levels.flatMap fun level => (frames.map fun f => level ++ [f]).filter fun l =>
    (E.compare .eq (Env.lookup (l :: outer) left) (Env.lookup (l :: outer) right)).isYes

/-- The selected columns of a row. A star stands for all columns, of all sources or of one. -/
def projected (outer : Env) (level : Level) (name : List String) : OutRow :=
  if name.getLastD "" = "*" then
    (level.filter fun f => name.dropLast.isSuffixOf f.name).flatMap Frame.fields
  else [(name.getLastD "", Env.lookup (level :: outer) name)]

/-- The first of each group of rows that are the same. -/
def distinctRows (E : Engine) (rows : List OutRow) : List OutRow :=
  rows.foldl (fun kept r => if kept.any (OutRow.alike E r) then kept else kept ++ [r]) []

/-- A row may stand before another. -/
def inOrder (E : Engine) (outer : Env) : List (List String × Direction) → Level → Level → Bool
  | [], _, _ => true
  | (name, direction) :: rest, a, b =>
    let v := Env.lookup (a :: outer) name
    let w := Env.lookup (b :: outer) name
    let (x, y) := match direction with
      | .ascending => (v, w)
      | .descending => (w, v)
    if E.before x y then true else if E.before y x then false else inOrder E outer rest a b

namespace Shape

/-- The window of a list of rows. -/
def window (shape : Shape) (rows : List OutRow) : List OutRow :=
  let rest := rows.drop (shape.offset.getD 0)
  match shape.limit with
  | some n => rest.take n
  | none => rest

/-- The result of a selection, given the rows that meet its condition. -/
def result (E : Engine) (outer : Env) (shape : Shape) (levels : List Level) : List OutRow :=
  let sorted := levels.mergeSort (inOrder E outer shape.order)
  let row (names : List (List String)) (level : Level) := names.flatMap (projected outer level)
  let counted (n : Nat) : OutRow := [("count", .int (Int64.ofNat n))]
  shape.window (match shape.projection with
    | .rowCount => [counted sorted.length]
    | .distinctCount names =>
      let known := (sorted.map (row names)).filter fun r => r.all fun c => !c.2.isNull
      [counted (distinctRows E known).length]
    | .columns false names => sorted.map (row names)
    | .columns true names => distinctRows E (sorted.map (row names)))

end Shape

namespace Selector

/-- The names of selected columns: a star if there are none. -/
def columnNames : List String → List (List String)
  | [] => [["*"]]
  | columns => columns.map nameParts

/-- What is taken from the rows of a selection. -/
def projection (columns : List String) (distinct count : Bool) : Projection :=
  match count, distinct && !columns.isEmpty with
  | true, true => .distinctCount (columns.map nameParts)
  | true, false => .rowCount
  | false, _ => .columns distinct (columnNames columns)

/-- What a selection does with its rows. An offset without a limit goes with the largest limit, as
not every database knows an offset alone. -/
def shape (columns : List String) (order : List OrderTerm) (limit offset : Option Nat)
    (distinct count : Bool) : Shape :=
  { projection := projection columns distinct count
    order := order.map fun t => (nameParts t.column, t.direction)
    limit := limit.or (offset.map fun _ => limitMax)
    offset }

end Selector

mutual

/-- The truth of a condition among the rows around it. -/
def Predicate.truth (E : Engine) (db : Database) : Predicate → Env → Truth
  | .compare column .eq .null, env => .ofBool (env.lookup (nameParts column)).isNull
  | .compare column .ne .null, env => .ofBool !(env.lookup (nameParts column)).isNull
  | .compare column op v, env => E.compare op (env.lookup (nameParts column)) v
  | .isIn column vs, env => E.isIn (env.lookup (nameParts column)) vs
  | .notIn column vs, env => (E.isIn (env.lookup (nameParts column)) vs).not
  | .isNull column, env => .ofBool (env.lookup (nameParts column)).isNull
  | .notNull column, env => .ofBool !(env.lookup (nameParts column)).isNull
  | .like column pattern, env =>
    E.like (some '\\') (.string pattern) (env.lookup (nameParts column))
  | .inSelect column select, env =>
    E.isIn (env.lookup (nameParts column)) ((select.outRows E db env).map OutRow.first)
  | .anyRow select, env => .ofBool !(select.outRows E db env).isEmpty
  | .conj preds, env => conjTruth E db preds env
  | .disj preds, env => disjTruth E db preds env
  | .neg pred, env => (pred.truth E db env).not

/-- The truth of all conditions of a list. -/
def conjTruth (E : Engine) (db : Database) : List Predicate → Env → Truth
  | [], _ => .yes
  | p :: rest, env => (p.truth E db env).and (conjTruth E db rest env)

/-- The truth of some condition of a list. -/
def disjTruth (E : Engine) (db : Database) : List Predicate → Env → Truth
  | [], _ => .no
  | p :: rest, env => (p.truth E db env).or (disjTruth E db rest env)

/-- The truth of an optional condition. -/
def conditionTruth (E : Engine) (db : Database) : Option Predicate → Env → Truth
  | some p, env => p.truth E db env
  | none, _ => .yes

/-- The rows of a source. The rows around the selection are in reach of a selection that is a
source; the other sources beside it are not. -/
def TableRef.frames (E : Engine) (db : Database) : TableRef → Env → List Frame
  | .table name none, _ => (db (nameParts name)).frames (nameParts name)
  | .table name (some asName), _ => (db (nameParts name)).frames (nameParts asName)
  | .select select asName, outer =>
    (select.outRows E db outer).map fun r => r.frame (nameParts asName)

/-- The rows of some sources with those of the joined ones beside them. -/
def joinsLevels (E : Engine) (db : Database) : List Join → Env → List Level → List Level
  | [], _, levels => levels
  | ⟨table, left, right⟩ :: rest, outer, levels =>
    joinsLevels E db rest outer
      (joined E outer levels (table.frames E db outer) (nameParts left) (nameParts right))

/-- The rows that a selection selects. -/
def Selector.outRows (E : Engine) (db : Database) : Selector → Env → List OutRow
  | ⟨columns, source, joins, predicate, order, limit, offset, distinct, count⟩, outer =>
    let levels := joinsLevels E db joins outer ((source.frames E db outer).map fun f => [f])
    (Selector.shape columns order limit offset distinct count).result E outer
      (levels.filter fun level => (conditionTruth E db predicate (level :: outer)).isYes)

end

/-! ## Building conditions -/

section Building

variable (E : Engine) (db : Database) (env : Env)

theorem conjTruth_append (ps qs : List Predicate) :
    conjTruth E db (ps ++ qs) env = (conjTruth E db ps env).and (conjTruth E db qs env) := by
  induction ps with
  | nil => rw [List.nil_append, conjTruth, Truth.yes_and]
  | cons p ps ih => rw [List.cons_append, conjTruth, conjTruth, ih, Truth.and_assoc]

theorem disjTruth_append (ps qs : List Predicate) :
    disjTruth E db (ps ++ qs) env = (disjTruth E db ps env).or (disjTruth E db qs env) := by
  induction ps with
  | nil => rw [List.nil_append, disjTruth, Truth.no_or]
  | cons p ps ih => rw [List.cons_append, disjTruth, disjTruth, ih, Truth.or_assoc]

theorem truth_and (p q : Predicate) :
    (p.and q).truth E db env = (p.truth E db env).and (q.truth E db env) := by
  unfold Predicate.and
  split
  case h_1 ps =>
    rw [Predicate.truth, Predicate.truth, conjTruth_append, conjTruth, conjTruth, Truth.and_yes]
  case h_2 => rw [Predicate.truth, conjTruth, conjTruth, conjTruth, Truth.and_yes]

theorem truth_or (p q : Predicate) :
    (p.or q).truth E db env = (p.truth E db env).or (q.truth E db env) := by
  unfold Predicate.or
  split
  case h_1 ps =>
    rw [Predicate.truth, Predicate.truth, disjTruth_append, disjTruth, disjTruth, Truth.or_no]
  case h_2 => rw [Predicate.truth, disjTruth, disjTruth, disjTruth, Truth.or_no]

theorem truth_conjoin (p : Option Predicate) (q : Predicate) :
    (Predicate.conjoin p q).truth E db env =
      (conditionTruth E db p env).and (q.truth E db env) := by
  cases p with
  | none => rw [conditionTruth, Truth.yes_and, Predicate.conjoin]
  | some p => rw [conditionTruth, Predicate.conjoin, truth_and]

theorem conditionTruth_filters (s : Selector) (ps : List Predicate) :
    conditionTruth E db (ps.foldl Selector.filter s).predicate env =
      (conditionTruth E db s.predicate env).and (conjTruth E db ps env) := by
  induction ps generalizing s with
  | nil => rw [List.foldl_nil, conjTruth, Truth.and_yes]
  | cons p ps ih =>
    rw [List.foldl_cons, ih, Selector.filter, conditionTruth, truth_conjoin, conjTruth,
      Truth.and_assoc]

end Building

end EntityGraph
