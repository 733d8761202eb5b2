import Mathlib.Data.List.Basic
import EntityGraph.Sql.Query

/-!
# Databases as tables of rows

A database is read as tables of rows, and a row as the values of its columns. `Engine` is what the
databases do not have in common: when two values are the same, which is less, which texts a pattern
matches. A name in a statement is looked up in the rows at hand, the innermost selection first.

A condition on a row is true, false, or neither because of an absent value. Connectives take the
least and the greatest of their operands in the order no, unknown, yes.
-/

set_option autoImplicit false

namespace EntityGraph

/-! ## Three-valued truth -/

/-- The truth of a condition. -/
inductive Truth where
  | no
  | unknown
  | yes
deriving DecidableEq, Repr

namespace Truth

/-- A truth value that is known. -/
def ofBool (b : Bool) : Truth := if b then yes else no

/-- Both conditions. -/
def and : Truth → Truth → Truth
  | no, _ => no
  | _, no => no
  | yes, yes => yes
  | _, _ => unknown

/-- One of both conditions. -/
def or : Truth → Truth → Truth
  | yes, _ => yes
  | _, yes => yes
  | no, no => no
  | _, _ => unknown

/-- The opposite condition. -/
def not : Truth → Truth
  | no => yes
  | unknown => unknown
  | yes => no

/-- The condition is met: rows of which it is unknown are left out. -/
def isYes : Truth → Bool
  | yes => true
  | _ => false

@[simp]
theorem and_yes (t : Truth) : t.and yes = t := by cases t <;> rfl

@[simp]
theorem yes_and (t : Truth) : yes.and t = t := by cases t <;> rfl

@[simp]
theorem or_no (t : Truth) : t.or no = t := by cases t <;> rfl

@[simp]
theorem no_or (t : Truth) : no.or t = t := by cases t <;> rfl

theorem and_assoc (a b c : Truth) : (a.and b).and c = a.and (b.and c) := by
  cases a <;> cases b <;> cases c <;> rfl

theorem or_assoc (a b c : Truth) : (a.or b).or c = a.or (b.or c) := by
  cases a <;> cases b <;> cases c <;> rfl

theorem not_ofBool (b : Bool) : (ofBool b).not = ofBool !b := by cases b <;> rfl

@[simp]
theorem isYes_ofBool (b : Bool) : (ofBool b).isYes = b := by cases b <;> rfl

@[simp]
theorem isYes_and (a b : Truth) : (a.and b).isYes = (a.isYes && b.isYes) := by
  cases a <;> cases b <;> rfl

@[simp]
theorem isYes_or (a b : Truth) : (a.or b).isYes = (a.isYes || b.isYes) := by
  cases a <;> cases b <;> rfl

end Truth

/-! ## Engines, rows and names -/

/-- How a database system compares and combines values that are there. -/
structure Engine where
  same : Value → Value → Bool
  less : Value → Value → Bool
  /-- A row with the one value comes before a row with the other; absent values have a place too. -/
  before : Value → Value → Bool
  /-- A text matches a pattern of LIKE with an escape character or without one. -/
  matching : Option Char → Value → Value → Bool
  plus : Value → Value → Value
  /-- An assignment of an UPDATE sees the values that the ones before it have written. -/
  inTurn : Bool
  same_comm : ∀ v w, same v w = same w v
  same_trans : ∀ u v w, same u v = true → same v w = true → same u w = true
  same_int : ∀ i j : Int64, same (.int i) (.int j) = (i == j)

namespace Engine

/-- A comparison of two values; with an absent value it is unknown. -/
def compare (E : Engine) (op : Comparison) (v w : Value) : Truth :=
  if v.isNull || w.isNull then .unknown
  else .ofBool (match op with
    | .eq => E.same v w
    | .ne => !E.same v w
    | .gt => E.less w v
    | .gte => E.less w v || E.same v w
    | .lt => E.less v w
    | .lte => E.less v w || E.same v w)

/-- A value is one of a list: the comparisons with its members, one of which holds. -/
def isIn (E : Engine) (v : Value) : List Value → Truth
  | [] => .no
  | w :: rest => (E.compare .eq v w).or (E.isIn v rest)

/-- A value matches a pattern. -/
def like (E : Engine) (escape : Option Char) (pattern v : Value) : Truth :=
  if pattern.isNull || v.isNull then .unknown else .ofBool (E.matching escape pattern v)

/-- The values are equal, or both absent: rows that agree so are the same to a DISTINCT. -/
def alike (E : Engine) (v w : Value) : Bool :=
  if v.isNull || w.isNull then v.isNull && w.isNull else E.same v w

end Engine

/-- A row: a value for each column. -/
abbrev Tuple := String → Value

/-- A table: its columns, and its rows in the order in which they are stored. -/
structure Table where
  columns : List String
  rows : List Tuple

/-- The parts of a name between its dots. -/
def nameParts (name : String) : List String := (name.toList.splitOn '.').map String.ofList

/-- A database: the table of each name, which is given by its parts. -/
abbrev Database := List String → Table

/-- A row of a selection's source, under the name of that source. -/
structure Frame where
  name : List String
  columns : List String
  tuple : Tuple

/-- The rows of the sources of one selection that stand side by side. -/
abbrev Level := List Frame

/-- The levels of the selections around a condition, the innermost first. -/
abbrev Env := List Level

namespace Frame

/-- The value that a frame has for a column. The qualifier may leave out the first parts of the
frame's name. -/
def value? (f : Frame) (qualifier : List String) (column : String) : Option Value :=
  if qualifier.isSuffixOf f.name && f.columns.contains column then some (f.tuple column) else none

/-- All columns of a frame. -/
def fields (f : Frame) : List (String × Value) := f.columns.map fun c => (c, f.tuple c)

end Frame

/-- The value that a name stands for: that of the first frame which has it. -/
def Env.lookup (env : Env) (name : List String) : Value :=
  (env.flatten.findSome? fun f => f.value? name.dropLast (name.getLastD "")).getD .null

/-- The frames of a table under a name. -/
def Table.frames (t : Table) (name : List String) : List Frame :=
  t.rows.map fun r => ⟨name, t.columns, r⟩

/-- A row of a selection's result: its columns with their values. -/
abbrev OutRow := List (String × Value)

namespace OutRow

/-- The value that a condition on a single column takes from a row. -/
def first (r : OutRow) : Value := (r.head?.map (·.2)).getD .null

/-- The frame of a row of a selection under a name. -/
def frame (r : OutRow) (name : List String) : Frame :=
  ⟨name, r.map (·.1), fun c => (r.lookup c).getD .null⟩

/-- Rows that are the same to a DISTINCT. -/
def alike (E : Engine) : OutRow → OutRow → Bool
  | [], [] => true
  | (_, v) :: r, (_, w) :: s => E.alike v w && alike E r s
  | _, _ => false

end OutRow

/-! ## Names -/

theorem nameParts_ne_nil (name : String) : nameParts name ≠ [] := by
  simp [nameParts, List.splitOn_ne_nil]

theorem nameParts_injective : Function.Injective nameParts := by
  intro s t h
  unfold nameParts at h
  have hsplit := List.map_injective_iff.mpr (fun _ _ hab => String.ofList_injective hab) h
  have hs : ['.'].intercalate (s.toList.splitOn '.') = s.toList := List.intercalate_splitOn '.'
  have ht : ['.'].intercalate (t.toList.splitOn '.') = t.toList := List.intercalate_splitOn '.'
  rw [hsplit] at hs
  exact String.toList_inj.mp (hs.symm.trans ht)

/-- A qualified name has the parts of its qualifier, then those of the rest. -/
theorem nameParts_qualified (table column : String) :
    nameParts (table ++ "." ++ column) = nameParts table ++ nameParts column := by
  have htext : (table ++ "." ++ column).toList = table.toList ++ '.' :: column.toList := by simp
  rw [nameParts, htext, List.splitOn_append_cons_self, List.map_append]
  rfl

end EntityGraph
