import Mathlib.Data.List.Basic
import EntityGraph.Program
import EntityGraph.Proofs.Relational.Selection

/-!
# What statements do to tables

An UPDATE assigns to the rows that meet its condition, a DELETE drops them. Of an INSERT it is only
said that it leaves other tables alone. `Command.Carried` relates the databases before and after a
statement; what the driver is told about it is said apart from that.
-/

set_option autoImplicit false

namespace EntityGraph

/-- The column of its own table that a name stands for. -/
def columnName (name : String) : String := (nameParts name).getLastD ""

/-- A name stands for a column that a table has. -/
def Database.knows (db : Database) (table name : String) : Bool :=
  (nameParts name).dropLast.isSuffixOf (nameParts table) &&
    (db (nameParts table)).columns.contains (columnName name)

/-- A row of a table meets a condition. -/
def Database.meets (E : Engine) (db : Database) (table : String) (p : Option Predicate)
    (r : Tuple) : Bool :=
  (conditionTruth E db p [[⟨nameParts table, (db (nameParts table)).columns, r⟩]]).isYes

namespace Assignment

/-- The assignment does not depend on what is there. -/
def isAbsolute : Assignment → Bool
  | .value _ => true
  | .add _ => false

/-- What an assignment makes of the value that is there. -/
def result (E : Engine) (current : Value) : Assignment → Value
  | .value v => v
  | .add v => if v.isNull then .null else E.plus (if current.isNull then .int 0 else current) v

end Assignment

namespace Update

/-- The assignments in the order in which they are written. -/
def assignments (u : Update) : List (String × Assignment) :=
  u.nulls.map (fun column => (column, .value .null)) ++
    (u.sets.filter fun a => a.2.isAbsolute) ++ u.sets.filter fun a => !a.2.isAbsolute

/-- The row `new`, into which earlier assignments to the row `old` have gone, after one more. -/
def assign (E : Engine) (old new : Tuple) (a : String × Assignment) : Tuple :=
  Function.update new (columnName a.1)
    (a.2.result E ((if E.inTurn then new else old) (columnName a.1)))

/-- What all assignments make of a row. -/
def assigned (E : Engine) (u : Update) (old : Tuple) : Tuple :=
  u.assignments.foldl (assign E old) old

/-- What an UPDATE makes of a row of its table. -/
def rowAfter (E : Engine) (db : Database) (u : Update) (r : Tuple) : Tuple :=
  if db.meets E u.table u.predicate r then u.assigned E r else r

/-- All columns that an UPDATE names. -/
def names (u : Update) : List String :=
  u.nulls ++ u.sets.map (·.1) ++ (u.predicate.map Predicate.columns).getD []

/-- The rows that an UPDATE reaches. -/
def reached (E : Engine) (u : Update) (db : Database) : List Tuple :=
  (db (nameParts u.table)).rows.filter (db.meets E u.table u.predicate)

/-- The database after an UPDATE. -/
def applied (E : Engine) (u : Update) (db : Database) : Database :=
  Function.update db (nameParts u.table)
    { db (nameParts u.table) with rows := (db (nameParts u.table)).rows.map (u.rowAfter E db) }

end Update

/-- The database after a DELETE. -/
def Delete.applied (E : Engine) (x : Delete) (db : Database) : Database :=
  Function.update db (nameParts x.table)
    { db (nameParts x.table) with
      rows := (db (nameParts x.table)).rows.filter fun r => !db.meets E x.table x.predicate r }

namespace Command

/-- The databases before and after a statement that is carried out. An UPDATE is not carried out if
its table lacks a column that it names. -/
def Carried (E : Engine) : Command → Database → Database → Prop
  | .select _, db, db' => db' = db
  | .anyRow _, db, db' => db' = db
  | .insert i, db, db' => ∀ name, name ≠ nameParts i.table → db' name = db name
  | .update u, db, db' => (∀ name ∈ u.names, db.knows u.table name = true) ∧ db' = u.applied E db
  | .delete x, db, db' => db' = x.applied E db

/-- The number of rows that is reported for an UPDATE: some databases count the rows that it
reaches, others only those among them that it changes. -/
def Reports (E : Engine) : Command → Database → Nat → Prop
  | .update u, db, n => n ≤ (u.reached E db).length
  | _, _, _ => True

/-- The rows that are reported for a query. The rows of a selection come in some order; the question
whether there is one is answered by a truth value or by a number. -/
def Returns (E : Engine) : Command → Database → Rows → Prop
  | .select s, db, rows => rows.rows.Perm ((s.outRows E db []).map fun r => r.map (·.2))
  | .anyRow s, db, rows =>
    rows.firstValue?.bind Value.asBool? = some !(s.outRows E db []).isEmpty
  | _, _, _ => True

end Command

/-! ## Other tables -/

section OtherTables

variable {E : Engine} {db db' : Database} {name : List String}

theorem Update.applied_of_ne {u : Update} (h : name ≠ nameParts u.table) :
    u.applied E db name = db name := by
  unfold applied
  rw [Function.update_of_ne h]

theorem Update.applied_table (u : Update) :
    u.applied E db (nameParts u.table) =
      { db (nameParts u.table) with
        rows := (db (nameParts u.table)).rows.map (u.rowAfter E db) } := by
  unfold applied
  rw [Function.update_self]

theorem Delete.applied_of_ne {x : Delete} (h : name ≠ nameParts x.table) :
    x.applied E db name = db name := by
  unfold applied
  rw [Function.update_of_ne h]

theorem Update.assigned_of_isEmpty {u : Update} (h : u.isEmpty = true) (r : Tuple) :
    u.assigned E r = r := by
  unfold isEmpty at h
  obtain ⟨hnulls, hsets⟩ := Bool.and_eq_true_iff.mp h
  rw [List.isEmpty_iff] at hnulls hsets
  simp [assigned, assignments, hnulls, hsets]

/-- An UPDATE that assigns nothing leaves the database as it is. -/
theorem Update.applied_of_isEmpty {u : Update} (h : u.isEmpty = true) : u.applied E db = db := by
  have hrow : ∀ r, u.rowAfter E db r = r := by
    intro r
    unfold rowAfter
    split
    case isTrue => exact assigned_of_isEmpty h r
    case isFalse => rfl
  unfold applied
  rw [List.map_congr_left (g := id) fun r _ => hrow r, List.map_id]
  exact Function.update_eq_self _ _

end OtherTables

end EntityGraph
