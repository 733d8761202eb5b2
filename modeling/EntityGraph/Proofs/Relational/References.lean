import EntityGraph.Proofs.Relational.Insertion

/-!
# Columns that refer to keys

A foreign key is a column whose values are keys of another table. `Reference.IsPaired` says that it
is one of one to one: each value is the key of a row, and no value is there twice. A statement that
leaves the keys of all rows as they are, which `Database.Extends` says, can only break this by what
it writes into the column. An INSERT without a conflict clause is such a statement; what its rows
are is said here for several rows.
-/

set_option autoImplicit false

namespace EntityGraph

variable {E : Engine} {S : Schema} {keys : List (String × String)} {db db' db'' : Database}
  {c : String} {v w : Value}

/-! ## Values of a column -/

/-- A table has a value in a column. -/
def Table.Holds (E : Engine) (t : Table) (c : String) (v : Value) : Prop :=
  ∃ r ∈ t.rows, E.equal (r c) v = true

theorem Table.Holds.congr {t : Table} (h : t.Holds E c v) (hvw : E.equal v w = true) :
    t.Holds E c w := by
  obtain ⟨r, hr, hequal⟩ := h
  exact ⟨r, hr, Engine.equal_trans hequal hvw⟩

theorem Table.Holds.isNull {t : Table} (h : t.Holds E c v) : v.isNull = false := by
  obtain ⟨r, -, hequal⟩ := h
  exact Engine.isNull_of_equal_right hequal

/-- Each key that a row has in one database is that of a row in the other. -/
def Database.Extends (keys : List (String × String)) (db db' : Database) : Prop :=
  ∀ k ∈ keys, ∀ r ∈ (db (nameParts k.1)).rows, ∃ r' ∈ (db' (nameParts k.1)).rows, r' k.2 = r k.2

namespace Database.Extends

theorem refl (db : Database) : db.Extends keys db := fun _ _ r hr => ⟨r, hr, rfl⟩

theorem trans (h : db.Extends keys db') (h' : db'.Extends keys db'') : db.Extends keys db'' := by
  intro k hk r hr
  obtain ⟨r', hr', hsame⟩ := h k hk r hr
  obtain ⟨r'', hr'', hsame'⟩ := h' k hk r' hr'
  exact ⟨r'', hr'', hsame'.trans hsame⟩

/-- Rows that are only joined by others keep their keys. -/
theorem of_subset (h : ∀ name, (db name).rows ⊆ (db' name).rows) : db.Extends keys db' :=
  fun _ _ r hr => ⟨r, h _ hr, rfl⟩

theorem holds (h : db.Extends keys db') {table : String} (hk : (table, c) ∈ keys)
    (hv : (db (nameParts table)).Holds E c v) : (db' (nameParts table)).Holds E c v := by
  obtain ⟨r, hr, hequal⟩ := hv
  obtain ⟨r', hr', hsame⟩ := h (table, c) hk r hr
  exact ⟨r', hr', hsame ▸ hequal⟩

end Database.Extends

/-! ## Foreign keys -/

/-- A foreign key: a column of a table, and the key to which its values belong. -/
structure Reference where
  table : String
  column : String
  goal : String
  key : String

namespace Reference

variable {f : Reference}

/-- The foreign key is known to the database: it refers to a key, and is not filled in by itself. -/
structure IsDeclared (S : Schema) (f : Reference) : Prop where
  key : (f.goal, f.key) ∈ S.keys
  unfilled : S.identity f.table ≠ some f.column

/-- A row has this value in the column. -/
def Holds (E : Engine) (f : Reference) (db : Database) (v : Value) : Prop :=
  (db (nameParts f.table)).Holds E f.column v

/-- A row to which the column can refer has this key. -/
def Reaches (E : Engine) (f : Reference) (db : Database) (v : Value) : Prop :=
  (db (nameParts f.goal)).Holds E f.key v

/-- The column is a foreign key of one to one: each of its values is the key of a row, and no two
rows have the same value. -/
structure IsPaired (E : Engine) (f : Reference) (db : Database) : Prop where
  column : (db (nameParts f.table)).HasColumn f.column
  intact : ∀ r ∈ (db (nameParts f.table)).rows, (r f.column).isNull = false →
    f.Reaches E db (r f.column)
  unique : (db (nameParts f.table)).Unique E f.column

/-- What the column holds is a key. -/
theorem IsPaired.reaches (h : f.IsPaired E db) (hv : f.Holds E db v) : f.Reaches E db v := by
  obtain ⟨r, hr, hequal⟩ := hv
  exact (h.intact r hr (Engine.isNull_of_equal hequal)).congr hequal

/-- A column whose table stays as it is remains one of one to one. -/
theorem IsPaired.of_table_eq (h : f.IsPaired E db) (hf : f.IsDeclared S)
    (htable : db' (nameParts f.table) = db (nameParts f.table)) (hextends : db.Extends S.keys db') :
    f.IsPaired E db' where
  column := by rw [htable]; exact h.column
  intact := by
    intro r hr hpresent
    rw [htable] at hr
    exact hextends.holds hf.key (h.intact r hr hpresent)
  unique := by rw [htable]; exact h.unique

/-- Rows are added whose values in the column are new, all different, and keys. -/
theorem IsPaired.of_added (h : f.IsPaired E db) (hf : f.IsDeclared S)
    (hextends : db.Extends S.keys db') {added : List Tuple}
    (hcolumns : (db' (nameParts f.table)).columns = (db (nameParts f.table)).columns)
    (hrows : (db' (nameParts f.table)).rows.Perm (added ++ (db (nameParts f.table)).rows))
    (hnew : ∀ x ∈ added, ¬f.Holds E db (x f.column))
    (hapart : added.Pairwise fun x y => E.equal (x f.column) (y f.column) = false)
    (hkeys : ∀ x ∈ added, (x f.column).isNull = false → f.Reaches E db (x f.column)) :
    f.IsPaired E db' where
  column := ⟨h.column.plain, h.column.notStar, by rw [hcolumns]; exact h.column.mem⟩
  intact := by
    intro r hr hpresent
    apply hextends.holds hf.key
    rcases List.mem_append.mp (hrows.mem_iff.mp hr) with hr | hr
    · exact hkeys r hr hpresent
    · exact h.intact r hr hpresent
  unique := by
    have hsymm : ∀ {x y : Tuple}, E.equal (x f.column) (y f.column) = false →
        E.equal (y f.column) (x f.column) = false := by
      intro x y hxy
      rwa [Engine.equal_comm]
    show (db' (nameParts f.table)).rows.Pairwise _
    rw [hrows.pairwise_iff hsymm, List.pairwise_append]
    refine ⟨hapart, h.unique, ?_⟩
    intro x hx r hr
    rw [Bool.eq_false_iff]
    intro hequal
    exact hnew x hx ⟨r, hr, Engine.equal_symm hequal⟩

end Reference

/-! ## Several new rows -/

namespace InsertStatement

variable {i : InsertStatement} {values : List (List Value)} {rows rows' reported : List Tuple}

/-- An INSERT without a conflict clause adds a row for each row of values, and reports them. -/
theorem StoresRows.added (hconflict : i.conflict = none)
    (h : i.StoresRows E S values rows rows' reported) :
    rows'.Perm (reported ++ rows) ∧
      List.Forall₂ (fun v x => ∃ before, i.Proposes E S before v x) values reported := by
  induction h with
  | nil => exact ⟨List.Perm.refl _, .nil⟩
  | @cons v rest before mid after x o others proposes stores _ ih =>
    obtain ⟨hperm, hproposed⟩ := ih
    cases stores with
    | added _ perm =>
      refine ⟨?_, .cons ⟨before, proposes⟩ hproposed⟩
      refine hperm.trans ((perm.append_left others).trans ?_)
      exact List.perm_middle
    | skipped _ _ _ conflict =>
      rw [hconflict] at conflict
      cases conflict
    | changed _ _ conflict =>
      rw [hconflict] at conflict
      cases conflict

/-- Consecutive numbers in a column. -/
def Numbered (c : String) : Int64 → List Tuple → Prop
  | _, [] => True
  | next, x :: rest => x c = .int next ∧ Numbered c (next + 1) rest

/-- The reply to an INSERT of several rows to which the database gives IDs counts the rows, and their
IDs are consecutive from the one that it tells. -/
def NumbersRows (S : Schema) (i : InsertStatement) (reported : List Tuple) (r : ExecResult) : Prop :=
  S.reportsIds = true → i.conflict = none → ∀ c, S.identity i.table = some c → c ∉ i.columns →
    r.rowsAffected = reported.length ∧ ∀ first, r.lastInsertId = some first →
      Numbered c first reported

end InsertStatement

/-- A database that tells the ID of the first row of an INSERT gives the rows consecutive IDs. -/
def Call.NumbersRows (E : Engine) (S : Schema) : Answering Session
  | .exec _ (.insert i), (.done r : Outcome ExecResult), s, s' =>
    ∃ reported, i.Inserts E S s.current s'.current reported ∧ i.NumbersRows S reported r
  | _, _, _, _ => True

/-- A database with a schema answers a call, and numbers the rows of an INSERT. -/
def Call.Enters (E : Engine) (S : Schema) : Answering Session := fun c r s s' =>
  c.Records E S r s s' ∧ c.NumbersRows E S r s s'

theorem Call.Enters.records {call : Call} {r : call.Reply} {s s' : Session}
    (h : call.Enters E S r s s') : call.Records E S r s s' :=
  h.1

end EntityGraph
