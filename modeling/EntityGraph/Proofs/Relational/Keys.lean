import Mathlib.Data.List.Pairwise
import EntityGraph.Proofs.Relational.Change

/-!
# Columns without repeated values

`Table.Unique` says that no two rows of a table have the same value in a column, where absent values
are not the same as anything; a key also has a value in each row. The conditions on single rows that
speak of such columns come with them, and the selections from one table.
-/

set_option autoImplicit false

namespace EntityGraph

theorem Value.eq_null_of_isNull {v : Value} (h : v.isNull = true) : v = .null := by
  cases v <;> first | rfl | cases h

namespace Engine

variable {E : Engine} {u v w : Value}

/-- Both values are there and the same. -/
def equal (E : Engine) (v w : Value) : Bool := !v.isNull && !w.isNull && E.same v w

/-- What the condition that a column has a value says of the value that is there. -/
def picks (E : Engine) (v w : Value) : Bool := if w.isNull then v.isNull else E.equal v w

/-- What the condition that a column does not have a value says of the value that is there. -/
def spares (E : Engine) (v w : Value) : Bool :=
  if w.isNull then !v.isNull else !v.isNull && !E.same v w

theorem compare_eq_isYes (v w : Value) : (E.compare .eq v w).isYes = E.equal v w := by
  unfold compare equal
  cases v.isNull <;> cases w.isNull <;> cases E.same v w <;> rfl

theorem compare_ne_isYes (v w : Value) :
    (E.compare .ne v w).isYes = (!v.isNull && !w.isNull && !E.same v w) := by
  unfold compare
  cases v.isNull <;> cases w.isNull <;> cases E.same v w <;> rfl

theorem isIn_isYes (v : Value) (vs : List Value) : (E.isIn v vs).isYes = vs.any (E.equal v) := by
  induction vs with
  | nil => rfl
  | cons w vs ih => rw [isIn, Truth.isYes_or, compare_eq_isYes, ih, List.any_cons]

theorem equal_comm (v w : Value) : E.equal v w = E.equal w v := by
  unfold equal
  rw [E.same_comm v w, Bool.and_comm (!v.isNull)]

theorem equal_symm (h : E.equal v w = true) : E.equal w v = true := equal_comm v w ▸ h

theorem equal_trans (h : E.equal u v = true) (h' : E.equal v w = true) : E.equal u w = true := by
  simp only [equal, Bool.and_eq_true] at h h' ⊢
  exact ⟨⟨h.1.1, h'.1.2⟩, E.same_trans u v w h.2 h'.2⟩

theorem isNull_of_equal (h : E.equal v w = true) : v.isNull = false := by
  simp only [equal, Bool.and_eq_true, Bool.not_eq_true'] at h
  exact h.1.1

theorem isNull_of_equal_right (h : E.equal v w = true) : w.isNull = false :=
  isNull_of_equal (equal_symm h)

theorem equal_congr_right (h : E.equal v w = true) (u : Value) : E.equal u v = E.equal u w := by
  rw [Bool.eq_iff_iff]
  exact ⟨fun hu => equal_trans hu h, fun hu => equal_trans hu (equal_symm h)⟩

theorem equal_congr_left (h : E.equal v w = true) (u : Value) : E.equal v u = E.equal w u := by
  rw [equal_comm v, equal_comm w, equal_congr_right h]

theorem equal_null (v : Value) (h : w.isNull = true) : E.equal v w = false := by
  simp [equal, h]

theorem picks_of_equal (h : E.equal v w = true) : E.picks v w = true := by
  have hnull : w.isNull = false := isNull_of_equal_right h
  rw [picks, if_neg (by simp [hnull]), h]

theorem equal_of_picks (hv : v.isNull = false) (h : E.picks v w = true) : E.equal v w = true := by
  unfold picks at h
  split at h
  case isTrue => simp [hv] at h
  case isFalse => exact h

theorem picks_of_value (hw : w.isNull = false) : E.picks v w = E.equal v w := by
  simp [picks, hw]

theorem picks_of_absent (hw : w.isNull = true) : E.picks v w = v.isNull := by
  simp [picks, hw]

/-- Two values that a condition picks are the same. -/
theorem equal_of_picks_picks (hu : u.isNull = false) (hv : v.isNull = false)
    (h : E.picks u w = true) (h' : E.picks v w = true) : E.equal u v = true := by
  have huw := equal_of_picks hu h
  have hvw := equal_of_picks hv h'
  rw [equal_comm] at hvw
  exact equal_trans huw hvw

/-- A value that is there is picked or spared. -/
theorem spares_of_not_picks (hv : v.isNull = false) (h : E.picks v w = false) :
    E.spares v w = true := by
  unfold picks at h
  unfold spares
  split at h
  case isTrue hw => simp [hw, hv]
  case isFalse hw =>
    simp only [hw, Bool.false_eq_true, if_false]
    simp [equal, hv] at h ⊢
    exact h (by simpa using hw)

theorem not_picks_of_spares (h : E.spares v w = true) : E.picks v w = false := by
  unfold spares at h
  unfold picks
  split at h
  case isTrue hw => simpa [hw] using h
  case isFalse hw =>
    simp only [Bool.and_eq_true, Bool.not_eq_true'] at h
    simp [hw, equal, h.2]

end Engine

/-! ## Columns and keys -/

namespace Table

/-- No two rows have the same value in a column. -/
def Unique (E : Engine) (t : Table) (c : String) : Prop :=
  t.rows.Pairwise fun r s => E.equal (r c) (s c) = false

/-- The table has a column of this name. -/
structure HasColumn (t : Table) (c : String) : Prop where
  plain : nameParts c = [c]
  notStar : c ≠ "*"
  mem : c ∈ t.columns

/-- The column tells the rows of the table apart. -/
structure HasKey (E : Engine) (t : Table) (c : String) : Prop extends t.HasColumn c where
  present : ∀ r ∈ t.rows, (r c).isNull = false
  unique : t.Unique E c

end Table

/-- The database has its keys, each given by a table and a column. -/
def Database.Obeys (E : Engine) (keys : List (String × String)) (db : Database) : Prop :=
  ∀ k ∈ keys, (db (nameParts k.1)).HasKey E k.2

section Rows

variable {E : Engine} {rows : List Tuple} {c : String}

/-- Two different rows of a column that keeps its values apart do not have the same value. -/
theorem not_equal_of_pairwise {f : Tuple → Tuple} {r s : Tuple}
    (h : rows.Pairwise fun r s => E.equal (f r c) (f s c) = false) (hr : r ∈ rows) (hs : s ∈ rows)
    (hne : r ≠ s) : E.equal (f r c) (f s c) = false := by
  have hsymm : Std.Symm fun r s : Tuple => E.equal (f r c) (f s c) = false :=
    ⟨fun a b hab => by rwa [Engine.equal_comm]⟩
  exact h.forall hr hs hne

/-- Rows that a key does not tell apart are one row. -/
theorem Table.HasKey.eq_of_picks {t : Table} {k : String} (hkey : t.HasKey E k) {r s : Tuple}
    {v : Value} (hr : r ∈ t.rows) (hs : s ∈ t.rows) (hpr : E.picks (r k) v = true)
    (hps : E.picks (s k) v = true) : r = s := by
  by_contra hne
  have hequal := Engine.equal_of_picks_picks (hkey.present r hr) (hkey.present s hs) hpr hps
  have hapart : E.equal (r k) (s k) = false :=
    not_equal_of_pairwise (f := id) hkey.unique hr hs hne
  rw [hapart] at hequal
  cases hequal

end Rows

section Decidable

variable (E : Engine) (t : Table) (c : String)

instance : Decidable (t.Unique E c) :=
  inferInstanceAs (Decidable (t.rows.Pairwise fun r s => E.equal (r c) (s c) = false))

instance : Decidable (t.HasColumn c) :=
  decidable_of_iff (nameParts c = [c] ∧ c ≠ "*" ∧ c ∈ t.columns)
    ⟨fun h => ⟨h.1, h.2.1, h.2.2⟩, fun h => ⟨h.plain, h.notStar, h.mem⟩⟩

instance : Decidable (t.HasKey E c) :=
  decidable_of_iff (t.HasColumn c ∧ (∀ r ∈ t.rows, (r c).isNull = false) ∧ t.Unique E c)
    ⟨fun h => ⟨h.1, h.2.1, h.2.2⟩, fun h => ⟨h.toHasColumn, h.present, h.unique⟩⟩

instance (keys : List (String × String)) (db : Database) : Decidable (db.Obeys E keys) :=
  inferInstanceAs (Decidable (∀ k ∈ keys, (db (nameParts k.1)).HasKey E k.2))

end Decidable

/-! ## Conditions on single rows -/

section SingleRows

variable {E : Engine} {db : Database} {table c : String} {r : Tuple}

theorem columnName_plain (h : nameParts c = [c]) : columnName c = c := by
  rw [columnName, h]
  rfl

/-- The value of a column in the only row at hand. -/
theorem lookup_row {name : String} (h : db.knows table name = true) :
    Env.lookup [[⟨nameParts table, (db (nameParts table)).columns, r⟩]] (nameParts name) =
      r (columnName name) := by
  have hvalue : Frame.value? ⟨nameParts table, (db (nameParts table)).columns, r⟩
      (nameParts name).dropLast (columnName name) = some (r (columnName name)) := by
    unfold Frame.value?
    exact if_pos h
  unfold columnName at hvalue ⊢
  simp only [Env.lookup, List.flatten_cons, List.flatten_nil, List.append_nil,
    List.findSome?_cons, hvalue, Option.getD_some]

theorem Table.HasColumn.knows (h : (db (nameParts table)).HasColumn c) :
    db.knows table c = true := by
  have hmem := h.mem
  simp [Database.knows, columnName, h.plain, hmem]

theorem truth_eq_isYes (v : Value) (env : Env) :
    ((Predicate.eq c v).truth E db env).isYes = E.picks (env.lookup (nameParts c)) v := by
  unfold Predicate.eq
  cases v with
  | null =>
    rw [Predicate.truth, Truth.isYes_ofBool]
    rfl
  | _ =>
    rw [Predicate.truth, Engine.compare_eq_isYes]
    · rfl
    all_goals simp

theorem truth_ne_isYes (v : Value) (env : Env) :
    ((Predicate.ne c v).truth E db env).isYes = E.spares (env.lookup (nameParts c)) v := by
  unfold Predicate.ne
  cases v with
  | null =>
    rw [Predicate.truth, Truth.isYes_ofBool]
    rfl
  | _ =>
    rw [Predicate.truth, Engine.compare_ne_isYes]
    · simp [Engine.spares, Value.isNull]
    all_goals simp

/-- A further condition is met as well. -/
theorem meets_conjoin (p : Option Predicate) (q : Predicate) :
    db.meets E table (some (Predicate.conjoin p q)) r =
      (db.meets E table p r && db.meets E table (some q) r) := by
  unfold Database.meets
  rw [conditionTruth, truth_conjoin, Truth.isYes_and, conditionTruth]

theorem meets_and (p q : Predicate) :
    db.meets E table (some (p.and q)) r =
      (db.meets E table (some p) r && db.meets E table (some q) r) :=
  meets_conjoin (some p) q

theorem meets_disj (ps : List Predicate) :
    db.meets E table (some (.disj ps)) r = ps.any fun p => db.meets E table (some p) r := by
  have hdisj : ∀ env, (disjTruth E db ps env).isYes = ps.any fun p => (p.truth E db env).isYes := by
    intro env
    induction ps with
    | nil => rw [disjTruth]; rfl
    | cons p ps ih => rw [disjTruth, Truth.isYes_or, ih, List.any_cons]
  rw [Database.meets, conditionTruth, Predicate.truth, hdisj]
  rfl

theorem meets_conj (ps : List Predicate) :
    db.meets E table (some (.conj ps)) r = ps.all fun p => db.meets E table (some p) r := by
  have hconj : ∀ env, (conjTruth E db ps env).isYes = ps.all fun p => (p.truth E db env).isYes := by
    intro env
    induction ps with
    | nil => rw [conjTruth]; rfl
    | cons p ps ih => rw [conjTruth, Truth.isYes_and, ih, List.all_cons]
  rw [Database.meets, conditionTruth, Predicate.truth, hconj]
  rfl

/-- A comparison with a value that is there. -/
theorem meets_compare {name : String} {op : Comparison} {v : Value}
    (h : db.knows table name = true) (hv : v.isNull = false) :
    db.meets E table (some (.compare name op v)) r =
      (E.compare op (r (columnName name)) v).isYes := by
  have hpresent : v ≠ .null := by
    rintro rfl
    cases hv
  rw [Database.meets, conditionTruth, Predicate.truth, lookup_row h]
  all_goals
    rintro - rfl
    exact hpresent rfl

theorem meets_eq {name : String} (h : db.knows table name = true) (v : Value) :
    db.meets E table (some (.eq name v)) r = E.picks (r (columnName name)) v := by
  rw [Database.meets, conditionTruth, truth_eq_isYes, lookup_row h]

theorem meets_ne {name : String} (h : db.knows table name = true) (v : Value) :
    db.meets E table (some (.ne name v)) r = E.spares (r (columnName name)) v := by
  rw [Database.meets, conditionTruth, truth_ne_isYes, lookup_row h]

theorem meets_isNull {name : String} (h : db.knows table name = true) :
    db.meets E table (some (.isNull name)) r = (r (columnName name)).isNull := by
  rw [Database.meets, conditionTruth, Predicate.truth, Truth.isYes_ofBool, lookup_row h]

end SingleRows

/-! ## Selections from one table -/

section OneTable

variable {E : Engine} {db : Database}

/-- Without an order the rows stay as they come. -/
theorem mergeSort_unordered {outer : Env} (levels : List Level) :
    levels.mergeSort (inOrder E outer []) = levels := by
  apply List.mergeSort_of_pairwise
  exact List.pairwise_of_forall fun _ _ => by rw [inOrder]

/-- What a selection from one table selects, where it only has columns and a condition. -/
theorem outRows_table (name : String) (columns : List String) (p : Option Predicate) :
    Selector.outRows E db ⟨columns, .table name none, [], p, [], none, none, false, false⟩ [] =
      ((db (nameParts name)).rows.filter (db.meets E name p)).map fun r =>
        (Selector.columnNames columns).flatMap
          (projected [] [⟨nameParts name, (db (nameParts name)).columns, r⟩]) := by
  rw [Selector.outRows]
  simp only [joinsLevels, TableRef.frames, Table.frames, Shape.result, Selector.shape,
    Selector.projection, Shape.window, List.map_map, List.filter_map, List.map_nil,
    mergeSort_unordered,
    Option.or_none, Option.map_none, Option.getD_none, List.drop_zero]
  rfl

/-- Whether a selection from one table has a row. -/
theorem isEmpty_outRows_table (name : String) (columns : List String) (p : Option Predicate) :
    (Selector.outRows E db ⟨columns, .table name none, [], p, [], none, none, false, false⟩
      []).isEmpty = !(db (nameParts name)).rows.any (db.meets E name p) := by
  rw [outRows_table, List.isEmpty_map, Bool.eq_iff_iff]
  simp [List.isEmpty_iff, List.filter_eq_nil_iff]

/-- Whether some row of a table meets a condition. -/
theorem isEmpty_outRows_filter (name : String) (p : Predicate) :
    (((Selector.ofTable name).filter p).outRows E db []).isEmpty =
      !(db (nameParts name)).rows.any (db.meets E name (some p)) :=
  isEmpty_outRows_table name [] (some p)

/-- The question whether some row of a table meets a condition is answered by the rows. -/
theorem returns_anyRow_filter {name : String} {p : Predicate} {rows : Rows} :
    (Command.anyRow ((Selector.ofTable name).filter p)).Returns E db rows ↔
      rows.firstValue?.bind Value.asBool? =
        some ((db (nameParts name)).rows.any (db.meets E name (some p))) := by
  unfold Command.Returns
  dsimp only
  rw [isEmpty_outRows_filter, Bool.not_not]

end OneTable

end EntityGraph
