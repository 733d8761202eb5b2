import EntityGraph.Proofs.Relational.History

/-!
# What an INSERT stores

The rows of an INSERT are stored one after the other. A row that agrees with a stored one in a
unique key is not added: without a conflict clause the INSERT is not carried out, with one the
clause says what becomes of the stored row. A column that is not written has no value, except for
the ID column that the database fills in. `Call.Records` is what a database that answers a call says
about it if it also keeps to this.
-/

set_option autoImplicit false

namespace EntityGraph

/-- What a database knows of its tables beside their columns and rows. -/
structure Schema where
  /-- The ID columns, each of a table: every row has a value there, and no two have the same. -/
  keys : List (String × String)
  /-- The unique keys of a table: no two rows agree in all columns of one of them. -/
  uniques : String → List (List String)
  /-- The ID column of a table that the database fills in where an INSERT does not write it. -/
  identity : String → Option String
  /-- The reply to an INSERT tells the ID that the database has given to the first row. -/
  reportsIds : Bool
  key_mem_uniques : ∀ k ∈ keys, [k.2] ∈ uniques k.1
  identity_mem_keys : ∀ table c, identity table = some c → (table, c) ∈ keys

/-- Two rows have the same values in all columns of a key. -/
def Agree (E : Engine) (key : List String) (r x : Tuple) : Prop :=
  ∀ c ∈ key, E.equal (r c) (x c) = true

/-- What is assigned to a column of the stored row, given its value and the proposed one. -/
def AssignedValue.result (stored proposed : Value) : AssignedValue → Value
  | .itself | .stored | .reported => stored
  | .proposed => proposed

namespace ConflictClause

/-- The clause is about conflicts on a unique key. -/
def IsAbout (key : List String) : ConflictClause → Prop
  | .doNothing target | .doUpdate target _ => target = [] ∨ ∀ c, c ∈ target ↔ c ∈ key
  | .onDuplicateKey _ => True

/-- What assignments make of the stored row. -/
def assigned (as : List ConflictAssignment) (stored proposed : Tuple) : Tuple :=
  as.foldl (fun new a => Function.update new (columnName a.column)
    (a.value.result (stored (columnName a.column)) (proposed (columnName a.column)))) stored

/-- What becomes of the stored row with which a proposed one conflicts: nothing if the proposed one
is skipped. -/
def resolve (stored proposed : Tuple) : ConflictClause → Option Tuple
  | .doNothing _ => none
  | .doUpdate _ as | .onDuplicateKey as => some (assigned as stored proposed)

/-- The clause leaves stored rows as they are. -/
def IsInert (clause : ConflictClause) : Prop :=
  ∀ stored proposed, clause.resolve stored proposed = none ∨
    clause.resolve stored proposed = some stored

end ConflictClause

namespace InsertStatement

variable (E : Engine) (S : Schema) (i : InsertStatement)

/-- The rows of values of an INSERT. If it names no columns it has one, without values. -/
def proposals : List (List Value) := if i.columns.isEmpty then [[]] else i.rows

/-- The row that a database with these rows makes of a row of values. -/
structure Proposes (rows : List Tuple) (values : List Value) (x : Tuple) : Prop where
  written : ∀ p ∈ i.columns.zip values, x p.1 = p.2
  unwritten : ∀ c, c ∉ i.columns → S.identity i.table ≠ some c → x c = .null
  fresh : ∀ c, c ∉ i.columns → S.identity i.table = some c →
    ∀ r ∈ rows, E.equal (r c) (x c) = false

/-- One row of an INSERT is stored: the rows of the table before and after, and the row that is
reported. -/
inductive StoresRow (x : Tuple) : List Tuple → List Tuple → Option Tuple → Prop
  | added {rows rows' : List Tuple}
      (free : ∀ key ∈ S.uniques i.table, ∀ r ∈ rows, ¬Agree E key r x)
      (perm : rows'.Perm (x :: rows)) : StoresRow x rows rows' (some x)
  | skipped {rows : List Tuple} {key : List String} {r : Tuple} {clause : ConflictClause}
      (key_mem : key ∈ S.uniques i.table) (mem : r ∈ rows) (agree : Agree E key r x)
      (conflict : i.conflict = some clause) (about : clause.IsAbout key)
      (resolve : clause.resolve r x = none) : StoresRow x rows rows none
  | changed {before after : List Tuple} {key : List String} {r r' : Tuple}
      {clause : ConflictClause} (key_mem : key ∈ S.uniques i.table) (agree : Agree E key r x)
      (conflict : i.conflict = some clause) (about : clause.IsAbout key)
      (resolve : clause.resolve r x = some r') :
      StoresRow x (before ++ r :: after) (before ++ r' :: after) (some r')

/-- Rows of an INSERT are stored in turn: the rows of the table before and after, and the rows that
are reported. -/
inductive StoresRows : List (List Value) → List Tuple → List Tuple → List Tuple → Prop
  | nil {rows : List Tuple} : StoresRows [] rows rows []
  | cons {values : List Value} {rest : List (List Value)} {rows mid rows' : List Tuple} {x : Tuple}
      {reported : Option Tuple} {others : List Tuple} (proposes : i.Proposes E S rows values x)
      (stores : i.StoresRow E S x rows mid reported) (rest_stored : StoresRows rest mid rows' others) :
      StoresRows (values :: rest) rows rows' (reported.toList ++ others)

/-- The databases before and after an INSERT that is carried out, and the rows that it reports. The
table must have the columns that are named. -/
structure Inserts (db db' : Database) (reported : List Tuple) : Prop where
  columns : ∀ c ∈ i.columns, (db (nameParts i.table)).HasColumn c
  sameColumns : (db' (nameParts i.table)).columns = (db (nameParts i.table)).columns
  stored : i.StoresRows E S i.proposals (db (nameParts i.table)).rows
    (db' (nameParts i.table)).rows reported

/-- The ID that a reply to an INSERT tells is the one that the first row was given. -/
def ReportsId (reported : List Tuple) (last : Option Int64) : Prop :=
  S.reportsIds = true → i.conflict = none → ∀ c, S.identity i.table = some c → c ∉ i.columns →
    ∀ n x, last = some n → n ≠ 0 → reported.head? = some x → x c = .int n

end InsertStatement

/-- A call that sends an INSERT is answered according to what the INSERT stores. -/
def Call.StoresRows (E : Engine) (S : Schema) : Answering Session
  | .exec _ (.insert i), (.done r : Outcome ExecResult), s, s' =>
    ∃ reported, i.Inserts E S s.current s'.current reported ∧
      i.ReportsId S reported r.lastInsertId
  | .query _ (.insert i), (.done rows : Outcome Rows), s, s' =>
    ∃ reported, i.Inserts E S s.current s'.current reported ∧
      rows.rows = reported.map fun x => i.returning.map fun c => x (columnName c)
  | _, _, _, _ => True

/-- A database with a schema answers a call. -/
def Call.Records (E : Engine) (S : Schema) : Answering Session := fun c r s s' =>
  c.Answers E S.keys r s s' ∧ c.StoresRows E S r s s'

variable {E : Engine} {S : Schema} {s s' : Session}

theorem Call.Records.answers {c : Call} {r : c.Reply} (h : c.Records E S r s s') :
    c.Answers E S.keys r s s' :=
  h.1

namespace InsertStatement

variable {i : InsertStatement} {x : Tuple} {rows rows' reported : List Tuple}
  {values : List (List Value)}

/-- An INSERT whose conflict clause leaves stored rows as they are keeps every row. -/
theorem StoresRow.subset {o : Option Tuple}
    (hinert : ∀ clause, i.conflict = some clause → clause.IsInert)
    (h : i.StoresRow E S x rows rows' o) : rows ⊆ rows' := by
  cases h with
  | added _ perm => exact fun r hr => perm.mem_iff.mpr (List.mem_cons_of_mem x hr)
  | skipped => exact List.Subset.refl rows
  | @changed before after _ r r' clause _ _ conflict _ resolve =>
    rcases hinert clause conflict r x with hnone | hsome
    · rw [hnone] at resolve
      cases resolve
    · obtain rfl : r = r' := Option.some.inj (hsome.symm.trans resolve)
      exact List.Subset.refl _

/-- Such an INSERT stores nothing but the proposed row. -/
theorem StoresRow.mem_or_eq {o : Option Tuple}
    (hinert : ∀ clause, i.conflict = some clause → clause.IsInert)
    (h : i.StoresRow E S x rows rows' o) {r : Tuple} (hr : r ∈ rows') : r ∈ rows ∨ r = x := by
  cases h with
  | added _ perm =>
    rcases List.mem_cons.mp (perm.mem_iff.mp hr) with rfl | hr
    · exact .inr rfl
    · exact .inl hr
  | skipped => exact .inl hr
  | @changed before after _ q q' clause _ _ conflict _ resolve =>
    rcases hinert clause conflict q x with hnone | hsome
    · rw [hnone] at resolve
      cases resolve
    · obtain rfl : q = q' := Option.some.inj (hsome.symm.trans resolve)
      exact .inl hr

/-- The proposed row is stored, or a stored row agrees with it in a unique key; there is a conflict
clause then. -/
theorem StoresRow.stored_or_agree {o : Option Tuple} (h : i.StoresRow E S x rows rows' o) :
    x ∈ rows' ∨ i.conflict.isSome = true ∧ ∃ key ∈ S.uniques i.table, ∃ r ∈ rows, Agree E key r x := by
  cases h with
  | added _ perm => exact .inl (perm.mem_iff.mpr List.mem_cons_self)
  | @skipped _ key r _ key_mem mem agree conflict =>
    exact .inr ⟨by rw [conflict]; rfl, key, key_mem, r, mem, agree⟩
  | @changed before after key r _ _ key_mem agree conflict =>
    exact .inr ⟨by rw [conflict]; rfl, key, key_mem, r,
      List.mem_append_right _ List.mem_cons_self, agree⟩

theorem StoresRows.subset (hinert : ∀ clause, i.conflict = some clause → clause.IsInert)
    (h : i.StoresRows E S values rows rows' reported) : rows ⊆ rows' := by
  induction h with
  | nil => exact List.Subset.refl _
  | cons _ stores _ ih => exact List.Subset.trans (stores.subset hinert) ih

/-- A row of the table after such an INSERT was there before, or it is proposed by it. -/
theorem StoresRows.mem_or_proposed
    (hinert : ∀ clause, i.conflict = some clause → clause.IsInert)
    (h : i.StoresRows E S values rows rows' reported) {r : Tuple} (hr : r ∈ rows') :
    r ∈ rows ∨ ∃ v ∈ values, ∃ before, i.Proposes E S before v r := by
  induction h with
  | nil => exact .inl hr
  | @cons v rest before mid after x _ _ proposes stores _ ih =>
    rcases ih hr with hmid | ⟨w, hw, hproposes⟩
    · rcases stores.mem_or_eq hinert hmid with hbefore | rfl
      · exact .inl hbefore
      · exact .inr ⟨v, List.mem_cons_self, before, proposes⟩
    · exact .inr ⟨w, List.mem_cons_of_mem v hw, hproposes⟩

/-- Of each row of values there is a row in the table afterwards, or one that agrees with it in a
unique key; there is a conflict clause then. -/
theorem StoresRows.stored_or_agree
    (hinert : ∀ clause, i.conflict = some clause → clause.IsInert)
    (h : i.StoresRows E S values rows rows' reported) {v : List Value} (hv : v ∈ values) :
    ∃ x before, before ⊆ rows' ∧ i.Proposes E S before v x ∧
      (x ∈ rows' ∨ i.conflict.isSome = true ∧
        ∃ key ∈ S.uniques i.table, ∃ r ∈ before, Agree E key r x) := by
  induction h with
  | nil => cases hv
  | @cons w rest before mid after x _ _ proposes stores rest_stored ih =>
    have hafter := rest_stored.subset hinert
    rcases List.mem_cons.mp hv with rfl | hv
    · refine ⟨x, before, List.Subset.trans (stores.subset hinert) hafter, proposes, ?_⟩
      exact stores.stored_or_agree.imp_left fun hx => hafter hx
    · exact ih hv

/-- An INSERT of one row of values stores what the database makes of them. -/
theorem Inserts.stores_one {db db' : Database} {row : List Value}
    (h : i.Inserts E S db db' reported) (hproposals : i.proposals = [row]) :
    ∃ x o, i.Proposes E S (db (nameParts i.table)).rows row x ∧ reported = o.toList ∧
      i.StoresRow E S x (db (nameParts i.table)).rows (db' (nameParts i.table)).rows o := by
  have hstored := h.stored
  rw [hproposals] at hstored
  generalize (db (nameParts i.table)).rows = rows at hstored ⊢
  generalize (db' (nameParts i.table)).rows = rows' at hstored ⊢
  cases hstored with
  | cons proposes stores rest_stored =>
    cases rest_stored
    exact ⟨_, _, proposes, List.append_nil _, stores⟩

/-- Without a conflict clause a row is added. -/
theorem StoresRow.free_of_no_conflict {o : Option Tuple} (hconflict : i.conflict = none)
    (h : i.StoresRow E S x rows rows' o) :
    o = some x ∧ rows'.Perm (x :: rows) ∧ ∀ key ∈ S.uniques i.table, ∀ r ∈ rows, ¬Agree E key r x := by
  cases h with
  | added free perm => exact ⟨rfl, perm, free⟩
  | skipped _ _ _ conflict | changed _ _ conflict =>
    rw [hconflict] at conflict
    cases conflict

/-- An INSERT of one row of values without a conflict clause adds a row that has these values, and
reports it. No stored row agrees with the new one in a unique key. -/
theorem Inserts.added {db db' : Database} {row : List Value}
    (h : i.Inserts E S db db' reported) (hconflict : i.conflict = none)
    (hproposals : i.proposals = [row]) :
    ∃ x, i.Proposes E S (db (nameParts i.table)).rows row x ∧ reported = [x] ∧
      (db' (nameParts i.table)).rows.Perm (x :: (db (nameParts i.table)).rows) ∧
      ∀ key ∈ S.uniques i.table, ∀ r ∈ (db (nameParts i.table)).rows, ¬Agree E key r x := by
  obtain ⟨x, o, hproposes, hreported, hstores⟩ := h.stores_one hproposals
  obtain ⟨rfl, hperm, hfree⟩ := hstores.free_of_no_conflict hconflict
  exact ⟨x, hproposes, hreported, hperm, hfree⟩

end InsertStatement

end EntityGraph
