import EntityGraph.Proofs.Graph.CreationRuns
import EntityGraph.Proofs.Relational.References

/-!
# Nodes that are inserted together

The own rows of the nodes of a batch go into one INSERT, which has the columns of all of them: a row
has no value in a column that its node does not set. `AddsOwnRows` says what the table has
afterwards. The IDs that are found for the nodes are those of their rows, in the same order: they
were supplied, or returned, or they are counted from the one that the reply tells.
-/

set_option autoImplicit false

namespace EntityGraph

open Program

variable {E : Engine} {S : Schema} {s s' : Session} {conn : Connection}

theorem Insert.foldl_addRow (rows : List (List Value)) (i : Insert) :
    rows.foldl addRow i = { i with rows := i.rows ++ rows } := by
  induction rows generalizing i with
  | nil => simp
  | cons row rows ih =>
    rw [List.foldl_cons, ih]
    simp [addRow]

/-- What is related to the members of a list, place by place, is related. -/
theorem forall₂_of_common {α β γ : Type} {P : α → β → Prop} {Q : α → γ → Prop} {R : β → γ → Prop}
    {l : List α} {l₁ : List β} {l₂ : List γ} (h₁ : List.Forall₂ P l l₁) (h₂ : List.Forall₂ Q l l₂)
    (h : ∀ a b c, P a b → Q a c → R b c) : List.Forall₂ R l₁ l₂ := by
  induction h₁ generalizing l₂ with
  | nil =>
    cases h₂
    exact .nil
  | cons hab _ ih =>
    cases h₂ with
    | cons hac hrest => exact .cons (h _ _ _ hab hac) (ih hrest)

namespace BatchCreation

/-! ## Values of the rows -/

section Values

variable {names : List String} {row : List (String × Value)} {c name : String}

theorem lookup_filter_ne (h : c ≠ name) :
    (row.filter fun p => p.1 != name).lookup c = row.lookup c := by
  induction row with
  | nil => rfl
  | cons p row ih =>
    obtain ⟨n, v⟩ := p
    by_cases hn : n = name
    · subst hn
      rw [List.filter_cons_of_neg (by simp), ih, List.lookup_cons, beq_false_of_ne h]
    · rw [List.filter_cons_of_pos (by simpa using hn), List.lookup_cons, List.lookup_cons, ih]

/-- Each name stands with what the row has for it. -/
theorem mem_zip_valuesOf (h : c ∈ names) :
    (c, (row.lookup c).getD .null) ∈ names.zip (OwnRow.valuesOf names row) := by
  induction names generalizing row with
  | nil => cases h
  | cons name names ih =>
    rw [OwnRow.valuesOf, OwnRow.take, List.zip_cons_cons]
    by_cases hc : c = name
    · subst hc
      exact List.mem_cons_self
    · have hrest : (c, ((row.filter fun p => p.1 != name).lookup c).getD .null) ∈
          names.zip (OwnRow.valuesOf names (row.filter fun p => p.1 != name)) :=
        ih ((List.mem_cons.mp h).resolve_left hc)
      rw [lookup_filter_ne hc] at hrest
      exact List.mem_cons_of_mem _ hrest

end Values

namespace OwnRow

variable {r : OwnRow} {idColumn c : String}

/-- What the row of a node has in a column. -/
def valueIn (idColumn : String) (r : OwnRow) (c : String) : Value :=
  ((r.withId idColumn).lookup c).getD .null

theorem valueIn_id {id : Value} (h : r.id = some id) : r.valueIn idColumn idColumn = id := by
  simp [valueIn, withId, h]

theorem valueIn_of_ne (h : c ≠ idColumn) :
    r.valueIn idColumn c = (r.columns.lookup c).getD .null := by
  unfold valueIn withId
  cases r.id with
  | none => rfl
  | some id =>
    dsimp only
    rw [List.lookup_cons, beq_false_of_ne h, lookup_filter_ne h]

/-- What a row has in a column is what its node sets there, or nothing. -/
theorem valueIn_cases (h : c ≠ idColumn) :
    (c, r.valueIn idColumn c) ∈ r.columns ∨ r.valueIn idColumn c = .null := by
  rw [valueIn_of_ne h]
  cases hfound : r.columns.lookup c with
  | none => exact .inr rfl
  | some v =>
    left
    obtain ⟨before, after, hsplit, -⟩ := List.lookup_eq_some_iff.mp hfound
    rw [hsplit]
    simp

end OwnRow

section Columns

variable {rows : List OwnRow} {idColumn c : String}

theorem mem_columnsOf {supplied : List Value} : c ∈ columnsOf idColumn supplied rows ↔
    (supplied ≠ [] ∧ c = idColumn) ∨ ∃ r ∈ rows, ∃ v, (c, v) ∈ r.columns := by
  unfold columnsOf
  rw [List.mem_append, mem_sortedNames, List.mem_flatMap]
  refine or_congr ?_ ?_
  · cases supplied <;> simp
  · simp

/-- A row has no value in a column that the INSERT does not write. -/
theorem valueIn_of_not_mem {r : OwnRow} (hr : r ∈ rows)
    (h : c ∉ columnsOf idColumn (rows.filterMap OwnRow.id) rows) : r.valueIn idColumn c = .null := by
  rw [mem_columnsOf, not_or] at h
  obtain ⟨hid, hcolumn⟩ := h
  have hnone : r.columns.lookup c = none := by
    rw [List.lookup_eq_none_iff]
    intro p hp
    rw [bne_iff_ne]
    rintro rfl
    exact hcolumn ⟨r, hr, p.2, hp⟩
  by_cases hc : c = idColumn
  · subst hc
    cases hsupplied : r.id with
    | none => simp [OwnRow.valueIn, OwnRow.withId, hsupplied, hnone]
    | some id => exact absurd ⟨List.ne_nil_of_mem (List.mem_filterMap.mpr ⟨r, hr, hsupplied⟩), rfl⟩ hid
  · rw [OwnRow.valueIn_of_ne hc, hnone]
    rfl

/-- If as many IDs are supplied as there are rows, each row has one. -/
theorem supplied_all (h : (rows.filterMap OwnRow.id).length = rows.length) :
    List.Forall₂ (fun r id => OwnRow.id r = some id) rows (rows.filterMap OwnRow.id) := by
  induction rows with
  | nil => exact .nil
  | cons r rows ih =>
    have hle := List.length_filterMap_le OwnRow.id rows
    cases hid : r.id with
    | none =>
      rw [List.filterMap_cons_none hid, List.length_cons] at h
      omega
    | some id =>
      rw [List.filterMap_cons_some hid] at h ⊢
      exact .cons hid (ih (by simpa using h))

end Columns

/-! ## The rows of the table -/

/-- A table has one row more for each of some own rows. -/
structure AddsOwnRows (S : Schema) (table idColumn : String) (rows : List OwnRow)
    (db db' : Database) (added : List Tuple) : Prop where
  others : ∀ name, name ≠ nameParts table → db' name = db name
  sameColumns : (db' (nameParts table)).columns = (db (nameParts table)).columns
  perm : (db' (nameParts table)).rows.Perm (added ++ (db (nameParts table)).rows)
  known : ∀ c ∈ columnsOf idColumn (rows.filterMap OwnRow.id) rows,
    (db (nameParts table)).HasColumn c
  values : List.Forall₂ (fun r x => ∀ c,
    c ∈ columnsOf idColumn (rows.filterMap OwnRow.id) rows ∨ S.identity table ≠ some c →
      x c = OwnRow.valueIn idColumn r c) rows added

/-- The INSERT of the own rows of some nodes. -/
def insertOf (table idColumn : String) (rows : List OwnRow) (returning : List String) : Insert :=
  { Insert.into table with
    columns := columnsOf idColumn (rows.filterMap OwnRow.id) rows
    rows := rows.map fun r =>
      OwnRow.valuesOf (columnsOf idColumn (rows.filterMap OwnRow.id) rows) (r.withId idColumn)
    returning }

variable {table idColumn : String} {rows : List OwnRow}

theorem foldl_addRow_eq (table idColumn : String) (rows : List OwnRow) :
    (rows.map fun r => OwnRow.valuesOf (columnsOf idColumn (rows.filterMap OwnRow.id) rows)
      (r.withId idColumn)).foldl Insert.addRow ((Insert.into table).withColumns
        (columnsOf idColumn (rows.filterMap OwnRow.id) rows)) = insertOf table idColumn rows [] := by
  rw [Insert.foldl_addRow]
  rfl

/-- Such an INSERT adds the rows, and reports them. -/
theorem addsOwnRows_of_inserts (returning : List String) {d : Dialect}
    {statement : InsertStatement} {db db' : Database} {reported : List Tuple}
    (hne : columnsOf idColumn (rows.filterMap OwnRow.id) rows ≠ [])
    (hcompile : (insertOf table idColumn rows returning).compile d = .ok statement)
    (hcarried : (Command.insert statement).Carried E db db')
    (hinserts : statement.Inserts E S db db' reported) :
    AddsOwnRows S table idColumn rows db db' reported := by
  obtain ⟨-, conflict, hclause, rfl⟩ := Sql.compile_eq_ok.mp hcompile
  obtain rfl : none = conflict := Except.ok.inj hclause
  obtain ⟨hrows, hproposes⟩ := hinserts.stored.added rfl
  have hproposals : (Sql.compiledAs d (insertOf table idColumn rows returning) none).proposals =
      rows.map fun r => OwnRow.valuesOf (columnsOf idColumn (rows.filterMap OwnRow.id) rows)
        (r.withId idColumn) := by
    unfold InsertStatement.proposals
    exact if_neg (by simpa [Sql.compiledAs, insertOf] using hne)
  rw [hproposals, List.forall₂_map_left_iff] at hproposes
  refine ⟨hcarried, hinserts.sameColumns, hrows, hinserts.columns, ?_⟩
  have hmem : ∀ r ∈ rows, r ∈ rows := fun r hr => hr
  refine List.forall₂_iff_zip.mpr ⟨hproposes.length_eq, fun {r x} hpair c hc => ?_⟩
  have hr := (List.of_mem_zip hpair).1
  obtain ⟨before, hproposed⟩ := (List.forall₂_iff_zip.mp hproposes).2 hpair
  by_cases hwritten : c ∈ columnsOf idColumn (rows.filterMap OwnRow.id) rows
  · exact hproposed.written _ (mem_zip_valuesOf hwritten)
  · rw [hproposed.unwritten c hwritten (hc.resolve_left hwritten), valueIn_of_not_mem hr hwritten]

/-! ## The IDs of the rows -/

/-- IDs are found for rows in the same order: a row has its ID, or the ID has been read from it. -/
def IdsOf (node : Node) (added : List Tuple) (ids : List Value) : Prop :=
  List.Forall₂ (fun x id =>
    x node.id.column = id ∨ node.readId (x node.id.column) = .ok id) added ids

theorem idsOf_returned {node : Node} {noIds ids : List Value} {added : List Tuple}
    (hlength : noIds.length = added.length)
    (h : BoundRows.returnedIds node noIds (added.map fun x => [x node.id.column]) = .ok ids) :
    IdsOf node added ids := by
  induction added generalizing noIds ids with
  | nil =>
    obtain rfl := List.length_eq_zero_iff.mp hlength
    obtain rfl := Except.ok.inj h
    exact .nil
  | cons x added ih =>
    obtain ⟨none, noIds, rfl⟩ := List.exists_cons_of_length_eq_add_one hlength
    obtain ⟨id, hid, hrest⟩ := bind_eq_ok.mp h
    obtain ⟨others, hothers, hdone⟩ := bind_eq_ok.mp hrest
    obtain rfl := Except.ok.inj hdone
    exact .cons (.inr hid) (ih (by simpa using hlength) hothers)

theorem idsOf_consecutive {node : Node} {noIds ids : List Value} {added : List Tuple} {next : Int64}
    (hlength : noIds.length = added.length)
    (hnumbered : InsertStatement.Numbered node.id.column next added)
    (h : BoundRows.consecutiveIds node added.length next noIds = .ok ids) :
    IdsOf node added ids := by
  induction added generalizing noIds ids next with
  | nil =>
    obtain rfl := List.length_eq_zero_iff.mp hlength
    obtain rfl := Except.ok.inj h
    exact .nil
  | cons x added ih =>
    obtain ⟨none, noIds, rfl⟩ := List.exists_cons_of_length_eq_add_one hlength
    obtain ⟨hx, hnumbered⟩ := hnumbered
    obtain ⟨id, hid, hrest⟩ := bind_eq_ok.mp h
    obtain ⟨others, hothers, hdone⟩ := bind_eq_ok.mp hrest
    obtain rfl := Except.ok.inj hdone
    exact .cons (.inr (hx ▸ hid)) (ih (by simpa using hlength) hnumbered hothers)

/-- The INSERT of the own rows of some nodes has added them, and their IDs have been found. -/
theorem reaches_insertRows {node : Node} {ids : List Value}
    (hne : columnsOf node.id.column (rows.filterMap OwnRow.id) rows ≠ [])
    (hall : rows.filterMap OwnRow.id ≠ [] → (rows.filterMap OwnRow.id).length = rows.length)
    (hid : (s.current (nameParts node.table)).HasColumn node.id.column)
    (htells : rows.filterMap OwnRow.id = [] → conn.dialect.supportsReturning = false →
      S.reportsIds = true ∧ S.identity node.table = some node.id.column ∧
        node.id.column ∉ columnsOf node.id.column (rows.filterMap OwnRow.id) rows)
    (h : (insertRows conn node none (rows.filterMap OwnRow.id)
      { columns := columnsOf node.id.column (rows.filterMap OwnRow.id) rows
        rows := rows.map fun r => OwnRow.valuesOf
          (columnsOf node.id.column (rows.filterMap OwnRow.id) rows) (r.withId node.id.column)
        generated := (rows.filterMap OwnRow.id).isEmpty }).Reaches (Call.Enters E S) s ids s') :
    s'.current.Obeys E S.keys ∧ ∃ added,
      AddsOwnRows S node.table node.id.column rows s.current s'.current added ∧
        IdsOf node added ids := by
  unfold insertRows at h
  dsimp only at h
  rw [foldl_addRow_eq] at h
  split at h
  case isTrue hnone =>
    rw [List.isEmpty_iff] at hnone
    have hlength : ∀ added : List Tuple, AddsOwnRows S node.table node.id.column rows s.current
        s'.current added → (BoundRows.noIds
          ⟨columnsOf node.id.column (rows.filterMap OwnRow.id) rows, rows.map fun r =>
            OwnRow.valuesOf (columnsOf node.id.column (rows.filterMap OwnRow.id) rows)
              (r.withId node.id.column), (rows.filterMap OwnRow.id).isEmpty⟩).length =
            added.length := by
      intro added hadds
      simpa [BoundRows.noIds] using hadds.values.length_eq
    unfold BoundRows.insertedIds at h
    split at h
    case isTrue hreturning =>
      obtain ⟨found, mid, hquery, hread⟩ := reaches_bind.mp h
      obtain ⟨statement, hcompile, ⟨⟨hcarried, -, hobeys, -⟩, reported, hinserts, hrows⟩, -⟩ :=
        reaches_queryInsert.mp hquery
      obtain ⟨hok, rfl⟩ := reaches_ofExcept.mp hread
      have hadds := addsOwnRows_of_inserts [node.id.column] hne hcompile hcarried
        hinserts
      refine ⟨hobeys, reported, hadds, idsOf_returned (hlength _ hadds) ?_⟩
      have hstatement : statement.returning = [node.id.column] := by
        obtain ⟨-, _, -, rfl⟩ := Sql.compile_eq_ok.mp hcompile
        exact if_pos hreturning
      rw [hrows, hstatement] at hok
      simp only [List.map_cons, List.map_nil, columnName_plain hid.plain] at hok
      exact hok
    case isFalse hreturning =>
      obtain ⟨hreports, hidentity, hunwritten⟩ :=
        htells hnone (Bool.eq_false_iff.mpr hreturning)
      obtain ⟨_, start, hlift, hrest⟩ := reaches_bind.mp h
      obtain ⟨-, rfl⟩ := reaches_ofExcept.mp hlift
      obtain ⟨result, mid, hexec, hread⟩ := reaches_bind.mp hrest
      obtain ⟨statement, hcompile, ⟨⟨hcarried, -, hobeys, -⟩, -⟩, reported, hinserts, hnumbers⟩ :=
        reaches_execInsert.mp hexec
      have hnumbers : result.rowsAffected = reported.length ∧ ∀ first,
          result.lastInsertId = some first →
            InsertStatement.Numbered node.id.column first reported := by
        obtain ⟨-, conflict, hclause, rfl⟩ := Sql.compile_eq_ok.mp hcompile
        obtain rfl : none = conflict := Except.ok.inj hclause
        exact hnumbers hreports rfl _ hidentity hunwritten
      have hadds := addsOwnRows_of_inserts [] hne hcompile hcarried hinserts
      split at hread
      case h_1 => exact absurd hread reaches_fail
      case h_2 first hfirst =>
        obtain ⟨hok, rfl⟩ := reaches_ofExcept.mp hread
        rw [hnumbers.1] at hok
        exact ⟨hobeys, reported, hadds,
          idsOf_consecutive (hlength _ hadds) (hnumbers.2 first hfirst) hok⟩
  case isFalse hsome =>
    obtain ⟨_, mid, hdiscard, hdone⟩ := reaches_bind.mp h
    obtain ⟨rfl, rfl⟩ := reaches_done.mp hdone
    obtain ⟨result, hexec⟩ := reaches_discard.mp hdiscard
    obtain ⟨statement, hcompile, ⟨⟨hcarried, -, hobeys, -⟩, reported, hinserts, -⟩, -⟩ :=
      reaches_execInsert.mp hexec
    have hadds := addsOwnRows_of_inserts [] hne hcompile hcarried hinserts
    have hsome : rows.filterMap OwnRow.id ≠ [] := by simpa using hsome
    have hsupplied := supplied_all (hall hsome)
    have hmem : node.id.column ∈ columnsOf node.id.column (rows.filterMap OwnRow.id) rows :=
      mem_columnsOf.mpr (.inl ⟨hsome, rfl⟩)
    refine ⟨hobeys, reported, hadds, ?_⟩
    refine forall₂_of_common hadds.values hsupplied fun r x id hvalues hid => ?_
    left
    rw [hvalues _ (.inl hmem), OwnRow.valueIn_id hid]

end BatchCreation

end EntityGraph
