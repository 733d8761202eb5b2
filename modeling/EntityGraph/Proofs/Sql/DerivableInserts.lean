import EntityGraph.Proofs.Sql.InsertReading

/-!
# Which calls build an INSERT

An INSERT is built by calls in any order: values and columns, rows, columns to report and conflict
policies. `derivable_iff` says of every sequence of calls whose statement is compiled when this
statement is one of the dialect: if a column is named a row must be given, and on SQLite a policy
needs a column. Then it says what was asked for. In all other cases the text is malformed, since the
list of rows is empty, or since SQLite has no conflict clause after DEFAULT VALUES.
-/

set_option autoImplicit false

namespace EntityGraph

/-- A call that describes an INSERT. -/
inductive InsertCall where
  | set (column : String) (value : Value)
  | columns (names : List String)
  | values (row : List Value)
  | returning (column : String)
  | onConflict (policy : ConflictPolicy)
  | reportConflictId (column : String)

namespace InsertCall

/-- What a call adds. -/
def apply (i : Insert) : InsertCall → Insert
  | set column value => i.set column value
  | columns names => i.withColumns names
  | values row => i.addRow row
  | returning column => i.withReturning column
  | onConflict policy => i.onConflict policy
  | reportConflictId column => i.reportConflictId column

/-- The call names a column that is written. -/
def NamesColumn : InsertCall → Prop
  | set _ _ => True
  | columns names => names ≠ []
  | _ => False

/-- The call begins or adds a row. -/
def GivesRow : InsertCall → Prop
  | set _ _ | values _ => True
  | _ => False

/-- The call sets a conflict policy. -/
def SetsPolicy : InsertCall → Prop
  | onConflict _ => True
  | _ => False

theorem columns_apply (i : Insert) (call : InsertCall) :
    (call.apply i).columns ≠ [] ↔ i.columns ≠ [] ∨ call.NamesColumn := by
  cases call with
  | set column value => simp [apply, Insert.set, NamesColumn]
  | columns names =>
    simp only [apply, Insert.withColumns, NamesColumn, ne_eq, List.append_eq_nil_iff]
    tauto
  | values | returning | onConflict | reportConflictId =>
    simp [apply, Insert.addRow, Insert.withReturning, Insert.onConflict, Insert.reportConflictId,
      NamesColumn]

theorem rows_apply (i : Insert) (call : InsertCall) :
    (call.apply i).rows ≠ [] ↔ i.rows ≠ [] ∨ call.GivesRow := by
  cases call with
  | set column value =>
    simp only [apply, Insert.set, GivesRow, or_true, iff_true]
    cases i.rows <;> simp
  | values row => simp [apply, Insert.addRow, GivesRow]
  | columns | returning | onConflict | reportConflictId =>
    simp [apply, Insert.withColumns, Insert.withReturning, Insert.onConflict,
      Insert.reportConflictId, GivesRow]

theorem policy_apply (i : Insert) (call : InsertCall) :
    (call.apply i).policy ≠ none ↔ i.policy ≠ none ∨ call.SetsPolicy := by
  cases call <;> simp [apply, Insert.set, Insert.withColumns, Insert.addRow,
    Insert.withReturning, Insert.onConflict, Insert.reportConflictId, SetsPolicy]

/-- A property that holds after a call if it held before or the call brings it about holds in the
end if it held at first or some call brings it about. -/
theorem foldl_apply_iff (P : Insert → Prop) {Q : InsertCall → Prop}
    (hstep : ∀ i call, P (apply i call) ↔ P i ∨ Q call) (calls : List InsertCall) (i : Insert) :
    P (calls.foldl apply i) ↔ P i ∨ ∃ call ∈ calls, Q call := by
  induction calls generalizing i with
  | nil => simp
  | cons call calls ih =>
    rw [List.foldl_cons, ih, hstep]
    simp [or_assoc]

end InsertCall

namespace Insert

/-- What calls make of an INSERT into a table. -/
def after (table : String) (calls : List InsertCall) : Insert :=
  calls.foldl InsertCall.apply (into table)

variable (table : String) (calls : List InsertCall)

theorem after_columns : (after table calls).columns ≠ [] ↔ ∃ call ∈ calls, call.NamesColumn := by
  rw [after, InsertCall.foldl_apply_iff (fun i => i.columns ≠ []) InsertCall.columns_apply]
  simp [into]

theorem after_rows : (after table calls).rows ≠ [] ↔ ∃ call ∈ calls, call.GivesRow := by
  rw [after, InsertCall.foldl_apply_iff (fun i => i.rows ≠ []) InsertCall.rows_apply]
  simp [into]

theorem after_policy : (after table calls).policy ≠ none ↔ ∃ call ∈ calls, call.SetsPolicy := by
  rw [after, InsertCall.foldl_apply_iff (fun i => i.policy ≠ none) InsertCall.policy_apply]
  simp [into]

end Insert

namespace Sql.Grammar

variable {d : Dialect}

/-! ## The parts of a compiled INSERT -/

/-- What an INSERT says. -/
def insertReading (i : InsertStatement) : InsertReading :=
  { table := nameParts i.table
    body := if i.columns = [] then .emptyRow else .rows (i.columns.map nameParts) i.rows
    conflict := i.conflict.map (clauseReading i.table)
    returning := i.returning.map nameParts }

/-- The pieces of the conflict clause, if there is one. -/
def conflictPieces (d : Dialect) (i : InsertStatement) : List Piece :=
  match i.conflict with
  | some clause => clause.pieces d i.table
  | none => []

/-- The pieces of the columns to report. -/
def returningPieces (i : InsertStatement) : List Piece :=
  if i.returning.isEmpty then [] else .raw " RETURNING " :: Piece.ofNames i.returning

/-- The tokens after the rows. -/
def closing (d : Dialect) (i : InsertStatement) : List Token :=
  tokensOf d (conflictPieces d i) ++ tokensOf d (returningPieces i)

theorem insert_tokens (i : InsertStatement) : tokensOf d (i.pieces d) =
    .word "INSERT" :: .word "INTO" ::
      (tokensOf d (Piece.ofName i.table) ++ (tokensOf d (i.bodyPieces d) ++ closing d i)) := by
  have hinto : pieceTokens d (.raw "INSERT INTO ") = [.word "INSERT", .word "INTO"] := by
    cases d <;> rfl
  have hpieces : i.pieces d = .raw "INSERT INTO " ::
      (Piece.ofName i.table ++ i.bodyPieces d ++ conflictPieces d i ++ returningPieces i) := rfl
  rw [hpieces, closing]
  simp only [tokensOf_cons, tokensOf_append, hinto, List.append_assoc, List.cons_append,
    List.nil_append]

section Compiled

variable {i : Insert} {statement : InsertStatement} (h : i.compile d = .ok statement)
include h

theorem closing_derived :
    OptionalConflict d (closing d statement) (insertReading statement).conflict
        (tokensOf d (returningPieces statement)) ∧
      Returning d (tokensOf d (returningPieces statement)) (insertReading statement).returning
        [] := by
  obtain ⟨-, conflict, hconflict, rfl⟩ := compile_eq_ok.mp h
  constructor
  · cases conflict with
    | none => exact .absent _
    | some clause =>
      exact .clause (conflict_derived i.table (compiledClause_clauseOf hconflict) _)
  · have hkeyword : pieceTokens d (.raw " RETURNING ") = [.word "RETURNING"] := by
      cases d <;> rfl
    unfold returningPieces
    by_cases hnone : (compiledAs d i conflict).returning = []
    · simp only [insertReading, hnone, List.isEmpty_nil, if_true]
      exact .absent []
    · have hd : d.supportsReturning = true := by
        by_contra hd
        exact hnone (if_neg hd)
      have hnames := names_derived (d := d) hnone []
      rw [List.append_nil] at hnames
      simp only [List.isEmpty_iff, hnone, if_false, tokensOf_cons, hkeyword]
      exact .columns hd hnames

/-- Nothing goes on after the rows. -/
theorem closing_endsBefore (marks : List Char) : EndsBefore marks (closing d statement) := by
  obtain ⟨hconflict, hreturning⟩ := closing_derived h
  exact hconflict.endsBefore hreturning.endsInsert marks

theorem body_derived (hrows : statement.columns ≠ [] → statement.rows ≠ []) :
    Body d (tokensOf d (statement.bodyPieces d) ++ closing d statement)
      (insertReading statement).body (closing d statement) := by
  by_cases hcolumns : statement.columns = []
  · simp only [insertReading, InsertStatement.bodyPieces, hcolumns, List.isEmpty_nil, if_true]
    cases d with
    | mysql => exact .brackets rfl
    | postgres => exact .defaults (by decide)
    | sqlite => exact .defaults (by decide)
  · have hlength : ∀ row ∈ statement.rows, row.length = statement.columns.length := by
      obtain ⟨hcheck, conflict, -, rfl⟩ := compile_eq_ok.mp h
      exact checkRows_eq_ok.mp hcheck
    simp only [insertReading, InsertStatement.bodyPieces, hcolumns, List.isEmpty_iff, if_false,
      tokensOf_cons, tokensOf_append, tokens_openAfter, tokens_rowsAfter, tokensOf_separated,
      tokens_comma, List.map_map, List.append_assoc, List.cons_append, List.nil_append]
    refine .rows (.mk (names_derived hcolumns _)) ?_ fun vs hvs => ?_
    · refine listed_self (fun row hrow r => row_derived ?_ r) (hrows hcolumns)
      rintro rfl
      exact hcolumns (List.length_eq_zero_iff.mp (hlength [] hrow).symm)
    · rw [List.length_map]
      exact hlength vs hvs

/-- If a column is written and a row is given, or none of both, the parts are derivable. -/
theorem parts_derived (hrows : statement.columns ≠ [] → statement.rows ≠ []) :
    InsertParts d (tokensOf d (statement.pieces d)) (insertReading statement) := by
  obtain ⟨hconflict, hreturning⟩ := closing_derived h
  rw [insert_tokens]
  exact .mk (name_derived statement.table _) (body_derived h hrows) hconflict hreturning

/-- A list of rows is not derivable if no row is given. -/
theorem rows_of_parts {r : InsertReading}
    (hparts : InsertParts d (tokensOf d (statement.pieces d)) r)
    (hcolumns : statement.columns ≠ []) : statement.rows ≠ [] := by
  intro hrows
  have hbody : tokensOf d (statement.bodyPieces d) ++ closing d statement =
      .mark '(' :: (tokensOf d (Piece.ofNames statement.columns) ++
        .mark ')' :: .word "VALUES" :: closing d statement) := by
    simp [InsertStatement.bodyPieces, hcolumns, hrows, Piece.separated, List.intercalate]
  rw [insert_tokens, hbody] at hparts
  generalize hts : (Token.word "INSERT" :: .word "INTO" :: _ : List Token) = ts at hparts
  obtain ⟨table, body, -, -⟩ := hparts
  obtain rfl := (List.cons.inj (List.cons.inj hts).2).2
  obtain ⟨-, rfl⟩ := unique_name (name_derived statement.table _) table
    (endsBefore_mark (by decide) _) body.endsBefore
  -- after the columns stands what closes the statement, which is no row
  have hclosing : mark '(' (closing d statement) = none :=
    closing_endsBefore h ['('] '(' List.mem_cons_self
  generalize hmid : (Token.mark '(' :: _ : List Token) = us at body
  generalize r.body = reading at body
  cases body with
  | rows columns rows =>
    subst hmid
    obtain ⟨-, hsame⟩ := unique_bracketed_names (.mk (names_derived hcolumns _)) columns
      trivial trivial
    obtain rfl := (List.cons.inj hsame).2
    generalize closing d statement = ts at rows hclosing
    cases rows with
    | last head | more head =>
      cases head
      simp [mark] at hclosing
  | defaults | brackets => cases hmid

/-- When the tokens of a compiled INSERT are derivable. -/
theorem isInsert_iff :
    (∃ r, IsInsert d (tokensOf d (statement.pieces d)) r) ↔
      (statement.columns ≠ [] → statement.rows ≠ []) ∧
      (d = .sqlite → statement.conflict ≠ none → statement.columns ≠ []) := by
  constructor
  · rintro ⟨r, hparts, hguarded⟩
    have hrows := rows_of_parts h hparts
    obtain rfl := insertParts_unique hparts (parts_derived h hrows)
    refine ⟨hrows, fun hd hconflict hcolumns => hguarded hd ?_ (if_pos hcolumns)⟩
    rw [insertReading, Option.isSome_map]
    exact Option.isSome_iff_ne_none.mpr hconflict
  · rintro ⟨hrows, hguarded⟩
    refine ⟨insertReading statement, parts_derived h hrows, fun hd hconflict hbody => ?_⟩
    rw [insertReading, Option.isSome_map] at hconflict
    have hcolumns := hguarded hd (Option.isSome_iff_ne_none.mp hconflict)
    simp [insertReading, hcolumns] at hbody

end Compiled

theorem statement_tokens (statement : InsertStatement) :
    tokens d (statement.statement d) = some (tokensOf d (statement.pieces d)) :=
  tokens_ofPieces (insert_readable d statement)

theorem compiledClause_ne_none {i : Insert} {conflict : Option ConflictClause}
    (h : compiledClause d i = .ok conflict) : conflict ≠ none ↔ i.policy ≠ none := by
  unfold compiledClause at h
  split at h
  case h_1 hpolicy =>
    obtain rfl := Except.ok.inj h
    simp [hpolicy]
  all_goals
    rename_i hpolicy
    obtain ⟨clause, -, hsome⟩ := bind_eq_ok.mp h
    obtain rfl := Except.ok.inj hsome
    simp [hpolicy]

end Sql.Grammar

open Sql Sql.Grammar

/-! ## The theorem -/

/-- A compiled INSERT is derivable by the grammar of its dialect if and only if a row is given
where a column is named and, on SQLite, a column is named where a policy is set. It is read as the
table, columns, rows, conflict clause and columns to report that it was compiled from. -/
theorem Insert.derivable_iff (d : Dialect) (table : String) (calls : List InsertCall)
    (statement : InsertStatement) (h : (after table calls).compile d = .ok statement) :
    ∃ ts, tokens d (statement.statement d) = some ts ∧
      ((∃ r, IsInsert d ts r) ↔
        ((∃ call ∈ calls, call.NamesColumn) → ∃ call ∈ calls, call.GivesRow) ∧
        (d = .sqlite → (∃ call ∈ calls, call.SetsPolicy) → ∃ call ∈ calls, call.NamesColumn)) ∧
      ∀ r, IsInsert d ts r → r = insertReading statement := by
  refine ⟨_, statement_tokens statement, ?_, fun r hr => ?_⟩
  · obtain ⟨-, conflict, hconflict, rfl⟩ := compile_eq_ok.mp h
    rw [isInsert_iff h, ← after_columns table calls, ← after_rows table calls,
      ← after_policy table calls, ← compiledClause_ne_none hconflict]
    rfl
  · have hrows := rows_of_parts h hr.parts
    exact insertParts_unique hr.parts (parts_derived h hrows)

/-- An upsert of one user on SQLite, built by `set` and `onConflict`, is derivable. -/
theorem Insert.derivable_iff_user :
    (after "users" [.set "name" (.string "a8m"),
        .onConflict ⟨["name"], .updateNewValues⟩]).compile .sqlite =
      .ok ⟨"users", ["name"], [[.string "a8m"]],
        some (.doUpdate ["name"] [⟨"name", .proposed⟩]), []⟩ ∧
    ∃ ts r, tokens .sqlite (InsertStatement.statement .sqlite ⟨"users", ["name"],
        [[.string "a8m"]], some (.doUpdate ["name"] [⟨"name", .proposed⟩]), []⟩) = some ts ∧
      IsInsert .sqlite ts r := by
  obtain ⟨ts, hts, hderivable, -⟩ := Insert.derivable_iff .sqlite "users"
    [.set "name" (.string "a8m"), .onConflict ⟨["name"], .updateNewValues⟩] _ rfl
  obtain ⟨r, hr⟩ := hderivable.mpr
    ⟨fun _ => ⟨_, List.mem_cons_self, trivial⟩, fun _ _ => ⟨_, List.mem_cons_self, trivial⟩⟩
  exact ⟨rfl, ts, r, hts, hr⟩

/-- Two statements are compiled that are not derivable: one with a column and no row, and one on
SQLite with a policy for a row of defaults. -/
theorem Insert.malformed_statements :
    (∃ statement, (after "users" [.columns ["name"]]).compile .postgres = .ok statement ∧
      (statement.statement .postgres).sql = "INSERT INTO \"users\" (\"name\") VALUES " ∧
      ∀ ts, tokens .postgres (statement.statement .postgres) = some ts →
        ¬∃ r, IsInsert .postgres ts r) ∧
    ∃ statement, (after "users" [.onConflict ⟨[], .doNothing⟩]).compile .sqlite = .ok statement ∧
      (statement.statement .sqlite).sql =
        "INSERT INTO \"users\" DEFAULT VALUES ON CONFLICT DO NOTHING" ∧
      ∀ ts, tokens .sqlite (statement.statement .sqlite) = some ts →
        ¬∃ r, IsInsert .sqlite ts r := by
  constructor
  · have hcompiled : (after "users" [.columns ["name"]]).compile .postgres =
        .ok ⟨"users", ["name"], [], none, []⟩ := rfl
    refine ⟨_, hcompiled, rfl, fun ts hts hr => ?_⟩
    obtain rfl := Option.some.inj ((statement_tokens _).symm.trans hts)
    exact ((isInsert_iff hcompiled).mp hr).1 (List.cons_ne_nil _ _) rfl
  · have hcompiled : (after "users" [.onConflict ⟨[], .doNothing⟩]).compile .sqlite =
        .ok ⟨"users", [], [], some (.doNothing []), []⟩ := rfl
    refine ⟨_, hcompiled, rfl, fun ts hts hr => ?_⟩
    obtain rfl := Option.some.inj ((statement_tokens _).symm.trans hts)
    exact ((isInsert_iff hcompiled).mp hr).2 rfl (Option.some_ne_none _) rfl

end EntityGraph
