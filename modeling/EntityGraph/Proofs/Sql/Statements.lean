import EntityGraph.Proofs.Program.Checks
import EntityGraph.Proofs.Sql.Rendered
import EntityGraph.Sql.Insert
import EntityGraph.Sql.Update

/-!
# The pieces of statements do not run together

A `Draft` is what a caller builds: a condition, a selection, the question whether a selection has a
row, or a statement that writes. Only an INSERT can be refused when it is compiled.
`draft_readable` says of every draft that the pieces of its statement are read as they are meant.
-/

set_option autoImplicit false

namespace EntityGraph.Sql

variable {d : Dialect}

/-- What a caller builds, before it is compiled for a dialect. -/
inductive Draft where
  | condition (p : Predicate)
  | select (s : Selector)
  /-- The question whether a selection has a row. -/
  | anyRow (s : Selector)
  | insert (i : Insert)
  | update (u : Update)
  | delete (x : Delete)

namespace Draft

/-- The pieces of a draft, unless it is refused. -/
def pieces (d : Dialect) : Draft → Except Error (List Piece)
  | .condition p => .ok (p.pieces d)
  | .select s => .ok (s.pieces d)
  | .anyRow s => .ok (s.existsPieces d)
  | .insert i => do
    let statement ← i.compile d
    pure (statement.pieces d)
  | .update u => .ok (u.pieces d)
  | .delete x => .ok (x.pieces d)

/-- The text and the arguments of a draft, unless it is refused. -/
def statement (d : Dialect) (x : Draft) : Except Error Statement := do
  let ps ← x.pieces d
  pure (.ofPieces d ps)

theorem statement_eq_ok {x : Draft} {st : Statement} :
    x.statement d = .ok st ↔ ∃ ps, x.pieces d = .ok ps ∧ st = .ofPieces d ps := by
  unfold statement
  rw [bind_eq_ok]
  constructor
  · rintro ⟨ps, hps, hst⟩
    exact ⟨ps, hps, (Except.ok.inj hst).symm⟩
  · rintro ⟨ps, hps, rfl⟩
    exact ⟨ps, hps, rfl⟩

end Draft

/-! ## Statements that write -/

/-- The conflict clause of an INSERT in a dialect. -/
def compiledClause (d : Dialect) (i : Insert) : Except Error (Option ConflictClause) :=
  match i.policy, d with
  | none, _ => .ok none
  | some policy, .mysql => some <$> i.duplicateClause policy
  | some policy, .postgres | some policy, .sqlite => some <$> i.conflictClause policy

/-- The INSERT of a conflict clause in a dialect. -/
def compiledAs (d : Dialect) (i : Insert) (conflict : Option ConflictClause) : InsertStatement :=
  { table := i.table
    columns := i.columns
    rows := i.rows
    conflict
    returning := if d.supportsReturning then i.returning else [] }

theorem compile_eq (d : Dialect) (i : Insert) :
    i.compile d = i.checkRows >>= fun _ => compiledClause d i >>= fun conflict =>
      .ok (compiledAs d i conflict) := by
  unfold Insert.compile compiledClause
  cases i.checkRows with
  | error e => rfl
  | ok _ =>
    cases i.policy with
    | none => rfl
    | some policy =>
      dsimp only
      cases d with
      | mysql =>
        dsimp only
        cases i.duplicateClause policy <;> rfl
      | postgres | sqlite =>
        dsimp only
        cases i.conflictClause policy <;> rfl

/-- The rows of an INSERT pass if each has a value for each column. -/
theorem checkRows_eq_ok {i : Insert} :
    i.checkRows = .ok () ↔ ∀ row ∈ i.rows, row.length = i.columns.length := by
  have hbad : ∀ (rows : List (List Value)) (n width : Nat),
      Insert.badRow? width n rows = none ↔ ∀ row ∈ rows, row.length = width := by
    intro rows
    induction rows with
    | nil => simp [Insert.badRow?]
    | cons row rows ih =>
      intro n width
      unfold Insert.badRow?
      split
      case isTrue hlength => simp [ih, hlength]
      case isFalse hlength => simp [hlength]
  rw [← hbad i.rows 0]
  unfold Insert.checkRows
  split
  case h_1 hsome => simp [hsome]
  case h_2 hnone => simp [hnone]

/-- An INSERT is compiled if its rows fit and its conflict clause can be written. -/
theorem compile_eq_ok {i : Insert} {statement : InsertStatement} :
    i.compile d = .ok statement ↔ i.checkRows = .ok () ∧ ∃ conflict,
      compiledClause d i = .ok conflict ∧ statement = compiledAs d i conflict := by
  rw [compile_eq, bind_eq_ok]
  constructor
  · rintro ⟨_, hrows, h⟩
    obtain ⟨conflict, hconflict, h⟩ := bind_eq_ok.mp h
    exact ⟨hrows, conflict, hconflict, (Except.ok.inj h).symm⟩
  · rintro ⟨hrows, conflict, hconflict, rfl⟩
    exact ⟨(), hrows, bind_eq_ok.mpr ⟨conflict, hconflict, rfl⟩⟩

theorem readable_assignment (table : String) (a : ConflictAssignment) :
    Readable d (a.pieces d table) := by
  unfold ConflictAssignment.pieces
  refine (readable_name a.column).between (by cases d <;> rfl) ?_
  cases a.value with
  | itself => exact readable_name a.column
  | stored => exact readable_name (table ++ "." ++ a.column)
  | proposed =>
    dsimp only
    split
    case isTrue =>
      exact ((readable_name a.column).before (by cases d <;> rfl)).after (by cases d <;> rfl)
    case isFalse => exact (readable_name a.column).after (by cases d <;> rfl)
  | reported =>
    exact ((readable_name (table ++ "." ++ a.column)).before (by cases d <;> rfl)).after
      (by cases d <;> rfl)

theorem readable_assignments (table : String) (as : List ConflictAssignment) :
    Readable d (ConflictClause.assignmentPieces d table as) := by
  refine readable_separated (by cases d <;> rfl) fun g hg => ?_
  obtain ⟨a, -, rfl⟩ := List.mem_map.mp hg
  exact readable_assignment table a

/-- A fixed text by itself, which keeps apart from what stands before it. -/
theorem FreeStanding.fixed {s : String} (hplain : isPlain d s = true)
    (hstarts : startsFree s = true) : FreeStanding d [.raw s] := by
  refine ⟨Readable.single hplain, fun p hp => ⟨s, ?_, hstarts⟩⟩
  simpa using hp.symm

theorem freeStanding_target (target : List String) :
    FreeStanding d (ConflictClause.targetPieces target) := by
  have hfirst : FreeStanding d [.raw " ON CONFLICT"] :=
    FreeStanding.fixed (by cases d <;> rfl) rfl
  have htarget : FreeStanding d
      (if target.isEmpty then [] else .raw " (" :: (Piece.ofNames target ++ [.raw ")"])) := by
    split
    case isTrue => exact FreeStanding.nil
    case isFalse =>
      exact FreeStanding.cons (by cases d <;> rfl)
        ((readable_names target).before (by cases d <;> rfl))
  exact hfirst.append htarget

theorem freeStanding_clause (table : String) (clause : ConflictClause) :
    FreeStanding d (clause.pieces d table) := by
  cases clause with
  | doNothing target =>
    have hend : FreeStanding d [.raw " DO NOTHING"] :=
      FreeStanding.fixed (by cases d <;> rfl) rfl
    exact (freeStanding_target target).append hend
  | doUpdate target as =>
    exact (freeStanding_target target).append
      (FreeStanding.cons (by cases d <;> rfl) (readable_assignments table as))
  | onDuplicateKey as =>
    exact FreeStanding.cons (by cases d <;> rfl) (readable_assignments table as)

theorem freeStanding_body (i : InsertStatement) : FreeStanding d (i.bodyPieces d) := by
  unfold InsertStatement.bodyPieces
  split
  case isTrue =>
    cases d with
    | mysql => exact FreeStanding.fixed rfl rfl
    | postgres => exact FreeStanding.fixed rfl rfl
    | sqlite => exact FreeStanding.fixed rfl rfl
  case isFalse =>
    refine FreeStanding.cons (by cases d <;> rfl) ((readable_names i.columns).between
      (by cases d <;> rfl) (readable_separated (by cases d <;> rfl) fun g hg => ?_))
    obtain ⟨row, -, rfl⟩ := List.mem_map.mp hg
    exact readable_brackets (readable_values row)

theorem insert_readable (d : Dialect) (i : InsertStatement) : Readable d (i.pieces d) := by
  have hreturning : FreeStanding d
      (if i.returning.isEmpty then [] else .raw " RETURNING " :: Piece.ofNames i.returning) := by
    split
    case isTrue => exact FreeStanding.nil
    case isFalse => exact FreeStanding.cons (by cases d <;> rfl) (readable_names i.returning)
  unfold InsertStatement.pieces
  have hbody := (readable_name i.table).append_free (freeStanding_body (d := d) i)
  refine ((hbody.append_free ?_).append_free hreturning).after (by cases d <;> rfl)
  cases i.conflict with
  | none => exact FreeStanding.nil
  | some clause => exact freeStanding_clause i.table clause

theorem readable_setGroup {u : Update} {g : List Piece} (h : g ∈ u.setGroups) : Readable d g := by
  unfold Update.setGroups at h
  rcases List.mem_append.mp h with h | h
  · rcases List.mem_append.mp h with h | h
    · obtain ⟨column, -, rfl⟩ := List.mem_map.mp h
      exact (readable_name column).before (by cases d <;> rfl)
    · obtain ⟨⟨column, a⟩, -, hg⟩ := List.mem_filterMap.mp h
      cases a with
      | add v => cases hg
      | value v =>
        obtain rfl := Option.some.inj hg
        exact (readable_name column).between (by cases d <;> rfl) (readable_value v)
  · obtain ⟨⟨column, a⟩, -, hg⟩ := List.mem_filterMap.mp h
    cases a with
    | value v => cases hg
    | add v =>
      obtain rfl := Option.some.inj hg
      exact (readable_name column).between (by cases d <;> rfl)
        ((readable_name column).between (by cases d <;> rfl) (readable_value v))

theorem update_readable (d : Dialect) (u : Update) : Readable d (u.pieces d) := by
  have hsets : Readable d (Piece.separated ", " u.setGroups) :=
    readable_separated (by cases d <;> rfl) fun g hg => readable_setGroup hg
  exact ((readable_name u.table).between (by cases d <;> rfl)
    (hsets.append_free (condition_freeStanding d u.predicate))).after (by cases d <;> rfl)

theorem delete_readable (d : Dialect) (x : Delete) : Readable d (x.pieces d) :=
  ((readable_name x.table).append_free (condition_freeStanding d x.predicate)).after
    (by cases d <;> rfl)

/-- The pieces of a draft are read as they are meant. -/
theorem draft_readable {x : Draft} {ps : List Piece} (h : x.pieces d = .ok ps) :
    Readable d ps := by
  cases x with
  | condition p =>
    obtain rfl := Except.ok.inj h
    exact predicate_readable d p
  | select s =>
    obtain rfl := Except.ok.inj h
    exact selector_readable d s
  | anyRow s =>
    obtain rfl := Except.ok.inj h
    exact ((selector_readable d s).before (by cases d <;> rfl)).after (by cases d <;> rfl)
  | insert i =>
    obtain ⟨statement, -, hps⟩ := bind_eq_ok.mp h
    obtain rfl := Except.ok.inj hps
    exact insert_readable d statement
  | update u =>
    obtain rfl := Except.ok.inj h
    exact update_readable d u
  | delete x =>
    obtain rfl := Except.ok.inj h
    exact delete_readable d x

end EntityGraph.Sql
