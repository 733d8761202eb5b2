import EntityGraph.Proofs.Sql.Statements

/-!
# What a statement says besides its fixed text

The items of a draft are the parts of names, the values and the tests for absent values that it has,
in the order in which they are written. `readItems` finds items in the tokens of a statement, and
`draft_shows` says that it finds those of the draft. The bound values are the values among them that
are there.

A statement has one placeholder for each of its arguments, in their order, and no other token that
could stand for an argument: the arguments are the values of what was built that are there, and the
absent value is written out wherever it has a place.
-/

set_option autoImplicit false

namespace EntityGraph.Sql

variable {d : Dialect}

/-- What is put into a statement besides its fixed text. -/
inductive Item where
  /-- A part of a name, without its quotes. -/
  | ident (part : String)
  /-- A value in its place. -/
  | value (v : Value)
  /-- The test that a value is absent. -/
  | isNull
  /-- The test that a value is there. -/
  | isNotNull

namespace Item

/-- The value that has to be bound for an item. The absent value is written out. -/
def arg? : Item → Option Value
  | .value v => if v.isNull then none else some v
  | _ => none

/-- The part of a name that an item is. -/
def ident? : Item → Option String
  | .ident part => some part
  | _ => none

end Item

/-- The items in the tokens of a statement whose arguments are in their places. A `NULL` is the
absent value in the place of a value, unless it belongs to a test. -/
def readItems : List Token → List Item
  | .word "IS" :: .word "NULL" :: rest => .isNull :: readItems rest
  | .word "IS" :: .word "NOT" :: .word "NULL" :: rest => .isNotNull :: readItems rest
  | .word "NULL" :: rest => .value .null :: readItems rest
  | .ident name :: rest => .ident name :: readItems rest
  | .value v :: rest => .value v :: readItems rest
  | _ :: rest => readItems rest
  | [] => []

/-! ## Items of trees -/

/-- The items of a name: its parts, but for the stars. -/
def nameItems (name : String) : List Item :=
  (nameParts name).flatMap fun part => if part = "*" then [] else [.ident part]

/-- The items of several names. -/
def namesItems (names : List String) : List Item := names.flatMap nameItems

mutual

/-- The items of a condition. A comparison for equality with the absent value is a test for it. -/
def predicateItems : Predicate → List Item
  | .compare column .eq .null => nameItems column ++ [.isNull]
  | .compare column .ne .null => nameItems column ++ [.isNotNull]
  | .compare column _ v => nameItems column ++ [.value v]
  | .isIn _ [] | .notIn _ [] => []
  | .isIn column vs | .notIn column vs => nameItems column ++ vs.map .value
  | .isNull column => nameItems column ++ [.isNull]
  | .notNull column => nameItems column ++ [.isNotNull]
  | .like column pattern => nameItems column ++ [.value (.string pattern)]
  | .inSelect column s => nameItems column ++ selectorItems s
  | .anyRow s => selectorItems s
  | .conj ps | .disj ps => predicatesItems ps
  | .neg p => predicateItems p

/-- The items of the members of a junction. -/
def predicatesItems : List Predicate → List Item
  | [] => []
  | p :: rest => predicateItems p ++ predicatesItems rest

/-- The items of an optional condition. -/
def conditionItems : Option Predicate → List Item
  | some p => predicateItems p
  | none => []

/-- The items of what rows are taken from. -/
def sourceItems : TableRef → List Item
  | .table name none => nameItems name
  | .table name (some asName) => nameItems name ++ nameItems asName
  | .select s asName => selectorItems s ++ nameItems asName

/-- The items of the joined tables. -/
def joinsItems : List Join → List Item
  | [] => []
  | ⟨table, left, right⟩ :: rest =>
    sourceItems table ++ nameItems left ++ nameItems right ++ joinsItems rest

/-- The items of a selection. A count of all rows names no column. -/
def selectorItems : Selector → List Item
  | ⟨columns, source, joins, predicate, order, _, _, distinct, count⟩ =>
    (if count && !distinct then [] else namesItems columns) ++ sourceItems source ++
      joinsItems joins ++ conditionItems predicate ++ order.flatMap fun t => nameItems t.column

end

/-- The items of an assignment of a conflict clause. -/
def assignmentItems (table : String) (a : ConflictAssignment) : List Item :=
  nameItems a.column ++
    match a.value with
    | .itself | .proposed => nameItems a.column
    | .stored | .reported => nameItems (table ++ "." ++ a.column)

/-- The items of a conflict clause. -/
def clauseItems (table : String) : ConflictClause → List Item
  | .doNothing target => namesItems target
  | .doUpdate target as => namesItems target ++ as.flatMap (assignmentItems table)
  | .onDuplicateKey as => as.flatMap (assignmentItems table)

/-- The items of an INSERT: its rows are written one after another. -/
def insertItems (i : InsertStatement) : List Item :=
  nameItems i.table ++ namesItems i.columns ++ i.rows.flatten.map .value ++
    (match i.conflict with
      | some clause => clauseItems i.table clause
      | none => []) ++
    namesItems i.returning

/-- The items of an absolute value, none of an increment. -/
def valueItems? : String × Assignment → Option (List Item)
  | (column, .value v) => some (nameItems column ++ [.value v])
  | (_, .add _) => none

/-- The items of an increment, none of an absolute value. -/
def addItems? : String × Assignment → Option (List Item)
  | (column, .add v) => some (nameItems column ++ (nameItems column ++ [.value v]))
  | (_, .value _) => none

/-- The items of an UPDATE: columns to be cleared, absolute values, increments, the condition. -/
def updateItems (u : Update) : List Item :=
  nameItems u.table ++ (u.nulls.flatMap fun column => nameItems column ++ [.value .null]) ++
    (u.sets.filterMap valueItems?).flatten ++ (u.sets.filterMap addItems?).flatten ++
    conditionItems u.predicate

/-- The items of a draft. -/
def Draft.items (d : Dialect) : Draft → List Item
  | .condition p => predicateItems p
  | .select s | .anyRow s => selectorItems s
  | .insert i => ((i.compile d).toOption.map insertItems).getD []
  | .update u => updateItems u
  | .delete x => nameItems x.table ++ conditionItems x.predicate

/-! ## Items of pieces -/

/-- The items that are read from pieces, whatever follows them, and the values that they bind. -/
structure Shows (d : Dialect) (ps : List Piece) (items : List Item) : Prop where
  read : ∀ rest, readItems (tokensOf d ps ++ rest) = items ++ readItems rest
  args : ps.filterMap Piece.value? = items.filterMap Item.arg?

/-- A token that is not part of an item. -/
def Token.isSilent : Token → Bool
  | .word w => w != "NULL" && w != "IS"
  | .ident _ | .value _ => false
  | _ => true

/-- No token of a fixed text is part of an item. -/
def isSilent (d : Dialect) (s : String) : Bool := (pieceTokens d (.raw s)).all Token.isSilent

theorem readItems_silent {ts rest : List Token} (h : ts.all Token.isSilent = true) :
    readItems (ts ++ rest) = readItems rest := by
  induction ts with
  | nil => rfl
  | cons t ts ih =>
    rw [List.all_cons, Bool.and_eq_true] at h
    obtain ⟨ht, hts⟩ := h
    rw [List.cons_append, ← ih hts]
    cases t with
    | word w =>
      obtain ⟨hnull, his⟩ : w ≠ "NULL" ∧ w ≠ "IS" := by simpa [Token.isSilent] using ht
      rw [readItems] <;> simp_all
    | ident _ | value _ => cases ht
    | operator _ | mark _ | text _ => rw [readItems] <;> simp

namespace Shows

variable {a b : List Piece} {xs ys : List Item}

theorem nil : Shows d [] [] := ⟨fun _ => rfl, rfl⟩

theorem append (ha : Shows d a xs) (hb : Shows d b ys) : Shows d (a ++ b) (xs ++ ys) := by
  refine ⟨fun rest => ?_, ?_⟩
  · rw [tokensOf_append, List.append_assoc, ha.read, hb.read, List.append_assoc]
  · rw [List.filterMap_append, List.filterMap_append, ha.args, hb.args]

/-- A fixed text with the items that its tokens are. -/
theorem fixed {s : String} {ts : List Token} (hs : pieceTokens d (.raw s) = ts)
    (hread : ∀ rest, readItems (ts ++ rest) = xs ++ readItems rest)
    (hargs : xs.filterMap Item.arg? = []) : Shows d [.raw s] xs := by
  refine ⟨fun rest => ?_, hargs.symm⟩
  rw [tokensOf_cons, tokensOf_nil, List.append_nil, hs, hread]

theorem silent {s : String} (hs : isSilent d s = true) : Shows d [.raw s] [] :=
  fixed rfl (fun _ => readItems_silent hs) rfl

/-- A fixed text without items before pieces. -/
theorem after {s : String} (hs : isSilent d s = true) (h : Shows d a xs) :
    Shows d (.raw s :: a) xs :=
  (silent hs).append h

/-- A fixed text without items after pieces. -/
theorem before {s : String} (hs : isSilent d s = true) (h : Shows d a xs) :
    Shows d (a ++ [.raw s]) xs := by
  have h := h.append (silent hs)
  rwa [List.append_nil] at h

/-- A fixed text without items between pieces. -/
theorem between {s : String} (hs : isSilent d s = true) (ha : Shows d a xs) (hb : Shows d b ys) :
    Shows d (a ++ .raw s :: b) (xs ++ ys) :=
  ha.append (hb.after hs)

/-- Groups with a separator between them. -/
theorem groups {s : String} (hs : isSilent d s = true) {groups : List (List Piece)}
    {items : List (List Item)} (h : List.Forall₂ (Shows d) groups items) :
    Shows d (Piece.separated s groups) items.flatten := by
  induction h with
  | nil => exact nil
  | cons hg hrest ih =>
    cases hrest with
    | nil => simpa [Piece.separated, List.intercalate] using hg
    | cons _ _ =>
      rw [separated_cons]
      exact hg.between hs ih

theorem separated {α : Type} {s : String} (hs : isSilent d s = true) {f : α → List Piece}
    {g : α → List Item} {l : List α} (h : ∀ x, Shows d (f x) (g x)) :
    Shows d (Piece.separated s (l.map f)) (l.flatMap g) := by
  rw [List.flatMap_def]
  refine groups hs ?_
  rw [List.forall₂_map_left_iff, List.forall₂_map_right_iff]
  exact List.forall₂_same.mpr fun x _ => h x

end Shows

/-! ## Names and values -/

theorem shows_name (name : String) : Shows d (Piece.ofName name) (nameItems name) := by
  rw [ofName_eq]
  refine Shows.separated (by cases d <;> rfl) fun part => ?_
  unfold namePiece
  split
  case isTrue => exact Shows.silent (by cases d <;> rfl)
  case isFalse => exact ⟨fun _ => rfl, rfl⟩

theorem shows_names (names : List String) : Shows d (Piece.ofNames names) (namesItems names) :=
  Shows.separated (by cases d <;> rfl) shows_name

theorem shows_value (v : Value) : Shows d [Piece.ofValue v] [.value v] := by
  unfold Piece.ofValue
  split
  case isTrue hnull =>
    obtain rfl : v = .null := by
      cases v with
      | null => rfl
      | _ => cases hnull
    exact Shows.fixed (tokens_null d) (fun _ => by simp [readItems]) rfl
  case isFalse hnull =>
    refine ⟨fun _ => rfl, ?_⟩
    simp [Piece.value?, Item.arg?, hnull]

theorem shows_values (vs : List Value) : Shows d (Piece.ofValues vs) (vs.map .value) := by
  have h := Shows.separated (d := d) (s := ", ") (f := fun v => [Piece.ofValue v])
    (g := fun v => [Item.value v]) (l := vs) (by cases d <;> rfl) shows_value
  rwa [← List.map_eq_flatMap] at h

theorem shows_isNull (column : String) :
    Shows d (Piece.ofName column ++ [.raw " IS NULL"]) (nameItems column ++ [.isNull]) :=
  (shows_name column).append
    (Shows.fixed (tokens_isNull d) (fun _ => by simp [readItems]) rfl)

theorem shows_isNotNull (column : String) :
    Shows d (Piece.ofName column ++ [.raw " IS NOT NULL"]) (nameItems column ++ [.isNotNull]) :=
  (shows_name column).append
    (Shows.fixed (tokens_isNotNull d) (fun _ => by simp [readItems]) rfl)

/-! ## Conditions and selections -/

theorem shows_compare (column : String) (op : Comparison) (v : Value) :
    Shows d (Predicate.pieces d (.compare column op v)) (predicateItems (.compare column op v)) := by
  have hwritten : Shows d (Piece.ofName column ++ [.raw op.sql, Piece.ofValue v])
      (nameItems column ++ [.value v]) :=
    (shows_name column).between (by cases op <;> cases d <;> rfl) (shows_value v)
  cases op with
  | eq =>
    cases v with
    | null => exact shows_isNull column
    | _ => exact hwritten
  | ne =>
    cases v with
    | null => exact shows_isNotNull column
    | _ => exact hwritten
  | _ => exact hwritten

theorem shows_like (column pattern : String) :
    Shows d (Predicate.pieces d (.like column pattern)) (predicateItems (.like column pattern)) := by
  have hlike : Shows d (Piece.ofName column ++ [.raw " LIKE ", .bound (.string pattern)])
      (nameItems column ++ [.value (.string pattern)]) :=
    (shows_name column).between (by cases d <;> rfl) ⟨fun _ => rfl, rfl⟩
  rw [Predicate.pieces, predicateItems]
  split
  case isTrue => exact hlike.before (by cases d <;> rfl)
  case isFalse => simpa using hlike

/-- A member of a junction, in brackets or not. -/
theorem shows_member {ps : List Piece} {items : List Item} (h : Shows d ps items)
    (brackets : Bool) :
    Shows d (if brackets then .raw "(" :: (ps ++ [.raw ")"]) else ps) items := by
  cases brackets with
  | true => exact (h.before (by cases d <;> rfl)).after (by cases d <;> rfl)
  | false => exact h

theorem shows_head (columns : List String) (distinct count : Bool) :
    Shows d (Selector.headPieces columns distinct count)
      (if count && !distinct then [] else namesItems columns) := by
  have hnames := shows_names (d := d) columns
  have hempty : columns.isEmpty = true → namesItems columns = [] := by
    intro h
    rw [List.isEmpty_iff.mp h]
    rfl
  unfold Selector.headPieces
  cases count with
  | true =>
    have hall : Shows d [.raw "COUNT(*)"] [] := Shows.silent (by cases d <;> rfl)
    cases distinct with
    | false => exact hall
    | true =>
      cases hcolumns : columns.isEmpty with
      | true =>
        rw [hempty hcolumns]
        exact hall
      | false => exact (hnames.before (by cases d <;> rfl)).after (by cases d <;> rfl)
  | false =>
    have hcolumns : Shows d (if columns.isEmpty then [.raw "*"] else Piece.ofNames columns)
        (namesItems columns) := by
      split
      case isTrue h =>
        rw [hempty h]
        exact Shows.silent (by cases d <;> rfl)
      case isFalse => exact hnames
    cases distinct with
    | true => exact hcolumns.after (by cases d <;> rfl)
    | false => exact hcolumns

theorem isSilent_number {s w : String}
    (hs : LexState.start.run d s.toList = some ([.word w], .start))
    (hw : (Token.word w).isSilent = true) (n : Nat) : isSilent d (s ++ toString n) = true := by
  have hdigit : ∀ word : String, 'N' ∈ word.toList ∨ 'I' ∈ word.toList → toString n ≠ word := by
    rintro word h rfl
    rcases h with h | h
    · cases isDigit_of_mem_toList h
    · cases isDigit_of_mem_toList h
  have hnull := hdigit "NULL" (by decide)
  have his := hdigit "IS" (by decide)
  have hnumber : (Token.word (toString n)).isSilent = true := by
    rw [Token.isSilent, bne_iff_ne.mpr hnull, bne_iff_ne.mpr his]
    rfl
  rw [isSilent, tokens_number hs, List.all_cons, List.all_cons, hw, hnumber]
  rfl

theorem shows_tail (order : List OrderTerm) (limit offset : Option Nat) :
    Shows d (Selector.tailPieces order limit offset)
      (order.flatMap fun t => nameItems t.column) := by
  have hlimit : ∀ n : Nat, Shows d [.raw (" LIMIT " ++ toString n)] [] := fun n =>
    Shows.silent (isSilent_number (w := "LIMIT") (by cases d <;> rfl) rfl n)
  have hoffset : ∀ n : Nat, Shows d [.raw (" OFFSET " ++ toString n)] [] := fun n =>
    Shows.silent (isSilent_number (w := "OFFSET") (by cases d <;> rfl) rfl n)
  have horder : Shows d
      (if order.isEmpty then []
        else .raw " ORDER BY " :: Piece.separated ", " (order.map OrderTerm.pieces))
      (order.flatMap fun t => nameItems t.column) := by
    split
    case isTrue h =>
      rw [List.isEmpty_iff.mp h]
      exact Shows.nil
    case isFalse =>
      refine (Shows.separated (by cases d <;> rfl) fun t => ?_).after (by cases d <;> rfl)
      refine (shows_name t.column).before ?_
      cases t.direction <;> cases d <;> rfl
  unfold Selector.tailPieces
  rw [← List.append_nil (order.flatMap _), ← List.append_nil (order.flatMap _ ++ _)]
  refine (horder.append ?_).append ?_
  · cases limit with
    | some n => exact hlimit n
    | none =>
      cases offset with
      | none => exact Shows.nil
      | some _ => exact hlimit Selector.limitMax
  · cases offset with
    | none => exact Shows.nil
    | some n => exact hoffset n

mutual

theorem predicate_shows (d : Dialect) : (p : Predicate) → Shows d (p.pieces d) (predicateItems p)
  | .compare column op v => shows_compare column op v
  | .isIn _ [] => Shows.silent (by cases d <;> rfl)
  | .isIn column (v :: vs) =>
    (shows_name column).between (by cases d <;> rfl)
      ((shows_values (v :: vs)).before (by cases d <;> rfl))
  | .notIn _ [] => Shows.silent (by cases d <;> rfl)
  | .notIn column (v :: vs) =>
    (shows_name column).between (by cases d <;> rfl)
      ((shows_values (v :: vs)).before (by cases d <;> rfl))
  | .isNull column => shows_isNull column
  | .notNull column => shows_isNotNull column
  | .like column pattern => shows_like column pattern
  | .inSelect column select =>
    (shows_name column).between (by cases d <;> rfl)
      ((selector_shows d select).before (by cases d <;> rfl))
  | .anyRow select =>
    ((selector_shows d select).before (by cases d <;> rfl)).after (by cases d <;> rfl)
  | .conj [] => Shows.silent (by cases d <;> rfl)
  | .conj (p :: rest) =>
    (shows_member (predicate_shows d p) _).append
      (members_show d " AND " (by cases d <;> rfl) rest)
  | .disj [] => Shows.silent (by cases d <;> rfl)
  | .disj (p :: rest) =>
    (shows_member (predicate_shows d p) _).append
      (members_show d " OR " (by cases d <;> rfl) rest)
  | .neg pred =>
    ((predicate_shows d pred).before (by cases d <;> rfl)).after (by cases d <;> rfl)

theorem members_show (d : Dialect) (operator : String) (h : isSilent d operator = true) :
    (ps : List Predicate) → Shows d (membersPieces d operator ps) (predicatesItems ps)
  | [] => Shows.nil
  | p :: rest =>
    ((shows_member (predicate_shows d p) _).append (members_show d operator h rest)).after h

theorem condition_shows (d : Dialect) : (p : Option Predicate) →
    Shows d (conditionPieces d p) (conditionItems p)
  | some p => (predicate_shows d p).after (by cases d <;> rfl)
  | none => Shows.nil

theorem source_shows (d : Dialect) : (t : TableRef) → Shows d (t.pieces d) (sourceItems t)
  | .table name none => shows_name name
  | .table name (some asName) =>
    (shows_name name).between (by cases d <;> rfl) (shows_name asName)
  | .select select asName =>
    ((selector_shows d select).between (by cases d <;> rfl) (shows_name asName)).after
      (by cases d <;> rfl)

theorem joins_show (d : Dialect) : (js : List Join) → Shows d (joinsPieces d js) (joinsItems js)
  | [] => Shows.nil
  | ⟨table, left, right⟩ :: rest => by
    have h := ((source_shows d table).between (s := " ON ") (by cases d <;> rfl)
      ((shows_name left).between (s := " = ") (by cases d <;> rfl)
        ((shows_name right).append (joins_show d rest)))).after (s := " JOIN ")
          (by cases d <;> rfl)
    rwa [← List.append_assoc, ← List.append_assoc] at h

theorem selector_shows (d : Dialect) : (s : Selector) → Shows d (s.pieces d) (selectorItems s)
  | ⟨columns, source, joins, predicate, order, limit, offset, distinct, count⟩ => by
    have h := ((shows_head columns distinct count).between (s := " FROM ") (by cases d <;> rfl)
      ((((source_shows d source).append (joins_show d joins)).append
        (condition_shows d predicate)).append (shows_tail order limit offset))).after
          (s := "SELECT ") (by cases d <;> rfl)
    rwa [← List.append_assoc, ← List.append_assoc, ← List.append_assoc] at h

end

/-! ## Statements that write -/

theorem assignment_shows (table : String) (a : ConflictAssignment) :
    Shows d (a.pieces d table) (assignmentItems table a) := by
  unfold ConflictAssignment.pieces assignmentItems
  refine (shows_name a.column).between (by cases d <;> rfl) ?_
  cases a.value with
  | itself => exact shows_name a.column
  | stored => exact shows_name (table ++ "." ++ a.column)
  | proposed =>
    dsimp only
    split
    case isTrue =>
      exact ((shows_name a.column).before (by cases d <;> rfl)).after (by cases d <;> rfl)
    case isFalse => exact (shows_name a.column).after (by cases d <;> rfl)
  | reported =>
    exact ((shows_name (table ++ "." ++ a.column)).before (by cases d <;> rfl)).after
      (by cases d <;> rfl)

theorem assignments_show (table : String) (as : List ConflictAssignment) :
    Shows d (ConflictClause.assignmentPieces d table as) (as.flatMap (assignmentItems table)) :=
  Shows.separated (by cases d <;> rfl) fun a => assignment_shows table a

theorem target_shows (target : List String) :
    Shows d (ConflictClause.targetPieces target) (namesItems target) := by
  refine Shows.after (by cases d <;> rfl) ?_
  split
  case isTrue h =>
    rw [List.isEmpty_iff.mp h]
    exact Shows.nil
  case isFalse =>
    exact ((shows_names target).before (by cases d <;> rfl)).after (by cases d <;> rfl)

theorem clause_shows (table : String) (clause : ConflictClause) :
    Shows d (clause.pieces d table) (clauseItems table clause) := by
  cases clause with
  | doNothing target => exact (target_shows target).before (by cases d <;> rfl)
  | doUpdate target as =>
    exact (target_shows target).between (by cases d <;> rfl) (assignments_show table as)
  | onDuplicateKey as => exact (assignments_show table as).after (by cases d <;> rfl)

/-- Each row has a value for each column, so a row without columns has none. -/
def HasFullRows (i : InsertStatement) : Prop := ∀ row ∈ i.rows, row.length = i.columns.length

theorem body_shows {i : InsertStatement} (hfull : HasFullRows i) :
    Shows d (i.bodyPieces d) (namesItems i.columns ++ i.rows.flatten.map .value) := by
  unfold InsertStatement.bodyPieces
  split
  case isTrue hempty =>
    rw [List.isEmpty_iff] at hempty
    have hrows : i.rows.flatten = [] := by
      rw [List.flatten_eq_nil_iff]
      intro row hrow
      rw [← List.length_eq_zero_iff, hfull row hrow, hempty]
      rfl
    rw [hempty, hrows]
    exact Shows.silent (by cases d <;> rfl)
  case isFalse =>
    have hrows : Shows d
        (Piece.separated ", " (i.rows.map fun row => .raw "(" :: (Piece.ofValues row ++ [.raw ")"])))
        (i.rows.flatMap fun row => row.map .value) :=
      Shows.separated (by cases d <;> rfl) fun row =>
        ((shows_values row).before (by cases d <;> rfl)).after (by cases d <;> rfl)
    rw [List.flatMap_def, ← List.map_flatten] at hrows
    exact ((shows_names i.columns).between (by cases d <;> rfl) hrows).after (by cases d <;> rfl)

theorem insert_shows {i : InsertStatement} (hfull : HasFullRows i) :
    Shows d (i.pieces d) (insertItems i) := by
  have hconflict : Shows d
      (match i.conflict with
        | some clause => clause.pieces d i.table
        | none => [])
      (match i.conflict with
        | some clause => clauseItems i.table clause
        | none => []) := by
    split
    case h_1 clause _ => exact clause_shows i.table clause
    case h_2 => exact Shows.nil
  have hreturning : Shows d
      (if i.returning.isEmpty then [] else .raw " RETURNING " :: Piece.ofNames i.returning)
      (namesItems i.returning) := by
    split
    case isTrue h =>
      rw [List.isEmpty_iff.mp h]
      exact Shows.nil
    case isFalse => exact (shows_names i.returning).after (by cases d <;> rfl)
  have h := ((((shows_name i.table).append (body_shows hfull)).append hconflict).append
    hreturning).after (s := "INSERT INTO ") (by cases d <;> rfl)
  rw [← List.append_assoc] at h
  exact h

/-- The rows of an INSERT that is compiled have a value for each column. -/
theorem compile_rows {i : Insert} {statement : InsertStatement} (h : i.compile d = .ok statement) :
    statement.rows = i.rows ∧ HasFullRows statement := by
  obtain ⟨hrows, conflict, -, rfl⟩ := compile_eq_ok.mp h
  exact ⟨rfl, checkRows_eq_ok.mp hrows⟩

/-- Those of a list that have pieces show the items that they have. -/
theorem shows_filterMap {α : Type} {f : α → Option (List Piece)} {g : α → Option (List Item)}
    (h : ∀ x, Option.Rel (Shows d) (f x) (g x)) (l : List α) :
    List.Forall₂ (Shows d) (l.filterMap f) (l.filterMap g) := by
  induction l with
  | nil => exact .nil
  | cons x l ih =>
    rw [List.filterMap_cons, List.filterMap_cons]
    cases hf : f x <;> cases hg : g x <;> have hx := h x <;> rw [hf, hg] at hx
    case none.none => exact ih
    case some.some =>
      cases hx with
      | some hx => exact .cons hx ih
    all_goals cases hx

theorem setGroups_show (u : Update) : Shows d (Piece.separated ", " u.setGroups)
    ((u.nulls.flatMap fun column => nameItems column ++ [.value .null]) ++
      (u.sets.filterMap valueItems?).flatten ++ (u.sets.filterMap addItems?).flatten) := by
  have hnulls : List.Forall₂ (Shows d)
      (u.nulls.map fun column => Piece.ofName column ++ [.raw " = NULL"])
      (u.nulls.map fun column => nameItems column ++ [.value .null]) := by
    rw [List.forall₂_map_left_iff, List.forall₂_map_right_iff]
    have htokens : pieceTokens d (.raw " = NULL") = [.operator "=", .word "NULL"] := by
      cases d <;> rfl
    exact List.forall₂_same.mpr fun column _ => (shows_name column).append
      (Shows.fixed htokens (fun _ => by simp [readItems]) rfl)
  have hvalues : ∀ a, Option.Rel (Shows d) (Update.valuePieces? a) (valueItems? a) := by
    rintro ⟨column, v | v⟩
    · exact .some ((shows_name column).between (by cases d <;> rfl) (shows_value v))
    · exact .none
  have hadds : ∀ a, Option.Rel (Shows d) (Update.addPieces? a) (addItems? a) := by
    rintro ⟨column, v | v⟩
    · exact .none
    · exact .some ((shows_name column).between (by cases d <;> rfl)
        ((shows_name column).between (by cases d <;> rfl) (shows_value v)))
  have h := Shows.groups (s := ", ") (by cases d <;> rfl) (List.rel_append
    (List.rel_append hnulls (shows_filterMap hvalues u.sets)) (shows_filterMap hadds u.sets))
  rwa [List.flatten_append, List.flatten_append, ← List.flatMap_def] at h

theorem update_shows (u : Update) : Shows d (u.pieces d) (updateItems u) := by
  have h := ((shows_name u.table).between (s := " SET ") (by cases d <;> rfl)
    ((setGroups_show u).append (condition_shows d u.predicate))).after (s := "UPDATE ")
      (by cases d <;> rfl)
  rwa [← List.append_assoc, ← List.append_assoc, ← List.append_assoc] at h

theorem draft_shows {x : Draft} {ps : List Piece} (h : x.pieces d = .ok ps) :
    Shows d ps (x.items d) := by
  cases x with
  | condition p =>
    obtain rfl := Except.ok.inj h
    exact predicate_shows d p
  | select s =>
    obtain rfl := Except.ok.inj h
    exact selector_shows d s
  | anyRow s =>
    obtain rfl := Except.ok.inj h
    exact ((selector_shows d s).before (by cases d <;> rfl)).after (by cases d <;> rfl)
  | insert i =>
    obtain ⟨statement, hcompile, hps⟩ := bind_eq_ok.mp h
    obtain rfl := Except.ok.inj hps
    rw [Draft.items, hcompile]
    exact insert_shows (compile_rows hcompile).2
  | update u =>
    obtain rfl := Except.ok.inj h
    exact update_shows u
  | delete x =>
    obtain rfl := Except.ok.inj h
    exact ((shows_name x.table).append (condition_shows d x.predicate)).after
      (by cases d <;> rfl)

/-! ## Placeholders -/

theorem isPlaceholder_placeholderToken (d : Dialect) (n : Nat) :
    (placeholderToken d n).isPlaceholder = true := by
  cases d with
  | mysql | sqlite => rfl
  | postgres =>
    show (position? (Dialect.placeholder .postgres n)).isSome = true
    rw [position?_placeholder]
    rfl

/-- The placeholders in the tokens of pieces are those of the bound pieces, one after another. -/
theorem placeholders_unfilled {ps : List Piece} (h : ∀ p ∈ ps, IsPlainPiece d p) (n : Nat) :
    (unfilled d n ps).filter Token.isPlaceholder =
      (List.range' (n + 1) (ps.filterMap Piece.value?).length).map (placeholderToken d) := by
  induction ps generalizing n with
  | nil => rfl
  | cons p rest ih =>
    have hrest := ih fun q hq => h q (List.mem_cons_of_mem p hq)
    cases p with
    | raw s =>
      obtain ⟨_, _, _, -, -, htokens, hplain⟩ := plain_run (h _ List.mem_cons_self)
      rw [← htokens] at hplain
      have hnone : (pieceTokens d (.raw s)).filter Token.isPlaceholder = [] := by
        rw [List.filter_eq_nil_iff]
        intro t ht
        simp [hplain t ht]
      simp only [unfilled, unfilledTokens, List.filter_append, hnone, hrest]
      rfl
    | quoted ident =>
      simp only [unfilled, unfilledTokens, List.filter_append, hrest]
      rfl
    | bound v =>
      have hself : [placeholderToken d (n + 1)].filter Token.isPlaceholder =
          [placeholderToken d (n + 1)] := by
        rw [List.filter_cons_of_pos (isPlaceholder_placeholderToken d (n + 1)), List.filter_nil]
      have hargs : (Piece.bound v :: rest).filterMap Piece.value? =
          v :: rest.filterMap Piece.value? := rfl
      simp only [unfilled, unfilledTokens, List.filter_append, hself, hrest, hargs,
        List.length_cons, List.range'_succ, List.map_cons]
      rfl

theorem not_isNull_of_arg? {item : Item} {v : Value} (h : item.arg? = some v) :
    v.isNull = false := by
  cases item with
  | value w =>
    unfold Item.arg? at h
    dsimp only at h
    split at h
    case isTrue => cases h
    case isFalse hw =>
      obtain rfl := Option.some.inj h
      simpa using hw
  | ident _ | isNull | isNotNull => cases h

/-- In the text of a statement, outside quoted names and text literals, the placeholders are those
of the arguments from the first to the last, each once. With the arguments in their places, the
tokens of the text have the names, the values and the tests of what was built, in its order, and the
arguments are those values that are there; in the places of the others stands `NULL`. -/
theorem placeholders_match_arguments (d : Dialect) (x : Draft) (st : Statement)
    (h : x.statement d = .ok st) :
    (∃ ts, lex d st.sql.toList = some ts ∧
      ts.filter Token.isPlaceholder =
        (List.range' 1 st.args.length).map (placeholderToken d)) ∧
    (∃ us, tokens d st = some us ∧ readItems us = x.items d) ∧
    st.args = (x.items d).filterMap Item.arg? ∧
    ∀ v ∈ st.args, v.isNull = false := by
  obtain ⟨ps, hps, rfl⟩ := Draft.statement_eq_ok.mp h
  have hreadable := draft_readable hps
  have hshows := draft_shows hps
  refine ⟨⟨unfilled d 0 ps, ?_, ?_⟩, ⟨tokensOf d ps, tokens_ofPieces hreadable, ?_⟩, ?_, ?_⟩
  · have hlex := lex_texts hreadable 0
    rwa [← String.toList_join] at hlex
  · exact placeholders_unfilled hreadable.1 0
  · have hread := hshows.read []
    rwa [List.append_nil, readItems, List.append_nil] at hread
  · exact hshows.args
  · intro v hv
    have hargs : v ∈ (x.items d).filterMap Item.arg? := hshows.args ▸ hv
    obtain ⟨item, -, hitem⟩ := List.mem_filterMap.mp hargs
    exact not_isNull_of_arg? hitem

/-- A user is inserted or, if the name is taken, written over. -/
def renamedUser : Draft :=
  .insert (((((Insert.into "users").set "na?me" (.string "$1")).set "age" .null).set "level"
    (.int 3)).onConflict ⟨["na?me"], .updateNewValues⟩)

theorem placeholders_match_renamedUser : ∃ st, renamedUser.statement .postgres = .ok st ∧
    st.args.length = 2 ∧
    (∃ ts, lex .postgres st.sql.toList = some ts ∧
      ts.filter Token.isPlaceholder = [.word "$1", .word "$2"]) ∧
    ∃ us, tokens .postgres st = some us ∧ readItems us = renamedUser.items .postgres := by
  obtain ⟨hlex, hread, -, -⟩ := placeholders_match_arguments .postgres renamedUser _ rfl
  exact ⟨_, rfl, rfl, hlex, hread⟩

end EntityGraph.Sql
