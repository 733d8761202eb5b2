import EntityGraph.Proofs.Sql.Content

/-!
# Names and values cannot change the shape of a statement

The skeleton of a draft is the draft with all parts of names blank, but for the stars, and with one
and the same value in the place of all values that are there. Drafts with the same skeleton have the
same tokens, but for the contents of quoted names, and these are the parts of the names that the
drafts have: neither a name nor a value can end its token early or begin another.
-/

set_option autoImplicit false

namespace EntityGraph.Sql

variable {d : Dialect}

/-! ## Skeletons -/

/-- A part of a name without its text. A star is not quoted and stays. -/
def blankPart (part : String) : String := if part = "*" then "*" else ""

/-- A name without the text of its parts. -/
def blankName (name : String) : String :=
  ".".intercalate ((nameParts name).map blankPart)

/-- A value that is there, without what it is. -/
def blankValue (v : Value) : Value := if v.isNull then .null else .string ""

mutual

/-- A condition without names and values. -/
def predicateSkeleton : Predicate → Predicate
  | .compare column op v => .compare (blankName column) op (blankValue v)
  | .isIn column vs => .isIn (blankName column) (vs.map blankValue)
  | .notIn column vs => .notIn (blankName column) (vs.map blankValue)
  | .isNull column => .isNull (blankName column)
  | .notNull column => .notNull (blankName column)
  | .like column _ => .like (blankName column) ""
  | .inSelect column s => .inSelect (blankName column) (selectorSkeleton s)
  | .anyRow s => .anyRow (selectorSkeleton s)
  | .conj ps => .conj (predicatesSkeleton ps)
  | .disj ps => .disj (predicatesSkeleton ps)
  | .neg p => .neg (predicateSkeleton p)

/-- The members of a junction without names and values. -/
def predicatesSkeleton : List Predicate → List Predicate
  | [] => []
  | p :: rest => predicateSkeleton p :: predicatesSkeleton rest

/-- An optional condition without names and values. -/
def conditionSkeleton : Option Predicate → Option Predicate
  | some p => some (predicateSkeleton p)
  | none => none

/-- What rows are taken from, without names and values. -/
def sourceSkeleton : TableRef → TableRef
  | .table name none => .table (blankName name) none
  | .table name (some asName) => .table (blankName name) (some (blankName asName))
  | .select s asName => .select (selectorSkeleton s) (blankName asName)

/-- The joined tables without names and values. -/
def joinsSkeleton : List Join → List Join
  | [] => []
  | ⟨table, left, right⟩ :: rest =>
    ⟨sourceSkeleton table, blankName left, blankName right⟩ :: joinsSkeleton rest

/-- A selection without names and values. Its window is not bound, so it stays. -/
def selectorSkeleton : Selector → Selector
  | ⟨columns, source, joins, predicate, order, limit, offset, distinct, count⟩ =>
    ⟨columns.map blankName, sourceSkeleton source, joinsSkeleton joins,
      conditionSkeleton predicate, order.map fun t => { t with column := blankName t.column }, limit,
      offset, distinct, count⟩

end

/-- A conflict policy without names. -/
def policySkeleton (policy : ConflictPolicy) : ConflictPolicy :=
  { policy with columns := policy.columns.map blankName }

/-- An insert without names and values. -/
def insertSkeleton (i : Insert) : Insert :=
  { table := blankName i.table
    columns := i.columns.map blankName
    rows := i.rows.map fun row => row.map blankValue
    returning := i.returning.map blankName
    policy := i.policy.map policySkeleton
    reportedId := i.reportedId.map blankName }

/-- A conflict clause without names. -/
def clauseSkeleton : ConflictClause → ConflictClause
  | .doNothing target => .doNothing (target.map blankName)
  | .doUpdate target as =>
    .doUpdate (target.map blankName) (as.map fun a => { a with column := blankName a.column })
  | .onDuplicateKey as => .onDuplicateKey (as.map fun a => { a with column := blankName a.column })

/-- An INSERT without names and values. -/
def statementSkeleton (i : InsertStatement) : InsertStatement :=
  { table := blankName i.table
    columns := i.columns.map blankName
    rows := i.rows.map fun row => row.map blankValue
    conflict := i.conflict.map clauseSkeleton
    returning := i.returning.map blankName }

/-- What a column is set to, without the value. -/
def assignmentSkeleton : Assignment → Assignment
  | .value v => .value (blankValue v)
  | .add v => .add (blankValue v)

/-- An UPDATE without names and values. -/
def updateSkeleton (u : Update) : Update :=
  { table := blankName u.table
    nulls := u.nulls.map blankName
    sets := u.sets.map fun s => (blankName s.1, assignmentSkeleton s.2)
    predicate := conditionSkeleton u.predicate }

/-- A draft without names and values. -/
def Draft.skeleton : Draft → Draft
  | .condition p => .condition (predicateSkeleton p)
  | .select s => .select (selectorSkeleton s)
  | .anyRow s => .anyRow (selectorSkeleton s)
  | .insert i => .insert (insertSkeleton i)
  | .update u => .update (updateSkeleton u)
  | .delete x => .delete ⟨blankName x.table, conditionSkeleton x.predicate⟩

/-! ## Pieces of skeletons -/

/-- A piece without its name or value. -/
def blankPiece : Piece → Piece
  | .raw s => .raw s
  | .quoted _ => .quoted ""
  | .bound _ => .bound (.string "")

theorem nameParts_blankName (name : String) :
    nameParts (blankName name) = (nameParts name).map blankPart := by
  have hdot : ∀ cs ∈ ((nameParts name).map blankPart).map String.toList, '.' ∉ cs := by
    intro cs hcs
    obtain ⟨_, hpart, rfl⟩ := List.mem_map.mp hcs
    obtain ⟨part, -, rfl⟩ := List.mem_map.mp hpart
    unfold blankPart
    split <;> decide
  have hne : ((nameParts name).map blankPart).map String.toList ≠ [] := by
    simp [nameParts, List.splitOn_ne_nil]
  have hsplit := List.splitOn_intercalate '.' hdot hne
  have htext : (blankName name).toList =
      ['.'].intercalate (((nameParts name).map blankPart).map String.toList) :=
    String.toList_intercalate
  rw [nameParts, htext, hsplit, List.map_map]
  simp [Function.comp_def, String.ofList_toList]

theorem map_separated (s : String) (groups : List (List Piece)) :
    (Piece.separated s groups).map blankPiece =
      Piece.separated s (groups.map fun g => g.map blankPiece) := by
  induction groups with
  | nil => rfl
  | cons g rest ih =>
    cases rest with
    | nil => simp [Piece.separated, List.intercalate]
    | cons g' rest =>
      rw [separated_cons, List.map_append, List.map_cons, ih]
      simp only [List.map_cons, separated_cons]
      rfl

/-- The pieces of names that have the same parts without their texts. -/
theorem ofName_of_nameParts {name blank : String}
    (h : nameParts blank = (nameParts name).map blankPart) :
    Piece.ofName blank = (Piece.ofName name).map blankPiece := by
  have hpart : ∀ part, namePiece (blankPart part) = blankPiece (namePiece part) := by
    intro part
    unfold namePiece blankPart
    split
    case isTrue => rfl
    case isFalse => rfl
  rw [ofName_eq, ofName_eq, h, map_separated, List.map_map, List.map_map]
  simp [Function.comp_def, hpart]

@[simp]
theorem ofName_blankName (name : String) :
    Piece.ofName (blankName name) = (Piece.ofName name).map blankPiece :=
  ofName_of_nameParts (nameParts_blankName name)

theorem ofName_blank_qualified (table column : String) :
    Piece.ofName (blankName table ++ "." ++ blankName column) =
      (Piece.ofName (table ++ "." ++ column)).map blankPiece := by
  apply ofName_of_nameParts
  rw [nameParts_qualified, nameParts_qualified, nameParts_blankName, nameParts_blankName,
    List.map_append]

@[simp]
theorem ofNames_blank (names : List String) :
    Piece.ofNames (names.map blankName) = (Piece.ofNames names).map blankPiece := by
  simp only [Piece.ofNames, map_separated, List.map_map, Function.comp_def, ofName_blankName]

@[simp]
theorem isNull_blankValue (v : Value) : (blankValue v).isNull = v.isNull := by
  unfold blankValue
  cases h : v.isNull <;> rfl

@[simp]
theorem ofValue_blankValue (v : Value) :
    Piece.ofValue (blankValue v) = blankPiece (Piece.ofValue v) := by
  unfold Piece.ofValue blankValue
  cases h : v.isNull <;> rfl

@[simp]
theorem ofValues_blank (vs : List Value) :
    Piece.ofValues (vs.map blankValue) = (Piece.ofValues vs).map blankPiece := by
  simp [Piece.ofValues, map_separated, Function.comp_def]

theorem isJunction_skeleton (p : Predicate) :
    (predicateSkeleton p).isJunction = p.isJunction := by
  cases p <;> simp [predicateSkeleton, Predicate.isJunction]

theorem isEmpty_predicatesSkeleton (ps : List Predicate) :
    (predicatesSkeleton ps).isEmpty = ps.isEmpty := by
  cases ps <;> simp [predicatesSkeleton]

theorem compare_skeleton (column : String) (op : Comparison) (v : Value) :
    (predicateSkeleton (.compare column op v)).pieces d =
      (Predicate.pieces d (.compare column op v)).map blankPiece := by
  have hwritten : Piece.ofName (blankName column) ++ [.raw op.sql, Piece.ofValue (blankValue v)] =
      (Piece.ofName column ++ [.raw op.sql, Piece.ofValue v]).map blankPiece := by
    simp [blankPiece]
  have htest : ∀ s, Piece.ofName (blankName column) ++ [Piece.raw s] =
      (Piece.ofName column ++ [Piece.raw s]).map blankPiece := by
    simp [blankPiece]
  cases op with
  | eq =>
    cases v with
    | null => exact htest " IS NULL"
    | _ => exact hwritten
  | ne =>
    cases v with
    | null => exact htest " IS NOT NULL"
    | _ => exact hwritten
  | _ => exact hwritten

theorem member_skeleton {p p' : List Piece} (h : p' = p.map blankPiece) (brackets : Bool) :
    (if brackets then .raw "(" :: (p' ++ [.raw ")"]) else p') =
      (if brackets then .raw "(" :: (p ++ [.raw ")"]) else p).map blankPiece := by
  subst h
  cases brackets <;> simp [blankPiece]

theorem head_skeleton (columns : List String) (distinct count : Bool) :
    Selector.headPieces (columns.map blankName) distinct count =
      (Selector.headPieces columns distinct count).map blankPiece := by
  unfold Selector.headPieces
  rw [List.isEmpty_map]
  cases count <;> cases distinct <;> cases columns.isEmpty <;> simp [blankPiece]

theorem tail_skeleton (order : List OrderTerm) (limit offset : Option Nat) :
    Selector.tailPieces (order.map fun t => { t with column := blankName t.column }) limit offset =
      (Selector.tailPieces order limit offset).map blankPiece := by
  have hterm : ∀ t : OrderTerm, OrderTerm.pieces { t with column := blankName t.column } =
      t.pieces.map blankPiece := by
    intro t
    simp [OrderTerm.pieces, blankPiece]
  unfold Selector.tailPieces
  rw [List.isEmpty_map, List.map_append, List.map_append]
  congr 1
  · congr 1
    · cases order.isEmpty <;> simp [blankPiece, map_separated, Function.comp_def, hterm]
    · cases limit <;> cases offset <;> rfl
  · cases offset <;> rfl

mutual

theorem predicate_skeleton (d : Dialect) : (p : Predicate) →
    (predicateSkeleton p).pieces d = (p.pieces d).map blankPiece
  | .compare column op v => compare_skeleton column op v
  | .isIn _ [] => rfl
  | .isIn column (v :: vs) => by
    have hvalues := ofValues_blank (v :: vs)
    rw [List.map_cons] at hvalues
    simp [predicateSkeleton, Predicate.pieces, blankPiece, hvalues]
  | .notIn _ [] => rfl
  | .notIn column (v :: vs) => by
    have hvalues := ofValues_blank (v :: vs)
    rw [List.map_cons] at hvalues
    simp [predicateSkeleton, Predicate.pieces, blankPiece, hvalues]
  | .isNull column => by simp [predicateSkeleton, Predicate.pieces, blankPiece]
  | .notNull column => by simp [predicateSkeleton, Predicate.pieces, blankPiece]
  | .like column pattern => by
    simp only [predicateSkeleton, Predicate.pieces, ofName_blankName]
    split <;> simp [blankPiece]
  | .inSelect column s => by
    simp [predicateSkeleton, Predicate.pieces, blankPiece, selector_skeleton d s]
  | .anyRow s => by simp [predicateSkeleton, Predicate.pieces, blankPiece, selector_skeleton d s]
  | .conj [] => rfl
  | .conj (p :: rest) => by
    have hp := member_skeleton (predicate_skeleton d p) (p.isJunction && !rest.isEmpty)
    have hrest := members_skeleton d " AND " rest
    simp only [predicateSkeleton, predicatesSkeleton, Predicate.pieces, isJunction_skeleton,
      isEmpty_predicatesSkeleton, List.map_append, hp, hrest]
  | .disj [] => rfl
  | .disj (p :: rest) => by
    have hp := member_skeleton (predicate_skeleton d p) (p.isJunction && !rest.isEmpty)
    have hrest := members_skeleton d " OR " rest
    simp only [predicateSkeleton, predicatesSkeleton, Predicate.pieces, isJunction_skeleton,
      isEmpty_predicatesSkeleton, List.map_append, hp, hrest]
  | .neg p => by simp [predicateSkeleton, Predicate.pieces, blankPiece, predicate_skeleton d p]

theorem members_skeleton (d : Dialect) (operator : String) : (ps : List Predicate) →
    membersPieces d operator (predicatesSkeleton ps) = (membersPieces d operator ps).map blankPiece
  | [] => rfl
  | p :: rest => by
    have hp := member_skeleton (predicate_skeleton d p) p.isJunction
    have hrest := members_skeleton d operator rest
    simp only [predicatesSkeleton, membersPieces, isJunction_skeleton, List.map_cons,
      List.map_append, hp, hrest, blankPiece]

theorem condition_skeleton (d : Dialect) : (p : Option Predicate) →
    conditionPieces d (conditionSkeleton p) = (conditionPieces d p).map blankPiece
  | some p => by simp [conditionSkeleton, conditionPieces, blankPiece, predicate_skeleton d p]
  | none => rfl

theorem source_skeleton (d : Dialect) : (t : TableRef) →
    (sourceSkeleton t).pieces d = (t.pieces d).map blankPiece
  | .table name none => by simp [sourceSkeleton, TableRef.pieces]
  | .table name (some asName) => by simp [sourceSkeleton, TableRef.pieces, blankPiece]
  | .select s asName => by
    simp [sourceSkeleton, TableRef.pieces, blankPiece, selector_skeleton d s]

theorem joins_skeleton (d : Dialect) : (js : List Join) →
    joinsPieces d (joinsSkeleton js) = (joinsPieces d js).map blankPiece
  | [] => rfl
  | ⟨table, left, right⟩ :: rest => by
    simp [joinsSkeleton, joinsPieces, blankPiece, source_skeleton d table, joins_skeleton d rest]

theorem selector_skeleton (d : Dialect) : (s : Selector) →
    (selectorSkeleton s).pieces d = (s.pieces d).map blankPiece
  | ⟨columns, source, joins, predicate, order, limit, offset, distinct, count⟩ => by
    simp [selectorSkeleton, Selector.pieces, blankPiece, source_skeleton d source,
      joins_skeleton d joins, condition_skeleton d predicate, head_skeleton, tail_skeleton]

end

/-! ## Statements that write -/

theorem assignment_skeleton (table : String) (a : ConflictAssignment) :
    ConflictAssignment.pieces d (blankName table) { a with column := blankName a.column } =
      (a.pieces d table).map blankPiece := by
  obtain ⟨column, value⟩ := a
  cases value with
  | itself => simp [ConflictAssignment.pieces, blankPiece]
  | stored => simp [ConflictAssignment.pieces, blankPiece, ofName_blank_qualified]
  | proposed =>
    by_cases hd : d = .mysql <;> simp [ConflictAssignment.pieces, blankPiece, hd]
  | reported => simp [ConflictAssignment.pieces, blankPiece, ofName_blank_qualified]

theorem assignments_skeleton (table : String) (as : List ConflictAssignment) :
    ConflictClause.assignmentPieces d (blankName table)
        (as.map fun a => { a with column := blankName a.column }) =
      (ConflictClause.assignmentPieces d table as).map blankPiece := by
  simp [ConflictClause.assignmentPieces, map_separated, Function.comp_def, assignment_skeleton]

theorem clause_skeleton (table : String) (clause : ConflictClause) :
    (clauseSkeleton clause).pieces d (blankName table) =
      (clause.pieces d table).map blankPiece := by
  have htarget : ∀ target, ConflictClause.targetPieces (target.map blankName) =
      (ConflictClause.targetPieces target).map blankPiece := by
    intro target
    unfold ConflictClause.targetPieces
    rw [List.isEmpty_map]
    cases target.isEmpty <;> simp [blankPiece]
  cases clause <;>
    simp [clauseSkeleton, ConflictClause.pieces, htarget, assignments_skeleton, blankPiece]

theorem statement_skeleton (i : InsertStatement) :
    (statementSkeleton i).pieces d = (i.pieces d).map blankPiece := by
  have hbody : (statementSkeleton i).bodyPieces d = (i.bodyPieces d).map blankPiece := by
    unfold InsertStatement.bodyPieces statementSkeleton
    rw [List.isEmpty_map]
    cases i.columns.isEmpty <;> simp [blankPiece, map_separated, Function.comp_def]
  have hpieces : ∀ j : InsertStatement, j.pieces d = .raw "INSERT INTO " ::
      (Piece.ofName j.table ++ j.bodyPieces d ++
        (j.conflict.map fun clause => clause.pieces d j.table).getD [] ++
        (if j.returning.isEmpty then [] else .raw " RETURNING " :: Piece.ofNames j.returning)) := by
    intro j
    unfold InsertStatement.pieces
    cases j.conflict <;> rfl
  have hconflict : ((statementSkeleton i).conflict.map fun clause =>
      clause.pieces d (statementSkeleton i).table).getD [] =
      ((i.conflict.map fun clause => clause.pieces d i.table).getD []).map blankPiece := by
    unfold statementSkeleton
    cases i.conflict with
    | none => rfl
    | some clause => exact clause_skeleton i.table clause
  have hreturning : (if (statementSkeleton i).returning.isEmpty then []
      else .raw " RETURNING " :: Piece.ofNames (statementSkeleton i).returning) =
      (if i.returning.isEmpty then []
        else .raw " RETURNING " :: Piece.ofNames i.returning).map blankPiece := by
    unfold statementSkeleton
    rw [List.isEmpty_map]
    cases i.returning.isEmpty <;> simp [blankPiece]
  have htable : Piece.ofName (statementSkeleton i).table =
      (Piece.ofName i.table).map blankPiece := ofName_blankName i.table
  rw [hpieces, hpieces, hbody, hconflict, hreturning, htable]
  simp only [List.map_cons, List.map_append, blankPiece]

theorem update_skeleton (u : Update) :
    (updateSkeleton u).pieces d = (u.pieces d).map blankPiece := by
  have hvalues : ∀ s : String × Assignment,
      Update.valuePieces? (blankName s.1, assignmentSkeleton s.2) =
        (Update.valuePieces? s).map (List.map blankPiece) := by
    rintro ⟨column, v | v⟩ <;> simp [assignmentSkeleton, Update.valuePieces?, blankPiece]
  have hadds : ∀ s : String × Assignment,
      Update.addPieces? (blankName s.1, assignmentSkeleton s.2) =
        (Update.addPieces? s).map (List.map blankPiece) := by
    rintro ⟨column, v | v⟩ <;> simp [assignmentSkeleton, Update.addPieces?, blankPiece]
  have hsets : (updateSkeleton u).setGroups = u.setGroups.map (List.map blankPiece) := by
    simp [updateSkeleton, Update.setGroups, List.filterMap_map, List.map_filterMap,
      Function.comp_def, hvalues, hadds, blankPiece]
  rw [Update.pieces, Update.pieces, hsets]
  simp [updateSkeleton, map_separated, condition_skeleton, blankPiece]

/-- Whether the rows of an insert fit does not depend on names and values. -/
theorem checkRows_skeleton (i : Insert) :
    (insertSkeleton i).checkRows.toOption = i.checkRows.toOption := by
  have hbad : ∀ (rows : List (List Value)) (n width : Nat),
      Insert.badRow? width n (rows.map fun row => row.map blankValue) =
        Insert.badRow? width n rows := by
    intro rows
    induction rows with
    | nil => intro n width; rfl
    | cons row rest ih =>
      intro n width
      simp only [List.map_cons, Insert.badRow?, List.length_map, ih]
  unfold Insert.checkRows insertSkeleton
  simp only [hbad, List.length_map]
  cases Insert.badRow? i.columns.length 0 i.rows <;> rfl

/-- The conflict clause of an insert depends on names only where an ID is to be reported. -/
theorem compiledClause_skeleton {i : Insert} (h : i.reportedId = none) :
    (compiledClause d (insertSkeleton i)).toOption =
      (compiledClause d i).toOption.map (Option.map clauseSkeleton) := by
  obtain ⟨table, columns, rows, returning, policy, reportedId⟩ := i
  subst h
  cases policy with
  | none => rfl
  | some policy =>
    obtain ⟨target, action⟩ := policy
    cases d with
    | mysql =>
      cases action <;> cases columns <;> cases target <;>
        simp [compiledClause, insertSkeleton, policySkeleton, Insert.duplicateClause,
          Insert.reportAssignments, Insert.duplicateAssignments, clauseSkeleton, Except.toOption,
          Functor.map, Except.map]
    | postgres | sqlite =>
      cases action <;> cases columns <;> cases target <;>
        simp [compiledClause, insertSkeleton, policySkeleton, Insert.conflictClause,
          clauseSkeleton, Except.toOption, Functor.map, Except.map]

/-! ## All drafts -/

/-- The ID column that an insert is to report for a conflicting row. -/
def Draft.reportedId? : Draft → Option String
  | .insert i => i.reportedId
  | _ => none

/-- A draft is refused together with its skeleton, and its pieces are those of its skeleton but for
names and values. -/
theorem draft_skeleton {x : Draft} (h : x.reportedId? = none) :
    (x.skeleton.pieces d).toOption = (x.pieces d).toOption.map (List.map blankPiece) := by
  cases x with
  | condition p => exact congrArg some (predicate_skeleton d p)
  | select s => exact congrArg some (selector_skeleton d s)
  | anyRow s =>
    refine congrArg some ?_
    simp [Selector.existsPieces, selector_skeleton, blankPiece]
  | insert i =>
    have hpieces : ∀ j : Insert, ((Draft.insert j).pieces d).toOption =
        j.checkRows.toOption.bind fun _ => (compiledClause d j).toOption.map fun conflict =>
          (compiledAs d j conflict).pieces d := by
      intro j
      rw [Draft.pieces, compile_eq]
      cases j.checkRows with
      | error e => rfl
      | ok _ => cases compiledClause d j <;> rfl
    have hstatement : ∀ conflict : Option ConflictClause,
        compiledAs d (insertSkeleton i) (conflict.map clauseSkeleton) =
          statementSkeleton (compiledAs d i conflict) := by
      intro conflict
      unfold compiledAs statementSkeleton insertSkeleton
      cases d.supportsReturning <;> rfl
    rw [Draft.skeleton, hpieces, hpieces, checkRows_skeleton, compiledClause_skeleton h]
    cases i.checkRows with
    | error e => rfl
    | ok _ =>
      cases compiledClause d i with
      | error e => rfl
      | ok conflict =>
        refine congrArg some ?_
        dsimp only
        rw [hstatement, statement_skeleton]
  | update u => exact congrArg some (update_skeleton u)
  | delete x =>
    refine congrArg some ?_
    simp [Delete.pieces, condition_skeleton, blankPiece]

/-! ## Tokens -/

/-- The tokens are the same, or both are quoted names. -/
def Token.SameButName (t u : Token) : Prop := t = u ∨ ∃ a b, t = .ident a ∧ u = .ident b

/-- The quoted name that a token is. -/
def Token.ident? : Token → Option String
  | .ident name => some name
  | _ => none

theorem forall₂_sameButName (ts : List Token) : List.Forall₂ Token.SameButName ts ts :=
  List.forall₂_same.mpr fun _ _ => .inl rfl

/-- Pieces that are the same but for names and values have the same tokens but for names. -/
theorem unfilled_sameButName {ps qs : List Piece} (h : ps.map blankPiece = qs.map blankPiece)
    (n : Nat) : List.Forall₂ Token.SameButName (unfilled d n ps) (unfilled d n qs) := by
  induction ps generalizing qs n with
  | nil =>
    obtain rfl : qs = [] := List.map_eq_nil_iff.mp h.symm
    exact .nil
  | cons p ps ih =>
    cases qs with
    | nil => cases h
    | cons q qs =>
      obtain ⟨hpiece, hrest⟩ := List.cons.inj h
      cases p with
      | raw s =>
        cases q with
        | raw s' =>
          obtain rfl := Piece.raw.inj hpiece
          exact List.rel_append (forall₂_sameButName _) (ih hrest n)
        | quoted _ | bound _ => cases hpiece
      | quoted a =>
        cases q with
        | quoted b => exact .cons (.inr ⟨a, b, rfl, rfl⟩) (ih hrest n)
        | raw _ | bound _ => cases hpiece
      | bound v =>
        cases q with
        | bound w => exact .cons (.inl rfl) (ih hrest (n + 1))
        | raw _ | quoted _ => cases hpiece

/-- The placeholders are no names. -/
theorem idents_unfilled (n : Nat) (ps : List Piece) :
    (unfilled d n ps).filterMap Token.ident? = (tokensOf d ps).filterMap Token.ident? := by
  induction ps generalizing n with
  | nil => rfl
  | cons p ps ih =>
    cases p with
    | raw s => simp only [unfilled, unfilledTokens, tokensOf_cons, List.filterMap_append, ih]
    | quoted s =>
      simp only [unfilled, unfilledTokens, tokensOf_cons, List.filterMap_append, ih]
      rfl
    | bound v =>
      have hnone : [placeholderToken d (n + 1)].filterMap Token.ident? = [] := by cases d <;> rfl
      simp only [unfilled, unfilledTokens, tokensOf_cons, List.filterMap_append, ih, hnone]
      rfl

theorem idents_readItems (ts : List Token) :
    (readItems ts).filterMap Item.ident? = ts.filterMap Token.ident? := by
  fun_induction readItems ts with
  | case1 rest ih | case2 rest ih | case3 rest ih | case5 v rest ih => exact ih
  | case4 name rest ih => exact congrArg (name :: ·) ih
  | case6 t rest _ _ _ hident _ ih =>
    cases t with
    | ident name => exact absurd rfl (hident name)
    | word _ | operator _ | mark _ | text _ | value _ => exact ih
  | case7 => rfl

/-- The quoted names in the text of a draft are the parts of its names. -/
theorem idents_of_draft {x : Draft} {ps : List Piece} (h : x.pieces d = .ok ps) :
    (unfilled d 0 ps).filterMap Token.ident? = (x.items d).filterMap Item.ident? := by
  have hread := (draft_shows h).read []
  rw [List.append_nil, readItems, List.append_nil] at hread
  rw [idents_unfilled, ← hread, idents_readItems]

theorem pieces_of_skeleton {x y : Draft} (h : x.skeleton = y.skeleton) (hx : x.reportedId? = none) :
    (x.pieces d).toOption.map (List.map blankPiece) =
      (y.pieces d).toOption.map (List.map blankPiece) := by
  have hreported : ∀ z : Draft, z.skeleton.reportedId? = z.reportedId?.map blankName := by
    intro z
    cases z <;> rfl
  have hy : y.reportedId? = none := by
    have hsame := hreported y
    rw [← h, hreported x, hx] at hsame
    exact Option.map_eq_none_iff.mp hsame.symm
  rw [← draft_skeleton hx, h, draft_skeleton hy]

/-- Of two drafts that are the same but for parts of names and for values that are there, both are
refused or none. The texts of their statements have the same tokens in the same order, but for the
contents of quoted names; and these are, without the doubling of quotes in them, the parts of the
names that are in each of the drafts. -/
theorem tokens_differ_in_names_only (d : Dialect) (x y : Draft) (hshape : x.skeleton = y.skeleton)
    (hreport : x.reportedId? = none) :
    ((x.statement d).isOk ↔ (y.statement d).isOk) ∧
    ∀ st st', x.statement d = .ok st → y.statement d = .ok st' →
      ∃ ts ts', lex d st.sql.toList = some ts ∧ lex d st'.sql.toList = some ts' ∧
        List.Forall₂ Token.SameButName ts ts' ∧
        ts.filterMap Token.ident? = (x.items d).filterMap Item.ident? ∧
        ts'.filterMap Token.ident? = (y.items d).filterMap Item.ident? := by
  have hpieces := pieces_of_skeleton (d := d) hshape hreport
  have hlex : ∀ {z : Draft} {ps : List Piece}, z.pieces d = .ok ps →
      lex d (Statement.ofPieces d ps).sql.toList = some (unfilled d 0 ps) := by
    intro z ps hps
    have hlex := lex_texts (draft_readable hps) 0
    rwa [← String.toList_join] at hlex
  refine ⟨?_, ?_⟩
  · unfold Draft.statement
    cases hx : x.pieces d <;> cases hy : y.pieces d <;> rw [hx, hy] at hpieces
    case error.error => exact Iff.rfl
    case ok.ok => exact Iff.rfl
    all_goals cases hpieces
  · intro st st' hst hst'
    obtain ⟨ps, hps, rfl⟩ := Draft.statement_eq_ok.mp hst
    obtain ⟨qs, hqs, rfl⟩ := Draft.statement_eq_ok.mp hst'
    rw [hps, hqs] at hpieces
    exact ⟨_, _, hlex hps, hlex hqs, unfilled_sameButName (Option.some.inj hpieces) 0,
      idents_of_draft hps, idents_of_draft hqs⟩

/-- An upsert of one row. -/
def upsertOf (table column : String) (v : Value) : Draft :=
  .insert (((Insert.into table).set column v).onConflict ⟨[column], .updateNewValues⟩)

/-- An upsert whose table, column and value are meant to be read as text of the statement. -/
def hostileUpsert : Draft :=
  upsertOf "u\" VALUES ($9); DROP \"x" "na\"\" ? AND \"$1" (.string "' OR 1 = 1")

theorem upserts_differ_in_names_only :
    (upsertOf "users" "name" (.string "a")).skeleton = hostileUpsert.skeleton ∧
    (hostileUpsert.statement .postgres).isOk ∧
    ∀ st st', (upsertOf "users" "name" (.string "a")).statement .postgres = .ok st →
      hostileUpsert.statement .postgres = .ok st' →
      ∃ ts ts', lex .postgres st.sql.toList = some ts ∧ lex .postgres st'.sql.toList = some ts' ∧
        List.Forall₂ Token.SameButName ts ts' := by
  have h := (tokens_differ_in_names_only .postgres (upsertOf "users" "name" (.string "a"))
    hostileUpsert rfl rfl).2
  refine ⟨rfl, rfl, fun st st' hst hst' => ?_⟩
  obtain ⟨ts, ts', hts, hts', hsame, -⟩ := h st st' hst hst'
  exact ⟨ts, ts', hts, hts', hsame⟩

end EntityGraph.Sql
