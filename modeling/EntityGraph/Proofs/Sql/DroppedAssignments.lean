import EntityGraph.Proofs.Sql.DerivableInserts

/-!
# Assignments that give way to a reported ID

On MySQL the assignment that reports the ID of the stored row takes the place of any other of that
column. Which ones these are is told from their texts: an assignment is dropped if its text begins
with the ID in quotes. `startsWith_eq` says of which columns this is true. Beside the ID itself
these are the dotted names of which it is the first part, and the columns that go on with a quote
after it, which is written twice and looks like the end of the ID at first.
-/

set_option autoImplicit false

namespace EntityGraph

open Sql Sql.Grammar

/-! ## Identifiers in quotes -/

/-- A text in quotes begins with another one in quotes if it is the same, or if it goes on with a
quote after it. -/
theorem quoted_isPrefix_iff {q : Char} {ident part more : List Char} (hmore : more.head? ≠ some q) :
    Dialect.doubleQuotes q ident ++ [q] <+: Dialect.doubleQuotes q part ++ q :: more ↔
      part = ident ∨ ident ++ [q] <+: part := by
  induction ident generalizing part with
  | nil =>
    cases part with
    | nil => simp [Dialect.doubleQuotes]
    | cons b part =>
      by_cases hb : b = q
      · simp [Dialect.doubleQuotes, hb]
      · simp [Dialect.doubleQuotes, hb, Ne.symm hb]
  | cons a ident ih =>
    cases part with
    | nil =>
      by_cases ha : a = q
      · subst ha
        cases more with
        | nil => simp [Dialect.doubleQuotes]
        | cons m more =>
          have hm : ¬a = m := fun h => hmore (by simp [h])
          simp [Dialect.doubleQuotes, hm]
      · simp [Dialect.doubleQuotes, ha]
    | cons b part =>
      by_cases hab : a = b
      · subst hab
        by_cases ha : a = q
        · subst ha
          simpa [Dialect.doubleQuotes] using @ih part
        · simpa [Dialect.doubleQuotes, ha] using @ih part
      · by_cases ha : a = q <;> by_cases hb : b = q
        · exact absurd (ha.trans hb.symm) hab
        · simp [Dialect.doubleQuotes, ha, hb, Ne.symm hb]
        · simp [Dialect.doubleQuotes, ha, hb, Ne.symm ha]
        · simp [Dialect.doubleQuotes, ha, hb, hab, Ne.symm hab]

/-- After the first part of its column an assignment goes on with a dot or with its sign. -/
theorem assignment_pieces (column : String) (ps : List Piece) : ∃ part others s tail,
    nameParts column = part :: others ∧
      Piece.ofName column ++ .raw " = " :: ps = namePiece part :: .raw s :: tail ∧
      (s = "." ∨ s = " = ") := by
  obtain ⟨part, others, hparts⟩ := List.exists_cons_of_ne_nil (nameParts_ne_nil column)
  have hname := ofName_eq column
  rw [hparts] at hname
  cases others with
  | nil =>
    refine ⟨part, [], " = ", ps, hparts, ?_, .inr rfl⟩
    rw [hname]
    rfl
  | cons other others =>
    rw [List.map_cons, List.map_cons, separated_cons] at hname
    exact ⟨part, other :: others, ".",
      Piece.separated "." ((other :: others).map fun part => [namePiece part]) ++ .raw " = " :: ps,
      hparts, by rw [hname]; rfl, .inl rfl⟩

/-- The text of an assignment begins with that of the first part of its column, which no quote
follows. -/
theorem assignment_text (column : String) (ps : List Piece) : ∃ part others more,
    nameParts column = part :: others ∧
      (Statement.ofPieces .mysql (Piece.ofName column ++ .raw " = " :: ps)).sql.toList =
        (pieceText .mysql 0 (namePiece part)).toList ++ more ∧ more.head? ≠ some '\x60' := by
  obtain ⟨part, others, s, tail, hparts, hpieces, hs⟩ := assignment_pieces column ps
  have htexts : Piece.texts .mysql 0 (namePiece part :: .raw s :: tail) =
      pieceText .mysql 0 (namePiece part) :: s :: Piece.texts .mysql 0 tail := by
    unfold namePiece
    split <;> rfl
  refine ⟨part, others, s.toList ++ (Piece.texts .mysql 0 tail).flatMap String.toList, hparts,
    ?_, ?_⟩
  · simp only [Statement.ofPieces, String.toList_join, hpieces, htexts, List.flatMap_cons]
  · rcases hs with rfl | rfl <;> simp

/-- In quotes, the ID is how the column begins: its first part is the ID, or goes on with a quote
after it. A star is written without quotes. -/
def beginsWithId (id column : String) : Bool :=
  match nameParts column with
  | [] => false
  | part :: _ => part != "*" && (part == id || (id.toList ++ ['\x60']).isPrefixOf part.toList)

/-- Which assignments give way to a reported ID. -/
theorem startsWith_eq (table id : String) (a : ConflictAssignment) :
    a.startsWith .mysql table id = beginsWithId id a.column := by
  obtain ⟨ps, hps⟩ : ∃ ps, a.pieces .mysql table = Piece.ofName a.column ++ .raw " = " :: ps :=
    ⟨_, rfl⟩
  obtain ⟨part, others, more, hparts, htext, hmore⟩ := assignment_text a.column ps
  rw [← hps] at htext
  rw [ConflictAssignment.startsWith, htext, beginsWithId, hparts, Bool.eq_iff_iff,
    List.isPrefixOf_iff_prefix]
  by_cases hstar : part = "*"
  · subst hstar
    simp [Dialect.quote, Dialect.quoteChar, namePiece, pieceText]
  · have hquoted := @quoted_isPrefix_iff _ id.toList part.toList _ hmore
    simp only [Dialect.quote, Dialect.quoteChar, namePiece, hstar, if_false, pieceText,
      String.toList_ofList, List.cons_append, List.append_assoc, List.nil_append,
      List.cons_prefix_cons, true_and, hquoted, Bool.and_eq_true, Bool.or_eq_true, bne_iff_ne,
      ne_eq, not_false_eq_true, beq_iff_eq, List.isPrefixOf_iff_prefix, String.toList_inj]

/-! ## The assignments of a policy -/

namespace Insert

/-- The assignment of a column is kept when the stored row is touched. -/
def keepsColumn (d : Dialect) (i : Insert) (column : String) : Bool :=
  match d, i.reportedId with
  | .mysql, some id => i.columns.contains id || !beginsWithId id column
  | _, _ => true

/-- The assignment that reports an ID. An ID that is written is not reported. -/
def reporting (d : Dialect) (i : Insert) : List ConflictAssignment :=
  match d, i.reportedId with
  | .mysql, some id => if i.columns.contains id then [] else [⟨id, .reported⟩]
  | _, _ => []

/-- What the columns of a touched row are set to. -/
def touchedValue : ConflictAction → AssignedValue
  | .doNothing => .itself
  | .ignore => .stored
  | .updateNewValues => .proposed

/-- The assignments of a conflict clause that touches the stored row. -/
def touched (d : Dialect) (i : Insert) (action : ConflictAction) : List ConflictAssignment :=
  (i.columns.filter (i.keepsColumn d)).map (⟨·, touchedValue action⟩) ++ i.reporting d

variable {d : Dialect} {i : Insert} {policy : ConflictPolicy}

theorem touched_eq (hd : d ≠ .mysql) (action : ConflictAction) :
    i.touched d action = i.columns.map (⟨·, touchedValue action⟩) := by
  have hkept : ∀ c ∈ i.columns, i.keepsColumn d c = true := fun c _ => by
    cases d with
    | mysql => exact absurd rfl hd
    | postgres | sqlite => rfl
  have hreporting : i.reporting d = [] := by
    cases d with
    | mysql => exact absurd rfl hd
    | postgres | sqlite => rfl
  rw [touched, List.filter_eq_self.mpr hkept, hreporting, List.append_nil]

theorem reportAssignments_touched {action : ConflictAction} (haction : action ≠ .doNothing) :
    i.reportAssignments action (i.duplicateAssignments action) = i.touched .mysql action := by
  have hall : i.duplicateAssignments action = i.columns.map (⟨·, touchedValue action⟩) := by
    cases action with
    | doNothing => exact absurd rfl haction
    | ignore | updateNewValues => rfl
  rw [hall, reportAssignments, touched]
  cases hid : i.reportedId with
  | none =>
    have hkept : ∀ c ∈ i.columns, i.keepsColumn .mysql c = true := fun c _ => by
      simp [keepsColumn, hid]
    simp [List.filter_eq_self.mpr hkept, reporting, hid]
  | some id =>
    by_cases hwritten : id ∈ i.columns
    · have hkept : ∀ c ∈ i.columns, i.keepsColumn .mysql c = true := fun c _ => by
        simp [keepsColumn, hid, hwritten]
      simp [List.filter_eq_self.mpr hkept, reporting, hid, hwritten, haction]
    · have hkept : i.keepsColumn .mysql = fun c => !beginsWithId id c := by
        funext c
        simp [keepsColumn, hid, hwritten]
      simp [hkept, reporting, hid, hwritten, List.filter_map, Function.comp_def, startsWith_eq]

/-- The clause that a policy is compiled to on MySQL, if a column is written. -/
theorem duplicateClause_eq (hcolumns : i.columns ≠ []) :
    i.duplicateClause policy = .ok (.onDuplicateKey
      (i.reportAssignments policy.action (i.duplicateAssignments policy.action))) := by
  have hne : i.reportAssignments policy.action (i.duplicateAssignments policy.action) ≠ [] := by
    have hsome : i.duplicateAssignments policy.action ≠ [] := by
      unfold duplicateAssignments
      split
      · split
        · exact List.cons_ne_nil _ _
        · contradiction
      · simpa using hcolumns
      · simpa using hcolumns
    unfold reportAssignments
    split
    · exact hsome
    · split
      · simp
      · exact hsome
  unfold duplicateClause
  split
  case h_1 hnil => exact absurd hnil hne
  case h_2 => rfl

end Insert

end EntityGraph
