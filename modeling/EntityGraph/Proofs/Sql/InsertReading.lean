import EntityGraph.Proofs.Sql.FilledLists
import EntityGraph.Proofs.Sql.InsertGrammar

/-!
# What a compiled INSERT says

The tokens of an INSERT are derived part by part, by the productions of its grammar. The conflict
clause of a policy that is compiled always is derivable; whether the whole statement is depends on
its rows.
-/

set_option autoImplicit false

namespace EntityGraph.Sql.Grammar

variable {d : Dialect} {α β : Type}

/-! ## Lists -/

/-- Items with marks between them are derived one after another, if each of them is. -/
theorem listed_intercalate {item : Production β} {c : Char} {f : α → List Token} {g : α → β}
    {xs : List α} {rest : List Token} (hitem : ∀ x ∈ xs, ∀ r, item (f x ++ r) (g x) r)
    (hne : xs ≠ []) :
    Listed c item ([Token.mark c].intercalate (xs.map f) ++ rest) (xs.map g) rest := by
  induction xs with
  | nil => exact absurd rfl hne
  | cons x xs ih =>
    have hx := hitem x List.mem_cons_self
    cases xs with
    | nil => simpa [List.intercalate] using Listed.last (c := c) (hx rest)
    | cons y ys =>
      have hothers := ih (fun z hz => hitem z (List.mem_cons_of_mem x hz)) (List.cons_ne_nil y ys)
      have htokens : [Token.mark c].intercalate ((x :: y :: ys).map f) ++ rest =
          f x ++ .mark c :: ([Token.mark c].intercalate ((y :: ys).map f) ++ rest) := by
        simp [List.intercalate]
      rw [htokens]
      exact .more (hx _) hothers

/-- Items that stand for themselves. -/
theorem listed_self {item : Production α} {c : Char} {f : α → List Token} {xs : List α}
    {rest : List Token} (hitem : ∀ x ∈ xs, ∀ r, item (f x ++ r) x r) (hne : xs ≠ []) :
    Listed c item ([Token.mark c].intercalate (xs.map f) ++ rest) xs rest := by
  rw [← List.map_id xs, List.map_map]
  exact listed_intercalate (g := id) hitem hne

/-! ## Names, values and rows -/

@[simp]
theorem tokens_openAfter : pieceTokens d (.raw " (") = [.mark '('] := by cases d <;> rfl

@[simp]
theorem tokens_rowsAfter :
    pieceTokens d (.raw ") VALUES ") = [.mark ')', .word "VALUES"] := by cases d <;> rfl

theorem name_derived (s : String) (rest : List Token) :
    Name (tokensOf d (Piece.ofName s) ++ rest) (nameParts s) rest := by
  rw [tokensOf_name]
  refine listed_self (fun part _ r => ?_) (nameParts_ne_nil s)
  rw [pieceTokens_namePiece]
  split
  case isTrue hstar =>
    subst hstar
    exact .star r
  case isFalse => exact .ident part r

theorem names_derived {names : List String} (hne : names ≠ []) (rest : List Token) :
    Names (tokensOf d (Piece.ofNames names) ++ rest) (names.map nameParts) rest := by
  have htokens : tokensOf d (Piece.ofNames names) = [Token.mark ','].intercalate
      (names.map fun s => tokensOf d (Piece.ofName s)) := by
    rw [Piece.ofNames, tokensOf_separated, tokens_comma, List.map_map]
    rfl
  rw [htokens]
  exact listed_intercalate (fun s _ r => name_derived s r) hne

theorem literal_derived (v : Value) (rest : List Token) :
    Literal (pieceTokens d (Piece.ofValue v) ++ rest) v rest := by
  cases v with
  | null =>
    have hnull : pieceTokens d (Piece.ofValue .null) = [.word "NULL"] := tokens_null d
    rw [hnull]
    exact .null rest
  | _ => exact .value _ rest

/-- The pieces of a row. -/
theorem row_derived {row : List Value} (hne : row ≠ []) (rest : List Token) :
    Bracketed (Listed ',' Literal)
      (tokensOf d (.raw "(" :: (Piece.ofValues row ++ [.raw ")"])) ++ rest) row rest := by
  simp only [tokensOf_cons, tokensOf_append, tokensOf_nil, tokens_open, tokens_close,
    values_tokens, List.append_nil, List.cons_append, List.nil_append, List.append_assoc]
  exact .mk (listed_self (fun v _ r => literal_derived v r) hne)

/-! ## Conflict clauses -/

/-- What an assignment says. -/
def setItem (table : String) (a : ConflictAssignment) : SetItem :=
  { target := nameParts a.column
    value :=
      match a.value with
      | .itself => .column (nameParts a.column)
      | .stored => .column (nameParts (table ++ "." ++ a.column))
      | .proposed => .proposed (nameParts a.column)
      | .reported => .lastId (nameParts (table ++ "." ++ a.column)) }

/-- What a conflict clause says. -/
def clauseReading (table : String) : ConflictClause → ConflictReading
  | .doNothing target => .nothing (target.map nameParts)
  | .doUpdate target as => .update (target.map nameParts) (as.map (setItem table))
  | .onDuplicateKey as => .duplicate (as.map (setItem table))

/-- A conflict clause that the dialect has. -/
def ClauseOf (d : Dialect) : ConflictClause → Prop
  | .doNothing _ => d ≠ .mysql
  | .doUpdate target as =>
    d ≠ .mysql ∧ target ≠ [] ∧ as ≠ [] ∧ ∀ a ∈ as, a.value ≠ .reported
  | .onDuplicateKey as => d = .mysql ∧ as ≠ []

/-- The pieces of a function of a column. -/
theorem bracketedName_derived {f w : String} (hf : pieceTokens d (.raw f) = [.word w, .mark '('])
    (s : String) (rest : List Token) :
    ∃ ts, tokensOf d (.raw f :: (Piece.ofName s ++ [.raw ")"])) ++ rest = .word w :: ts ∧
      Bracketed Name ts (nameParts s) rest := by
  refine ⟨.mark '(' :: (tokensOf d (Piece.ofName s) ++ .mark ')' :: rest), ?_,
    .mk (name_derived s _)⟩
  simp [hf]

/-- The pieces of the right side of an assignment. -/
theorem rightSide_derived (table : String) {a : ConflictAssignment}
    (h : a.value = .reported → d = .mysql) (rest : List Token) :
    ∃ ps, a.pieces d table = Piece.ofName a.column ++ .raw " = " :: ps ∧
      RightSide d (tokensOf d ps ++ rest) (setItem table a).value rest := by
  obtain ⟨column, value⟩ := a
  refine ⟨_, rfl, ?_⟩
  cases value with
  | itself => exact .column (name_derived column rest)
  | stored => exact .column (name_derived (table ++ "." ++ column) rest)
  | proposed =>
    by_cases hd : d = .mysql
    · have hvalues : pieceTokens d (.raw "VALUES(") = [.word "VALUES", .mark '('] := by
        cases d <;> rfl
      obtain ⟨ts, hts, hname⟩ := bracketedName_derived hvalues column rest
      simp only [hd, if_true] at hts ⊢
      rw [hts]
      exact .values rfl hname
    · have hexcluded : pieceTokens d (.raw "excluded.") = [.word "excluded", .mark '.'] := by
        cases d <;> rfl
      simp only [hd, if_false, tokensOf_cons, hexcluded]
      exact .excluded hd (name_derived column rest)
  | reported =>
    have hlast : pieceTokens d (.raw "LAST_INSERT_ID(") =
        [.word "LAST_INSERT_ID", .mark '('] := by
      cases d <;> rfl
    obtain ⟨ts, hts, hname⟩ := bracketedName_derived hlast (table ++ "." ++ column) rest
    dsimp only
    rw [hts]
    exact .lastInsertId (h rfl) hname

theorem assigns_derived (table : String) {a : ConflictAssignment}
    (h : a.value = .reported → d = .mysql) (rest : List Token) :
    Assigns d (tokensOf d (a.pieces d table) ++ rest) (setItem table a) rest := by
  obtain ⟨ps, hps, hvalue⟩ := rightSide_derived table h rest
  rw [hps, tokensOf_append, List.append_assoc, tokensOf_cons, tokens_equals]
  exact .mk (name_derived a.column _) hvalue

theorem assignments_derived (table : String) {as : List ConflictAssignment} (hne : as ≠ [])
    (h : ∀ a ∈ as, a.value = .reported → d = .mysql) (rest : List Token) :
    Listed ',' (Assigns d) (tokensOf d (ConflictClause.assignmentPieces d table as) ++ rest)
      (as.map (setItem table)) rest := by
  rw [ConflictClause.assignmentPieces, tokensOf_separated, tokens_comma, List.map_map]
  exact listed_intercalate (fun a ha r => assigns_derived table (h a ha) r) hne

/-- The pieces of a conflict target that is not empty. -/
theorem target_tokens {target : List String} (hne : target ≠ []) (rest : List Token) :
    ∃ ts, tokensOf d (ConflictClause.targetPieces target) ++ rest =
      .word "ON" :: .word "CONFLICT" :: ts ∧ Bracketed Names ts (target.map nameParts) rest := by
  have hon : pieceTokens d (.raw " ON CONFLICT") = [.word "ON", .word "CONFLICT"] := by
    cases d <;> rfl
  refine ⟨.mark '(' :: (tokensOf d (Piece.ofNames target) ++ .mark ')' :: rest), ?_,
    .mk (names_derived hne _)⟩
  simp [ConflictClause.targetPieces, hne, hon]

/-- A conflict clause that the dialect has is derived from its pieces. -/
theorem conflict_derived (table : String) {clause : ConflictClause} (h : ClauseOf d clause)
    (rest : List Token) :
    Conflict d (tokensOf d (clause.pieces d table) ++ rest) (clauseReading table clause) rest := by
  cases clause with
  | doNothing target =>
    have hnothing : pieceTokens d (.raw " DO NOTHING") = [.word "DO", .word "NOTHING"] := by
      cases d <;> rfl
    rw [ConflictClause.pieces, tokensOf_append, List.append_assoc]
    simp only [tokensOf_cons, tokensOf_nil, hnothing, List.append_nil, List.cons_append,
      List.nil_append]
    by_cases hne : target = []
    · subst hne
      have hon : tokensOf d (ConflictClause.targetPieces []) = [.word "ON", .word "CONFLICT"] := by
        cases d <;> rfl
      rw [hon]
      exact .nothing h (.absent _)
    · obtain ⟨ts, hts, htarget⟩ :=
        target_tokens (d := d) hne (.word "DO" :: .word "NOTHING" :: rest)
      rw [hts]
      exact .nothing h (.columns htarget)
  | doUpdate target as =>
    obtain ⟨hd, hne, has, hreported⟩ := h
    have hset : pieceTokens d (.raw " DO UPDATE SET ") =
        [.word "DO", .word "UPDATE", .word "SET"] := by
      cases d <;> rfl
    rw [ConflictClause.pieces, tokensOf_append, List.append_assoc]
    simp only [tokensOf_cons, hset, List.cons_append, List.nil_append]
    obtain ⟨ts, hts, htarget⟩ := target_tokens (d := d) hne (.word "DO" :: .word "UPDATE" ::
      .word "SET" :: (tokensOf d (ConflictClause.assignmentPieces d table as) ++ rest))
    rw [hts]
    exact .update hd htarget
      (assignments_derived table has (fun a ha hr => absurd hr (hreported a ha)) rest)
  | onDuplicateKey as =>
    obtain ⟨hd, has⟩ := h
    have hkey : pieceTokens d (.raw " ON DUPLICATE KEY UPDATE ") =
        [.word "ON", .word "DUPLICATE", .word "KEY", .word "UPDATE"] := by
      cases d <;> rfl
    rw [ConflictClause.pieces, tokensOf_cons, hkey]
    exact .duplicate hd (assignments_derived table has (fun _ _ _ => hd) rest)

/-- A policy is compiled to a conflict clause that the dialect has. -/
theorem compiledClause_clauseOf {i : Insert} {clause : ConflictClause}
    (h : compiledClause d i = .ok (some clause)) : ClauseOf d clause := by
  have hsome := compiledClause_setsSome h
  have hconflict : ∀ policy, d ≠ .mysql → i.conflictClause policy = .ok clause →
      ClauseOf d clause := by
    intro policy hd h
    have htarget : ∀ value, value ≠ .reported →
        (if policy.columns.isEmpty then .error (.validation i.table .conflictColumnsRequired)
          else .ok (.doUpdate policy.columns (i.columns.map (⟨·, value⟩)))) =
          (Except.ok clause : Except Error ConflictClause) → ClauseOf d clause := by
      intro value hvalue h
      split at h
      case isTrue => cases h
      case isFalse hne =>
        obtain rfl := Except.ok.inj h
        refine ⟨hd, by simpa using hne, hsome, fun a ha => ?_⟩
        obtain ⟨column, -, rfl⟩ := List.mem_map.mp ha
        exact hvalue
    unfold Insert.conflictClause at h
    dsimp only at h
    split at h
    case h_1 =>
      obtain rfl := Except.ok.inj h
      exact hd
    case h_2 => exact htarget .stored (by decide) h
    case h_3 => exact htarget .proposed (by decide) h
  unfold compiledClause at h
  split at h
  case h_1 => cases h
  all_goals
    obtain ⟨compiled, hcompiled, hsame⟩ := bind_eq_ok.mp h
    obtain rfl : compiled = clause := Option.some.inj (Except.ok.inj hsame)
  case h_2 policy _ =>
    unfold Insert.duplicateClause at hcompiled
    split at hcompiled
    case h_1 =>
      split at hcompiled
      case h_1 =>
        obtain rfl := Except.ok.inj hcompiled
        exact ⟨rfl, hsome⟩
      case h_2 => cases hcompiled
    case h_2 =>
      obtain rfl := Except.ok.inj hcompiled
      exact ⟨rfl, hsome⟩
  case h_3 policy _ => exact hconflict policy (by decide) hcompiled
  case h_4 policy _ => exact hconflict policy (by decide) hcompiled

end EntityGraph.Sql.Grammar
