import EntityGraph.Proofs.Sql.Reading

/-!
# Rendered conditions mean what the tree says

The tokens of a rendered condition or selection are read back by the parser, and what it makes of
them has the meaning of the tree: a condition has the same truth among all rows of all databases, a
selection the same rows. There is one step for each form of a tree, which says how its tokens are
read if those of its parts are; `parses_predicate` and its companions put the steps together.
-/

set_option autoImplicit false

namespace EntityGraph.Sql

variable {d : Dialect} {α : Type}

/-- The tokens are read as something good whatever follows them. A token can need eight steps, and
`k` more are needed to get to the first one. -/
def Reads (read : Nat → List Token → Option (α × List Token)) (words : List String) (k : Nat)
    (ts : List Token) (good : α → Prop) : Prop :=
  ∃ a, good a ∧ ∀ n rest, Closes words rest → 8 * ts.length + k ≤ n →
    read n (ts ++ rest) = some (a, rest)

/-- The keywords that may follow the condition of a selection. -/
def afterCondition : List String := ["ORDER", "LIMIT", "OFFSET"]

/-- The keywords that may follow the member of a disjunction. -/
def afterConjunction : List String := "OR" :: afterCondition

/-- The keywords that may follow the member of a conjunction. -/
def afterMember : List String := "AND" :: afterConjunction

/-- The keywords that may follow the joined sources. -/
def afterJoins : List String := "WHERE" :: afterCondition

/-- The keywords that may follow a source. -/
def afterSource : List String := "ON" :: "JOIN" :: afterJoins

/-- The expression is as true as the condition, among all rows of all databases. -/
def Expr.Means (e : Expr) (p : Predicate) : Prop :=
  ∀ E db env, e.truth E db env = p.truth E db env

/-- The selection that was read selects the rows of the tree. -/
def Query.Means (q : Query) (s : Selector) : Prop :=
  ∀ E db env, q.outRows E db env = s.outRows E db env

/-! ## Tests of an operand -/

/-- A test after a name is a member of a junction. -/
theorem negation_of_test {column : String} {ts : List Token} {good : Expr → Prop}
    (hdot : ∀ rest, mark '.' (ts ++ rest) = none)
    (h : Reads (fun n => test d n (.column (nameParts column))) afterMember 1 ts good) :
    Reads (negation d) afterMember 5 (tokensOf d (Piece.ofName column) ++ ts) good := by
  obtain ⟨e, he, hread⟩ := h
  refine ⟨e, he, fun n rest hrest hn => ?_⟩
  rw [List.length_append] at hn
  obtain ⟨n, rfl⟩ : ∃ m, n = m + 2 := ⟨n - 2, by omega⟩
  have hlength : (tokensOf d (Piece.ofName column)).length ≤ n := by omega
  have hoperand := operand_name hlength (hdot rest)
  have htest := hread n rest hrest (by omega)
  obtain ⟨t, us, hus, hkind⟩ := name_head (d := d) column
  rw [List.append_assoc]
  rw [hus, List.cons_append] at hoperand ⊢
  have hnot : keyword "NOT" (t :: (us ++ (ts ++ rest))) = none := by
    rcases hkind with rfl | ⟨i, rfl⟩ <;> rfl
  have hany : keyword "EXISTS" (t :: (us ++ (ts ++ rest))) = none := by
    rcases hkind with rfl | ⟨i, rfl⟩ <;> rfl
  have hopen : mark '(' (t :: (us ++ (ts ++ rest))) = none := by
    rcases hkind with rfl | ⟨i, rfl⟩ <;> rfl
  simp only [negation, condition, hnot, hany, hopen, hoperand]
  exact htest

theorem comparison_token (op : Comparison) :
    ∃ w, pieceTokens d (.raw op.sql) = [.operator w] ∧ comparison? w = some op := by
  cases op <;> cases d <;> exact ⟨_, rfl, rfl⟩

theorem compare_complete (column : String) (op : Comparison) (v : Value) :
    Reads (negation d) afterMember 5
      (tokensOf d (Piece.ofName column ++ [.raw op.sql, Piece.ofValue v]))
      fun e => ∀ E db env, e.truth E db env = E.compare op (env.lookup (nameParts column)) v := by
  obtain ⟨w, hw, hop⟩ := comparison_token (d := d) op
  have htokens : tokensOf d [.raw op.sql, Piece.ofValue v] =
      .operator w :: pieceTokens d (Piece.ofValue v) := by
    simp [hw]
  rw [tokensOf_append, htokens]
  refine negation_of_test (fun _ => rfl)
    ⟨.compare op (.column (nameParts column)) (.literal v), fun _ _ _ => rfl, ?_⟩
  intro n rest _ hn
  obtain ⟨n, rfl⟩ : ∃ m, n = m + 1 := ⟨n - 1, by omega⟩
  rw [List.cons_append]
  simp only [test, hop, operand_value]
  rfl

theorem isNull_complete (column : String) :
    Reads (negation d) afterMember 5 (tokensOf d (Piece.ofName column ++ [.raw " IS NULL"]))
      fun e => ∀ E db env, e.truth E db env = .ofBool (env.lookup (nameParts column)).isNull := by
  rw [tokensOf_append]
  refine negation_of_test (fun _ => by simp)
    ⟨.isNull (.column (nameParts column)), fun _ _ _ => rfl, ?_⟩
  intro n rest _ hn
  obtain ⟨n, rfl⟩ : ∃ m, n = m + 1 := ⟨n - 1, by omega⟩
  simp [test]

theorem notNull_complete (column : String) :
    Reads (negation d) afterMember 5 (tokensOf d (Piece.ofName column ++ [.raw " IS NOT NULL"]))
      fun e => ∀ E db env, e.truth E db env = .ofBool !(env.lookup (nameParts column)).isNull := by
  rw [tokensOf_append]
  refine negation_of_test (fun _ => by simp) ⟨.not (.isNull (.column (nameParts column))), ?_, ?_⟩
  · intro E db env
    exact Truth.not_ofBool _
  · intro n rest _ hn
    obtain ⟨n, rfl⟩ : ∃ m, n = m + 1 := ⟨n - 1, by omega⟩
    simp [test]

/-- A list of values does not start with a keyword of its own. -/
theorem keyword_values {vs : List Value} (hne : vs ≠ []) {w : String} (hw : w ≠ "NULL")
    (rest : List Token) : keyword w (tokensOf d (Piece.ofValues vs) ++ rest) = none := by
  cases vs with
  | nil => exact absurd rfl hne
  | cons v vs =>
    have hhead : ∀ us, keyword w (pieceTokens d (Piece.ofValue v) ++ us) = none := by
      intro us
      unfold Piece.ofValue
      split
      case isTrue => simp [hw.symm]
      case isFalse => simp
    rw [values_tokens]
    cases vs with
    | nil => simpa [List.intercalate] using hhead rest
    | cons v' vs => simpa [List.intercalate] using hhead _

theorem isIn_complete (column : String) {vs : List Value} (hne : vs ≠ []) :
    Reads (negation d) afterMember 5
      (tokensOf d (Piece.ofName column ++ .raw " IN (" :: (Piece.ofValues vs ++ [.raw ")"])))
      fun e => ∀ E db env, e.truth E db env = E.isIn (env.lookup (nameParts column)) vs := by
  rw [tokensOf_append]
  refine negation_of_test (fun _ => by simp)
    ⟨.isIn (.column (nameParts column)) (vs.map .literal), ?_, ?_⟩
  · intro E db env
    simp [Expr.truth, Operand.value, Function.comp_def]
  · intro n rest _ hn
    obtain ⟨n, rfl⟩ : ∃ m, n = m + 1 := ⟨n - 1, by omega⟩
    simp only [tokensOf_cons, tokensOf_append, tokens_in, tokens_close, List.length_append] at hn
    have hlength : (tokensOf d (Piece.ofValues vs)).length ≤ n := by omega
    have hselect := keyword_values (d := d) hne (w := "SELECT") (by decide) (.mark ')' :: rest)
    have hvalues := operands_complete hne hlength (.mark ')' :: rest) rfl
    simp [test, hselect, hvalues]

theorem notIn_complete (column : String) {vs : List Value} (hne : vs ≠ []) :
    Reads (negation d) afterMember 5
      (tokensOf d (Piece.ofName column ++ .raw " NOT IN (" :: (Piece.ofValues vs ++ [.raw ")"])))
      fun e => ∀ E db env, e.truth E db env = (E.isIn (env.lookup (nameParts column)) vs).not := by
  rw [tokensOf_append]
  refine negation_of_test (fun _ => by simp)
    ⟨.not (.isIn (.column (nameParts column)) (vs.map .literal)), ?_, ?_⟩
  · intro E db env
    simp [Expr.truth, Operand.value, Function.comp_def]
  · intro n rest _ hn
    obtain ⟨n, rfl⟩ : ∃ m, n = m + 1 := ⟨n - 1, by omega⟩
    simp only [tokensOf_cons, tokensOf_append, tokens_notIn, tokens_close,
      List.length_append] at hn
    have hlength : (tokensOf d (Piece.ofValues vs)).length ≤ n := by omega
    have hvalues := operands_complete hne hlength (.mark ')' :: rest) rfl
    simp [test, hvalues]

theorem like_complete (column pattern : String) :
    Reads (negation d) afterMember 5 (tokensOf d (Predicate.pieces d (.like column pattern)))
      (Expr.Means · (.like column pattern)) := by
  rw [Predicate.pieces, List.append_assoc, tokensOf_append]
  refine negation_of_test (fun _ => by simp)
    ⟨.like (.column (nameParts column)) (.literal (.string pattern)) (some '\\'),
      fun _ _ _ => by rw [Predicate.truth]; rfl, ?_⟩
  intro n rest hrest hn
  obtain ⟨n, rfl⟩ : ∃ m, n = m + 1 := ⟨n - 1, by omega⟩
  have hescape : keyword "ESCAPE" rest = none := hrest.keyword_eq_none (by decide)
  have hvalue : ∀ us, operand n (.value (.string pattern) :: us) =
      some (.literal (.string pattern), us) := fun _ => rfl
  cases d with
  | sqlite => simp [test, hvalue, escape]
  | mysql => simp [test, hvalue, escape, hescape, defaultEscape]
  | postgres => simp [test, hvalue, escape, hescape, defaultEscape]

/-! ## Junctions and negations -/

/-- The pieces of a condition as one of several members of a junction. -/
def memberPieces (d : Dialect) (p : Predicate) : List Piece :=
  if p.isJunction then .raw "(" :: (p.pieces d ++ [.raw ")"]) else p.pieces d

theorem membersPieces_cons (operator : String) (p : Predicate) (ps : List Predicate) :
    membersPieces d operator (p :: ps) =
      .raw operator :: (memberPieces d p ++ membersPieces d operator ps) := by
  rw [membersPieces]
  rfl

theorem conj_pieces (p q : Predicate) (ps : List Predicate) :
    (Predicate.conj (p :: q :: ps)).pieces d =
      memberPieces d p ++ membersPieces d " AND " (q :: ps) := by
  rw [Predicate.pieces]
  simp [memberPieces]

theorem disj_pieces (p q : Predicate) (ps : List Predicate) :
    (Predicate.disj (p :: q :: ps)).pieces d =
      memberPieces d p ++ membersPieces d " OR " (q :: ps) := by
  rw [Predicate.pieces]
  simp [memberPieces]

/-- The tokens of a condition are read as a whole expression, and, as they stand in a junction, as
one of its members. -/
structure Parses (d : Dialect) (p : Predicate) : Prop where
  whole : Reads (expr d) afterCondition 8 (tokensOf d (p.pieces d)) (Expr.Means · p)
  member : Reads (negation d) afterMember 5 (tokensOf d (memberPieces d p)) (Expr.Means · p)

theorem expr_of_negation {ts : List Token} {good : Expr → Prop}
    (h : Reads (negation d) afterMember 5 ts good) : Reads (expr d) afterCondition 8 ts good := by
  obtain ⟨e, he, hread⟩ := h
  refine ⟨e, he, fun n rest hrest hn => ?_⟩
  obtain ⟨n, rfl⟩ : ∃ m, n = m + 3 := ⟨n - 3, by omega⟩
  have hsub : afterCondition ⊆ afterMember := by
    intro w hw
    exact List.mem_cons_of_mem _ (List.mem_cons_of_mem _ hw)
  have hnegation := hread (n + 1) rest (hrest.mono hsub) (by omega)
  have hand : keyword "AND" rest = none := hrest.keyword_eq_none (by decide)
  have hor : keyword "OR" rest = none := hrest.keyword_eq_none (by decide)
  simp [expr, conjunction, hnegation, moreAnd, moreOr, hand, hor]

theorem negation_of_brackets {ps : List Piece} {good : Expr → Prop}
    (h : Reads (expr d) afterCondition 8 (tokensOf d ps) good) :
    Reads (negation d) afterMember 5 (tokensOf d (.raw "(" :: (ps ++ [.raw ")"]))) good := by
  obtain ⟨e, he, hread⟩ := h
  refine ⟨e, he, fun n rest _ hn => ?_⟩
  simp only [tokensOf_cons, tokensOf_append, tokens_open, tokens_close, List.length_append,
    List.length_cons] at hn
  obtain ⟨n, rfl⟩ : ∃ m, n = m + 2 := ⟨n - 2, by omega⟩
  have hexpr := hread n (.mark ')' :: rest) (.bracket rest) (by omega)
  simp [negation, condition, hexpr]

/-- What is read as one of several members is also read as a whole. -/
theorem Parses.of_negation {p : Predicate} (hp : p.isJunction = false)
    (h : Reads (negation d) afterMember 5 (tokensOf d (p.pieces d)) (Expr.Means · p)) :
    Parses d p := by
  refine ⟨expr_of_negation h, ?_⟩
  rw [memberPieces, hp]
  exact h

/-- A junction is one of several members in brackets. -/
theorem Parses.of_expr {p : Predicate} (hp : p.isJunction = true)
    (h : Reads (expr d) afterCondition 8 (tokensOf d (p.pieces d)) (Expr.Means · p)) :
    Parses d p := by
  refine ⟨h, ?_⟩
  rw [memberPieces, hp]
  exact negation_of_brackets h

theorem moreAnd_complete {ps : List Predicate} (h : ∀ p ∈ ps, Parses d p) (e : Expr) :
    Reads (fun n => moreAnd d n e) afterConjunction 1 (tokensOf d (membersPieces d " AND " ps))
      fun f => ∀ E db env,
        f.truth E db env = (e.truth E db env).and (conjTruth E db ps env) := by
  induction ps generalizing e with
  | nil =>
    refine ⟨e, fun E db env => ?_, fun n rest hrest hn => ?_⟩
    · rw [conjTruth, Truth.and_yes]
    · obtain ⟨n, rfl⟩ : ∃ m, n = m + 1 := ⟨n - 1, by omega⟩
      have hand : keyword "AND" rest = none := hrest.keyword_eq_none (by decide)
      simp [membersPieces, moreAnd, hand]
  | cons p ps ih =>
    obtain ⟨f, hf, hmember⟩ := (h p List.mem_cons_self).member
    obtain ⟨g, hg, hmore⟩ := ih (fun q hq => h q (List.mem_cons_of_mem p hq)) (.and e f)
    refine ⟨g, fun E db env => ?_, fun n rest hrest hn => ?_⟩
    · rw [hg E db env, conjTruth, Expr.truth, hf E db env, Truth.and_assoc]
    · rw [membersPieces_cons] at hn ⊢
      simp only [tokensOf_cons, tokensOf_append, tokens_and, List.length_append,
        List.length_cons] at hn
      obtain ⟨n, rfl⟩ : ∃ m, n = m + 1 := ⟨n - 1, by omega⟩
      have hfollow : Closes afterMember
          (tokensOf d (membersPieces d " AND " ps) ++ rest) := by
        cases ps with
        | nil => exact hrest.mono (List.subset_cons_self _ _)
        | cons q ps =>
          rw [membersPieces_cons, tokensOf_cons, tokens_and]
          exact .word List.mem_cons_self _
      have hnegation := hmember n _ hfollow (by omega)
      have htail := hmore n rest hrest (by omega)
      simp [moreAnd, hnegation, htail]

theorem conjunction_of_member {p : Predicate} (h : Parses d p) :
    Reads (conjunction d) afterConjunction 7 (tokensOf d (memberPieces d p)) (Expr.Means · p) := by
  obtain ⟨e, he, hread⟩ := h.member
  refine ⟨e, he, fun n rest hrest hn => ?_⟩
  obtain ⟨n, rfl⟩ : ∃ m, n = m + 2 := ⟨n - 2, by omega⟩
  have hnegation := hread (n + 1) rest (hrest.mono (List.subset_cons_self _ _)) (by omega)
  have hand : keyword "AND" rest = none := hrest.keyword_eq_none (by decide)
  simp [conjunction, hnegation, moreAnd, hand]

theorem moreOr_complete {ps : List Predicate} (h : ∀ p ∈ ps, Parses d p) (e : Expr) :
    Reads (fun n => moreOr d n e) afterCondition 1 (tokensOf d (membersPieces d " OR " ps))
      fun f => ∀ E db env,
        f.truth E db env = (e.truth E db env).or (disjTruth E db ps env) := by
  induction ps generalizing e with
  | nil =>
    refine ⟨e, fun E db env => ?_, fun n rest hrest hn => ?_⟩
    · rw [disjTruth, Truth.or_no]
    · obtain ⟨n, rfl⟩ : ∃ m, n = m + 1 := ⟨n - 1, by omega⟩
      have hor : keyword "OR" rest = none := hrest.keyword_eq_none (by decide)
      simp [membersPieces, moreOr, hor]
  | cons p ps ih =>
    obtain ⟨f, hf, hmember⟩ := conjunction_of_member (h p List.mem_cons_self)
    obtain ⟨g, hg, hmore⟩ := ih (fun q hq => h q (List.mem_cons_of_mem p hq)) (.or e f)
    refine ⟨g, fun E db env => ?_, fun n rest hrest hn => ?_⟩
    · rw [hg E db env, disjTruth, Expr.truth, hf E db env, Truth.or_assoc]
    · rw [membersPieces_cons] at hn ⊢
      simp only [tokensOf_cons, tokensOf_append, tokens_or, List.length_append,
        List.length_cons] at hn
      obtain ⟨n, rfl⟩ : ∃ m, n = m + 1 := ⟨n - 1, by omega⟩
      have hfollow : Closes afterConjunction
          (tokensOf d (membersPieces d " OR " ps) ++ rest) := by
        cases ps with
        | nil => exact hrest.mono (List.subset_cons_self _ _)
        | cons q ps =>
          rw [membersPieces_cons, tokensOf_cons, tokens_or]
          exact .word List.mem_cons_self _
      have hconjunction := hmember n _ hfollow (by omega)
      have htail := hmore n rest hrest (by omega)
      simp [moreOr, hconjunction, htail]

/-- A constant condition, as it is written for an empty list or junction. -/
theorem constant_complete {s w : String} {i : Int64} (b : Bool) {p : Predicate}
    (hs : pieceTokens d (.raw s) = [.word "1", .operator "=", .word w])
    (hw : literal? (.word w) = some (.int i)) (hi : (1 == i) = b)
    (hp : ∀ E db env, p.truth E db env = .ofBool b) :
    Reads (negation d) afterMember 5 (tokensOf d [.raw s]) (Expr.Means · p) := by
  refine ⟨.compare .eq (.literal (.int 1)) (.literal (.int i)), fun E db env => ?_,
    fun n rest _ hn => ?_⟩
  · rw [hp E db env, ← hi, ← E.same_int 1 i]
    rfl
  · rw [tokensOf_cons, hs] at hn ⊢
    simp only [tokensOf_nil, List.append_nil, List.length_cons, List.length_nil] at hn
    obtain ⟨n, rfl⟩ : ∃ m, n = m + 3 := ⟨n - 3, by omega⟩
    have hnot : ∀ us, keyword "NOT" (.word "1" :: us) = none := fun _ => by simp
    have hany : ∀ us, keyword "EXISTS" (.word "1" :: us) = none := fun _ => by simp
    have hleft : ∀ us, operand (n + 1) (.word "1" :: us) = some (.literal (.int 1), us) :=
      fun _ => rfl
    have hright : operand n (.word w :: rest) = some (.literal (.int i), rest) := by
      simp only [operand, hw]
    have hop : comparison? "=" = some .eq := rfl
    have htest : test d (n + 1) (.literal (.int 1)) (.operator "=" :: .word w :: rest) =
        some (.compare .eq (.literal (.int 1)) (.literal (.int i)), rest) := by
      rw [test, hop, Option.bind_eq_bind, Option.bind_some, hright]
      rfl
    simp only [tokensOf_nil, List.append_nil, List.cons_append, List.nil_append, negation,
      condition, hnot, hany, mark_word, hleft]
    exact htest

theorem neg_complete {p : Predicate} (h : Parses d p) : Parses d (.neg p) := by
  obtain ⟨e, he, hread⟩ := h.whole
  refine .of_negation rfl ⟨.not e, fun E db env => ?_, fun n rest _ hn => ?_⟩
  · rw [Expr.truth, Predicate.truth, he E db env]
  · rw [Predicate.pieces] at hn ⊢
    simp only [tokensOf_cons, tokensOf_append, tokens_not, tokens_close, List.length_append,
      List.length_cons] at hn
    obtain ⟨n, rfl⟩ : ∃ m, n = m + 3 := ⟨n - 3, by omega⟩
    have hexpr := hread n (.mark ')' :: rest) (.bracket rest) (by omega)
    simp [negation, condition, hexpr]

theorem conj_complete {ps : List Predicate} (h : ∀ p ∈ ps, Parses d p) :
    Parses d (.conj ps) := by
  refine .of_expr rfl ?_
  match ps with
  | [] =>
    rw [Predicate.pieces]
    refine expr_of_negation (constant_complete true (tokens_always d) rfl rfl fun E db env => ?_)
    rw [Predicate.truth, conjTruth]
    rfl
  | [p] =>
    obtain ⟨e, he, hread⟩ := (h p List.mem_cons_self).whole
    have hpieces : (Predicate.conj [p]).pieces d = p.pieces d := by
      rw [Predicate.pieces, membersPieces]
      simp
    rw [hpieces]
    refine ⟨e, fun E db env => ?_, hread⟩
    rw [Predicate.truth, conjTruth, conjTruth, Truth.and_yes, he E db env]
  | p :: q :: ps =>
    obtain ⟨e, he, hmember⟩ := (h p List.mem_cons_self).member
    obtain ⟨f, hf, hmore⟩ :=
      moreAnd_complete (fun p' hp' => h p' (List.mem_cons_of_mem p hp')) e
    refine ⟨f, fun E db env => ?_, fun n rest hrest hn => ?_⟩
    · rw [Predicate.truth, conjTruth, hf E db env, he E db env]
    · rw [conj_pieces, tokensOf_append] at hn ⊢
      rw [List.length_append] at hn
      obtain ⟨n, rfl⟩ : ∃ m, n = m + 3 := ⟨n - 3, by omega⟩
      have hand : Closes afterMember
          (tokensOf d (membersPieces d " AND " (q :: ps)) ++ rest) := by
        rw [membersPieces_cons, tokensOf_cons, tokens_and]
        exact .word List.mem_cons_self _
      have hor : keyword "OR" rest = none := hrest.keyword_eq_none (by decide)
      have hhead := hmember (n + 1) _ hand (by omega)
      have htail := hmore (n + 1) rest (hrest.mono (List.subset_cons_self _ _)) (by omega)
      simp [expr, conjunction, hhead, htail, moreOr, hor]

theorem disj_complete {ps : List Predicate} (h : ∀ p ∈ ps, Parses d p) :
    Parses d (.disj ps) := by
  refine .of_expr rfl ?_
  match ps with
  | [] =>
    rw [Predicate.pieces]
    refine expr_of_negation (constant_complete false (tokens_never d) rfl rfl fun E db env => ?_)
    rw [Predicate.truth, disjTruth]
    rfl
  | [p] =>
    obtain ⟨e, he, hread⟩ := (h p List.mem_cons_self).whole
    have hpieces : (Predicate.disj [p]).pieces d = p.pieces d := by
      rw [Predicate.pieces, membersPieces]
      simp
    rw [hpieces]
    refine ⟨e, fun E db env => ?_, hread⟩
    rw [Predicate.truth, disjTruth, disjTruth, Truth.or_no, he E db env]
  | p :: q :: ps =>
    obtain ⟨e, he, hmember⟩ := conjunction_of_member (h p List.mem_cons_self)
    obtain ⟨f, hf, hmore⟩ :=
      moreOr_complete (fun p' hp' => h p' (List.mem_cons_of_mem p hp')) e
    refine ⟨f, fun E db env => ?_, fun n rest hrest hn => ?_⟩
    · rw [Predicate.truth, disjTruth, hf E db env, he E db env]
    · rw [disj_pieces, tokensOf_append] at hn ⊢
      rw [List.length_append] at hn
      obtain ⟨n, rfl⟩ : ∃ m, n = m + 1 := ⟨n - 1, by omega⟩
      have hor : Closes afterConjunction
          (tokensOf d (membersPieces d " OR " (q :: ps)) ++ rest) := by
        rw [membersPieces_cons, tokensOf_cons, tokens_or]
        exact .word List.mem_cons_self _
      have hhead := hmember n _ hor (by omega)
      have htail := hmore n rest hrest (by omega)
      simp [expr, hhead, htail]

theorem compare_parses (column : String) (op : Comparison) (v : Value) :
    Parses d (.compare column op v) := by
  have hwritten := compare_complete (d := d) column op v
  refine .of_negation rfl ?_
  cases op with
  | eq =>
    cases v with
    | null =>
      obtain ⟨e, he, hread⟩ := isNull_complete (d := d) column
      exact ⟨e, fun E db env => by rw [he E db env, Predicate.truth], hread⟩
    | _ =>
      obtain ⟨e, he, hread⟩ := hwritten
      exact ⟨e, fun E db env => by rw [he E db env, Predicate.truth] <;> simp, hread⟩
  | ne =>
    cases v with
    | null =>
      obtain ⟨e, he, hread⟩ := notNull_complete (d := d) column
      exact ⟨e, fun E db env => by rw [he E db env, Predicate.truth], hread⟩
    | _ =>
      obtain ⟨e, he, hread⟩ := hwritten
      exact ⟨e, fun E db env => by rw [he E db env, Predicate.truth] <;> simp, hread⟩
  | _ =>
    obtain ⟨e, he, hread⟩ := hwritten
    exact ⟨e, fun E db env => by rw [he E db env, Predicate.truth] <;> simp, hread⟩

theorem isIn_parses (column : String) (vs : List Value) : Parses d (.isIn column vs) := by
  refine .of_negation rfl ?_
  cases vs with
  | nil =>
    rw [Predicate.pieces]
    refine constant_complete false (tokens_never d) rfl rfl fun E db env => ?_
    rw [Predicate.truth]
    rfl
  | cons v vs =>
    obtain ⟨e, he, hread⟩ := isIn_complete (d := d) column (List.cons_ne_nil v vs)
    rw [Predicate.pieces]
    exact ⟨e, fun E db env => by rw [he E db env, Predicate.truth], hread⟩

theorem notIn_parses (column : String) (vs : List Value) : Parses d (.notIn column vs) := by
  refine .of_negation rfl ?_
  cases vs with
  | nil =>
    rw [Predicate.pieces]
    refine constant_complete true (tokens_always d) rfl rfl fun E db env => ?_
    rw [Predicate.truth]
    rfl
  | cons v vs =>
    obtain ⟨e, he, hread⟩ := notIn_complete (d := d) column (List.cons_ne_nil v vs)
    rw [Predicate.pieces]
    exact ⟨e, fun E db env => by rw [he E db env, Predicate.truth], hread⟩

theorem isNull_parses (column : String) : Parses d (.isNull column) := by
  obtain ⟨e, he, hread⟩ := isNull_complete (d := d) column
  refine .of_negation rfl ?_
  rw [Predicate.pieces]
  exact ⟨e, fun E db env => by rw [he E db env, Predicate.truth], hread⟩

theorem notNull_parses (column : String) : Parses d (.notNull column) := by
  obtain ⟨e, he, hread⟩ := notNull_complete (d := d) column
  refine .of_negation rfl ?_
  rw [Predicate.pieces]
  exact ⟨e, fun E db env => by rw [he E db env, Predicate.truth], hread⟩

/-! ## Selections -/

/-- The tokens of a selection are read as one that selects its rows. -/
def ParsesSelector (d : Dialect) (s : Selector) : Prop :=
  Reads (query d) [] 0 (tokensOf d (s.pieces d)) (Query.Means · s)

/-- The tokens of a source are read as one that has its rows. -/
def ParsesSource (d : Dialect) (t : TableRef) : Prop :=
  Reads (source d) afterSource 1 (tokensOf d (t.pieces d))
    fun r => ∀ E db env, r.frames E db env = t.frames E db env

/-- The tokens of joined sources are read as ones that add the same rows. -/
def ParsesJoins (d : Dialect) (js : List Join) : Prop :=
  Reads (joins d) afterJoins 1 (tokensOf d (joinsPieces d js))
    fun rs => ∀ E db env levels, joinLevels E db rs env levels = joinsLevels E db js env levels

/-- The tokens of an optional condition are read as one that is as true. -/
def ParsesCondition (d : Dialect) (p : Option Predicate) : Prop :=
  Reads (whereClause d) afterCondition 1 (tokensOf d (conditionPieces d p))
    fun e => ∀ E db env, whereTruth E db e env = conditionTruth E db p env

theorem keyword_selector (s : Selector) (rest : List Token) :
    ∃ ts, keyword "SELECT" (tokensOf d (s.pieces d) ++ rest) = some ts := by
  obtain ⟨columns, source, joins, predicate, order, limit, offset, distinct, count⟩ := s
  rw [Selector.pieces, tokensOf_cons, tokens_select]
  exact ⟨_, rfl⟩

theorem inSelect_parses (column : String) {s : Selector} (h : ParsesSelector d s) :
    Parses d (.inSelect column s) := by
  obtain ⟨q, hq, hread⟩ := h
  refine .of_negation rfl ?_
  rw [Predicate.pieces, tokensOf_append]
  refine negation_of_test (fun _ => by simp)
    ⟨.isInQuery (.column (nameParts column)) q, fun E db env => ?_, fun n rest hrest hn => ?_⟩
  · rw [Expr.truth, Predicate.truth, hq E db env]
    rfl
  · obtain ⟨n, rfl⟩ : ∃ m, n = m + 1 := ⟨n - 1, by omega⟩
    simp only [tokensOf_cons, tokensOf_append, tokens_in, tokens_close, List.length_append] at hn
    have hquery := hread n (.mark ')' :: rest) (.bracket rest) (by omega)
    obtain ⟨ts, hselect⟩ := keyword_selector (d := d) s (.mark ')' :: rest)
    simp [test, hselect, hquery]

theorem anyRow_parses {s : Selector} (h : ParsesSelector d s) : Parses d (.anyRow s) := by
  obtain ⟨q, hq, hread⟩ := h
  refine .of_negation rfl ⟨.anyRow q, fun E db env => ?_, fun n rest _ hn => ?_⟩
  · rw [Expr.truth, Predicate.truth, hq E db env]
  · rw [Predicate.pieces] at hn ⊢
    simp only [tokensOf_cons, tokensOf_append, tokens_exists, tokens_close, List.length_append,
      List.length_cons] at hn
    obtain ⟨n, rfl⟩ : ∃ m, n = m + 2 := ⟨n - 2, by omega⟩
    have hquery := hread n (.mark ')' :: rest) (.bracket rest) (by omega)
    simp [negation, condition, hquery]

theorem table_parses (name : String) : ParsesSource d (.table name none) := by
  refine ⟨.table (nameParts name) (nameParts name), fun E db env => ?_, fun n rest hrest hn => ?_⟩
  · rw [Source.frames, TableRef.frames]
  · rw [TableRef.pieces] at hn ⊢
    obtain ⟨n, rfl⟩ : ∃ m, n = m + 1 := ⟨n - 1, by omega⟩
    have hlength : (tokensOf d (Piece.ofName name)).length ≤ n := by omega
    have hname := name_complete hlength rest (hrest.mark_eq_none (by decide))
    have hopen := mark_name (d := d) name rest
    have has : keyword "AS" rest = none := hrest.keyword_eq_none (by decide)
    simp [source, hopen, hname, has]

theorem tableAs_parses (name asName : String) : ParsesSource d (.table name (some asName)) := by
  refine ⟨.table (nameParts name) (nameParts asName), fun E db env => ?_,
    fun n rest hrest hn => ?_⟩
  · rw [Source.frames, TableRef.frames]
  · rw [TableRef.pieces, tokensOf_append, tokensOf_cons, tokens_as] at hn ⊢
    simp only [List.length_append, List.length_cons] at hn
    obtain ⟨n, rfl⟩ : ∃ m, n = m + 1 := ⟨n - 1, by omega⟩
    have hlength : (tokensOf d (Piece.ofName name)).length ≤ n := by omega
    have hlength' : (tokensOf d (Piece.ofName asName)).length ≤ n := by omega
    have hname := name_complete hlength
      (.word "AS" :: (tokensOf d (Piece.ofName asName) ++ rest)) rfl
    have hasName := name_complete hlength' rest (hrest.mark_eq_none (by decide))
    have hopen := mark_name (d := d) name
      (.word "AS" :: (tokensOf d (Piece.ofName asName) ++ rest))
    simp [source, hopen, hname, hasName]

theorem select_parses {s : Selector} (h : ParsesSelector d s) (asName : String) :
    ParsesSource d (.select s asName) := by
  obtain ⟨q, hq, hread⟩ := h
  refine ⟨.query q (nameParts asName), fun E db env => ?_, fun n rest hrest hn => ?_⟩
  · rw [Source.frames, TableRef.frames, hq E db env]
  · rw [TableRef.pieces, tokensOf_cons, tokensOf_append, tokensOf_cons, tokens_open,
      tokens_closeAs] at hn ⊢
    simp only [List.length_append, List.length_cons] at hn
    obtain ⟨n, rfl⟩ : ∃ m, n = m + 1 := ⟨n - 1, by omega⟩
    have hlength : (tokensOf d (Piece.ofName asName)).length ≤ n := by omega
    have hasName := name_complete hlength rest (hrest.mark_eq_none (by decide))
    have hquery := hread n
      (.mark ')' :: .word "AS" :: (tokensOf d (Piece.ofName asName) ++ rest)) (.bracket _)
      (by omega)
    simp [source, hquery, hasName]

theorem closes_number (w : String) (k : Option Nat) {words : List String} {rest : List Token}
    (h : Closes words rest) : Closes (w :: words) (numberTokens w k ++ rest) := by
  cases k with
  | none => exact h.mono (List.subset_cons_self _ _)
  | some n => exact .word List.mem_cons_self _

theorem closes_order (terms : List OrderTerm) {words : List String} {rest : List Token}
    (h : Closes words rest) : Closes ("ORDER" :: words) (orderTokens d terms ++ rest) := by
  cases terms with
  | nil => exact h.mono (List.subset_cons_self _ _)
  | cons t terms => exact .word List.mem_cons_self _

theorem closes_condition (p : Option Predicate) {words : List String} {rest : List Token}
    (h : Closes words rest) :
    Closes ("WHERE" :: words) (tokensOf d (conditionPieces d p) ++ rest) := by
  cases p with
  | none =>
    rw [conditionPieces]
    exact h.mono (List.subset_cons_self _ _)
  | some p =>
    rw [conditionPieces, tokensOf_cons, tokens_where]
    exact .word List.mem_cons_self _

theorem closes_joins (js : List Join) {words : List String} {rest : List Token}
    (h : Closes words rest) : Closes ("JOIN" :: words) (tokensOf d (joinsPieces d js) ++ rest) := by
  cases js with
  | nil =>
    rw [joinsPieces]
    exact h.mono (List.subset_cons_self _ _)
  | cons j js =>
    obtain ⟨table, left, right⟩ := j
    rw [joinsPieces, tokensOf_cons, tokens_join]
    exact .word List.mem_cons_self _

theorem joins_nil_parses : ParsesJoins d [] := by
  refine ⟨[], fun E db env levels => ?_, fun n rest hrest hn => ?_⟩
  · rw [joinLevels, joinsLevels]
  · obtain ⟨n, rfl⟩ : ∃ m, n = m + 1 := ⟨n - 1, by omega⟩
    have hjoin : keyword "JOIN" rest = none := hrest.keyword_eq_none (by decide)
    simp [joinsPieces, joins, hjoin]

theorem joins_cons_parses {table : TableRef} {js : List Join} (left right : String)
    (htable : ParsesSource d table) (hjoins : ParsesJoins d js) :
    ParsesJoins d (⟨table, left, right⟩ :: js) := by
  obtain ⟨r, hr, hread⟩ := htable
  obtain ⟨rs, hrs, hreads⟩ := hjoins
  refine ⟨.on r (nameParts left) (nameParts right) :: rs, fun E db env levels => ?_,
    fun n rest hrest hn => ?_⟩
  · rw [joinLevels, joinsLevels, hr E db env, hrs]
  · have htokens : tokensOf d (joinsPieces d (⟨table, left, right⟩ :: js)) ++ rest =
        .word "JOIN" :: (tokensOf d (table.pieces d) ++ .word "ON" ::
          (tokensOf d (Piece.ofName left) ++ .operator "=" :: (tokensOf d (Piece.ofName right) ++
            (tokensOf d (joinsPieces d js) ++ rest)))) := by
      simp [joinsPieces]
    have hsize : (tokensOf d (joinsPieces d (⟨table, left, right⟩ :: js))).length =
        (tokensOf d (table.pieces d)).length + (tokensOf d (Piece.ofName left)).length +
          (tokensOf d (Piece.ofName right)).length + (tokensOf d (joinsPieces d js)).length +
            3 := by
      simp [joinsPieces]
      omega
    rw [hsize] at hn
    rw [htokens]
    obtain ⟨n, rfl⟩ : ∃ m, n = m + 1 := ⟨n - 1, by omega⟩
    have hleft : (tokensOf d (Piece.ofName left)).length ≤ n := by omega
    have hright : (tokensOf d (Piece.ofName right)).length ≤ n := by omega
    have hdot : mark '.' (tokensOf d (joinsPieces d js) ++ rest) = none :=
      (closes_joins js hrest).mark_eq_none (by decide)
    have hsource := hread n (.word "ON" :: (tokensOf d (Piece.ofName left) ++ .operator "=" ::
      (tokensOf d (Piece.ofName right) ++ (tokensOf d (joinsPieces d js) ++ rest))))
      (.word List.mem_cons_self _) (by omega)
    have hnameLeft := name_complete hleft (.operator "=" :: (tokensOf d (Piece.ofName right) ++
      (tokensOf d (joinsPieces d js) ++ rest))) rfl
    have hnameRight := name_complete hright (tokensOf d (joinsPieces d js) ++ rest) hdot
    have hothers := hreads n rest hrest (by omega)
    simp [joins, hsource, hnameLeft, hnameRight, hothers]

theorem condition_none_parses : ParsesCondition d none := by
  refine ⟨none, fun E db env => ?_, fun n rest hrest hn => ?_⟩
  · rw [whereTruth, conditionTruth]
  · obtain ⟨n, rfl⟩ : ∃ m, n = m + 1 := ⟨n - 1, by omega⟩
    have hwhere : keyword "WHERE" rest = none := hrest.keyword_eq_none (by decide)
    simp [conditionPieces, whereClause, hwhere]

theorem condition_some_parses {p : Predicate} (h : Parses d p) : ParsesCondition d (some p) := by
  obtain ⟨e, he, hread⟩ := h.whole
  refine ⟨some e, fun E db env => ?_, fun n rest hrest hn => ?_⟩
  · rw [whereTruth, conditionTruth, he E db env]
  · rw [conditionPieces, tokensOf_cons, tokens_where] at hn ⊢
    simp only [List.length_append, List.length_cons] at hn
    obtain ⟨n, rfl⟩ : ∃ m, n = m + 1 := ⟨n - 1, by omega⟩
    have hexpr := hread n rest hrest (by omega)
    simp [whereClause, hexpr]

theorem selector_parses {source : TableRef} {js : List Join} {p : Option Predicate}
    (columns : List String) (terms : List OrderTerm) (limit offset : Option Nat)
    (distinct count : Bool) (hsource : ParsesSource d source) (hjoins : ParsesJoins d js)
    (hcondition : ParsesCondition d p) :
    ParsesSelector d ⟨columns, source, js, p, terms, limit, offset, distinct, count⟩ := by
  obtain ⟨r, hr, hreadSource⟩ := hsource
  obtain ⟨rs, hrs, hreadJoins⟩ := hjoins
  obtain ⟨e, he, hreadCondition⟩ := hcondition
  refine ⟨.select (Selector.shape columns terms limit offset distinct count) r rs e,
    fun E db env => ?_, fun n rest hrest hn => ?_⟩
  · simp only [Query.outRows, Selector.outRows, hr, hrs, he]
  · rw [Selector.pieces] at hn ⊢
    simp only [tokensOf_cons, tokensOf_append, tokens_select, tokens_from, tail_tokens,
      List.length_append, List.length_cons, List.append_assoc, List.cons_append,
      List.nil_append] at hn ⊢
    obtain ⟨n, rfl⟩ : ∃ m, n = m + 1 := ⟨n - 1, by omega⟩
    -- Each clause is read up to the tokens of the next one, from the last clause on.
    have hlast := closes_number "OFFSET" offset hrest
    have hwindow := closes_number "LIMIT" (limit.or (offset.map fun _ => Selector.limitMax)) hlast
    have hterms := closes_order (d := d) terms hwindow
    have hwhere := closes_condition (d := d) p hterms
    have hjoin := closes_joins (d := d) js hwhere
    have hhead : (tokensOf d (Selector.headPieces columns distinct count)).length ≤ n := by omega
    have hprojection := projection_complete hhead
    have hsource := hreadSource n _ (hjoin.mono (List.subset_cons_self _ _)) (by omega)
    have hjoins := hreadJoins n _ hwhere (by omega)
    have hcondition := hreadCondition n _ hterms (by omega)
    have hlength : (orderTokens d terms).length ≤ n := by omega
    have horder := order_complete hlength
      (hwindow.keyword_eq_none (by decide)) (hwindow.mark_eq_none (by decide))
    have hlimit := window_complete "LIMIT" (limit.or (offset.map fun _ => Selector.limitMax))
      (hlast.keyword_eq_none (by decide))
    have hoffset := window_complete "OFFSET" offset (hrest.keyword_eq_none (by decide))
    simp [query, hprojection, hsource, hjoins, hcondition, horder, hlimit, hoffset, Selector.shape]

/-! ## All trees -/

mutual

theorem parses_predicate (d : Dialect) : (p : Predicate) → Parses d p
  | .compare column op v => compare_parses column op v
  | .isIn column vs => isIn_parses column vs
  | .notIn column vs => notIn_parses column vs
  | .isNull column => isNull_parses column
  | .notNull column => notNull_parses column
  | .like column pattern => .of_negation rfl (like_complete column pattern)
  | .inSelect column s => inSelect_parses column (parses_selector d s)
  | .anyRow s => anyRow_parses (parses_selector d s)
  | .conj ps => conj_complete (parses_predicates d ps)
  | .disj ps => disj_complete (parses_predicates d ps)
  | .neg p => neg_complete (parses_predicate d p)

theorem parses_predicates (d : Dialect) : (ps : List Predicate) → ∀ p ∈ ps, Parses d p
  | [] => fun _ h => nomatch h
  | p :: rest => List.forall_mem_cons.mpr ⟨parses_predicate d p, parses_predicates d rest⟩

theorem parses_condition (d : Dialect) : (p : Option Predicate) → ParsesCondition d p
  | some p => condition_some_parses (parses_predicate d p)
  | none => condition_none_parses

theorem parses_source (d : Dialect) : (t : TableRef) → ParsesSource d t
  | .table name none => table_parses name
  | .table name (some asName) => tableAs_parses name asName
  | .select s asName => select_parses (parses_selector d s) asName

theorem parses_joins (d : Dialect) : (js : List Join) → ParsesJoins d js
  | [] => joins_nil_parses
  | ⟨table, left, right⟩ :: rest =>
    joins_cons_parses left right (parses_source d table) (parses_joins d rest)

theorem parses_selector (d : Dialect) : (s : Selector) → ParsesSelector d s
  | ⟨columns, source, joins, predicate, order, limit, offset, distinct, count⟩ =>
    selector_parses columns order limit offset distinct count (parses_source d source)
      (parses_joins d joins) (parses_condition d predicate)

end

/-- The text of a condition is read as an expression that is as true. -/
theorem readExpr_pieces (d : Dialect) (p : Predicate) :
    ∃ e, readExpr d (.ofPieces d (p.pieces d)) = some e ∧ e.Means p := by
  obtain ⟨e, he, hread⟩ := (parses_predicate d p).whole
  have htokens := tokens_ofPieces (predicate_readable d p)
  have hexpr := hread (enough (tokensOf d (p.pieces d))) [] .nil (Nat.le_refl _)
  rw [List.append_nil] at hexpr
  refine ⟨e, ?_, he⟩
  unfold tokensOf at hexpr
  simp only [readExpr, htokens, Option.bind_eq_bind, Option.bind_some, hexpr]

/-- The text of a selection is read as one that selects the same rows. -/
theorem readQuery_statement (d : Dialect) (s : Selector) :
    ∃ q, readQuery d (s.statement d) = some q ∧ q.Means s := by
  obtain ⟨q, hq, hread⟩ := parses_selector d s
  have htokens := tokens_ofPieces (selector_readable d s)
  have hquery := hread (enough (tokensOf d (s.pieces d))) [] .nil (Nat.le_add_right _ _)
  rw [List.append_nil] at hquery
  refine ⟨q, ?_, hq⟩
  unfold tokensOf at hquery
  simp only [readQuery, Selector.statement, htokens, Option.bind_eq_bind, Option.bind_some, hquery]

/-- What a database reads from a rendered condition is as true as the tree, among all rows of all
databases, and what it reads from a rendered selection selects the rows of the tree; and the
operations that build conditions are the conjunction, the disjunction and the negation. -/
theorem rendering_means_tree (d : Dialect) :
    (∀ p : Predicate, ∃ e, readExpr d (.ofPieces d (p.pieces d)) = some e ∧
      ∀ E db env, e.truth E db env = p.truth E db env) ∧
    (∀ s : Selector, ∃ q, readQuery d (s.statement d) = some q ∧
      ∀ E db env, q.outRows E db env = s.outRows E db env) ∧
    ∀ (E : Engine) (db : Database) (env : Env),
      (∀ p q : Predicate,
        (p.and q).truth E db env = (p.truth E db env).and (q.truth E db env) ∧
        (p.or q).truth E db env = (p.truth E db env).or (q.truth E db env)) ∧
      (∀ p : Predicate, (Predicate.neg p).truth E db env = (p.truth E db env).not) ∧
      (∀ (p : Option Predicate) (q : Predicate), (Predicate.conjoin p q).truth E db env =
        (conditionTruth E db p env).and (q.truth E db env)) ∧
      ∀ (s : Selector) (ps : List Predicate),
        conditionTruth E db (ps.foldl Selector.filter s).predicate env =
          (conditionTruth E db s.predicate env).and (conjTruth E db ps env) := by
  refine ⟨readExpr_pieces d, readQuery_statement d, fun E db env => ⟨fun p q => ⟨?_, ?_⟩,
    fun p => ?_, fun p q => ?_, fun s ps => ?_⟩⟩
  · exact truth_and E db env p q
  · exact truth_or E db env p q
  · rw [Predicate.truth]
  · exact truth_conjoin E db env p q
  · exact conditionTruth_filters E db env s ps

end EntityGraph.Sql
