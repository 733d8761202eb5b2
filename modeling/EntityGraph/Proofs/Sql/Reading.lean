import EntityGraph.Proofs.Sql.Parser
import EntityGraph.Proofs.Sql.Rendered

/-!
# Rendered conditions mean what the tree says

The tokens of a rendered condition or selection are read back by the parser, and what it makes of
them has the meaning of the tree: a condition has the same truth among all rows of all databases, a
selection the same rows. The parts without conditions come first, then one step for each form of a
tree; `reads_predicate` and its companions put the steps together.
-/

set_option autoImplicit false

namespace EntityGraph.Sql

variable {d : Dialect} {α β : Type}

@[simp]
theorem keyword_word (w v : String) (ts : List Token) :
    keyword w (.word v :: ts) = if v = w then some ts else none := rfl

@[simp]
theorem mark_mark (c c' : Char) (ts : List Token) :
    mark c (.mark c' :: ts) = if c' = c then some ts else none := rfl

@[simp]
theorem keyword_mark (w : String) (c : Char) (ts : List Token) :
    keyword w (.mark c :: ts) = none := rfl

@[simp]
theorem keyword_value (w : String) (v : Value) (ts : List Token) :
    keyword w (.value v :: ts) = none := rfl

@[simp]
theorem mark_word (c : Char) (w : String) (ts : List Token) : mark c (.word w :: ts) = none := rfl

/-- The tokens that may follow: none, a closing bracket, or one of some keywords. -/
inductive Closes (words : List String) : List Token → Prop where
  | nil : Closes words []
  | bracket (rest : List Token) : Closes words (.mark ')' :: rest)
  | word {w : String} (h : w ∈ words) (rest : List Token) : Closes words (.word w :: rest)

namespace Closes

variable {words : List String} {ts : List Token}

theorem keyword_eq_none (h : Closes words ts) {w : String} (hw : w ∉ words) :
    keyword w ts = none := by
  cases h with
  | nil => rfl
  | bracket rest => rfl
  | word hv rest =>
    rw [keyword_word, if_neg]
    rintro rfl
    exact hw hv

theorem mark_eq_none (h : Closes words ts) {c : Char} (hc : c ≠ ')') : mark c ts = none := by
  cases h with
  | nil => rfl
  | bracket rest => rw [mark_mark, if_neg (Ne.symm hc)]
  | word hv rest => rfl

theorem mono {others : List String} (h : Closes words ts) (hsub : words ⊆ others) :
    Closes others ts := by
  cases h with
  | nil => exact .nil
  | bracket rest => exact .bracket rest
  | word hv rest => exact .word (hsub hv) rest

end Closes

/-! ## Lists with separators -/

theorem tokensOf_separated (s : String) (groups : List (List Piece)) :
    tokensOf d (Piece.separated s groups) =
      (pieceTokens d (.raw s)).intercalate (groups.map (tokensOf d)) := by
  induction groups with
  | nil => rfl
  | cons g rest ih =>
    cases rest with
    | nil => simp [Piece.separated, List.intercalate]
    | cons g' rest =>
      rw [separated_cons, tokensOf_append, tokensOf_cons, ih]
      simp [List.intercalate]

theorem length_le_intercalate (s : List α) {groups : List (List α)}
    (h : ∀ g ∈ groups, g ≠ []) : groups.length ≤ (s.intercalate groups).length := by
  induction groups with
  | nil => simp
  | cons g rest ih =>
    have hg : 0 < g.length := List.length_pos_iff.mpr (h g List.mem_cons_self)
    have hrest := ih fun g' hg' => h g' (List.mem_cons_of_mem g hg')
    cases rest with
    | nil => simpa [List.intercalate] using Nat.succ_le_of_lt hg
    | cons g' rest =>
      simp only [List.intercalate, List.intersperse_cons_cons, List.flatten_cons,
        List.length_append, List.length_cons] at hrest ⊢
      omega

theorem length_le_of_mem_intercalate {s g : List α} {groups : List (List α)} (h : g ∈ groups) :
    g.length ≤ (s.intercalate groups).length := by
  induction groups with
  | nil => cases h
  | cons g' rest ih =>
    cases rest with
    | nil =>
      obtain rfl := List.mem_singleton.mp h
      simp [List.intercalate]
    | cons g'' rest =>
      simp only [List.intercalate, List.intersperse_cons_cons, List.flatten_cons,
        List.length_append] at ih ⊢
      rcases List.mem_cons.mp h with rfl | h
      · omega
      · have := ih h
        omega

/-- Items with separators between them are read one after another, if each of them is. -/
theorem sepBy_complete {c : Char} {item : List Token → Option (β × List Token)}
    {f : α → List Token} (g : α → β) {xs : List α} {rest : List Token} {n : Nat}
    (hitem : ∀ x ∈ xs, ∀ r, (r = rest ∨ ∃ r', r = .mark c :: r') →
      item (f x ++ r) = some (g x, r))
    (hne : xs ≠ []) (hn : xs.length ≤ n) (hrest : mark c rest = none) :
    sepBy c item n ([Token.mark c].intercalate (xs.map f) ++ rest) = some (xs.map g, rest) := by
  induction xs generalizing n with
  | nil => exact absurd rfl hne
  | cons x xs ih =>
    cases n with
    | zero => simp at hn
    | succ n =>
      have hx := hitem x List.mem_cons_self
      cases xs with
      | nil =>
        have hlast := hx rest (.inl rfl)
        simp [List.intercalate, sepBy, hlast, hrest]
      | cons y ys =>
        have htail := ih (n := n) (fun z hz => hitem z (List.mem_cons_of_mem x hz)) (by simp)
          (by simpa using hn)
        have hhead := hx (.mark c :: ([Token.mark c].intercalate ((y :: ys).map f) ++ rest))
          (.inr ⟨_, rfl⟩)
        have htokens : [Token.mark c].intercalate ((x :: y :: ys).map f) ++ rest =
            f x ++ .mark c :: ([Token.mark c].intercalate ((y :: ys).map f) ++ rest) := by
          simp [List.intercalate]
        rw [htokens, sepBy, hhead]
        simp only [Option.bind_eq_bind, Option.bind_some, mark_mark, if_true, htail]
        rfl

/-! ## Names, values and numbers -/

theorem pieceTokens_namePiece (part : String) :
    pieceTokens d (namePiece part) = if part = "*" then [.mark '*'] else [.ident part] := by
  unfold namePiece
  split <;> simp

theorem namePart_complete (part : String) (rest : List Token) :
    namePart (pieceTokens d (namePiece part) ++ rest) = some (part, rest) := by
  rw [pieceTokens_namePiece]
  split
  case isTrue h => simp [namePart, h]
  case isFalse => rfl

theorem tokensOf_name (s : String) :
    tokensOf d (Piece.ofName s) = [Token.mark '.'].intercalate
      ((nameParts s).map fun part => pieceTokens d (namePiece part)) := by
  rw [ofName_eq, tokensOf_separated, tokens_dot, List.map_map]
  congr 2
  funext part
  simp [tokensOf]

/-- A name is read as its parts. -/
theorem name_complete {s : String} {n : Nat} (hn : (tokensOf d (Piece.ofName s)).length ≤ n)
    (rest : List Token) (hrest : mark '.' rest = none) :
    name n (tokensOf d (Piece.ofName s) ++ rest) = some (nameParts s, rest) := by
  have hlength : (nameParts s).length ≤ n := by
    refine Nat.le_trans ?_ hn
    rw [tokensOf_name, ← List.length_map (fun part => pieceTokens d (namePiece part))]
    refine length_le_intercalate _ fun g hg => ?_
    obtain ⟨part, -, rfl⟩ := List.mem_map.mp hg
    rw [pieceTokens_namePiece]
    split <;> simp
  rw [tokensOf_name, name]
  have h := sepBy_complete id (fun part _ r _ => namePart_complete (d := d) part r)
    (nameParts_ne_nil s) hlength hrest
  rwa [List.map_id] at h

/-- A name starts with an identifier or a star. -/
theorem name_head (s : String) : ∃ t ts, tokensOf d (Piece.ofName s) = t :: ts ∧
    (t = .mark '*' ∨ ∃ i, t = .ident i) := by
  obtain ⟨part, rest, hparts⟩ := List.exists_cons_of_ne_nil (nameParts_ne_nil s)
  have hpart : ∃ t, pieceTokens d (namePiece part) = [t] ∧ (t = .mark '*' ∨ ∃ i, t = .ident i) := by
    rw [pieceTokens_namePiece]
    split
    case isTrue => exact ⟨_, rfl, .inl rfl⟩
    case isFalse => exact ⟨_, rfl, .inr ⟨part, rfl⟩⟩
  obtain ⟨t, ht, hkind⟩ := hpart
  rw [tokensOf_name, hparts, List.map_cons, ht]
  cases rest with
  | nil => exact ⟨t, [], rfl, hkind⟩
  | cons part' rest => exact ⟨t, _, rfl, hkind⟩

theorem mark_name (s : String) (rest : List Token) :
    mark '(' (tokensOf d (Piece.ofName s) ++ rest) = none := by
  obtain ⟨t, ts, hts, rfl | ⟨i, rfl⟩⟩ := name_head (d := d) s <;> rw [hts] <;> rfl

theorem names_complete {columns : List String} {n : Nat} (hne : columns ≠ [])
    (hn : (tokensOf d (Piece.ofNames columns)).length ≤ n) (rest : List Token)
    (hdot : mark '.' rest = none) (hcomma : mark ',' rest = none) :
    names n (tokensOf d (Piece.ofNames columns) ++ rest) = some (columns.map nameParts, rest) := by
  have htokens : tokensOf d (Piece.ofNames columns) = [Token.mark ','].intercalate
      (columns.map fun c => tokensOf d (Piece.ofName c)) := by
    rw [Piece.ofNames, tokensOf_separated, tokens_comma, List.map_map]
    rfl
  have hgroups : ∀ g ∈ columns.map fun c => tokensOf d (Piece.ofName c), g ≠ [] := by
    intro g hg
    obtain ⟨c, -, rfl⟩ := List.mem_map.mp hg
    obtain ⟨t, ts, hts, -⟩ := name_head (d := d) c
    simp [hts]
  have hlength := length_le_intercalate [Token.mark ','] hgroups
  rw [List.length_map, ← htokens] at hlength
  rw [htokens, names]
  refine sepBy_complete nameParts (fun c hc r hr => name_complete ?_ r ?_) hne
    (Nat.le_trans hlength hn) hcomma
  · refine Nat.le_trans ?_ hn
    rw [htokens]
    exact length_le_of_mem_intercalate (List.mem_map_of_mem hc)
  · rcases hr with rfl | ⟨r', rfl⟩
    · exact hdot
    · rfl

/-- A value is written as one token that is read as that value. -/
theorem value_token (v : Value) : ∃ t, pieceTokens d (Piece.ofValue v) = [t] ∧
    literal? t = some v := by
  unfold Piece.ofValue
  split
  case isTrue hv =>
    refine ⟨.word "NULL", tokens_null d, ?_⟩
    cases v with
    | null => rfl
    | _ => cases hv
  case isFalse => exact ⟨.value v, rfl, rfl⟩

theorem operand_value (v : Value) (n : Nat) (rest : List Token) :
    operand n (pieceTokens d (Piece.ofValue v) ++ rest) = some (.literal v, rest) := by
  obtain ⟨t, ht, hv⟩ := value_token (d := d) v
  simp [ht, operand, hv]

theorem operand_name {s : String} {n : Nat} {rest : List Token}
    (hn : (tokensOf d (Piece.ofName s)).length ≤ n) (hrest : mark '.' rest = none) :
    operand n (tokensOf d (Piece.ofName s) ++ rest) = some (.column (nameParts s), rest) := by
  obtain ⟨t, ts, hts, hkind⟩ := name_head (d := d) s
  have hname := name_complete hn rest hrest
  have hliteral : literal? t = none := by
    rcases hkind with rfl | ⟨i, rfl⟩ <;> rfl
  rw [hts, List.cons_append] at hname ⊢
  simp only [operand, hliteral, hname]
  rfl

theorem values_tokens (vs : List Value) : tokensOf d (Piece.ofValues vs) =
    [Token.mark ','].intercalate (vs.map fun v => pieceTokens d (Piece.ofValue v)) := by
  rw [Piece.ofValues, tokensOf_separated, tokens_comma, List.map_map]
  congr 2
  funext v
  simp [tokensOf]

theorem operands_complete {vs : List Value} {n : Nat} (hne : vs ≠ [])
    (hn : (tokensOf d (Piece.ofValues vs)).length ≤ n) (rest : List Token)
    (hcomma : mark ',' rest = none) :
    operands n (tokensOf d (Piece.ofValues vs) ++ rest) = some (vs.map .literal, rest) := by
  have hgroups : ∀ g ∈ vs.map fun v => pieceTokens d (Piece.ofValue v), g ≠ [] := by
    intro g hg
    obtain ⟨v, -, rfl⟩ := List.mem_map.mp hg
    obtain ⟨t, ht, -⟩ := value_token (d := d) v
    simp [ht]
  have hlength := length_le_intercalate [Token.mark ','] hgroups
  rw [List.length_map, ← values_tokens] at hlength
  rw [values_tokens, operands]
  exact sepBy_complete Operand.literal (fun v _ r _ => operand_value v n r) hne
    (Nat.le_trans hlength hn) hcomma

/-! ## The clauses around the condition -/

/-- The columns that are written for a list of columns: a star for none. -/
def writtenColumns (columns : List String) : List String :=
  if columns.isEmpty then ["*"] else columns

theorem writtenColumns_ne_nil (columns : List String) : writtenColumns columns ≠ [] := by
  unfold writtenColumns
  cases columns <;> simp

theorem ofNames_star : Piece.ofNames ["*"] = [.raw "*"] := by rfl

theorem columnNames_eq (columns : List String) :
    Selector.columnNames columns = (writtenColumns columns).map nameParts := by
  have hstar : nameParts "*" = ["*"] := by decide
  cases columns with
  | nil => simp [Selector.columnNames, writtenColumns, hstar]
  | cons c rest => rfl

theorem names_head {columns : List String} (hne : columns ≠ []) : ∃ t ts,
    tokensOf d (Piece.ofNames columns) = t :: ts ∧ (t = .mark '*' ∨ ∃ i, t = .ident i) := by
  cases columns with
  | nil => exact absurd rfl hne
  | cons c rest =>
    obtain ⟨t, ts, hts, hkind⟩ := name_head (d := d) c
    cases rest with
    | nil =>
      refine ⟨t, ts, ?_, hkind⟩
      simpa [Piece.ofNames, Piece.separated, List.intercalate] using hts
    | cons c' rest =>
      have htokens : tokensOf d (Piece.ofNames (c :: c' :: rest)) =
          tokensOf d (Piece.ofName c) ++ .mark ',' :: tokensOf d (Piece.ofNames (c' :: rest)) := by
        rw [Piece.ofNames, List.map_cons, List.map_cons, separated_cons, tokensOf_append,
          tokensOf_cons, tokens_comma]
        rfl
      rw [htokens, hts]
      exact ⟨t, _, rfl, hkind⟩

/-- A list of names does not start with a keyword. -/
theorem keyword_names {columns : List String} (hne : columns ≠ []) (w : String)
    (rest : List Token) : keyword w (tokensOf d (Piece.ofNames columns) ++ rest) = none := by
  obtain ⟨t, ts, hts, rfl | ⟨i, rfl⟩⟩ := names_head (d := d) hne <;> rw [hts] <;> rfl

theorem head_tokens (columns : List String) (distinct count : Bool) :
    tokensOf d (Selector.headPieces columns distinct count) =
      if count then
        if distinct && !columns.isEmpty then
          .word "COUNT" :: .mark '(' :: .word "DISTINCT" ::
            (tokensOf d (Piece.ofNames columns) ++ [.mark ')'])
        else [.word "COUNT", .mark '(', .mark '*', .mark ')']
      else
        (if distinct then [.word "DISTINCT"] else []) ++
          tokensOf d (Piece.ofNames (writtenColumns columns)) := by
  have hcolumns : (if columns.isEmpty then [.raw "*"] else Piece.ofNames columns) =
      Piece.ofNames (writtenColumns columns) := by
    unfold writtenColumns
    split
    case isTrue => exact ofNames_star.symm
    case isFalse => rfl
  unfold Selector.headPieces
  cases count with
  | true =>
    simp only [if_true]
    split <;> simp
  | false =>
    simp only [Bool.false_eq_true, if_false]
    rw [hcolumns]
    cases distinct <;> simp

theorem projection_complete {columns : List String} {distinct count : Bool} {n : Nat}
    (hn : (tokensOf d (Selector.headPieces columns distinct count)).length ≤ n)
    (rest : List Token) :
    projection n (tokensOf d (Selector.headPieces columns distinct count) ++
      .word "FROM" :: rest) =
        some (Selector.projection columns distinct count, .word "FROM" :: rest) := by
  rw [head_tokens] at hn ⊢
  cases count with
  | true =>
    cases hdistinct : distinct && !columns.isEmpty with
    | true =>
      have hne : columns ≠ [] := by
        rintro rfl
        simp at hdistinct
      simp only [hdistinct, if_true, List.length_cons, List.length_append] at hn
      have hlength : (tokensOf d (Piece.ofNames columns)).length ≤ n := by omega
      have hnames := names_complete hne hlength (.mark ')' :: .word "FROM" :: rest) rfl rfl
      simp [projection, hnames, Selector.projection, hdistinct]
    | false => simp [projection, Selector.projection, hdistinct]
  | false =>
    have hne := writtenColumns_ne_nil columns
    simp only [Bool.false_eq_true, if_false, List.length_append] at hn ⊢
    have hlength : (tokensOf d (Piece.ofNames (writtenColumns columns))).length ≤ n := by omega
    have hnames := names_complete hne hlength (.word "FROM" :: rest) rfl rfl
    have hkeyword := fun w => keyword_names (d := d) hne w (.word "FROM" :: rest)
    cases distinct with
    | true => simp [projection, hnames, Selector.projection, columnNames_eq]
    | false => simp [projection, hnames, hkeyword, Selector.projection, columnNames_eq]

/-- The tokens of an optional number after a keyword. -/
def numberTokens (w : String) : Option Nat → List Token
  | some n => [.word w, .word (toString n)]
  | none => []

theorem window_complete (w : String) (k : Option Nat) {rest : List Token}
    (hrest : keyword w rest = none) : window w (numberTokens w k ++ rest) = some (k, rest) := by
  cases k with
  | none => simp [window, numberTokens, hrest]
  | some n =>
    simp only [window, numberTokens, List.cons_append, List.nil_append, keyword_word, if_true,
      number?_toString]
    rfl

/-- The tokens of an optional ORDER BY. -/
def orderTokens (d : Dialect) (order : List OrderTerm) : List Token :=
  if order.isEmpty then []
  else .word "ORDER" :: .word "BY" ::
    [Token.mark ','].intercalate (order.map fun t => tokensOf d t.pieces)

theorem tail_tokens (terms : List OrderTerm) (limit offset : Option Nat) :
    tokensOf d (Selector.tailPieces terms limit offset) = orderTokens d terms ++
      (numberTokens "LIMIT" (limit.or (offset.map fun _ => Selector.limitMax)) ++
        numberTokens "OFFSET" offset) := by
  have hlimit : ∀ n : Nat, pieceTokens d (.raw (" LIMIT " ++ toString n)) =
      [.word "LIMIT", .word (toString n)] := tokens_number (by cases d <;> rfl)
  have hoffset : ∀ n : Nat, pieceTokens d (.raw (" OFFSET " ++ toString n)) =
      [.word "OFFSET", .word (toString n)] := tokens_number (by cases d <;> rfl)
  have horder : tokensOf d (if terms.isEmpty then []
      else .raw " ORDER BY " :: Piece.separated ", " (terms.map OrderTerm.pieces)) =
        orderTokens d terms := by
    unfold orderTokens
    split
    case isTrue => rfl
    case isFalse =>
      rw [tokensOf_cons, tokensOf_separated, tokens_orderBy, tokens_comma, List.map_map]
      rfl
  unfold Selector.tailPieces
  rw [tokensOf_append, tokensOf_append, horder, List.append_assoc]
  congr 1
  cases limit <;> cases offset <;> simp only [tokensOf_cons, tokensOf_nil, hlimit, hoffset] <;> rfl

theorem orderTerm_complete {t : OrderTerm} {n : Nat} (rest : List Token)
    (hn : (tokensOf d t.pieces).length ≤ n) :
    orderTerm n (tokensOf d t.pieces ++ rest) =
      some ((nameParts t.column, t.direction), rest) := by
  obtain ⟨column, direction⟩ := t
  have hword : ∃ w, pieceTokens d (.raw (" " ++ direction.sql)) = [.word w] ∧
      w = direction.sql := by
    cases direction <;> cases d <;> exact ⟨_, rfl, rfl⟩
  obtain ⟨w, hw, rfl⟩ := hword
  simp only [OrderTerm.pieces, tokensOf_append, tokensOf_cons, tokensOf_nil, hw,
    List.length_append] at hn ⊢
  have hlength : (tokensOf d (Piece.ofName column)).length ≤ n := by omega
  have hname := name_complete hlength (.word direction.sql :: rest) rfl
  simp only [List.append_assoc, List.append_nil, List.cons_append, List.nil_append, orderTerm,
    hname]
  cases direction <;> rfl

theorem order_complete {terms : List OrderTerm} {n : Nat} {rest : List Token}
    (hn : (orderTokens d terms).length ≤ n) (hkeyword : keyword "ORDER" rest = none)
    (hcomma : mark ',' rest = none) :
    order n (orderTokens d terms ++ rest) =
      some (terms.map fun t => (nameParts t.column, t.direction), rest) := by
  unfold orderTokens at hn ⊢
  cases terms with
  | nil => simp [order, hkeyword]
  | cons t ts =>
    simp only [List.isEmpty_cons, Bool.false_eq_true, if_false, List.length_cons] at hn ⊢
    have hgroups : ∀ g ∈ (t :: ts).map fun t => tokensOf d t.pieces, g ≠ [] := by
      intro g hg
      obtain ⟨t', -, rfl⟩ := List.mem_map.mp hg
      obtain ⟨x, xs, hxs, -⟩ := name_head (d := d) t'.column
      simp [OrderTerm.pieces, hxs]
    have hlength := length_le_intercalate [Token.mark ','] hgroups
    rw [List.length_map] at hlength
    have hterm : ∀ x ∈ t :: ts, (tokensOf d x.pieces).length ≤ n := by
      intro x hx
      have hmem := List.mem_map_of_mem (f := fun t : OrderTerm => tokensOf d t.pieces) hx
      have hx := length_le_of_mem_intercalate (s := [Token.mark ',']) hmem
      omega
    have hcount : (t :: ts).length ≤ n := by omega
    have hterms := sepBy_complete (fun t : OrderTerm => (nameParts t.column, t.direction))
      (fun x hx r _ => orderTerm_complete r (hterm x hx)) (List.cons_ne_nil t ts)
      hcount hcomma
    simp only [order, List.cons_append, keyword_word, if_true]
    exact hterms

end EntityGraph.Sql
