import EntityGraph.Proofs.Relational.Database
import EntityGraph.Proofs.Sql.Lexing
import EntityGraph.Sql.Render

/-!
# The pieces of conditions and selections do not run together

`predicate_readable` and `selector_readable` say of every condition and every selection that its
pieces are read as they are meant. The fixed texts of the rendering come first, with their tokens.
-/

set_option autoImplicit false

namespace EntityGraph.Sql

open LexState (start run finish)

variable {d : Dialect}

/-- The tokens of pieces. -/
def tokensOf (d : Dialect) (ps : List Piece) : List Token := ps.flatMap (pieceTokens d)

@[simp]
theorem tokensOf_nil : tokensOf d [] = [] := rfl

@[simp]
theorem tokensOf_cons (p : Piece) (ps : List Piece) :
    tokensOf d (p :: ps) = pieceTokens d p ++ tokensOf d ps :=
  List.flatMap_cons

@[simp]
theorem tokensOf_append (a b : List Piece) :
    tokensOf d (a ++ b) = tokensOf d a ++ tokensOf d b :=
  List.flatMap_append

/-! ## Fixed texts -/

section FixedTexts

variable (d : Dialect)

@[simp]
theorem pieceTokens_quoted (s : String) : pieceTokens d (.quoted s) = [.ident s] := rfl

@[simp]
theorem pieceTokens_bound (v : Value) : pieceTokens d (.bound v) = [.value v] := rfl

@[simp]
theorem tokens_comma : pieceTokens d (.raw ", ") = [.mark ','] := by cases d <;> rfl

@[simp]
theorem tokens_dot : pieceTokens d (.raw ".") = [.mark '.'] := by cases d <;> rfl

@[simp]
theorem tokens_star : pieceTokens d (.raw "*") = [.mark '*'] := by cases d <;> rfl

@[simp]
theorem tokens_open : pieceTokens d (.raw "(") = [.mark '('] := by cases d <;> rfl

@[simp]
theorem tokens_close : pieceTokens d (.raw ")") = [.mark ')'] := by cases d <;> rfl

@[simp]
theorem tokens_equals : pieceTokens d (.raw " = ") = [.operator "="] := by cases d <;> rfl

@[simp]
theorem tokens_null : pieceTokens d (.raw "NULL") = [.word "NULL"] := by cases d <;> rfl

@[simp]
theorem tokens_isNull : pieceTokens d (.raw " IS NULL") = [.word "IS", .word "NULL"] := by
  cases d <;> rfl

@[simp]
theorem tokens_isNotNull :
    pieceTokens d (.raw " IS NOT NULL") = [.word "IS", .word "NOT", .word "NULL"] := by
  cases d <;> rfl

@[simp]
theorem tokens_always :
    pieceTokens d (.raw "1 = 1") = [.word "1", .operator "=", .word "1"] := by
  cases d <;> rfl

@[simp]
theorem tokens_never :
    pieceTokens d (.raw "1 = 0") = [.word "1", .operator "=", .word "0"] := by
  cases d <;> rfl

@[simp]
theorem tokens_in : pieceTokens d (.raw " IN (") = [.word "IN", .mark '('] := by cases d <;> rfl

@[simp]
theorem tokens_notIn :
    pieceTokens d (.raw " NOT IN (") = [.word "NOT", .word "IN", .mark '('] := by
  cases d <;> rfl

@[simp]
theorem tokens_like : pieceTokens d (.raw " LIKE ") = [.word "LIKE"] := by cases d <;> rfl

@[simp]
theorem tokens_escape :
    pieceTokens d (.raw " ESCAPE '\\'") = [.word "ESCAPE", .text "\\"] := by
  cases d <;> rfl

@[simp]
theorem tokens_exists : pieceTokens d (.raw "EXISTS (") = [.word "EXISTS", .mark '('] := by
  cases d <;> rfl

@[simp]
theorem tokens_not : pieceTokens d (.raw "NOT (") = [.word "NOT", .mark '('] := by
  cases d <;> rfl

@[simp]
theorem tokens_and : pieceTokens d (.raw " AND ") = [.word "AND"] := by cases d <;> rfl

@[simp]
theorem tokens_or : pieceTokens d (.raw " OR ") = [.word "OR"] := by cases d <;> rfl

@[simp]
theorem tokens_where : pieceTokens d (.raw " WHERE ") = [.word "WHERE"] := by cases d <;> rfl

@[simp]
theorem tokens_as : pieceTokens d (.raw " AS ") = [.word "AS"] := by cases d <;> rfl

@[simp]
theorem tokens_closeAs : pieceTokens d (.raw ") AS ") = [.mark ')', .word "AS"] := by
  cases d <;> rfl

@[simp]
theorem tokens_join : pieceTokens d (.raw " JOIN ") = [.word "JOIN"] := by cases d <;> rfl

@[simp]
theorem tokens_on : pieceTokens d (.raw " ON ") = [.word "ON"] := by cases d <;> rfl

@[simp]
theorem tokens_select : pieceTokens d (.raw "SELECT ") = [.word "SELECT"] := by cases d <;> rfl

@[simp]
theorem tokens_from : pieceTokens d (.raw " FROM ") = [.word "FROM"] := by cases d <;> rfl

@[simp]
theorem tokens_distinct : pieceTokens d (.raw "DISTINCT ") = [.word "DISTINCT"] := by
  cases d <;> rfl

@[simp]
theorem tokens_countDistinct :
    pieceTokens d (.raw "COUNT(DISTINCT ") = [.word "COUNT", .mark '(', .word "DISTINCT"] := by
  cases d <;> rfl

@[simp]
theorem tokens_countRows :
    pieceTokens d (.raw "COUNT(*)") = [.word "COUNT", .mark '(', .mark '*', .mark ')'] := by
  cases d <;> rfl

@[simp]
theorem tokens_orderBy : pieceTokens d (.raw " ORDER BY ") = [.word "ORDER", .word "BY"] := by
  cases d <;> rfl

end FixedTexts

/-- A keyword before a number. -/
theorem run_number {s w : String} (hs : start.run d s.toList = some ([.word w], .start)) (n : Nat) :
    start.run d (s ++ toString n).toList =
      some ([.word w], .word (toString n).toList.reverse) := by
  have hdigits : ∀ c ∈ (toString n).toList, isWordChar c = true := fun c hc =>
    isWordChar_of_isDigit (isDigit_of_mem_toList hc)
  rw [String.toList_append, LexState.run_append, hs, Option.bind_some]
  cases hn : (toString n).toList with
  | nil =>
    have hne : (toString n).toList ≠ [] := by
      rw [Nat.toString_eq_repr]
      simp
    exact absurd hn hne
  | cons c rest =>
    rw [hn] at hdigits
    simp only [run_word hdigits]
    rfl

theorem position?_toString (n : Nat) : position? (toString n) = none := by
  unfold position?
  split
  case h_1 digits hdigits =>
    have hmem : '$' ∈ (toString n).toList := by
      rw [hdigits]
      exact List.mem_cons_self
    cases isDigit_of_mem_toList hmem
  case h_2 => rfl

theorem tokens_number {s w : String} (hs : start.run d s.toList = some ([.word w], .start))
    (n : Nat) : pieceTokens d (.raw (s ++ toString n)) = [.word w, .word (toString n)] := by
  simp only [pieceTokens, lex, run_number hs n, finish, Option.bind_eq_bind, Option.bind_some,
    Option.pure_def, Option.getD_some, List.reverse_reverse, String.ofList_toList]
  rfl

theorem isPlain_number {s w : String} (hs : start.run d s.toList = some ([.word w], .start))
    (hw : position? w = none) (n : Nat) : isPlain d (s ++ toString n) = true := by
  simp only [isPlain, run_number hs n, finish, List.reverse_reverse, String.ofList_toList,
    List.all_append, List.all_cons, List.all_nil, Token.isPlaceholder, hw, position?_toString]
  rfl

/-! ## Names and lists -/

theorem separated_cons (s : String) (g g' : List Piece) (rest : List (List Piece)) :
    Piece.separated s (g :: g' :: rest) = g ++ .raw s :: Piece.separated s (g' :: rest) := by
  simp [Piece.separated, List.intercalate]

/-- What holds of groups of pieces, and of any two lists with a separator between them if it holds of
both, holds of all groups with separators between them. -/
theorem separated_induction {P : List Piece → Prop} {s : String} {groups : List (List Piece)}
    (nil : P []) (between : ∀ ps qs, P ps → P qs → P (ps ++ .raw s :: qs))
    (h : ∀ g ∈ groups, P g) : P (Piece.separated s groups) := by
  induction groups with
  | nil => exact nil
  | cons g rest ih =>
    have hg := h g List.mem_cons_self
    have hrest := ih fun g' hg' => h g' (List.mem_cons_of_mem g hg')
    cases rest with
    | nil => simpa [Piece.separated, List.intercalate] using hg
    | cons g' rest =>
      rw [separated_cons]
      exact between g _ hg hrest

/-- Groups of pieces between spacers do not run together. -/
theorem readable_separated {s : String} (hs : isSpacer d s = true) {groups : List (List Piece)}
    (h : ∀ g ∈ groups, Readable d g) : Readable d (Piece.separated s groups) :=
  separated_induction .nil (fun _ _ hp hq => hp.between hs hq) h

theorem intersperse_eq_separated (s : String) (ps : List Piece) :
    ps.intersperse (.raw s) = Piece.separated s (ps.map fun p => [p]) := by
  induction ps with
  | nil => rfl
  | cons p rest ih =>
    cases rest with
    | nil => rfl
    | cons q rest =>
      rw [List.intersperse_cons_cons, ih]
      simp only [List.map_cons, separated_cons]
      rfl

/-- The piece of a part of a name. -/
def namePiece (part : String) : Piece := if part = "*" then .raw "*" else .quoted part

theorem ofName_eq (name : String) :
    Piece.ofName name =
      Piece.separated "." ((nameParts name).map fun part => [namePiece part]) := by
  have h := intersperse_eq_separated "." ((nameParts name).map namePiece)
  rw [List.map_map] at h
  exact h

theorem readable_name (name : String) : Readable d (Piece.ofName name) := by
  rw [ofName_eq]
  refine readable_separated (by cases d <;> rfl) fun g hg => ?_
  obtain ⟨part, -, rfl⟩ := List.mem_map.mp hg
  apply Readable.single
  unfold namePiece
  split
  case isTrue =>
    show isPlain d "*" = true
    cases d <;> rfl
  case isFalse => trivial

theorem readable_names (names : List String) : Readable d (Piece.ofNames names) := by
  refine readable_separated (by cases d <;> rfl) fun g hg => ?_
  obtain ⟨name, -, rfl⟩ := List.mem_map.mp hg
  exact readable_name name

theorem readable_value (v : Value) : Readable d [Piece.ofValue v] := by
  apply Readable.single
  unfold Piece.ofValue
  split
  case isTrue =>
    show isPlain d "NULL" = true
    cases d <;> rfl
  case isFalse => trivial

theorem readable_values (vs : List Value) : Readable d (Piece.ofValues vs) := by
  refine readable_separated (by cases d <;> rfl) fun g hg => ?_
  obtain ⟨v, -, rfl⟩ := List.mem_map.mp hg
  exact readable_value v

/-! ## Selections without their conditions -/

/-- Readable pieces that keep apart from whatever stands before them. -/
def FreeStanding (d : Dialect) (ps : List Piece) : Prop :=
  Readable d ps ∧ ∀ p ∈ ps.head?, ∃ s, p = .raw s ∧ startsFree s = true

theorem FreeStanding.nil : FreeStanding d [] := ⟨Readable.nil, fun p hp => by cases hp⟩

theorem FreeStanding.cons {s : String} {ps : List Piece} (hs : isSpacer d s = true)
    (h : Readable d ps) : FreeStanding d (.raw s :: ps) := by
  unfold isSpacer at hs
  obtain ⟨hs, hstarts⟩ := Bool.and_eq_true_iff.mp hs
  refine ⟨h.after hs, fun p hp => ⟨s, ?_, hstarts⟩⟩
  simpa using hp.symm

theorem Readable.append_free {a b : List Piece} (ha : Readable d a) (hb : FreeStanding d b) :
    Readable d (a ++ b) :=
  ha.append hb.1 fun _ _ q hq => .inr (hb.2 q hq)

theorem FreeStanding.append {a b : List Piece} (ha : FreeStanding d a) (hb : FreeStanding d b) :
    FreeStanding d (a ++ b) := by
  refine ⟨ha.1.append_free hb, ?_⟩
  cases a with
  | nil => exact hb.2
  | cons p a => exact ha.2

theorem readable_head (columns : List String) (distinct count : Bool) :
    Readable d (Selector.headPieces columns distinct count) := by
  unfold Selector.headPieces
  split
  case isTrue =>
    split
    case isTrue =>
      have hnames := (readable_names (d := d) columns).before (s := ")") (by cases d <;> rfl)
      exact hnames.after (by cases d <;> rfl)
    case isFalse =>
      apply Readable.single
      show isPlain d "COUNT(*)" = true
      cases d <;> rfl
  case isFalse =>
    have hcolumns : Readable d (if columns.isEmpty then [.raw "*"] else Piece.ofNames columns) := by
      split
      case isTrue =>
        apply Readable.single
        show isPlain d "*" = true
        cases d <;> rfl
      case isFalse => exact readable_names columns
    split
    case isTrue => exact hcolumns.after (by cases d <;> rfl)
    case isFalse => exact hcolumns

theorem readable_order (t : OrderTerm) : Readable d t.pieces := by
  unfold OrderTerm.pieces
  refine (readable_name t.column).before ?_
  cases t.direction <;> cases d <;> rfl

theorem freeStanding_number {s w : String}
    (hs : start.run d s.toList = some ([.word w], .start)) (hw : position? w = none)
    (hfree : startsFree s = true) (n : Nat) : FreeStanding d [.raw (s ++ toString n)] := by
  refine ⟨Readable.single (isPlain_number hs hw n), fun p hp => ⟨s ++ toString n, ?_, ?_⟩⟩
  · simpa using hp.symm
  · unfold startsFree at hfree ⊢
    rw [String.toList_append]
    cases hchars : s.toList with
    | nil => simp [hchars] at hfree
    | cons c rest => simpa [hchars] using hfree

theorem freeStanding_tail (order : List OrderTerm) (limit offset : Option Nat) :
    FreeStanding d (Selector.tailPieces order limit offset) := by
  have hlimit : ∀ n : Nat, FreeStanding d [.raw (" LIMIT " ++ toString n)] :=
    freeStanding_number (w := "LIMIT") (by cases d <;> rfl) rfl rfl
  have hoffset : ∀ n : Nat, FreeStanding d [.raw (" OFFSET " ++ toString n)] :=
    freeStanding_number (w := "OFFSET") (by cases d <;> rfl) rfl rfl
  unfold Selector.tailPieces
  refine (FreeStanding.append ?_ ?_).append ?_
  · split
    case isTrue => exact FreeStanding.nil
    case isFalse =>
      refine FreeStanding.cons (by cases d <;> rfl) ?_
      refine readable_separated (by cases d <;> rfl) fun g hg => ?_
      obtain ⟨t, -, rfl⟩ := List.mem_map.mp hg
      exact readable_order t
  · split
    case h_1 n => exact hlimit n
    case h_2 => exact hlimit Selector.limitMax
    case h_3 => exact FreeStanding.nil
  · split
    case h_1 n => exact hoffset n
    case h_2 => exact FreeStanding.nil

/-! ## Conditions and selections -/

theorem readable_brackets {p : List Piece} (h : Readable d p) :
    Readable d (.raw "(" :: (p ++ [.raw ")"])) :=
  (h.before (by cases d <;> rfl)).after (by cases d <;> rfl)

/-- A member of a junction, in brackets or not. -/
theorem readable_member {p : List Piece} (h : Readable d p) (brackets : Bool) :
    Readable d (if brackets then .raw "(" :: (p ++ [.raw ")"]) else p) := by
  cases brackets with
  | true => exact readable_brackets h
  | false => exact h

/-- A comparison is written with its operator and its value, or else it asks for a null. -/
theorem pieces_compare (d : Dialect) (column : String) (op : Comparison) (v : Value) :
    (∃ s, (s = " IS NULL" ∨ s = " IS NOT NULL") ∧
      Predicate.pieces d (.compare column op v) = Piece.ofName column ++ [.raw s]) ∨
    Predicate.pieces d (.compare column op v) =
      Piece.ofName column ++ [.raw op.sql, Piece.ofValue v] := by
  cases op with
  | eq =>
    cases v with
    | null => exact .inl ⟨_, .inl rfl, rfl⟩
    | _ => exact .inr rfl
  | ne =>
    cases v with
    | null => exact .inl ⟨_, .inr rfl, rfl⟩
    | _ => exact .inr rfl
  | _ => exact .inr rfl

theorem readable_compare (column : String) (op : Comparison) (v : Value) :
    Readable d (Predicate.pieces d (.compare column op v)) := by
  rcases pieces_compare d column op v with ⟨s, hs, hpieces⟩ | hpieces
  all_goals rw [hpieces]
  · refine (readable_name column).before ?_
    rcases hs with rfl | rfl <;> cases d <;> rfl
  · exact (readable_name column).between (by cases op <;> cases d <;> rfl) (readable_value v)

theorem readable_like (column pattern : String) :
    Readable d (Predicate.pieces d (.like column pattern)) := by
  have hlike : Readable d (Piece.ofName column ++ [.raw " LIKE ", .bound (.string pattern)]) :=
    (readable_name column).between (by cases d <;> rfl) (Readable.single trivial)
  simp only [Predicate.pieces]
  split
  case isTrue => exact hlike.before (by cases d <;> rfl)
  case isFalse => simpa using hlike

mutual

theorem predicate_readable (d : Dialect) : (p : Predicate) → Readable d (p.pieces d)
  | .compare column op v => readable_compare column op v
  | .isIn _ [] => Readable.single (by cases d <;> rfl)
  | .isIn column (v :: vs) =>
    (readable_name column).between (by cases d <;> rfl)
      ((readable_values (v :: vs)).before (by cases d <;> rfl))
  | .notIn _ [] => Readable.single (by cases d <;> rfl)
  | .notIn column (v :: vs) =>
    (readable_name column).between (by cases d <;> rfl)
      ((readable_values (v :: vs)).before (by cases d <;> rfl))
  | .isNull column => (readable_name column).before (by cases d <;> rfl)
  | .notNull column => (readable_name column).before (by cases d <;> rfl)
  | .like column pattern => readable_like column pattern
  | .inSelect column select =>
    (readable_name column).between (by cases d <;> rfl)
      ((selector_readable d select).before (by cases d <;> rfl))
  | .anyRow select =>
    ((selector_readable d select).before (by cases d <;> rfl)).after (by cases d <;> rfl)
  | .conj [] => Readable.single (by cases d <;> rfl)
  | .conj (p :: rest) =>
    (readable_member (predicate_readable d p) _).append_free
      (members_freeStanding d " AND " (by cases d <;> rfl) rest)
  | .disj [] => Readable.single (by cases d <;> rfl)
  | .disj (p :: rest) =>
    (readable_member (predicate_readable d p) _).append_free
      (members_freeStanding d " OR " (by cases d <;> rfl) rest)
  | .neg pred =>
    ((predicate_readable d pred).before (by cases d <;> rfl)).after (by cases d <;> rfl)

theorem members_freeStanding (d : Dialect) (operator : String) (h : isSpacer d operator = true) :
    (ps : List Predicate) → FreeStanding d (membersPieces d operator ps)
  | [] => FreeStanding.nil
  | p :: rest =>
    FreeStanding.cons h
      ((readable_member (predicate_readable d p) _).append_free
        (members_freeStanding d operator h rest))

theorem condition_freeStanding (d : Dialect) : (p : Option Predicate) →
    FreeStanding d (conditionPieces d p)
  | some p => FreeStanding.cons (by cases d <;> rfl) (predicate_readable d p)
  | none => FreeStanding.nil

theorem source_readable (d : Dialect) : (t : TableRef) → Readable d (t.pieces d)
  | .table name none => readable_name name
  | .table name (some asName) =>
    (readable_name name).between (by cases d <;> rfl) (readable_name asName)
  | .select select asName =>
    ((selector_readable d select).between (by cases d <;> rfl) (readable_name asName)).after
      (by cases d <;> rfl)

theorem joins_freeStanding (d : Dialect) : (js : List Join) → FreeStanding d (joinsPieces d js)
  | [] => FreeStanding.nil
  | ⟨table, left, right⟩ :: rest =>
    FreeStanding.cons (by cases d <;> rfl)
      ((source_readable d table).between (by cases d <;> rfl)
        ((readable_name left).between (by cases d <;> rfl)
          ((readable_name right).append_free (joins_freeStanding d rest))))

theorem selector_readable (d : Dialect) : (s : Selector) → Readable d (s.pieces d)
  | ⟨columns, source, joins, predicate, order, limit, offset, distinct, count⟩ =>
    ((readable_head columns distinct count).between (by cases d <;> rfl)
      ((((source_readable d source).append_free (joins_freeStanding d joins)).append_free
        (condition_freeStanding d predicate)).append_free
          (freeStanding_tail order limit offset))).after (by cases d <;> rfl)

end

end EntityGraph.Sql
