import EntityGraph.Proofs.Sql.Content

/-!
# No list of a statement is empty

The keywords IN, SET, RETURNING, ON CONFLICT and ON DUPLICATE KEY UPDATE stand before lists, and a
database refuses a statement with an empty one. `ListsFilled` says of the tokens of a statement that
an element follows wherever such a list begins. Conditions and selections fill their lists whatever
they are made of, since an empty IN is written as a constant. Statements that write fill them if
there is something to write: the builders of an UPDATE and of a conflict clause do not look.
-/

set_option autoImplicit false

namespace EntityGraph.Sql

variable {d : Dialect}

/-! ## Lists among tokens -/

/-- The tokens with which a list begins. -/
def listOpeners : List (List Token) :=
  [[.word "IN", .mark '('], [.word "SET"], [.word "RETURNING"], [.word "CONFLICT", .mark '('],
    [.word "KEY", .word "UPDATE"]]

/-- An element of a list begins with the token: a name, a star, a value or a selection. -/
def Token.beginsElement : Token → Bool
  | .ident _ | .value _ => true
  | .mark c => c == '*'
  | .word w => w == "NULL" || w == "SELECT"
  | .operator _ | .text _ => false

/-- The first of the tokens begins an element. -/
def StartsElement (ts : List Token) : Prop := ts.head?.any Token.beginsElement = true

/-- Wherever a list begins, an element follows. -/
def ListsFilled (ts : List Token) : Prop :=
  ∀ opener ∈ listOpeners, ∀ before after, ts = before ++ opener ++ after → StartsElement after

/-- No list begins with the token. -/
def Token.opensNone : Token → Bool
  | .word w => !(["IN", "SET", "RETURNING", "CONFLICT", "KEY"].contains w)
  | _ => true

theorem StartsElement.append {ts : List Token} (h : StartsElement ts) (rest : List Token) :
    StartsElement (ts ++ rest) := by
  cases ts with
  | nil => simp [StartsElement] at h
  | cons t ts => exact h

theorem listsFilled_nil : ListsFilled [] := by
  intro opener hopener before after h
  obtain ⟨h, -⟩ := List.append_eq_nil_iff.mp h.symm
  obtain ⟨-, rfl⟩ := List.append_eq_nil_iff.mp h
  simp [listOpeners] at hopener

/-- A list begins at the front, or there is nothing new. -/
theorem listsFilled_cons {t : Token} {ts : List Token} :
    ListsFilled (t :: ts) ↔
      (∀ opener ∈ listOpeners, ∀ after, t :: ts = opener ++ after → StartsElement after) ∧
        ListsFilled ts := by
  constructor
  · refine fun h => ⟨fun opener hopener => h opener hopener [], ?_⟩
    rintro opener hopener before after rfl
    exact h opener hopener (t :: before) after rfl
  · rintro ⟨hfront, hrest⟩ opener hopener before after hsplit
    cases before with
    | nil => exact hfront opener hopener after hsplit
    | cons u before =>
      obtain ⟨-, hsplit⟩ := List.cons.inj hsplit
      exact hrest opener hopener before after hsplit

theorem listsFilled_silent (before : List Token) {ts : List Token}
    (hbefore : before.all Token.opensNone = true) (h : ListsFilled ts) :
    ListsFilled (before ++ ts) := by
  induction before with
  | nil => exact h
  | cons t before ih =>
    rw [List.all_cons, Bool.and_eq_true] at hbefore
    obtain ⟨ht, hbefore⟩ := hbefore
    refine listsFilled_cons.mpr ⟨fun opener hopener after hsplit => ?_, ih hbefore⟩
    have hword : ∃ w rest, opener = .word w :: rest ∧
        w ∈ ["IN", "SET", "RETURNING", "CONFLICT", "KEY"] := by
      simp only [listOpeners, List.mem_cons, List.not_mem_nil, or_false] at hopener
      rcases hopener with rfl | rfl | rfl | rfl | rfl <;> exact ⟨_, _, rfl, by decide⟩
    obtain ⟨w, rest, rfl, hw⟩ := hword
    obtain ⟨rfl, -⟩ := List.cons.inj hsplit
    rw [Token.opensNone, Bool.not_eq_true', ← Bool.not_eq_true, List.contains_iff_mem] at ht
    exact absurd hw ht

/-- A list that begins is filled if an element follows. -/
theorem listsFilled_opener {opener ts : List Token} (hopener : opener ∈ listOpeners)
    (hfirst : StartsElement ts) (h : ListsFilled ts) : ListsFilled (opener ++ ts) := by
  -- No opener begins within another or begins with another, so it is the only one to be found.
  have hsplit : ∀ other ∈ listOpeners, ∀ after, opener ++ ts = other ++ after →
      StartsElement after := by
    intro other hother after hsplit
    simp only [listOpeners, List.mem_cons, List.not_mem_nil, or_false] at hopener hother
    rcases hopener with rfl | rfl | rfl | rfl | rfl <;>
      rcases hother with rfl | rfl | rfl | rfl | rfl <;> simp_all
  have hopened : ∃ t rest, opener = t :: rest ∧ rest.all Token.opensNone = true := by
    simp only [listOpeners, List.mem_cons, List.not_mem_nil, or_false] at hopener
    rcases hopener with rfl | rfl | rfl | rfl | rfl <;> exact ⟨_, _, rfl, by decide⟩
  obtain ⟨t, rest, rfl, hrest⟩ := hopened
  exact listsFilled_cons.mpr ⟨hsplit, listsFilled_silent _ hrest h⟩

/-! ## Lists among pieces -/

/-- The lists of pieces are filled, whatever follows them. -/
def Fills (d : Dialect) (ps : List Piece) : Prop :=
  ∀ rest, ListsFilled rest → ListsFilled (tokensOf d ps ++ rest)

/-- Pieces that begin with an element of a list, and fill their own lists. -/
structure FillsFirst (d : Dialect) (ps : List Piece) : Prop where
  fills : Fills d ps
  first : StartsElement (tokensOf d ps)

/-- No list begins in a fixed text. -/
def opensNone (d : Dialect) (s : String) : Bool := (pieceTokens d (.raw s)).all Token.opensNone

namespace Fills

variable {a b : List Piece}

theorem listsFilled (h : Fills d a) : ListsFilled (tokensOf d a) := by
  have h := h [] listsFilled_nil
  rwa [List.append_nil] at h

theorem nil : Fills d [] := fun _ h => h

theorem append (ha : Fills d a) (hb : Fills d b) : Fills d (a ++ b) := by
  intro rest h
  rw [tokensOf_append, List.append_assoc]
  exact ha _ (hb rest h)

theorem silent {s : String} (hs : opensNone d s = true) : Fills d [.raw s] := by
  intro rest h
  rw [tokensOf_cons, tokensOf_nil, List.append_nil]
  exact listsFilled_silent _ hs h

theorem after {s : String} (hs : opensNone d s = true) (h : Fills d a) : Fills d (.raw s :: a) :=
  (silent hs).append h

theorem before {s : String} (hs : opensNone d s = true) (h : Fills d a) :
    Fills d (a ++ [.raw s]) :=
  h.append (silent hs)

theorem between {s : String} (hs : opensNone d s = true) (ha : Fills d a) (hb : Fills d b) :
    Fills d (a ++ .raw s :: b) :=
  ha.append (hb.after hs)

theorem brackets (h : Fills d a) : Fills d (.raw "(" :: (a ++ [.raw ")"])) :=
  (h.before (by cases d <;> rfl)).after (by cases d <;> rfl)

theorem separated {s : String} (hs : opensNone d s = true) {groups : List (List Piece)}
    (h : ∀ g ∈ groups, Fills d g) : Fills d (Piece.separated s groups) :=
  separated_induction nil (fun _ _ hp hq => hp.between hs hq) h

end Fills

namespace FillsFirst

variable {a b : List Piece}

theorem append (ha : FillsFirst d a) (hb : Fills d b) : FillsFirst d (a ++ b) := by
  refine ⟨ha.fills.append hb, ?_⟩
  rw [tokensOf_append]
  exact ha.first.append _

/-- A list that fixed texts open is filled by what follows them. -/
theorem opened {texts : List Piece} {before opener : List Token}
    (htexts : tokensOf d texts = before ++ opener) (hbefore : before.all Token.opensNone = true)
    (hopener : opener ∈ listOpeners) (h : FillsFirst d a) : Fills d (texts ++ a) := by
  intro rest hrest
  rw [tokensOf_append, htexts, List.append_assoc, List.append_assoc]
  exact listsFilled_silent _ hbefore (listsFilled_opener hopener (h.first.append rest)
    (h.fills rest hrest))

theorem separated {s : String} (hs : opensNone d s = true) {groups : List (List Piece)}
    (hne : groups ≠ []) (h : ∀ g ∈ groups, FillsFirst d g) :
    FillsFirst d (Piece.separated s groups) := by
  refine ⟨Fills.separated hs fun g hg => (h g hg).fills, ?_⟩
  cases groups with
  | nil => exact absurd rfl hne
  | cons g rest =>
    have hg := (h g List.mem_cons_self).first
    cases rest with
    | nil => simpa [Piece.separated, List.intercalate] using hg
    | cons g' rest =>
      rw [separated_cons, tokensOf_append]
      exact hg.append _

end FillsFirst

/-! ## Names, values and numbers -/

theorem fillsFirst_namePiece (part : String) : FillsFirst d [namePiece part] := by
  unfold namePiece
  split
  case isTrue => exact ⟨Fills.silent (by cases d <;> rfl), by cases d <;> rfl⟩
  case isFalse => exact ⟨fun rest h => listsFilled_silent [.ident part] rfl h, rfl⟩

theorem fillsFirst_name (name : String) : FillsFirst d (Piece.ofName name) := by
  rw [ofName_eq]
  refine FillsFirst.separated (by cases d <;> rfl) (by simp [nameParts, List.splitOn_ne_nil])
    fun g hg => ?_
  obtain ⟨part, -, rfl⟩ := List.mem_map.mp hg
  exact fillsFirst_namePiece part

theorem fills_name (name : String) : Fills d (Piece.ofName name) := (fillsFirst_name name).fills

theorem fillsFirst_names {names : List String} (hne : names ≠ []) :
    FillsFirst d (Piece.ofNames names) := by
  refine FillsFirst.separated (by cases d <;> rfl) (by simpa using hne) fun g hg => ?_
  obtain ⟨name, -, rfl⟩ := List.mem_map.mp hg
  exact fillsFirst_name name

theorem fills_names (names : List String) : Fills d (Piece.ofNames names) := by
  cases names with
  | nil => exact Fills.nil
  | cons name names => exact (fillsFirst_names (List.cons_ne_nil name names)).fills

theorem fillsFirst_value (v : Value) : FillsFirst d [Piece.ofValue v] := by
  unfold Piece.ofValue
  split
  case isTrue => exact ⟨Fills.silent (by cases d <;> rfl), by cases d <;> rfl⟩
  case isFalse => exact ⟨fun rest h => listsFilled_silent [.value v] rfl h, rfl⟩

theorem fills_value (v : Value) : Fills d [Piece.ofValue v] := (fillsFirst_value v).fills

theorem fillsFirst_values {vs : List Value} (hne : vs ≠ []) :
    FillsFirst d (Piece.ofValues vs) := by
  refine FillsFirst.separated (by cases d <;> rfl) (by simpa using hne) fun g hg => ?_
  obtain ⟨v, -, rfl⟩ := List.mem_map.mp hg
  exact fillsFirst_value v

theorem fills_values (vs : List Value) : Fills d (Piece.ofValues vs) := by
  cases vs with
  | nil => exact Fills.nil
  | cons v vs => exact (fillsFirst_values (List.cons_ne_nil v vs)).fills

theorem fills_number {s w : String} (hs : LexState.start.run d s.toList = some ([.word w], .start))
    (hw : (Token.word w).opensNone = true) (n : Nat) : Fills d [.raw (s ++ toString n)] := by
  have hdigits : (toString n).toList.all Char.isDigit = true :=
    List.all_eq_true.mpr fun c hc => isDigit_of_mem_toList hc
  have hnumber : (Token.word (toString n)).opensNone = true := by
    rw [Token.opensNone, Bool.not_eq_true', ← Bool.not_eq_true, List.contains_iff_mem]
    intro hmem
    have hletters : ∀ word ∈ ["IN", "SET", "RETURNING", "CONFLICT", "KEY"],
        word.toList.all Char.isDigit = false := by decide
    rw [hletters _ hmem] at hdigits
    cases hdigits
  refine Fills.silent ?_
  rw [opensNone, tokens_number hs, List.all_cons, List.all_cons, hw, hnumber]
  rfl

/-! ## Selections without their conditions -/

theorem fills_head (columns : List String) (distinct count : Bool) :
    Fills d (Selector.headPieces columns distinct count) := by
  have hnames := fills_names (d := d) columns
  unfold Selector.headPieces
  split
  case isTrue =>
    split
    case isTrue => exact (hnames.before (by cases d <;> rfl)).after (by cases d <;> rfl)
    case isFalse => exact Fills.silent (by cases d <;> rfl)
  case isFalse =>
    refine Fills.append ?_ ?_
    · split
      case isTrue => exact Fills.silent (by cases d <;> rfl)
      case isFalse => exact Fills.nil
    · split
      case isTrue => exact Fills.silent (by cases d <;> rfl)
      case isFalse => exact hnames

theorem fills_tail (order : List OrderTerm) (limit offset : Option Nat) :
    Fills d (Selector.tailPieces order limit offset) := by
  have hlimit : ∀ n : Nat, Fills d [.raw (" LIMIT " ++ toString n)] :=
    fills_number (w := "LIMIT") (by cases d <;> rfl) rfl
  have hoffset : ∀ n : Nat, Fills d [.raw (" OFFSET " ++ toString n)] :=
    fills_number (w := "OFFSET") (by cases d <;> rfl) rfl
  unfold Selector.tailPieces
  refine (Fills.append ?_ ?_).append ?_
  · split
    case isTrue => exact Fills.nil
    case isFalse =>
      refine (Fills.separated (by cases d <;> rfl) fun g hg => ?_).after (by cases d <;> rfl)
      obtain ⟨t, -, rfl⟩ := List.mem_map.mp hg
      refine (fills_name t.column).before ?_
      cases t.direction <;> cases d <;> rfl
  · split
    case h_1 n => exact hlimit n
    case h_2 => exact hlimit Selector.limitMax
    case h_3 => exact Fills.nil
  · split
    case h_1 n => exact hoffset n
    case h_2 => exact Fills.nil

/-! ## Conditions and selections -/

theorem fills_compare (column : String) (op : Comparison) (v : Value) :
    Fills d (Predicate.pieces d (.compare column op v)) := by
  rcases pieces_compare d column op v with ⟨s, hs, hpieces⟩ | hpieces
  all_goals rw [hpieces]
  · refine (fills_name column).before ?_
    rcases hs with rfl | rfl <;> cases d <;> rfl
  · exact (fills_name column).between (by cases op <;> cases d <;> rfl) (fills_value v)

theorem fills_like (column pattern : String) :
    Fills d (Predicate.pieces d (.like column pattern)) := by
  have hbound : Fills d [.bound (.string pattern)] := fun rest h =>
    listsFilled_silent [.value (.string pattern)] rfl h
  have hlike := (fills_name (d := d) column).between (s := " LIKE ") (by cases d <;> rfl) hbound
  simp only [Predicate.pieces]
  split
  case isTrue => exact hlike.before (by cases d <;> rfl)
  case isFalse => simpa using hlike

/-- A test of a column for a list that is not empty. -/
theorem fills_list (column : String) (before : List Token) {s : String} {ps : List Piece}
    (hs : pieceTokens d (.raw s) = before ++ [.word "IN", .mark '('])
    (hbefore : before.all Token.opensNone = true) (h : FillsFirst d ps) :
    Fills d (Piece.ofName column ++ .raw s :: (ps ++ [.raw ")"])) := by
  have htexts : tokensOf d [.raw s] = before ++ [.word "IN", .mark '('] := by
    rw [tokensOf_cons, tokensOf_nil, List.append_nil, hs]
  have hlist := h.append (Fills.silent (s := ")") (by cases d <;> rfl))
  exact (fills_name column).append (hlist.opened htexts hbefore (by simp [listOpeners]))

theorem fills_member {ps : List Piece} (h : Fills d ps) (brackets : Bool) :
    Fills d (if brackets then .raw "(" :: (ps ++ [.raw ")"]) else ps) := by
  cases brackets with
  | true => exact h.brackets
  | false => exact h

mutual

theorem predicate_fills (d : Dialect) : (p : Predicate) → Fills d (p.pieces d)
  | .compare column op v => fills_compare column op v
  | .isIn _ [] => Fills.silent (by cases d <;> rfl)
  | .isIn column (v :: vs) =>
    fills_list column [] (tokens_in d) rfl
      (fillsFirst_values (List.cons_ne_nil v vs))
  | .notIn _ [] => Fills.silent (by cases d <;> rfl)
  | .notIn column (v :: vs) =>
    fills_list column [.word "NOT"] (tokens_notIn d) rfl
      (fillsFirst_values (List.cons_ne_nil v vs))
  | .isNull column => (fills_name column).before (by cases d <;> rfl)
  | .notNull column => (fills_name column).before (by cases d <;> rfl)
  | .like column pattern => fills_like column pattern
  | .inSelect column select =>
    fills_list column [] (tokens_in d) rfl (selector_fills d select)
  | .anyRow select =>
    ((selector_fills d select).fills.before (by cases d <;> rfl)).after (by cases d <;> rfl)
  | .conj [] => Fills.silent (by cases d <;> rfl)
  | .conj (p :: rest) =>
    (fills_member (predicate_fills d p) _).append (members_fill d " AND " (by cases d <;> rfl) rest)
  | .disj [] => Fills.silent (by cases d <;> rfl)
  | .disj (p :: rest) =>
    (fills_member (predicate_fills d p) _).append (members_fill d " OR " (by cases d <;> rfl) rest)
  | .neg pred =>
    ((predicate_fills d pred).before (by cases d <;> rfl)).after (by cases d <;> rfl)

theorem members_fill (d : Dialect) (operator : String) (h : opensNone d operator = true) :
    (ps : List Predicate) → Fills d (membersPieces d operator ps)
  | [] => Fills.nil
  | p :: rest =>
    ((fills_member (predicate_fills d p) _).append (members_fill d operator h rest)).after h

theorem condition_fills (d : Dialect) : (p : Option Predicate) → Fills d (conditionPieces d p)
  | some p => (predicate_fills d p).after (by cases d <;> rfl)
  | none => Fills.nil

theorem source_fills (d : Dialect) : (t : TableRef) → Fills d (t.pieces d)
  | .table name none => fills_name name
  | .table name (some asName) =>
    (fills_name name).between (by cases d <;> rfl) (fills_name asName)
  | .select select asName =>
    ((selector_fills d select).fills.between (by cases d <;> rfl) (fills_name asName)).after
      (by cases d <;> rfl)

theorem joins_fill (d : Dialect) : (js : List Join) → Fills d (joinsPieces d js)
  | [] => Fills.nil
  | ⟨table, left, right⟩ :: rest =>
    ((source_fills d table).between (s := " ON ") (by cases d <;> rfl)
      ((fills_name left).between (s := " = ") (by cases d <;> rfl)
        ((fills_name right).append (joins_fill d rest)))).after (s := " JOIN ")
          (by cases d <;> rfl)

theorem selector_fills (d : Dialect) : (s : Selector) → FillsFirst d (s.pieces d)
  | ⟨columns, source, joins, predicate, order, limit, offset, distinct, count⟩ => by
    refine ⟨?_, by cases d <;> rfl⟩
    exact ((fills_head columns distinct count).between (s := " FROM ") (by cases d <;> rfl)
      ((((source_fills d source).append (joins_fill d joins)).append
        (condition_fills d predicate)).append (fills_tail order limit offset))).after
          (s := "SELECT ") (by cases d <;> rfl)

end

/-! ## Statements that write -/

theorem fillsFirst_setGroup {u : Update} {g : List Piece} (h : g ∈ u.setGroups) :
    FillsFirst d g := by
  unfold Update.setGroups at h
  rcases List.mem_append.mp h with h | h
  · rcases List.mem_append.mp h with h | h
    · obtain ⟨column, -, rfl⟩ := List.mem_map.mp h
      exact (fillsFirst_name column).append (Fills.silent (by cases d <;> rfl))
    · obtain ⟨⟨column, a⟩, -, hg⟩ := List.mem_filterMap.mp h
      cases a with
      | add v => cases hg
      | value v =>
        obtain rfl := Option.some.inj hg
        exact (fillsFirst_name column).append ((fills_value v).after (by cases d <;> rfl))
  · obtain ⟨⟨column, a⟩, -, hg⟩ := List.mem_filterMap.mp h
    cases a with
    | value v => cases hg
    | add v =>
      obtain rfl := Option.some.inj hg
      exact (fillsFirst_name column).append
        (((fills_name column).between (by cases d <;> rfl) (fills_value v)).after
          (by cases d <;> rfl))

/-- An UPDATE that sets some column. -/
theorem update_fills {u : Update} (h : u.setGroups ≠ []) : Fills d (u.pieces d) := by
  have hset : tokensOf d [.raw " SET "] = [] ++ [.word "SET"] := by cases d <;> rfl
  have hsets := (FillsFirst.separated (s := ", ") (by cases d <;> rfl) h fun g hg =>
    fillsFirst_setGroup (d := d) hg).append (condition_fills d u.predicate)
  exact ((fills_name u.table).append (hsets.opened hset rfl (by simp [listOpeners]))).after
    (by cases d <;> rfl)

theorem delete_fills (d : Dialect) (x : Delete) : Fills d (x.pieces d) :=
  ((fills_name x.table).append (condition_fills d x.predicate)).after (by cases d <;> rfl)

theorem fillsFirst_assignment (table : String) (a : ConflictAssignment) :
    FillsFirst d (a.pieces d table) := by
  unfold ConflictAssignment.pieces
  have hclose : Fills d [.raw ")"] := Fills.silent (by cases d <;> rfl)
  refine (fillsFirst_name a.column).append (Fills.after (by cases d <;> rfl) ?_)
  cases a.value with
  | itself => exact fills_name a.column
  | stored => exact fills_name (table ++ "." ++ a.column)
  | proposed =>
    dsimp only
    split
    case isTrue => exact ((fills_name a.column).append hclose).after (by cases d <;> rfl)
    case isFalse => exact (fills_name a.column).after (by cases d <;> rfl)
  | reported =>
    exact ((fills_name (table ++ "." ++ a.column)).append hclose).after (by cases d <;> rfl)

/-- A conflict clause that updates rows sets some column. -/
def SetsSome : ConflictClause → Prop
  | .doNothing _ => True
  | .doUpdate _ as | .onDuplicateKey as => as ≠ []

theorem fillsFirst_assignments (table : String) {as : List ConflictAssignment} (h : as ≠ []) :
    FillsFirst d (ConflictClause.assignmentPieces d table as) := by
  refine FillsFirst.separated (by cases d <;> rfl) (by simpa using h) fun g hg => ?_
  obtain ⟨a, -, rfl⟩ := List.mem_map.mp hg
  exact fillsFirst_assignment table a

/-- A conflict target is written with its brackets, or not at all. The text that follows may not
open a bracket of its own. -/
theorem fills_target (target : List String) (ts : List Token) {s : String} {ps : List Piece}
    (hs : pieceTokens d (.raw s) = .word "DO" :: ts) (h : Fills d (.raw s :: ps)) :
    Fills d (ConflictClause.targetPieces target ++ .raw s :: ps) := by
  cases target with
  | nil =>
    intro rest hrest
    have htail := h rest hrest
    have hconflict : tokensOf d [.raw " ON CONFLICT"] = [.word "ON", .word "CONFLICT"] := by
      cases d <;> rfl
    have htarget : ConflictClause.targetPieces [] = [.raw " ON CONFLICT"] := rfl
    rw [htarget, tokensOf_append, hconflict, List.append_assoc]
    refine listsFilled_silent [.word "ON"] rfl (listsFilled_cons.mpr ⟨?_, htail⟩)
    intro opener hopener after hsplit
    rw [tokensOf_cons, hs] at hsplit
    simp only [listOpeners, List.mem_cons, List.not_mem_nil, or_false] at hopener
    rcases hopener with rfl | rfl | rfl | rfl | rfl <;> simp at hsplit
  | cons column target =>
    have hopener : tokensOf d [.raw " ON CONFLICT", .raw " ("] =
        [.word "ON"] ++ [.word "CONFLICT", .mark '('] := by
      cases d <;> rfl
    have hlist := (fillsFirst_names (d := d) (List.cons_ne_nil column target)).append
      (Fills.silent (s := ")") (by cases d <;> rfl))
    exact (hlist.opened hopener rfl (by simp [listOpeners])).append h

theorem clause_fills (table : String) {clause : ConflictClause} (h : SetsSome clause) :
    Fills d (clause.pieces d table) := by
  cases clause with
  | doNothing target =>
    exact fills_target target [.word "NOTHING"] (by cases d <;> rfl)
      (Fills.silent (by cases d <;> rfl))
  | doUpdate target as =>
    have hset : tokensOf d [.raw " DO UPDATE SET "] = [.word "DO", .word "UPDATE"] ++
        [.word "SET"] := by
      cases d <;> rfl
    exact fills_target target [.word "UPDATE", .word "SET"] (by cases d <;> rfl)
      ((fillsFirst_assignments table h).opened hset rfl (by simp [listOpeners]))
  | onDuplicateKey as =>
    have hkey : tokensOf d [.raw " ON DUPLICATE KEY UPDATE "] =
        [.word "ON", .word "DUPLICATE"] ++ [.word "KEY", .word "UPDATE"] := by
      cases d <;> rfl
    exact (fillsFirst_assignments table h).opened hkey rfl (by simp [listOpeners])

theorem fills_body (i : InsertStatement) : Fills d (i.bodyPieces d) := by
  unfold InsertStatement.bodyPieces
  split
  case isTrue =>
    cases d with
    | mysql => exact Fills.silent rfl
    | postgres => exact Fills.silent rfl
    | sqlite => exact Fills.silent rfl
  case isFalse =>
    refine ((fills_names i.columns).between (by cases d <;> rfl)
      (Fills.separated (by cases d <;> rfl) fun g hg => ?_)).after (by cases d <;> rfl)
    obtain ⟨row, -, rfl⟩ := List.mem_map.mp hg
    exact (fills_values row).brackets

/-- An INSERT whose conflict clause sets some column. -/
theorem insert_fills {i : InsertStatement}
    (h : ∀ clause, i.conflict = some clause → SetsSome clause) : Fills d (i.pieces d) := by
  have hreturning : Fills d
      (if i.returning.isEmpty then [] else .raw " RETURNING " :: Piece.ofNames i.returning) := by
    split
    case isTrue => exact Fills.nil
    case isFalse hne =>
      have hkeyword : tokensOf d [.raw " RETURNING "] = [] ++ [.word "RETURNING"] := by
        cases d <;> rfl
      exact (fillsFirst_names (by simpa using hne)).opened hkeyword rfl (by simp [listOpeners])
  have hbody := (fills_name i.table).append (fills_body (d := d) i)
  unfold InsertStatement.pieces
  refine ((hbody.append ?_).append hreturning).after (by cases d <;> rfl)
  cases hconflict : i.conflict with
  | none => exact Fills.nil
  | some clause => exact clause_fills i.table (h clause hconflict)

/-- The conflict clause that a policy compiles to sets some column, or is refused. -/
theorem compiledClause_setsSome {i : Insert} {clause : ConflictClause}
    (h : compiledClause d i = .ok (some clause)) : SetsSome clause := by
  have hduplicate : ∀ policy, i.duplicateClause policy = .ok clause → SetsSome clause := by
    intro policy h
    unfold Insert.duplicateClause at h
    split at h
    case h_1 =>
      split at h
      case h_1 =>
        obtain rfl := Except.ok.inj h
        exact List.cons_ne_nil _ _
      case h_2 => cases h
    case h_2 hsome =>
      obtain rfl := Except.ok.inj h
      exact hsome
  have hconflict : ∀ policy, i.conflictClause policy = .ok clause → SetsSome clause := by
    intro policy h
    by_cases hcolumns : i.columns = []
    · have hnothing : i.conflictClause policy = .ok (.doNothing policy.columns) := by
        unfold Insert.conflictClause
        rw [hcolumns]
        rfl
      obtain rfl := Except.ok.inj (hnothing.symm.trans h)
      trivial
    · unfold Insert.conflictClause at h
      dsimp only at h
      split at h
      case h_1 =>
        obtain rfl := Except.ok.inj h
        trivial
      all_goals
        split at h
        case isTrue => cases h
        case isFalse =>
          obtain rfl := Except.ok.inj h
          simpa [SetsSome] using hcolumns
  unfold compiledClause at h
  split at h
  case h_1 => cases h
  all_goals
    obtain ⟨compiled, hcompiled, hsome⟩ := bind_eq_ok.mp h
    obtain rfl : compiled = clause := Option.some.inj (Except.ok.inj hsome)
  case h_2 policy _ => exact hduplicate policy hcompiled
  case h_3 policy _ => exact hconflict policy hcompiled
  case h_4 policy _ => exact hconflict policy hcompiled

/-- The conflict clause of an INSERT that is compiled sets some column. -/
theorem compile_setsSome {i : Insert} {statement : InsertStatement}
    (h : i.compile d = .ok statement) {clause : ConflictClause}
    (hclause : statement.conflict = some clause) : SetsSome clause := by
  obtain ⟨-, conflict, hconflict, rfl⟩ := compile_eq_ok.mp h
  obtain rfl : conflict = some clause := hclause
  exact compiledClause_setsSome hconflict

end EntityGraph.Sql
