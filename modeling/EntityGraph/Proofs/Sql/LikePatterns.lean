import EntityGraph.Proofs.Sql.Content
import Mathlib.Data.List.Infix

/-!
# What patterns of LIKE match

`Like.Matches` says which texts a pattern matches, with the backslash as its escape character, and
`Like.accepts` decides it by trying every rest of a text after a `%`. A text that is escaped is
matched by itself alone, wherever it stands in a pattern (`matches_escape_append`), so the patterns
of the conditions on a column's text match the texts that contain the needle, start with it or end
with it, whatever characters it has.
-/

set_option autoImplicit false

namespace EntityGraph.Like

/-! ## Matching -/

/-- A pattern matches a text. A backslash at the end of a pattern takes no character, so such a
pattern matches nothing. -/
inductive Matches : List Char → List Char → Prop
  /-- The empty pattern matches the empty text. -/
  | nil : Matches [] []
  /-- `%` stands for any text. -/
  | many {pattern text : List Char} (skipped : List Char) :
      Matches pattern text → Matches ('%' :: pattern) (skipped ++ text)
  /-- `_` stands for any character. -/
  | one {pattern text : List Char} (c : Char) :
      Matches pattern text → Matches ('_' :: pattern) (c :: text)
  /-- A backslash takes the next character as it is. -/
  | escaped {pattern text : List Char} (c : Char) :
      Matches pattern text → Matches ('\\' :: c :: pattern) (c :: text)
  /-- Every other character stands for itself. -/
  | plain {pattern text : List Char} {c : Char} :
      c ≠ '%' → c ≠ '_' → c ≠ '\\' → Matches pattern text → Matches (c :: pattern) (c :: text)

variable {pattern text : List Char}

theorem matches_nil : Matches [] text ↔ text = [] := by
  constructor
  · rintro ⟨⟩
    rfl
  · rintro rfl
    exact .nil

theorem matches_many :
    Matches ('%' :: pattern) text ↔ ∃ rest, rest <:+ text ∧ Matches pattern rest := by
  constructor
  · rintro (_ | ⟨skipped, h⟩ | _ | _ | ⟨hc, _, _, _⟩)
    · exact ⟨_, List.suffix_append skipped _, h⟩
    · exact absurd rfl hc
  · rintro ⟨rest, ⟨skipped, rfl⟩, h⟩
    exact .many skipped h

theorem matches_one :
    Matches ('_' :: pattern) text ↔ ∃ c rest, text = c :: rest ∧ Matches pattern rest := by
  constructor
  · rintro (_ | _ | ⟨c, h⟩ | _ | ⟨_, hc, _, _⟩)
    · exact ⟨c, _, rfl, h⟩
    · exact absurd rfl hc
  · rintro ⟨c, rest, rfl, h⟩
    exact .one c h

theorem matches_escaped {c : Char} :
    Matches ('\\' :: c :: pattern) text ↔ ∃ rest, text = c :: rest ∧ Matches pattern rest := by
  constructor
  · rintro (_ | _ | _ | ⟨c, h⟩ | ⟨_, _, hc, _⟩)
    · exact ⟨_, rfl, h⟩
    · exact absurd rfl hc
  · rintro ⟨rest, rfl, h⟩
    exact .escaped c h

theorem not_matches_backslash : ¬Matches ['\\'] text := by
  rintro (_ | _ | _ | _ | ⟨_, _, hc, _⟩)
  exact hc rfl

theorem matches_plain {c : Char} (hmany : c ≠ '%') (hone : c ≠ '_') (hescaped : c ≠ '\\') :
    Matches (c :: pattern) text ↔ ∃ rest, text = c :: rest ∧ Matches pattern rest := by
  constructor
  · rintro (_ | _ | _ | _ | ⟨_, _, _, h⟩)
    case plain => exact ⟨_, rfl, h⟩
    all_goals contradiction
  · rintro ⟨rest, rfl, h⟩
    exact .plain hmany hone hescaped h

/-- Whether a pattern matches a text: what a `%` skips is tried in every length. -/
def accepts : List Char → List Char → Bool
  | [], text => text.isEmpty
  | c :: pattern, text =>
    if c = '%' then text.tails.any fun rest => accepts pattern rest
    else if c = '_' then
      match text with
      | [] => false
      | _ :: rest => accepts pattern rest
    else if c = '\\' then
      match pattern, text with
      | e :: pattern, d :: rest => e == d && accepts pattern rest
      | _, _ => false
    else
      match text with
      | [] => false
      | d :: rest => c == d && accepts pattern rest

/-- The search decides the relation. -/
theorem accepts_iff (pattern text : List Char) :
    accepts pattern text = true ↔ Matches pattern text := by
  fun_induction accepts pattern text with
  | case1 text => simp [matches_nil]
  | case2 text pattern ih => simp [matches_many, ih]
  | case3 => simp [matches_one]
  | case4 pattern _ _ _ ih => simp [matches_one, ih]
  | case5 e pattern d rest _ _ ih =>
    rw [matches_escaped, Bool.and_eq_true, beq_iff_eq, ih]
    constructor
    · rintro ⟨rfl, h⟩
      exact ⟨rest, rfl, h⟩
    · rintro ⟨_, ⟨⟩, h⟩
      exact ⟨rfl, h⟩
  | case6 pattern text hnone =>
    refine iff_of_false Bool.false_ne_true fun h => ?_
    match pattern with
    | [] => exact not_matches_backslash h
    | e :: pattern =>
      obtain ⟨rest, rfl, _⟩ := matches_escaped.1 h
      exact hnone e pattern e rest rfl rfl
  | case7 c pattern hmany hone hescaped => simp [matches_plain hmany hone hescaped]
  | case8 c pattern hmany hone hescaped d rest ih =>
    rw [matches_plain hmany hone hescaped, Bool.and_eq_true, beq_iff_eq, ih]
    constructor
    · rintro ⟨rfl, h⟩
      exact ⟨rest, rfl, h⟩
    · rintro ⟨_, ⟨⟩, h⟩
      exact ⟨rfl, h⟩

instance (pattern text : List Char) : Decidable (Matches pattern text) :=
  decidable_of_iff _ (accepts_iff pattern text)

/-! ## Escaped texts -/

/-- An escaped text at the head of a pattern is matched by itself alone, also where it has wildcards
and backslashes, and takes no character from the pattern after it. -/
theorem matches_escape_append (needle : List Char) :
    Matches (escape needle ++ pattern) text ↔
      ∃ rest, text = needle ++ rest ∧ Matches pattern rest := by
  induction needle generalizing text with
  | nil => simp [escape]
  | cons c needle ih =>
    -- one character of the needle is one or two of the pattern, and takes itself in both cases
    have hstep : Matches (escape (c :: needle) ++ pattern) text ↔
        ∃ rest, text = c :: rest ∧ Matches (escape needle ++ pattern) rest := by
      cases hc : isSpecial c with
      | true => simp [escape, hc, matches_escaped]
      | false =>
        obtain ⟨⟨hmany, hone⟩, hescaped⟩ : (c ≠ '%' ∧ c ≠ '_') ∧ c ≠ '\\' := by
          simpa [isSpecial] using hc
        simp [escape, hc, matches_plain hmany hone hescaped]
    simp only [hstep, ih]
    constructor
    · rintro ⟨_, rfl, rest, rfl, h⟩
      exact ⟨rest, rfl, h⟩
    · rintro ⟨rest, rfl, h⟩
      exact ⟨needle ++ rest, rfl, rest, rfl, h⟩

/-- An escaped text is matched by itself alone. -/
theorem matches_escape (needle : List Char) : Matches (escape needle) text ↔ text = needle := by
  simpa [matches_nil] using @matches_escape_append [] text needle

/-- With a `%` after it, an escaped text is matched by the texts that start with it. -/
theorem matches_escape_many (needle : List Char) :
    Matches (escape needle ++ ['%']) text ↔ needle <+: text := by
  rw [matches_escape_append]
  constructor
  · rintro ⟨rest, rfl, _⟩
    exact List.prefix_append needle rest
  · rintro ⟨rest, rfl⟩
    exact ⟨rest, rfl, by simpa using Matches.many rest .nil⟩

/-! ## The patterns of the conditions -/

variable (needle subject : String)

theorem matches_containing :
    Matches (containing needle).toList subject.toList ↔ needle.toList <:+: subject.toList := by
  rw [containing, String.toList_ofList, matches_many, List.infix_iff_prefix_suffix]
  simp only [matches_escape_many, and_comm]

theorem matches_starting :
    Matches (starting needle).toList subject.toList ↔ needle.toList <+: subject.toList := by
  rw [starting, String.toList_ofList, matches_escape_many]

theorem matches_ending :
    Matches (ending needle).toList subject.toList ↔ needle.toList <:+ subject.toList := by
  simp [ending, matches_many, matches_escape]

/-- A condition with a pattern binds the pattern and nothing else. -/
theorem args_like (d : Dialect) (column pattern : String) :
    (Statement.ofPieces d ((Predicate.like column pattern).pieces d)).args = [.string pattern] := by
  have hname : (Sql.nameItems column).filterMap Sql.Item.arg? = [] := by
    refine List.filterMap_eq_nil_iff.2 fun item hitem => ?_
    obtain ⟨part, _, hpart⟩ := List.mem_flatMap.1 hitem
    split at hpart
    · cases hpart
    · rw [List.mem_singleton.1 hpart]
      rfl
  calc ((Predicate.like column pattern).pieces d).filterMap Piece.value?
      = (Sql.predicateItems (.like column pattern)).filterMap Sql.Item.arg? :=
        (Sql.shows_like column pattern).args
    _ = [.string pattern] := by rw [Sql.predicateItems, List.filterMap_append, hname]; rfl

/-- The conditions on a column's text take the needle literally, whatever characters it has: what
each binds is one pattern, and the texts that the pattern matches are those that contain the needle,
start with it or end with it. -/
theorem bound_patterns_literal (d : Dialect) (column : String) :
    (∃ pattern, (Statement.ofPieces d ((Predicate.contains column needle).pieces d)).args =
        [.string pattern] ∧
      (Matches pattern.toList subject.toList ↔ needle.toList <:+: subject.toList)) ∧
    (∃ pattern, (Statement.ofPieces d ((Predicate.startsWith column needle).pieces d)).args =
        [.string pattern] ∧
      (Matches pattern.toList subject.toList ↔ needle.toList <+: subject.toList)) ∧
    ∃ pattern, (Statement.ofPieces d ((Predicate.endsWith column needle).pieces d)).args =
        [.string pattern] ∧
      (Matches pattern.toList subject.toList ↔ needle.toList <:+ subject.toList) :=
  ⟨⟨_, args_like d column _, matches_containing needle subject⟩,
    ⟨_, args_like d column _, matches_starting needle subject⟩,
    _, args_like d column _, matches_ending needle subject⟩

/-- A raw pattern keeps its wildcards, and an escaped one has none. -/
example : Matches ['5', '%'] ['5', '0'] ∧ ¬Matches (escape ['5', '%']) ['5', '0'] ∧
    Matches ('%' :: escape ['\\']) ['C', '\\'] ∧ ¬Matches ['\\'] ['\\'] := by decide

end EntityGraph.Like
