import EntityGraph.Proofs.Sql.Reading
import EntityGraph.Proofs.Sql.Statements

/-!
# The grammar of INSERT

What a dialect takes for an INSERT, as productions on tokens: which tokens a part of the statement
is derived from, what they say, and which tokens are left after them. A list always has a member,
each row has a value for each column, and SQLite takes a conflict clause only after rows that are
written out. Names are made up of identifiers and stars, as everywhere; which of them make sense as
columns is no matter of the grammar.

`Unique` says of a production that the tokens leave it no choice, given what may stand after it.
Every name, list and conflict clause is read in one way only.
-/

set_option autoImplicit false

namespace EntityGraph.Sql.Grammar

/-- A part of a statement: the tokens, what it says, and the tokens left after it. -/
abbrev Production (α : Type) := List Token → α → List Token → Prop

/-! ## Names, values and lists -/

/-- A part of a name. -/
inductive NamePart : Production String
  | ident (s : String) (rest : List Token) : NamePart (.ident s :: rest) s rest
  | star (rest : List Token) : NamePart (.mark '*' :: rest) "*" rest

/-- A value in its place, or the absent value written out. -/
inductive Literal : Production Value
  | value (v : Value) (rest : List Token) : Literal (.value v :: rest) v rest
  | null (rest : List Token) : Literal (.word "NULL" :: rest) .null rest

section Lists

variable {α : Type}

/-- One item or several, with a mark between them. -/
inductive Listed (c : Char) (item : Production α) : Production (List α)
  | last {ts rest : List Token} {a : α} (head : item ts a rest) : Listed c item ts [a] rest
  | more {ts mid rest : List Token} {a : α} {as : List α} (head : item ts a (.mark c :: mid))
      (others : Listed c item mid as rest) : Listed c item ts (a :: as) rest

/-- An item in brackets. -/
inductive Bracketed (item : Production α) : Production α
  | mk {ts rest : List Token} {a : α} (inner : item ts a (.mark ')' :: rest)) :
      Bracketed item (.mark '(' :: ts) a rest

end Lists

/-- A name: its parts with dots between them. -/
abbrev Name : Production (List String) := Listed '.' NamePart

/-- Names with commas between them. -/
abbrev Names : Production (List (List String)) := Listed ',' Name

/-! ## Conflict clauses -/

/-- What a column is set to in a conflict clause. -/
inductive SetValue where
  /-- The value that a column of the stored row has. -/
  | column (name : List String)
  /-- The value that is proposed for a column. -/
  | proposed (name : List String)
  /-- The value that a column of the stored row has; it is also remembered as the last ID. -/
  | lastId (name : List String)
deriving DecidableEq

/-- An assignment, as it is read. -/
structure SetItem where
  target : List String
  value : SetValue
deriving DecidableEq

/-- A conflict clause, as it is read. -/
inductive ConflictReading where
  | nothing (target : List (List String))
  | update (target : List (List String)) (sets : List SetItem)
  | duplicate (sets : List SetItem)
deriving DecidableEq

variable (d : Dialect)

/-- The right side of an assignment. MySQL has functions for the proposed value and the last ID, the
others call the proposed row `excluded`. -/
inductive RightSide : Production SetValue
  | column {ts rest : List Token} {n : List String} (name : Name ts n rest) :
      RightSide ts (.column n) rest
  | excluded {ts rest : List Token} {n : List String} (dialect : d ≠ .mysql)
      (name : Name ts n rest) :
      RightSide (.word "excluded" :: .mark '.' :: ts) (.proposed n) rest
  | values {ts rest : List Token} {n : List String} (dialect : d = .mysql)
      (name : Bracketed Name ts n rest) : RightSide (.word "VALUES" :: ts) (.proposed n) rest
  | lastInsertId {ts rest : List Token} {n : List String} (dialect : d = .mysql)
      (name : Bracketed Name ts n rest) :
      RightSide (.word "LAST_INSERT_ID" :: ts) (.lastId n) rest

/-- An assignment. -/
inductive Assigns : Production SetItem
  | mk {ts mid rest : List Token} {n : List String} {v : SetValue}
      (target : Name ts n (.operator "=" :: mid)) (value : RightSide d mid v rest) :
      Assigns ts ⟨n, v⟩ rest

/-- A conflict target in brackets, which may be left out. -/
inductive Target : Production (List (List String))
  | absent (rest : List Token) : Target rest [] rest
  | columns {ts rest : List Token} {ns : List (List String)}
      (names : Bracketed Names ts ns rest) : Target ts ns rest

/-- A conflict clause. An update on Postgres and SQLite needs a target. -/
inductive Conflict : Production ConflictReading
  | nothing {ts rest : List Token} {ns : List (List String)} (dialect : d ≠ .mysql)
      (target : Target ts ns (.word "DO" :: .word "NOTHING" :: rest)) :
      Conflict (.word "ON" :: .word "CONFLICT" :: ts) (.nothing ns) rest
  | update {ts mid rest : List Token} {ns : List (List String)} {items : List SetItem}
      (dialect : d ≠ .mysql)
      (target : Bracketed Names ts ns (.word "DO" :: .word "UPDATE" :: .word "SET" :: mid))
      (sets : Listed ',' (Assigns d) mid items rest) :
      Conflict (.word "ON" :: .word "CONFLICT" :: ts) (.update ns items) rest
  | duplicate {ts rest : List Token} {items : List SetItem} (dialect : d = .mysql)
      (sets : Listed ',' (Assigns d) ts items rest) :
      Conflict (.word "ON" :: .word "DUPLICATE" :: .word "KEY" :: .word "UPDATE" :: ts)
        (.duplicate items) rest

/-! ## Statements -/

/-- The rows of an INSERT, as they are read. -/
inductive BodyReading where
  | rows (columns : List (List String)) (rows : List (List Value))
  | emptyRow

/-- An INSERT, as it is read. -/
structure InsertReading where
  table : List String
  body : BodyReading
  conflict : Option ConflictReading
  returning : List (List String)

/-- The rows of an INSERT: columns and rows with a value for each of them, or the form that the
dialect has for a row without columns. -/
inductive Body : Production BodyReading
  | rows {ts mid rest : List Token} {ns : List (List String)} {vss : List (List Value)}
      (columns : Bracketed Names ts ns (.word "VALUES" :: mid))
      (rows : Listed ',' (Bracketed (Listed ',' Literal)) mid vss rest)
      (length : ∀ vs ∈ vss, vs.length = ns.length) : Body ts (.rows ns vss) rest
  | defaults {rest : List Token} (dialect : d ≠ .mysql) :
      Body (.word "DEFAULT" :: .word "VALUES" :: rest) .emptyRow rest
  | brackets {rest : List Token} (dialect : d = .mysql) :
      Body (.word "VALUES" :: .mark '(' :: .mark ')' :: rest) .emptyRow rest

/-- A conflict clause that may be left out. -/
inductive OptionalConflict : Production (Option ConflictReading)
  | absent (rest : List Token) : OptionalConflict rest none rest
  | clause {ts rest : List Token} {c : ConflictReading} (clause : Conflict d ts c rest) :
      OptionalConflict ts (some c) rest

/-- The columns to report, which may be left out. -/
inductive Returning : Production (List (List String))
  | absent (rest : List Token) : Returning rest [] rest
  | columns {ts rest : List Token} {ns : List (List String)}
      (dialect : d.supportsReturning = true) (names : Names ts ns rest) :
      Returning (.word "RETURNING" :: ts) ns rest

/-- The parts of an INSERT, and nothing after them. -/
inductive InsertParts : List Token → InsertReading → Prop
  | mk {ts afterTable afterBody afterConflict : List Token} {r : InsertReading}
      (table : Name ts r.table afterTable) (body : Body d afterTable r.body afterBody)
      (conflict : OptionalConflict d afterBody r.conflict afterConflict)
      (returning : Returning d afterConflict r.returning []) :
      InsertParts (.word "INSERT" :: .word "INTO" :: ts) r

/-- An INSERT. On SQLite a conflict clause may only follow rows that are written out. -/
structure IsInsert (ts : List Token) (r : InsertReading) : Prop where
  parts : InsertParts d ts r
  guarded : d = .sqlite → r.conflict.isSome = true → r.body ≠ .emptyRow

variable {d}

/-! ## Tokens leave no choice -/

section Unique

variable {α : Type} {item : Production α} {stops : List Token → Prop} {c : Char}

/-- What the tokens say and where it ends is settled, if only these tokens may stand after it. -/
def Unique (item : Production α) (stops : List Token → Prop) : Prop :=
  ∀ ⦃ts a rest b rest'⦄, item ts a rest → item ts b rest' → stops rest → stops rest' →
    a = b ∧ rest = rest'

/-- Nothing goes on with one of these marks. -/
def EndsBefore (marks : List Char) (ts : List Token) : Prop := ∀ c ∈ marks, mark c ts = none

theorem endsBefore_word (marks : List Char) (w : String) (ts : List Token) :
    EndsBefore marks (.word w :: ts) := fun _ _ => rfl

theorem endsBefore_operator (marks : List Char) (s : String) (ts : List Token) :
    EndsBefore marks (.operator s :: ts) := fun _ _ => rfl

theorem endsBefore_nil (marks : List Char) : EndsBefore marks [] := fun _ _ => rfl

theorem endsBefore_mark {marks : List Char} (h : c ∉ marks) (ts : List Token) :
    EndsBefore marks (.mark c :: ts) := by
  intro c' hc'
  rw [mark_mark, if_neg]
  rintro rfl
  exact h hc'

/-- The mark between the members of a list may not stand after it. -/
theorem not_endsBefore_mark {marks : List Char} (h : c ∈ marks) (ts : List Token) :
    ¬EndsBefore marks (.mark c :: ts) := by
  intro hends
  have hmark := hends c h
  rw [mark_mark, if_pos rfl] at hmark
  cases hmark

theorem EndsBefore.mono {marks others : List Char} {ts : List Token} (h : EndsBefore marks ts)
    (hsub : others ⊆ marks) : EndsBefore others ts := fun c hc => h c (hsub hc)

theorem Unique.listed {marks : List Char} (hitem : Unique item (EndsBefore marks))
    (hc : c ∉ marks) : Unique (Listed c item) (EndsBefore (c :: marks)) := by
  intro ts as rest bs rest' has hbs hrest hrest'
  have hweak : ∀ {ts}, EndsBefore (c :: marks) ts → EndsBefore marks ts := fun h =>
    h.mono (List.subset_cons_self c marks)
  have hmid : ∀ ts, EndsBefore marks (.mark c :: ts) := endsBefore_mark hc
  have hnot : ∀ ts, ¬EndsBefore (c :: marks) (.mark c :: ts) :=
    not_endsBefore_mark List.mem_cons_self
  induction has generalizing bs with
  | last head =>
    cases hbs with
    | last head' =>
      obtain ⟨rfl, rfl⟩ := hitem head head' (hweak hrest) (hweak hrest')
      exact ⟨rfl, rfl⟩
    | more head' _ =>
      obtain ⟨-, rfl⟩ := hitem head head' (hweak hrest) (hmid _)
      exact absurd hrest (hnot _)
  | more head others ih =>
    cases hbs with
    | last head' =>
      obtain ⟨-, rfl⟩ := hitem head head' (hmid _) (hweak hrest')
      exact absurd hrest' (hnot _)
    | more head' others' =>
      obtain ⟨rfl, hsame⟩ := hitem head head' (hmid _) (hmid _)
      obtain ⟨-, rfl⟩ := List.cons.inj hsame
      obtain ⟨rfl, rfl⟩ := ih others' hrest
      exact ⟨rfl, rfl⟩

/-- What stands in brackets ends where they close. -/
theorem Unique.bracketed {marks : List Char} (hitem : Unique item (EndsBefore marks))
    (hclose : ')' ∉ marks) : Unique (Bracketed item) fun _ => True := by
  intro ts a rest b rest' ha hb _ _
  cases ha with
  | mk inner =>
    cases hb with
    | mk inner' =>
      obtain ⟨rfl, hsame⟩ := hitem inner inner' (endsBefore_mark hclose _)
        (endsBefore_mark hclose _)
      exact ⟨rfl, (List.cons.inj hsame).2⟩

theorem unique_namePart : Unique NamePart (EndsBefore []) := by
  intro ts a rest b rest' ha hb _ _
  cases ha <;> cases hb <;> exact ⟨rfl, rfl⟩

theorem unique_name : Unique Name (EndsBefore ['.']) :=
  unique_namePart.listed (by decide)

theorem unique_names : Unique Names (EndsBefore [',', '.']) :=
  unique_name.listed (by decide)

/-- A name begins with one of its parts. -/
theorem Name.head {ts rest : List Token} {n : List String} (h : Name ts n rest) :
    ∃ t us, ts = t :: us ∧ (t = .mark '*' ∨ ∃ i, t = .ident i) := by
  have hpart : ∀ {us : List Token} {part : String} {rest : List Token},
      NamePart us part rest → ∃ t vs, us = t :: vs ∧ (t = .mark '*' ∨ ∃ i, t = .ident i) := by
    rintro us part rest (_ | _)
    · exact ⟨_, _, rfl, .inr ⟨_, rfl⟩⟩
    · exact ⟨_, _, rfl, .inl rfl⟩
  cases h with
  | last head => exact hpart head
  | more head _ => exact hpart head

/-- A name does not begin with a word. -/
theorem not_name_word (w : String) (us : List Token) (n : List String) (rest : List Token) :
    ¬Name (.word w :: us) n rest := by
  intro h
  obtain ⟨t, vs, hsame, hkind⟩ := h.head
  obtain ⟨rfl, -⟩ := List.cons.inj hsame
  rcases hkind with hkind | ⟨i, hkind⟩ <;> cases hkind

theorem unique_rightSide : Unique (RightSide d) (EndsBefore ['.']) := by
  intro ts v rest w rest' hv hw hrest hrest'
  have hbracketed : Unique (Bracketed Name) fun _ => True := unique_name.bracketed (by decide)
  -- the first tokens of the two are compared as an equation: they begin with different words
  generalize hts : ts = us at hw
  cases hv with
  | column name =>
    cases hw with
    | column name' =>
      subst hts
      obtain ⟨rfl, rfl⟩ := unique_name name name' hrest hrest'
      exact ⟨rfl, rfl⟩
    | excluded | values | lastInsertId =>
      subst hts
      exact absurd name (not_name_word _ _ _ _)
  | excluded hd name =>
    cases hw with
    | column name' =>
      subst hts
      exact absurd name' (not_name_word _ _ _ _)
    | excluded _ name' =>
      obtain rfl := (List.cons.inj (List.cons.inj hts).2).2
      obtain ⟨rfl, rfl⟩ := unique_name name name' hrest hrest'
      exact ⟨rfl, rfl⟩
    | values hd' | lastInsertId hd' => exact absurd hd' hd
  | values hd name =>
    cases hw with
    | column name' =>
      subst hts
      exact absurd name' (not_name_word _ _ _ _)
    | excluded hd' => exact absurd hd hd'
    | values _ name' =>
      obtain rfl := (List.cons.inj hts).2
      obtain ⟨rfl, rfl⟩ := hbracketed name name' trivial trivial
      exact ⟨rfl, rfl⟩
    | lastInsertId => exact absurd (Token.word.inj (List.cons.inj hts).1) (by decide)
  | lastInsertId hd name =>
    cases hw with
    | column name' =>
      subst hts
      exact absurd name' (not_name_word _ _ _ _)
    | excluded hd' => exact absurd hd hd'
    | values => exact absurd (Token.word.inj (List.cons.inj hts).1) (by decide)
    | lastInsertId _ name' =>
      obtain rfl := (List.cons.inj hts).2
      obtain ⟨rfl, rfl⟩ := hbracketed name name' trivial trivial
      exact ⟨rfl, rfl⟩

theorem unique_assigns : Unique (Assigns d) (EndsBefore ['.']) := by
  rintro ts a rest b rest' ⟨target, value⟩ ⟨target', value'⟩ hrest hrest'
  obtain ⟨rfl, hsame⟩ := unique_name target target' (endsBefore_operator _ _ _)
    (endsBefore_operator _ _ _)
  obtain ⟨-, rfl⟩ := List.cons.inj hsame
  obtain ⟨rfl, rfl⟩ := unique_rightSide value value' hrest hrest'
  exact ⟨rfl, rfl⟩

theorem unique_bracketed_names : Unique (Bracketed Names) fun _ => True :=
  unique_names.bracketed (by decide)

theorem unique_target :
    Unique Target fun rest => ∃ w ts, rest = .word w :: ts := by
  rintro ts a rest b rest' ha hb ⟨w, us, rfl⟩ ⟨w', us', rfl⟩
  cases ha with
  | absent =>
    cases hb with
    | absent => exact ⟨rfl, rfl⟩
    | columns names => cases names
  | columns names =>
    cases hb with
    | absent => cases names
    | columns names' => exact unique_bracketed_names names names' trivial trivial

/-- A conflict clause is read in one way. -/
theorem unique_conflict : Unique (Conflict d) (EndsBefore [',', '.']) := by
  intro ts a rest b rest' ha hb hrest hrest'
  have hsets := (unique_assigns (d := d)).listed (c := ',') (by decide)
  generalize hts : ts = us at hb
  cases ha with
  | nothing hd target =>
    cases hb with
    | nothing _ target' =>
      obtain rfl := (List.cons.inj (List.cons.inj hts).2).2
      obtain ⟨rfl, hsame⟩ := unique_target target target' ⟨_, _, rfl⟩ ⟨_, _, rfl⟩
      exact ⟨rfl, (List.cons.inj (List.cons.inj hsame).2).2⟩
    | update _ target' _ =>
      obtain rfl := (List.cons.inj (List.cons.inj hts).2).2
      obtain ⟨-, hsame⟩ := unique_target target (.columns target') ⟨_, _, rfl⟩ ⟨_, _, rfl⟩
      have hword := (List.cons.inj (List.cons.inj hsame).2).1
      exact absurd (Token.word.inj hword) (by decide)
    | duplicate hd' => exact absurd hd' hd
  | update hd target sets =>
    cases hb with
    | nothing _ target' =>
      obtain rfl := (List.cons.inj (List.cons.inj hts).2).2
      obtain ⟨-, hsame⟩ := unique_target (.columns target) target' ⟨_, _, rfl⟩ ⟨_, _, rfl⟩
      have hword := (List.cons.inj (List.cons.inj hsame).2).1
      exact absurd (Token.word.inj hword) (by decide)
    | update _ target' sets' =>
      obtain rfl := (List.cons.inj (List.cons.inj hts).2).2
      obtain ⟨rfl, hsame⟩ := unique_bracketed_names target target' trivial trivial
      obtain rfl := (List.cons.inj (List.cons.inj (List.cons.inj hsame).2).2).2
      obtain ⟨rfl, rfl⟩ := hsets sets sets' hrest hrest'
      exact ⟨rfl, rfl⟩
    | duplicate hd' => exact absurd hd' hd
  | duplicate hd sets =>
    cases hb with
    | nothing hd' | update hd' => exact absurd hd hd'
    | duplicate _ sets' =>
      obtain rfl := (List.cons.inj (List.cons.inj (List.cons.inj (List.cons.inj hts).2).2).2).2
      obtain ⟨rfl, rfl⟩ := hsets sets sets' hrest hrest'
      exact ⟨rfl, rfl⟩

theorem unique_literal : Unique Literal (EndsBefore []) := by
  intro ts v rest w rest' hv hw _ _
  cases hv <;> cases hw <;> exact ⟨rfl, rfl⟩

theorem unique_rows : Unique (Listed ',' (Bracketed (Listed ',' Literal))) (EndsBefore [',']) := by
  have hrow : Unique (Bracketed (Listed ',' Literal)) (EndsBefore []) := by
    intro ts a rest b rest' ha hb _ _
    exact (unique_literal.listed (by decide)).bracketed (by decide) ha hb trivial trivial
  exact hrow.listed (by decide)

theorem unique_body : Unique (Body d) (EndsBefore [',']) := by
  intro ts a rest b rest' ha hb hrest hrest'
  generalize hts : ts = us at hb
  cases ha with
  | rows columns rows =>
    cases hb with
    | rows columns' rows' =>
      subst hts
      obtain ⟨rfl, hsame⟩ := unique_bracketed_names columns columns' trivial trivial
      obtain rfl := (List.cons.inj hsame).2
      obtain ⟨rfl, rfl⟩ := unique_rows rows rows' hrest hrest'
      exact ⟨rfl, rfl⟩
    | defaults | brackets =>
      cases columns
      cases hts
  | defaults hd =>
    cases hb with
    | rows columns' =>
      cases columns'
      cases hts
    | defaults => exact ⟨rfl, (List.cons.inj (List.cons.inj hts).2).2⟩
    | brackets hd' => exact absurd hd' hd
  | brackets hd =>
    cases hb with
    | rows columns' =>
      cases columns'
      cases hts
    | defaults hd' => exact absurd hd hd'
    | brackets =>
      exact ⟨rfl, (List.cons.inj (List.cons.inj (List.cons.inj hts).2).2).2⟩

/-- What may stand after the conflict clause: nothing, or the columns to report. -/
def EndsInsert (ts : List Token) : Prop := ts = [] ∨ ∃ us, ts = .word "RETURNING" :: us

theorem EndsInsert.endsBefore {ts : List Token} (h : EndsInsert ts) (marks : List Char) :
    EndsBefore marks ts := by
  rcases h with rfl | ⟨us, rfl⟩
  · exact endsBefore_nil marks
  · exact endsBefore_word marks _ us

theorem Returning.endsInsert {ts : List Token} {ns : List (List String)}
    (h : Returning d ts ns []) : EndsInsert ts := by
  cases h with
  | absent => exact .inl rfl
  | columns => exact .inr ⟨_, rfl⟩

/-- A conflict clause begins with ON. -/
theorem Conflict.head {ts rest : List Token} {c : ConflictReading} (h : Conflict d ts c rest) :
    ∃ us, ts = .word "ON" :: us := by
  cases h <;> exact ⟨_, rfl⟩

theorem Conflict.not_endsInsert {ts rest : List Token} {c : ConflictReading}
    (h : Conflict d ts c rest) : ¬EndsInsert ts := by
  obtain ⟨us, rfl⟩ := h.head
  rintro (hnil | ⟨vs, hword⟩)
  · cases hnil
  · exact absurd (Token.word.inj (List.cons.inj hword).1) (by decide)

theorem OptionalConflict.endsBefore {ts rest : List Token} {c : Option ConflictReading}
    (h : OptionalConflict d ts c rest) (hrest : EndsInsert rest) (marks : List Char) :
    EndsBefore marks ts := by
  cases h with
  | absent => exact hrest.endsBefore marks
  | clause clause =>
    obtain ⟨us, rfl⟩ := clause.head
    exact endsBefore_word marks _ us

theorem unique_optionalConflict : Unique (OptionalConflict d) EndsInsert := by
  intro ts a rest b rest' ha hb hrest hrest'
  cases ha with
  | absent =>
    cases hb with
    | absent => exact ⟨rfl, rfl⟩
    | clause clause' => exact absurd hrest clause'.not_endsInsert
  | clause clause =>
    cases hb with
    | absent => exact absurd hrest' clause.not_endsInsert
    | clause clause' =>
      obtain ⟨rfl, rfl⟩ := unique_conflict clause clause' (hrest.endsBefore _)
        (hrest'.endsBefore _)
      exact ⟨rfl, rfl⟩

theorem unique_returning : Unique (Returning d) (· = []) := by
  rintro ts a rest b rest' ha hb rfl rfl
  generalize hts : ts = us at hb
  cases ha with
  | absent =>
    cases hb with
    | absent => exact ⟨rfl, rfl⟩
    | columns => cases hts
  | columns _ names =>
    cases hb with
    | absent => cases hts
    | columns _ names' =>
      obtain rfl := (List.cons.inj hts).2
      exact unique_names names names' (endsBefore_nil _) (endsBefore_nil _)

/-- The rows of an INSERT begin with a word or a bracket. -/
theorem Body.endsBefore {ts rest : List Token} {b : BodyReading} (h : Body d ts b rest) :
    EndsBefore ['.'] ts := by
  cases h with
  | rows columns =>
    cases columns
    exact endsBefore_mark (by decide) _
  | defaults | brackets => exact endsBefore_word _ _ _

/-- An INSERT is read in one way. -/
theorem insertParts_unique {ts : List Token} {r r' : InsertReading}
    (h : InsertParts d ts r) (h' : InsertParts d ts r') : r = r' := by
  obtain ⟨table, body, conflict, returning⟩ := h
  obtain ⟨table', body', conflict', returning'⟩ := h'
  obtain ⟨htable, rfl⟩ := unique_name table table' body.endsBefore body'.endsBefore
  obtain ⟨hbody, rfl⟩ := unique_body body body'
    (conflict.endsBefore returning.endsInsert _) (conflict'.endsBefore returning'.endsInsert _)
  obtain ⟨hconflict, rfl⟩ := unique_optionalConflict conflict conflict' returning.endsInsert
    returning'.endsInsert
  obtain ⟨hreturning, -⟩ := unique_returning returning returning' rfl rfl
  cases r
  cases r'
  simp_all

end Unique

end EntityGraph.Sql.Grammar
