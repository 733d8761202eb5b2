import EntityGraph.Proofs.Graph.StepConditions

/-!
# Matching rows by absent keys

An absent value is not equal to any other, so as a key it should match no row. A condition on
several values keeps to that. A condition on one value does not: it is met where nothing is, and it
is what a list of one value is matched by, and what a step compares with the value at its start.

`keys_matched_by_value_iff` says where that makes a difference. A list matches by its values unless
it is the absent value alone. A step selects nothing but rows that are linked to a row where it
starts as soon as there is one with the value at its start; where foreign keys refer to rows, this
can only fail if that value is absent, and then it fails if the step selects anything.
-/

set_option autoImplicit false

namespace EntityGraph

variable {E : Engine} {db : Database} {s : Step} {r : Tuple}

/-! ## One of some values -/

/-- The condition that a column has one of some values goes by the values, unless it is on the
absent value alone. -/
theorem meets_oneOf_by_value_iff {table name c : String} (h : db.Denotes table name c)
    (vs : List Value) :
    (∀ r, db.meets E table (some (.oneOf name vs)) r = true ↔
      ∃ v ∈ vs, E.equal (r c) v = true) ↔ vs ≠ [.null] := by
  simp only [meets_oneOf_iff h.knows, h.column, List.any_eq_true]
  constructor
  · rintro hall rfl
    obtain ⟨v, -, hequal⟩ := (hall fun _ => .null).mp (.inr ⟨rfl, rfl⟩)
    exact absurd (Engine.isNull_of_equal hequal) (by decide)
  · intro hne r
    exact or_iff_left fun habsent => hne habsent.1

/-! ## The value at the start of a step -/

namespace Step

/-- A row is linked to one that has the value at the start of the step. -/
def IsLinked (E : Engine) (db : Database) (s : Step) (r : Tuple) : Prop :=
  ∃ f ∈ (db (nameParts s.start.table)).rows,
    E.equal (f s.start.column) s.start.value = true ∧ s.links E db f r = true

/-- The selection of the neighbors has rows for neighbors only. -/
def SelectsLinked (E : Engine) (db : Database) (s : Step) : Prop :=
  ∀ out ∈ s.neighbors.outRows E db [], ∃ r ∈ (db (nameParts s.goal.table)).rows,
    (db (nameParts s.goal.table)).outRow r <+: out ∧ s.IsLinked E db r

/-- The table where the step starts has the foreign key if the layout says so. -/
def OwnsLinks (s : Step) : Prop := s.layout = .startOwner → s.edge.table = s.start.table

/-- The foreign keys that refer to where a step starts refer to rows that are there. -/
structure RefersToStarts (E : Engine) (db : Database) (s : Step) : Prop where
  joinTable : s.layout = .joinTable → ∀ o ∈ (db (nameParts s.edge.table)).rows,
    (o s.startColumn).isNull = false →
      (db (nameParts s.start.table)).Holds E s.start.column (o s.startColumn)
  goalOwner : s.layout = .goalOwner → ∀ r ∈ (db (nameParts s.goal.table)).rows,
    (r (s.column 0)).isNull = false →
      (db (nameParts s.start.table)).Holds E s.start.column (r (s.column 0))

/-- A row that is reached is linked to the rows that have the value at the start. -/
theorem isLinked_of_reaches (howns : s.OwnsLinks)
    (hstart : (db (nameParts s.start.table)).Holds E s.start.column s.start.value)
    (hr : s.Reaches E db r) : s.IsLinked E db r := by
  have hpicks : ∀ v, E.picks v s.start.value = E.equal v s.start.value :=
    fun v => Engine.picks_of_value hstart.isNull
  obtain ⟨f, hf, hvalue⟩ := hstart
  unfold Reaches at hr
  cases hlayout : s.layout with
  | joinTable =>
    simp only [hlayout, hpicks] at hr
    obtain ⟨o, ho, hfrom, hto⟩ := hr
    refine ⟨f, hf, hvalue, (links_of_joinTable hlayout).mpr ⟨o, ho, ?_, hto⟩⟩
    exact Engine.equal_trans hfrom (Engine.equal_symm hvalue)
  | startOwner =>
    simp only [hlayout, hpicks, howns hlayout] at hr
    obtain ⟨o, ho, hfrom, hto⟩ := hr
    exact ⟨o, ho, hfrom, (links_of_startOwner hlayout).trans hto⟩
  | goalOwner =>
    simp only [hlayout, hpicks] at hr
    refine ⟨f, hf, hvalue, (links_of_goalOwner hlayout).trans ?_⟩
    exact Engine.equal_trans hr (Engine.equal_symm hvalue)

/-- If a row is reached from a value that is there, the value is that of a row where the step
starts. -/
theorem holds_of_reaches (howns : s.OwnsLinks) (hrefers : s.RefersToStarts E db)
    (hvalue : s.start.value.isNull = false) (hmem : r ∈ (db (nameParts s.goal.table)).rows)
    (hr : s.Reaches E db r) :
    (db (nameParts s.start.table)).Holds E s.start.column s.start.value := by
  have hpicks : ∀ v, E.picks v s.start.value = E.equal v s.start.value :=
    fun v => Engine.picks_of_value hvalue
  unfold Reaches at hr
  cases hlayout : s.layout with
  | joinTable =>
    simp only [hlayout, hpicks] at hr
    obtain ⟨o, ho, hfrom, -⟩ := hr
    exact (hrefers.joinTable hlayout o ho (Engine.isNull_of_equal hfrom)).congr hfrom
  | startOwner =>
    simp only [hlayout, hpicks, howns hlayout] at hr
    obtain ⟨o, ho, hfrom, -⟩ := hr
    exact ⟨o, ho, hfrom⟩
  | goalOwner =>
    simp only [hlayout, hpicks] at hr
    exact (hrefers.goalOwner hlayout r hmem (Engine.isNull_of_equal hr)).congr hr

section Selection

variable (h : s.HasColumns db) (hnamed : s.IsUnambiguous)
include h hnamed

/-- A step selects nothing if it reaches nothing. -/
theorem neighbors_eq_nil_iff : s.neighbors.outRows E db [] = [] ↔
    ∀ r ∈ (db (nameParts s.goal.table)).rows, ¬s.Reaches E db r := by
  obtain ⟨beside, houtRows, hbeside⟩ := shows_reached (E := E) h hnamed
  rw [houtRows, ← not_iff_not, ← ne_eq, Table.rowsBeside_ne_nil]
  simp [hbeside]

/-- The rows of the selection are those of linked rows if there is a row to which they can be
linked. -/
theorem selectsLinked_iff_holds (howns : s.OwnsLinks) : s.SelectsLinked E db ↔
    (s.neighbors.outRows E db [] ≠ [] →
      (db (nameParts s.start.table)).Holds E s.start.column s.start.value) := by
  constructor
  · intro hlinked hne
    obtain ⟨out, hout⟩ := List.exists_mem_of_ne_nil _ hne
    obtain ⟨r, -, -, f, hf, hvalue, -⟩ := hlinked out hout
    exact ⟨f, hf, hvalue⟩
  · intro hholds out hout
    obtain ⟨beside, houtRows, hbeside⟩ := shows_reached (E := E) h hnamed
    have hstart := hholds (List.ne_nil_of_mem hout)
    rw [houtRows] at hout
    obtain ⟨r, hr, other, hother, rfl⟩ := Table.mem_rowsBeside.mp hout
    have hreaches : s.Reaches E db r := (hbeside r).mp (List.ne_nil_of_mem hother)
    exact ⟨r, hr, List.prefix_append _ _, isLinked_of_reaches howns hstart hreaches⟩

/-- Where foreign keys refer to rows, only an absent value selects rows that are not linked. -/
theorem selectsLinked_iff_of_refers (howns : s.OwnsLinks) (hrefers : s.RefersToStarts E db) :
    s.SelectsLinked E db ↔ (s.start.value.isNull = true → s.neighbors.outRows E db [] = []) := by
  rw [selectsLinked_iff_holds h hnamed howns]
  cases hvalue : s.start.value.isNull with
  | true =>
    have hnone : ¬(db (nameParts s.start.table)).Holds E s.start.column s.start.value :=
      fun hholds => by simp [hholds.isNull] at hvalue
    simp [hnone]
  | false =>
    simp only [Bool.false_eq_true, false_implies, iff_true]
    intro hne
    rw [ne_eq, neighbors_eq_nil_iff h hnamed] at hne
    push Not at hne
    obtain ⟨r, hmem, hr⟩ := hne
    exact holds_of_reaches howns hrefers hvalue hmem hr

end Selection

end Step

/-! ## Matching by value -/

/-- Rows are matched by the values of their keys, and the absent value alone is not matched so.

A list matches by its values unless it is the absent value alone, which matches the rows where
nothing is. A step selects nothing but rows that are linked to an existing row with the value at its
start, if there is such a row or the step selects nothing at all. Where foreign keys refer to rows,
what fails is a step from the absent value that selects anything: it selects the rows that it
reaches through links where nothing is. -/
theorem keys_matched_by_value_iff :
    (∀ table name c : String, db.Denotes table name c → ∀ vs : List Value,
      ((∀ r, db.meets E table (some (.oneOf name vs)) r = true ↔
          ∃ v ∈ vs, E.equal (r c) v = true) ↔ vs ≠ [.null]) ∧
        ∀ r, db.meets E table (some (.oneOf name [.null])) r = (r c).isNull) ∧
      ∀ s : Step, s.HasColumns db → s.IsUnambiguous → s.OwnsLinks →
        (s.SelectsLinked E db ↔ (s.neighbors.outRows E db [] ≠ [] →
          (db (nameParts s.start.table)).Holds E s.start.column s.start.value)) ∧
        (s.RefersToStarts E db → (s.SelectsLinked E db ↔
          (s.start.value.isNull = true → s.neighbors.outRows E db [] = []))) ∧
        (s.neighbors.outRows E db [] = [] ↔
          ∀ r ∈ (db (nameParts s.goal.table)).rows, ¬s.Reaches E db r) := by
  refine ⟨fun table name c h vs => ⟨meets_oneOf_by_value_iff h vs, fun r => ?_⟩,
    fun s h hnamed howns => ⟨?_, fun hrefers => ?_, ?_⟩⟩
  · rw [Predicate.oneOf, meets_eq h.knows, h.column, Engine.picks_of_absent rfl]
  · exact Step.selectsLinked_iff_holds h hnamed howns
  · exact Step.selectsLinked_iff_of_refers h hnamed howns hrefers
  · exact Step.neighbors_eq_nil_iff h hnamed

/-! ## From a parent to the children -/

/-- The step from a parent to the children, which are in the same table. -/
def childStep (parent : Value) : Step :=
  { start := ⟨"users", "id", parent⟩
    edge := ⟨.oneToMany, false, "users", ["parent_id"]⟩
    goal := ⟨"users", "id"⟩ }

section Family

variable {parent : Value}

theorem childStep_hasColumns : (childStep parent).HasColumns (family "users") where
  goal := family_hasColumn List.mem_cons_self
  joinTable h := by cases h
  startOwner h := by cases h
  goalOwner _ := family_hasColumn (List.mem_cons_of_mem _ List.mem_cons_self)

theorem childStep_isUnambiguous : (childStep parent).IsUnambiguous := fun h => absurd rfl h

theorem childStep_ownsLinks : (childStep parent).OwnsLinks := fun h => by cases h

theorem childStep_refersToStarts :
    (childStep parent).RefersToStarts keyEngine (family "users") where
  joinTable h := by cases h
  goalOwner _ := parentStep_hasIntegrity.startOwner rfl

end Family

/-- A list of an ID and the absent value matches users by the IDs of their parents, and a step from
the ID of a user leads to the children of this user only. -/
theorem children_matched_by_value :
    (family "users").Denotes "users" "parent_id" "parent_id" ∧
      (childStep (.int 1)).HasColumns (family "users") ∧ (childStep (.int 1)).IsUnambiguous ∧
      (childStep (.int 1)).OwnsLinks ∧
      (childStep (.int 1)).RefersToStarts keyEngine (family "users") ∧
      (∀ r, (family "users").meets keyEngine "users"
          (some (.oneOf "parent_id" [.int 1, .null])) r = true ↔
        ∃ v ∈ [Value.int 1, .null], keyEngine.equal (r "parent_id") v = true) ∧
      (childStep (.int 1)).SelectsLinked keyEngine (family "users") := by
  have hparent : (family "users").Denotes "users" "parent_id" "parent_id" :=
    (family_hasColumn (by decide)).denotes
  obtain ⟨hlists, hsteps⟩ := @keys_matched_by_value_iff keyEngine (family "users")
  obtain ⟨-, hlinked, -⟩ := hsteps (childStep (.int 1)) childStep_hasColumns
    childStep_isUnambiguous childStep_ownsLinks
  refine ⟨hparent, childStep_hasColumns, childStep_isUnambiguous, childStep_ownsLinks,
    childStep_refersToStarts, (hlists _ _ _ hparent _).1.mpr (by simp), ?_⟩
  exact (hlinked childStep_refersToStarts).mpr fun habsent => by cases habsent

/-- The absent value alone matches a user without a parent, the same value twice does not, and a step
from the absent value leads to this user, although no user has an absent ID. -/
theorem orphan_matched :
    (family "users").meets keyEngine "users" (some (.oneOf "parent_id" [.null]))
        (userRow (.int 1) .null .null) = true ∧
      (family "users").meets keyEngine "users" (some (.oneOf "parent_id" [.null, .null]))
        (userRow (.int 1) .null .null) = false ∧
      (childStep .null).RefersToStarts keyEngine (family "users") ∧
      (childStep .null).neighbors.SelectsRow keyEngine (family "users")
        (family "users" (nameParts "users")) (userRow (.int 1) .null .null) ∧
      ¬(childStep .null).SelectsLinked keyEngine (family "users") := by
  have hparent : (family "users").knows "users" "parent_id" = true :=
    (family_hasColumn (by decide)).knows
  have hroot : userRow (.int 1) .null .null ∈ (family "users" (nameParts "users")).rows := by
    rw [family_table]
    exact List.mem_cons_self
  have hselects : (childStep .null).neighbors.SelectsRow keyEngine (family "users")
      (family "users" (nameParts "users")) (userRow (.int 1) .null .null) := by
    obtain ⟨beside, houtRows, hbeside⟩ := Step.shows_reached (E := keyEngine)
      (s := childStep .null) childStep_hasColumns childStep_isUnambiguous
    obtain ⟨other, hother⟩ := List.exists_mem_of_ne_nil _
      ((hbeside (userRow (.int 1) .null .null)).mpr rfl)
    refine ⟨_, ?_, List.prefix_append _ other⟩
    rw [houtRows]
    exact Table.mem_rowsBeside.mpr ⟨_, hroot, other, hother, rfl⟩
  refine ⟨(meets_oneOf_iff hparent _).mpr (.inr ⟨rfl, rfl⟩), ?_, childStep_refersToStarts, hselects,
    fun hlinked => ?_⟩
  · rw [← Bool.not_eq_true, meets_oneOf_iff hparent]
    rintro (hvalue | ⟨hsingle, -⟩)
    · exact absurd hvalue (by decide)
    · exact absurd hsingle (by simp)
  · rw [Step.selectsLinked_iff_of_refers childStep_hasColumns childStep_isUnambiguous
      childStep_ownsLinks childStep_refersToStarts] at hlinked
    obtain ⟨out, hout, -⟩ := hselects
    rw [hlinked rfl] at hout
    cases hout

end EntityGraph
