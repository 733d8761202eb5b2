import EntityGraph.Proofs.Relational.LinkColumns
import EntityGraph.Proofs.Relational.StoredRows

/-!
# The turns of an INSERT

The rows of values of an INSERT take turns: when one of them is stored, those before it have been,
and those after it have not. `InsertStatement.Turn` is the turn of one of them. A row that is
reported, or that is in the table only after the INSERT, has come about in a turn; any other row was
there in all turns.

`Call.Generates` is what a database says about an INSERT if besides it gives its rows ascending IDs.
-/

set_option autoImplicit false

namespace EntityGraph

namespace InsertStatement

variable {E : Engine} {S : Schema} {i : InsertStatement} {values : List (List Value)}
  {v : List Value} {before after rows rows' mid mid' reported : List Tuple} {x r : Tuple}
  {o : Option Tuple} {j : Nat}

/-! ## One row -/

/-- A stored row meets a conflict: it agrees with the proposed one in a unique key, and the clause
makes a row of it. -/
structure Resolves (E : Engine) (S : Schema) (i : InsertStatement) (key : List String)
    (stored proposed r : Tuple) : Prop where
  unique : key ∈ S.uniques i.table
  agree : Agree E key stored proposed
  clause : ∃ clause, i.conflict = some clause ∧ clause.IsAbout key ∧
    clause.resolve stored proposed = some r

/-- The row that is reported is the proposed one, which agrees with no other in a unique key, or it
is what the conflict clause makes of a stored one. -/
theorem StoresRow.added_or_resolved (h : i.StoresRow E S x rows rows' (some r)) :
    (r = x ∧ ∀ key ∈ S.uniques i.table, ∀ q ∈ rows, ¬Agree E key q x) ∨
      ∃ key, ∃ q ∈ rows, i.Resolves E S key q x r := by
  cases h with
  | added free => exact .inl ⟨rfl, free⟩
  | @changed before after key q _ clause key_mem agree conflict about resolve =>
    refine .inr ⟨key, q, List.mem_append_right _ List.mem_cons_self, key_mem, agree, ?_⟩
    exact ⟨clause, conflict, about, resolve⟩

/-- A row that is not reported was there before. -/
theorem StoresRow.reported_or_mem (h : i.StoresRow E S x rows rows' o) (hr : r ∈ rows') :
    o = some r ∨ r ∈ rows := by
  cases h with
  | added _ perm =>
    rcases List.mem_cons.mp (perm.mem_iff.mp hr) with rfl | hr
    · exact .inl rfl
    · exact .inr hr
  | skipped => exact .inr hr
  | @changed before after _ q q' =>
    rcases List.mem_append.mp hr with hr | hr
    · exact .inr (List.mem_append_left _ hr)
    · rcases List.mem_cons.mp hr with rfl | hr
      · exact .inl rfl
      · exact .inr (List.mem_append_right _ (List.mem_cons_of_mem q hr))

/-! ## All rows in turn -/

/-- The turn of a row of values: the rows of the table before and after it, what the database makes
of the values, and the row that is reported. -/
structure Turn (E : Engine) (S : Schema) (i : InsertStatement) (values : List (List Value))
    (before after : List Tuple) (j : Nat) (mid : List Tuple) (x : Tuple) (mid' : List Tuple)
    (o : Option Tuple) : Prop where
  earlier : ∃ reported, i.StoresRows E S (values.take j) before mid reported
  proposes : ∃ row, values[j]? = some row ∧ i.Proposes E S mid row x
  stores : i.StoresRow E S x mid mid' o
  later : ∃ reported, i.StoresRows E S (values.drop (j + 1)) mid' after reported

theorem Turn.first (proposes : i.Proposes E S before v x) (stores : i.StoresRow E S x before mid' o)
    (later : i.StoresRows E S values mid' after reported) :
    i.Turn E S (v :: values) before after 0 before x mid' o :=
  ⟨⟨[], .nil⟩, ⟨v, rfl, proposes⟩, stores, ⟨reported, later⟩⟩

/-- The first row of an INSERT comes before the turns of the others. -/
theorem Turn.cons {y : Tuple} {p : Option Tuple} (proposes : i.Proposes E S rows v y)
    (stores : i.StoresRow E S y rows before p)
    (h : i.Turn E S values before after j mid x mid' o) :
    i.Turn E S (v :: values) rows after (j + 1) mid x mid' o := by
  obtain ⟨reported, hearlier⟩ := h.earlier
  exact ⟨⟨_, .cons proposes stores hearlier⟩, h.proposes, h.stores, h.later⟩

/-- Where stored rows are not changed, the rows of the table are there in all turns. -/
theorem Turn.before_subset (hinert : ∀ clause, i.conflict = some clause → clause.IsInert)
    (h : i.Turn E S values before after j mid x mid' o) : before ⊆ mid := by
  obtain ⟨_, hearlier⟩ := h.earlier
  exact hearlier.subset hinert

/-- A row is reported in a turn. -/
theorem StoresRows.exists_turn_of_reported (h : i.StoresRows E S values before after reported)
    (hr : r ∈ reported) : ∃ j mid x mid', i.Turn E S values before after j mid x mid' (some r) := by
  induction h with
  | nil => cases hr
  | cons proposes stores later ih =>
    rcases List.mem_append.mp hr with hr | hr
    · rw [Option.mem_toList] at hr
      obtain rfl := hr
      exact ⟨0, _, _, _, .first proposes stores later⟩
    · obtain ⟨j, mid, x, mid', hturn⟩ := ih hr
      exact ⟨j + 1, mid, x, mid', hturn.cons proposes stores⟩

/-- A row that was not in the table is reported in a turn before which it was not there. -/
theorem StoresRows.exists_turn_of_new (h : i.StoresRows E S values before after reported)
    (hr : r ∈ after) (hnew : r ∉ before) :
    ∃ j mid x mid', i.Turn E S values before after j mid x mid' (some r) ∧ r ∉ mid := by
  induction h with
  | nil => exact absurd hr hnew
  | @cons v rest before mid after x o _ proposes stores later ih =>
    by_cases hmid : r ∈ mid
    · obtain rfl : o = some r := (stores.reported_or_mem hmid).resolve_right hnew
      exact ⟨0, _, _, _, .first proposes stores later, hnew⟩
    · obtain ⟨j, mid, x, mid', hturn, hnew⟩ := ih hr hmid
      exact ⟨j + 1, mid, x, mid', hturn.cons proposes stores, hnew⟩

/-- A row of the table after an INSERT has been reported in a turn, or it was there in all turns. -/
theorem StoresRows.reported_or_kept (h : i.StoresRows E S values before after reported)
    (hr : r ∈ after) :
    (∃ j mid x mid', i.Turn E S values before after j mid x mid' (some r)) ∨
      r ∈ before ∧ ∀ j < values.length, ∃ mid x mid' o,
        i.Turn E S values before after j mid x mid' o ∧ r ∈ mid := by
  induction h with
  | nil => exact .inr ⟨hr, fun j hj => absurd hj (Nat.not_lt_zero j)⟩
  | @cons v rest before mid after x o _ proposes stores later ih =>
    rcases ih hr with ⟨j, mid, x, mid', hturn⟩ | ⟨hmid, hkept⟩
    · exact .inl ⟨j + 1, mid, x, mid', hturn.cons proposes stores⟩
    · rcases stores.reported_or_mem hmid with rfl | hbefore
      · exact .inl ⟨0, _, _, _, .first proposes stores later⟩
      · refine .inr ⟨hbefore, fun j hj => ?_⟩
        cases j with
        | zero => exact ⟨_, _, _, _, .first proposes stores later, hbefore⟩
        | succ j =>
          obtain ⟨mid, x, mid', o, hturn, hr⟩ := hkept j (Nat.lt_of_succ_lt_succ hj)
          exact ⟨mid, x, mid', o, hturn.cons proposes stores, hr⟩

/-! ## Ascending IDs -/

/-- The ID that a reply to an INSERT tells is above those of the rows that the table had, if a row
has been written: it is the first that the database has generated. -/
def Ascends (E : Engine) (S : Schema) (i : InsertStatement) (before : List Tuple) (r : ExecResult) :
    Prop :=
  S.reportsIds = true → (∀ clause, i.conflict = some clause → clause.IsInert) →
    ∀ c, S.identity i.table = some c → c ∉ i.columns → ∀ first, r.lastInsertId = some first →
      first ≠ 0 → 0 < r.rowsAffected → ∀ q ∈ before, (E.compare .gte (q c) (.int first)).isYes = false

end InsertStatement

/-- A database that tells generated IDs gives higher ones to new rows. -/
def Call.Ascends (E : Engine) (S : Schema) : Answering Session
  | .exec _ (.insert i), (.done r : Outcome ExecResult), s, _ =>
    i.Ascends E S (s.current (nameParts i.table)).rows r
  | _, _, _, _ => True

/-- A database with a schema answers a call, and gives ascending IDs. -/
def Call.Generates (E : Engine) (S : Schema) : Answering Session := fun c r s s' =>
  c.Records E S r s s' ∧ c.Ascends E S r s s'

theorem Call.Generates.records {E : Engine} {S : Schema} {call : Call} {r : call.Reply}
    {s s' : Session} (h : call.Generates E S r s s') : call.Records E S r s s' :=
  h.1

/-! ## What a conflict clause makes of a stored row -/

namespace ConflictClause

variable {clause : ConflictClause} {stored proposed r : Tuple}

/-- A clause that proposes nothing leaves stored rows as they are. -/
theorem isInert_of_assignments (h : ∀ a ∈ clause.assignments, a.value ≠ .proposed) :
    clause.IsInert := by
  intro stored proposed
  cases hresolve : clause.resolve stored proposed with
  | none => exact .inl rfl
  | some r =>
    right
    congr 1
    funext k
    exact resolve_of_ne (fun a ha hvalue => absurd hvalue (h a ha)) hresolve

/-- What an inert clause makes of a stored row is that row. -/
theorem IsInert.eq (h : clause.IsInert) (hr : clause.resolve stored proposed = some r) :
    r = stored := by
  rcases h stored proposed with hnone | hsome
  · rw [hnone] at hr
    cases hr
  · exact Option.some.inj (hr.symm.trans hsome)

/-- Columns that are assigned their proposed values have these. -/
theorem assigned_of_proposed {columns : List String} {c : String} (hc : c ∈ columns) :
    assigned (columns.map (⟨·, .proposed⟩)) stored proposed (columnName c) =
      proposed (columnName c) := by
  have hfold : ∀ (columns : List String) (new : Tuple),
      (c ∈ columns ∨ new (columnName c) = proposed (columnName c)) →
      (columns.map fun c => (⟨c, .proposed⟩ : ConflictAssignment)).foldl (fun new a =>
        Function.update new (columnName a.column) (a.value.result (stored (columnName a.column))
          (proposed (columnName a.column)))) new (columnName c) = proposed (columnName c) := by
    intro columns
    induction columns with
    | nil => exact fun new h => h.resolve_left List.not_mem_nil
    | cons first rest ih =>
      intro new h
      refine ih _ ?_
      by_cases hname : columnName c = columnName first
      · right
        rw [hname]
        exact Function.update_self ..
      · rcases h with hmem | hnew
        · left
          exact (List.mem_cons.mp hmem).resolve_left fun heq => hname (congrArg columnName heq)
        · right
          exact (Function.update_of_ne hname ..).trans hnew
  exact hfold columns stored (.inl hc)

end ConflictClause

end EntityGraph
