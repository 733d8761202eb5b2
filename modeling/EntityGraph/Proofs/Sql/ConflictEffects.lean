import EntityGraph.Proofs.Sql.DroppedAssignments
import Mathlib.Data.List.Nodup
import Mathlib.Logic.Function.Basic

/-!
# What a conflict clause does to the stored row

The conflict clause is read from the text of its INSERT, and its assignments are carried out on a
row whose columns have names of any number of parts. On Postgres and SQLite all right sides are
about the stored row; MySQL carries out one assignment after the other. `HasEffect` says what a
policy promises on every dialect. `sameEffect_iff` says that the promise is kept unless an
assignment gives way to a reported ID of another column.
-/

set_option autoImplicit false

namespace EntityGraph.Sql.Grammar

variable {d : Dialect}

/-! ## Assignments on a row -/

/-- The values of a row, by the parts of the names of its columns. -/
abbrev NamedRow := List String → Value

/-- The column that a name is about: the parts that name the table are left out. -/
def bare (table name : List String) : List String :=
  if _ : table ≠ [] ∧ table <+: name ∧ table.length < name.length then
    bare table (name.drop table.length)
  else name
termination_by name.length
decreasing_by
  rename_i h
  have hpos := List.length_pos_iff.mpr h.1
  rw [List.length_drop]
  omega

/-- A column has the same name with its table and without. -/
theorem bare_qualified {table name : List String} (htable : table ≠ []) (hname : name ≠ []) :
    bare table (table ++ name) = bare table name := by
  have hlength := List.length_pos_iff.mpr hname
  rw [bare, dif_pos ⟨htable, List.prefix_append table name, by simpa using hlength⟩,
    List.drop_left]

/-- The value of the right side of an assignment, where `source` is the row that it is about. -/
def SetValue.result (table : List String) (source proposed : NamedRow) : SetValue → Value
  | .column n | .lastId n => source (bare table n)
  | .proposed n => proposed (bare table n)

/-- A row after an assignment. -/
def SetItem.apply (table : List String) (source proposed row : NamedRow) (s : SetItem) :
    NamedRow :=
  Function.update row (bare table s.target) (s.value.result table source proposed)

namespace ConflictReading

/-- The assignments of a conflict clause. -/
def sets : ConflictReading → List SetItem
  | nothing _ => []
  | update _ sets | duplicate sets => sets

/-- What the clause makes of the stored row. -/
def after (table : List String) (stored proposed : NamedRow) : ConflictReading → NamedRow
  | nothing _ => stored
  | update _ sets => sets.foldl (fun row s => s.apply table stored proposed row) stored
  | duplicate sets => sets.foldl (fun row s => s.apply table row proposed row) stored

end ConflictReading

section Assignments

variable {table : String} {proposed : NamedRow} {source : NamedRow → NamedRow}

/-- Assignments of stored values change nothing. -/
theorem foldl_stored {row : NamedRow} {as : List ConflictAssignment} (hsource : source row = row)
    (has : ∀ a ∈ as, a.value ≠ .proposed) :
    (as.map (setItem table)).foldl
      (fun row s => s.apply (nameParts table) (source row) proposed row) row = row := by
  have hqualified : ∀ column, bare (nameParts table) (nameParts (table ++ "." ++ column)) =
      bare (nameParts table) (nameParts column) := by
    intro column
    rw [nameParts_qualified]
    exact bare_qualified (nameParts_ne_nil table) (nameParts_ne_nil column)
  induction as with
  | nil => rfl
  | cons a as ih =>
    have hsame : (setItem table a).apply (nameParts table) (source row) proposed row = row := by
      obtain ⟨column, value⟩ := a
      cases value with
      | itself => simp [SetItem.apply, setItem, SetValue.result, hsource]
      | stored | reported => simp [SetItem.apply, setItem, SetValue.result, hsource, hqualified]
      | proposed => exact absurd rfl (has _ List.mem_cons_self)
    rw [List.map_cons, List.foldl_cons, hsame]
    exact ih fun a ha => has a (List.mem_cons_of_mem _ ha)

/-- Assignments of proposed values set the columns that they name, and no others. -/
theorem foldl_proposed (columns : List String) (row : NamedRow) (name : List String) :
    ((columns.map (⟨·, .proposed⟩)).map (setItem table)).foldl
      (fun row s => s.apply (nameParts table) (source row) proposed row) row name =
        if name ∈ columns.map fun c => bare (nameParts table) (nameParts c) then proposed name
        else row name := by
  induction columns generalizing row with
  | nil => rfl
  | cons c columns ih =>
    rw [List.map_cons, List.map_cons, List.foldl_cons, ih]
    by_cases hmem : name ∈ columns.map fun c => bare (nameParts table) (nameParts c)
    · simp only [hmem, if_true, List.map_cons, List.mem_cons, or_true]
    · simp only [hmem, if_false, List.map_cons, List.mem_cons, or_false]
      by_cases hname : name = bare (nameParts table) (nameParts c)
      · subst hname
        simp [SetItem.apply, setItem, SetValue.result]
      · simp [SetItem.apply, setItem, hname]

end Assignments

/-! ## The clause in the text of a statement -/

/-- The keyword of a conflict clause is not among the tokens. -/
def NoClause (ts : List Token) : Prop := ∀ t ∈ ts, t ≠ .word "ON"

/-- This is the conflict clause of a statement, as it is read. -/
def ReadsClause (d : Dialect) (statement : Statement) (clause : ConflictReading) : Prop :=
  ∃ before ts rest, tokens d statement = some (before ++ ts) ∧ NoClause before ∧
    Conflict d ts clause rest ∧ EndsInsert rest

/-- A list is cut in one way before the keyword of its conflict clause. -/
theorem NoClause.append_unique {xs ys us vs : List Token} (hxs : NoClause xs) (hys : NoClause ys)
    (h : xs ++ .word "ON" :: us = ys ++ .word "ON" :: vs) : xs = ys := by
  induction xs generalizing ys with
  | nil =>
    cases ys with
    | nil => rfl
    | cons y ys => exact absurd (List.cons.inj h).1.symm (hys y List.mem_cons_self)
  | cons x xs ih =>
    cases ys with
    | nil => exact absurd (List.cons.inj h).1 (hxs x List.mem_cons_self)
    | cons y ys =>
      obtain ⟨rfl, hrest⟩ := List.cons.inj h
      rw [ih (fun z hz => hxs z (List.mem_cons_of_mem x hz))
        (fun z hz => hys z (List.mem_cons_of_mem x hz)) hrest]

/-- A statement has one conflict clause. -/
theorem readsClause_unique {statement : Statement} {clause other : ConflictReading}
    (h : ReadsClause d statement clause) (h' : ReadsClause d statement other) :
    other = clause := by
  obtain ⟨before, ts, rest, hts, hbefore, hclause, hrest⟩ := h
  obtain ⟨before', ts', rest', hts', hbefore', hother, hrest'⟩ := h'
  have hsame : before ++ ts = before' ++ ts' := Option.some.inj (hts.symm.trans hts')
  obtain ⟨us, rfl⟩ := hclause.head
  obtain ⟨us', rfl⟩ := hother.head
  obtain rfl := hbefore.append_unique hbefore' hsame
  rw [List.append_cancel_left hsame] at hclause
  exact (unique_conflict hother hclause (hrest'.endsBefore _) (hrest.endsBefore _)).1

section NoClause

@[simp]
theorem noClause_nil : NoClause [] := fun _ h => absurd h List.not_mem_nil

@[simp]
theorem noClause_cons (t : Token) (ts : List Token) :
    NoClause (t :: ts) ↔ t ≠ .word "ON" ∧ NoClause ts := List.forall_mem_cons

@[simp]
theorem noClause_append (xs ys : List Token) :
    NoClause (xs ++ ys) ↔ NoClause xs ∧ NoClause ys := List.forall_mem_append

theorem noClause_separated {s : String} {groups : List (List Piece)}
    (hs : NoClause (pieceTokens d (.raw s))) (h : ∀ g ∈ groups, NoClause (tokensOf d g)) :
    NoClause (tokensOf d (Piece.separated s groups)) := by
  refine separated_induction (P := fun ps => NoClause (tokensOf d ps)) noClause_nil
    (fun ps qs hp hq => ?_) h
  rw [tokensOf_append, tokensOf_cons]
  simp [hp, hs, hq]

theorem noClause_name (s : String) : NoClause (tokensOf d (Piece.ofName s)) := by
  rw [ofName_eq]
  refine noClause_separated (by simp) fun g hg => ?_
  obtain ⟨part, -, rfl⟩ := List.mem_map.mp hg
  rw [tokensOf_cons, pieceTokens_namePiece]
  split <;> simp

theorem noClause_names (names : List String) : NoClause (tokensOf d (Piece.ofNames names)) := by
  refine noClause_separated (by simp) fun g hg => ?_
  obtain ⟨s, -, rfl⟩ := List.mem_map.mp hg
  exact noClause_name s

theorem noClause_values (row : List Value) : NoClause (tokensOf d (Piece.ofValues row)) := by
  refine noClause_separated (by simp) fun g hg => ?_
  obtain ⟨v, -, rfl⟩ := List.mem_map.mp hg
  cases v <;> simp [Piece.ofValue, Value.isNull]

theorem noClause_body (statement : InsertStatement) :
    NoClause (tokensOf d (statement.bodyPieces d)) := by
  unfold InsertStatement.bodyPieces
  split
  case isTrue =>
    have hmysql : pieceTokens .mysql (.raw " VALUES ()") =
        [.word "VALUES", .mark '(', .mark ')'] := rfl
    have hother : d ≠ .mysql → pieceTokens d (.raw " DEFAULT VALUES") =
        [.word "DEFAULT", .word "VALUES"] := by
      cases d <;> simp <;> rfl
    by_cases hd : d = .mysql
    · subst hd
      simp [hmysql]
    · simp [hd, hother hd]
  case isFalse =>
    have hrows : NoClause (tokensOf d (Piece.separated ", " (statement.rows.map fun row =>
        .raw "(" :: (Piece.ofValues row ++ [.raw ")"])))) := by
      refine noClause_separated (by simp) fun g hg => ?_
      obtain ⟨row, -, rfl⟩ := List.mem_map.mp hg
      simp [noClause_values]
    simp [noClause_names, hrows]

end NoClause

/-- The conflict clause of a compiled INSERT is read from its text. -/
theorem readsClause_compiled {i : Insert} {statement : InsertStatement}
    (h : i.compile d = .ok statement) {clause : ConflictClause}
    (hclause : statement.conflict = some clause) :
    ReadsClause d (statement.statement d) (clauseReading i.table clause) := by
  obtain ⟨-, hreturning⟩ := closing_derived h
  obtain ⟨-, conflict, hconflict, rfl⟩ := compile_eq_ok.mp h
  obtain rfl : conflict = some clause := hclause
  refine ⟨.word "INSERT" :: .word "INTO" :: (tokensOf d (Piece.ofName i.table) ++
      tokensOf d ((compiledAs d i (some clause)).bodyPieces d)),
    closing d (compiledAs d i (some clause)), _, ?_, ?_,
    conflict_derived i.table (compiledClause_clauseOf hconflict) _, hreturning.endsInsert⟩
  · rw [statement_tokens, insert_tokens]
    simp [compiledAs]
  · simp [noClause_name, noClause_body]

end EntityGraph.Sql.Grammar

namespace EntityGraph.Insert

open Sql Sql.Grammar

/-! ## What a policy promises -/

/-- What a conflict clause does to the stored row if it keeps to the action of its policy. -/
structure HasEffect (d : Dialect) (i : Insert) (action : ConflictAction)
    (clause : ConflictReading) : Prop where
  /-- The stored row stays as it is, unless it is to take the proposed values. -/
  kept : action ≠ .updateNewValues →
    ∀ stored proposed, clause.after (nameParts i.table) stored proposed = stored
  /-- The written columns take the proposed values. -/
  taken : action = .updateNewValues → ∀ stored proposed, ∀ c ∈ i.columns,
    clause.after (nameParts i.table) stored proposed (bare (nameParts i.table) (nameParts c)) =
      proposed (bare (nameParts i.table) (nameParts c))
  /-- The other columns keep the stored values. -/
  others : action = .updateNewValues → ∀ stored proposed name,
    (∀ c ∈ i.columns, bare (nameParts i.table) (nameParts c) ≠ name) →
      clause.after (nameParts i.table) stored proposed name = stored name
  /-- A written column is assigned once where the stored row is touched. -/
  once : action ≠ .doNothing → ∀ c ∈ i.columns,
    (clause.sets.map SetItem.target).count (nameParts c) = 1
  /-- MySQL reports an ID that is not written in the end. -/
  reports : d = .mysql → ∀ id, i.reportedId = some id → id ∉ i.columns →
    clause.sets.getLast? = some ⟨nameParts id, .lastId (nameParts i.table ++ nameParts id)⟩

variable {d : Dialect} {i : Insert} {policy : ConflictPolicy}

theorem reporting_value {a : ConflictAssignment} (ha : a ∈ i.reporting d) :
    a.value = .reported ∧ a.column ∉ i.columns := by
  unfold reporting at ha
  split at ha
  · split at ha
    case isTrue => cases ha
    case isFalse hwritten =>
      obtain rfl := List.mem_singleton.mp ha
      exact ⟨rfl, by simpa using hwritten⟩
  · cases ha

/-- Columns are assigned once if their assignments are kept. -/
theorem count_touched (hnodup : i.columns.Nodup) (action : ConflictAction) {c : String}
    (hc : c ∈ i.columns) :
    (((i.touched d action).map (setItem i.table)).map SetItem.target).count (nameParts c) =
      if i.keepsColumn d c then 1 else 0 := by
  have htargets : ((i.touched d action).map (setItem i.table)).map SetItem.target =
      (i.columns.filter (i.keepsColumn d)).map nameParts ++
        (i.reporting d).map fun a => nameParts a.column := by
    simp [touched, setItem, Function.comp_def]
  have hreporting : ((i.reporting d).map fun a => nameParts a.column).count (nameParts c) = 0 := by
    refine List.count_eq_zero.mpr fun hmem => ?_
    obtain ⟨a, ha, hsame⟩ := List.mem_map.mp hmem
    obtain rfl := nameParts_injective hsame
    exact (reporting_value ha).2 hc
  have hkept : ((i.columns.filter (i.keepsColumn d)).map nameParts).Nodup :=
    List.Nodup.map nameParts_injective (hnodup.filter _)
  rw [htargets, List.count_append, hreporting, Nat.add_zero, hkept.count]
  simp [List.mem_map_of_injective nameParts_injective, hc]

/-! ## A stored row that is touched -/

section Touched

variable {clause : ConflictClause} (hpolicy : i.policy = some policy) (hcolumns : i.columns ≠ [])
  (haction : policy.action ≠ .doNothing) (h : compiledClause d i = .ok (some clause))
include hpolicy hcolumns haction h

/-- The clause of a policy that touches the stored row, as it is read. -/
theorem clauseReading_touched :
    clauseReading i.table clause =
      if d = .mysql then .duplicate ((i.touched d policy.action).map (setItem i.table))
      else .update (policy.columns.map nameParts)
        ((i.touched d policy.action).map (setItem i.table)) := by
  by_cases hd : d = .mysql
  · subst hd
    unfold compiledClause at h
    simp only [hpolicy, duplicateClause_eq hcolumns, reportAssignments_touched haction] at h
    obtain rfl := Option.some.inj (Except.ok.inj h)
    rfl
  · have hclause : i.conflictClause policy = .ok clause := by
      unfold compiledClause at h
      rw [hpolicy] at h
      cases d with
      | mysql => exact absurd rfl hd
      | postgres | sqlite =>
        obtain ⟨compiled, hcompiled, hsome⟩ := bind_eq_ok.mp h
        obtain rfl := Option.some.inj (Except.ok.inj hsome)
        exact hcompiled
    rw [if_neg hd, touched_eq hd]
    unfold conflictClause at hclause
    simp only [List.isEmpty_iff, hcolumns, if_false] at hclause
    split at hclause
    case h_1 hnothing => exact absurd hnothing haction
    all_goals
      rename_i hsame
      split at hclause
      case isTrue => cases hclause
      case isFalse =>
        obtain rfl := Except.ok.inj hclause
        rw [hsame]
        rfl

theorem sets_touched : (clauseReading i.table clause).sets =
    (i.touched d policy.action).map (setItem i.table) := by
  rw [clauseReading_touched hpolicy hcolumns haction h]
  split <;> rfl

/-- The assignments are about the stored row or, on MySQL, about the row that is changed. -/
theorem after_touched (stored proposed : NamedRow) : ∃ source : NamedRow → NamedRow,
    source stored = stored ∧ (i.reporting d = [] ∨ ∀ row, source row = row) ∧
      (clauseReading i.table clause).after (nameParts i.table) stored proposed =
        ((i.touched d policy.action).map (setItem i.table)).foldl
          (fun row s => s.apply (nameParts i.table) (source row) proposed row) stored := by
  rw [clauseReading_touched hpolicy hcolumns haction h]
  by_cases hd : d = .mysql
  · exact ⟨id, rfl, .inr fun _ => rfl, by rw [if_pos hd]; rfl⟩
  · refine ⟨fun _ => stored, rfl, .inl ?_, by rw [if_neg hd]; rfl⟩
    cases d with
    | mysql => exact absurd rfl hd
    | postgres | sqlite => rfl

/-- Where the stored row is to take the proposed values, it takes them in the columns whose
assignments are kept. -/
theorem after_taken (hupdate : policy.action = .updateNewValues) (stored proposed : NamedRow)
    (name : List String) :
    (clauseReading i.table clause).after (nameParts i.table) stored proposed name =
      if name ∈ (i.columns.filter (i.keepsColumn d)).map fun c =>
        bare (nameParts i.table) (nameParts c)
      then proposed name else stored name := by
  obtain ⟨source, -, hsource, hafter⟩ :=
    after_touched hpolicy hcolumns haction h stored proposed
  have hproposed := @foldl_proposed i.table proposed source
  rw [hafter, touched, hupdate, List.map_append, List.foldl_append, ← hproposed]
  rcases hsource with hnone | hsource
  · rw [hnone]
    rfl
  · refine congrFun (foldl_stored (hsource _) fun a ha => ?_) name
    rw [(reporting_value ha).1]
    decide

/-- Where the stored row is to be kept, it is. -/
theorem after_kept (hignore : policy.action = .ignore) (stored proposed : NamedRow) :
    (clauseReading i.table clause).after (nameParts i.table) stored proposed = stored := by
  obtain ⟨source, hsource, -, hafter⟩ := after_touched hpolicy hcolumns haction h stored proposed
  rw [hafter]
  refine foldl_stored hsource fun a ha => ?_
  rcases List.mem_append.mp ha with ha | ha
  · obtain ⟨c, -, rfl⟩ := List.mem_map.mp ha
    simp [hignore, touchedValue]
  · rw [(reporting_value ha).1]
    decide

theorem hasEffect_touched_iff (hnodup : i.columns.Nodup) :
    HasEffect d i policy.action (clauseReading i.table clause) ↔
      ∀ c ∈ i.columns, i.keepsColumn d c = true := by
  have hsets := sets_touched hpolicy hcolumns haction h
  constructor
  · intro heffect c hc
    have honce := heffect.once haction c hc
    rw [hsets, count_touched hnodup policy.action hc] at honce
    by_contra hkept
    rw [if_neg hkept] at honce
    exact absurd honce (by decide)
  · intro hkept
    have hall : i.columns.filter (i.keepsColumn d) = i.columns := List.filter_eq_self.mpr hkept
    refine ⟨fun hupdate stored proposed => ?_, fun hupdate stored proposed c hc => ?_,
      fun hupdate stored proposed name hname => ?_, fun _ c hc => ?_, fun hd id hid hwritten => ?_⟩
    · have hignore : policy.action = .ignore := by
        cases hsame : policy.action with
        | doNothing => exact absurd hsame haction
        | ignore => rfl
        | updateNewValues => exact absurd hsame hupdate
      exact after_kept hpolicy hcolumns haction h hignore stored proposed
    · rw [after_taken hpolicy hcolumns haction h hupdate, hall,
        if_pos (List.mem_map_of_mem (f := fun c => bare (nameParts i.table) (nameParts c)) hc)]
    · rw [after_taken hpolicy hcolumns haction h hupdate, hall, if_neg]
      intro hmem
      obtain ⟨c, hc, hsame⟩ := List.mem_map.mp hmem
      exact hname c hc hsame
    · rw [hsets, count_touched hnodup policy.action hc, if_pos (hkept c hc)]
    · subst hd
      have hreporting : i.reporting .mysql = [⟨id, .reported⟩] := by
        simp [reporting, hid, hwritten]
      rw [hsets, touched, hreporting]
      simp [setItem, nameParts_qualified]

end Touched

/-! ## A stored row that is left alone -/

/-- The assignments of a clause that does nothing on MySQL are of stored values. -/
theorem reportAssignments_doNothing {a : ConflictAssignment}
    (ha : a ∈ i.reportAssignments .doNothing (i.duplicateAssignments .doNothing)) :
    a.value ≠ .proposed := by
  have hitself : ∀ a ∈ i.duplicateAssignments .doNothing, a.value ≠ .proposed := by
    unfold duplicateAssignments
    intro a ha
    cases hcolumns : i.columns with
    | nil => simp [hcolumns] at ha
    | cons c _ =>
      obtain rfl : a = ⟨c, .itself⟩ := by simpa [hcolumns] using ha
      simp
  unfold reportAssignments at ha
  cases hid : i.reportedId with
  | none =>
    rw [hid] at ha
    exact hitself a ha
  | some id =>
    simp only [hid, decide_true, Bool.or_true, if_true, List.mem_append, List.mem_filter,
      List.mem_singleton] at ha
    rcases ha with ⟨ha, -⟩ | rfl
    · exact hitself a ha
    · simp

/-- A policy that does nothing leaves the stored row alone on every dialect. -/
theorem hasEffect_doNothing {clause : ConflictClause} (hpolicy : i.policy = some policy)
    (hcolumns : i.columns ≠ []) (haction : policy.action = .doNothing)
    (h : compiledClause d i = .ok (some clause)) :
    HasEffect d i policy.action (clauseReading i.table clause) := by
  have hupdate : ¬policy.action = .updateNewValues := by simp [haction]
  suffices hclause : (∀ stored proposed, (clauseReading i.table clause).after (nameParts i.table)
      stored proposed = stored) ∧ (d = .mysql → ∀ id, i.reportedId = some id → id ∉ i.columns →
        (clauseReading i.table clause).sets.getLast? =
          some ⟨nameParts id, .lastId (nameParts i.table ++ nameParts id)⟩) from
    ⟨fun _ => hclause.1, fun h => absurd h hupdate, fun h => absurd h hupdate,
      fun h => absurd haction h, hclause.2⟩
  by_cases hd : d = .mysql
  · subst hd
    unfold compiledClause at h
    simp only [hpolicy, duplicateClause_eq hcolumns, haction] at h
    obtain rfl := Option.some.inj (Except.ok.inj h)
    refine ⟨fun stored proposed => ?_, fun _ id hid hwritten => ?_⟩
    · exact @foldl_stored _ _ id _ _ rfl fun a ha => reportAssignments_doNothing ha
    · simp [clauseReading, ConflictReading.sets, reportAssignments, hid, setItem,
        nameParts_qualified]
  · refine ⟨fun stored proposed => ?_, fun h => absurd h hd⟩
    unfold compiledClause at h
    rw [hpolicy] at h
    have hclause : i.conflictClause policy = .ok (.doNothing policy.columns) := by
      simp [conflictClause, haction]
    cases d with
    | mysql => exact absurd rfl hd
    | postgres | sqlite =>
      simp only [hclause] at h
      obtain rfl := Option.some.inj (Except.ok.inj h)
      rfl

/-! ## The theorem -/

/-- The conflict clause of a compiled INSERT is read from its text in one way, and it does to the
stored row what the policy says, unless the row is touched on MySQL and the assignment of a column
is dropped since its text begins with a reported ID that is not written. -/
theorem sameEffect_iff (d : Dialect) (i : Insert) (policy : ConflictPolicy)
    (statement : InsertStatement) (hpolicy : i.policy = some policy) (hcolumns : i.columns ≠ [])
    (hnodup : i.columns.Nodup) (h : i.compile d = .ok statement) :
    ∃ clause, ReadsClause d (statement.statement d) clause ∧
      (∀ other, ReadsClause d (statement.statement d) other → other = clause) ∧
      (HasEffect d i policy.action clause ↔
        policy.action = .doNothing ∨ ∀ c ∈ i.columns, i.keepsColumn d c = true) := by
  obtain ⟨-, conflict, hconflict, hstatement⟩ := compile_eq_ok.mp h
  cases conflict with
  | none =>
    have hnone := (compiledClause_ne_none hconflict).mpr (by simp [hpolicy])
    exact absurd rfl hnone
  | some clause =>
    have hclause : statement.conflict = some clause := by rw [hstatement]; rfl
    have hreads := readsClause_compiled h hclause
    refine ⟨_, hreads, fun other => readsClause_unique hreads, ?_⟩
    by_cases haction : policy.action = .doNothing
    · simp only [haction, true_or, iff_true]
      exact haction ▸ hasEffect_doNothing hpolicy hcolumns haction hconflict
    · rw [hasEffect_touched_iff hpolicy hcolumns haction hconflict hnodup]
      simp [haction]

/-- An upsert of one column of a user, where MySQL is to report the ID. -/
def userUpsert (column : String) : Insert :=
  after "users" [.set column (.string "a8m"), .onConflict ⟨["email"], .updateNewValues⟩,
    .reportConflictId "id"]

/-- An upsert of a user's name on MySQL has the effect of its policy. -/
theorem sameEffect_iff_name :
    ∃ statement clause, (userUpsert "name").compile .mysql = .ok statement ∧
      ReadsClause .mysql (statement.statement .mysql) clause ∧
      HasEffect .mysql (userUpsert "name") .updateNewValues clause := by
  have hcompiled : (userUpsert "name").compile .mysql = .ok ⟨"users", ["name"],
      [[.string "a8m"]], some (.onDuplicateKey [⟨"name", .proposed⟩, ⟨"id", .reported⟩]), []⟩ :=
    rfl
  obtain ⟨clause, hreads, -, heffect⟩ := sameEffect_iff .mysql (userUpsert "name")
    ⟨["email"], .updateNewValues⟩ _ rfl (List.cons_ne_nil _ _) (by decide) hcompiled
  exact ⟨_, clause, hcompiled, hreads, heffect.mpr (.inr (by decide))⟩

/-- On MySQL a column that begins with the reported ID and a quote is not assigned, and the stored
row does not take its proposed value. -/
theorem quoted_column_dropped :
    ∃ statement clause, (userUpsert "id\x60old").compile .mysql = .ok statement ∧
      (statement.statement .mysql).sql = "INSERT INTO \x60users\x60 (\x60id\x60\x60old\x60) " ++
        "VALUES (?) ON DUPLICATE KEY UPDATE \x60id\x60 = LAST_INSERT_ID(\x60users\x60.\x60id\x60)" ∧
      ReadsClause .mysql (statement.statement .mysql) clause ∧
      clause.sets = [⟨["id"], .lastId ["users", "id"]⟩] ∧
      ∃ stored proposed, clause.after (nameParts "users") stored proposed ["id\x60old"] ≠
        proposed ["id\x60old"] := by
  have hcompiled : (userUpsert "id\x60old").compile .mysql = .ok ⟨"users", ["id\x60old"],
      [[.string "a8m"]], some (.onDuplicateKey [⟨"id", .reported⟩]), []⟩ := rfl
  have hdropped : (userUpsert "id\x60old").columns.filter
      ((userUpsert "id\x60old").keepsColumn .mysql) = [] := by decide
  have hafter := @after_taken .mysql (userUpsert "id\x60old") ⟨["email"], .updateNewValues⟩
    (.onDuplicateKey [⟨"id", .reported⟩]) rfl (List.cons_ne_nil _ _) (by decide) rfl rfl
    (fun _ => .null) (fun _ => .string "a8m") ["id\x60old"]
  rw [hdropped, List.map_nil, if_neg List.not_mem_nil] at hafter
  refine ⟨_, _, hcompiled, rfl, readsClause_compiled hcompiled rfl, by decide, fun _ => .null,
    fun _ => .string "a8m", fun hsame => ?_⟩
  exact absurd (hafter.symm.trans hsame) Value.noConfusion

end EntityGraph.Insert
