import EntityGraph.Proofs.Graph.SentStatements
import EntityGraph.Proofs.Relational.LinkColumns

/-!
# The statements of creations and updates

A creation sends the INSERT of its own row, an update the UPDATE of it. Beside these two, and as
long as nothing is cleared, the statements of both only read, add rows to join tables or link free
targets. A property of statements that allows reading and adding rows is therefore a property of all
statements of such an operation if it holds of its own row's statement and of its links. What a
conflict clause proposes to assign is what its policy says.
-/

set_option autoImplicit false

namespace EntityGraph

open Program

variable {P : Command → Prop} {conn : Connection} {d : Dialect}

/-- A property of statements that allows reading, and adding rows that change no stored one. -/
structure Command.AllowsAdding (P : Command → Prop) : Prop where
  select : ∀ s, P (.select s)
  anyRow : ∀ s, P (.anyRow s)
  insert : ∀ i : InsertStatement, (∀ clause, i.conflict = some clause → clause.IsInert) →
    P (.insert i)

/-! ## Conflict clauses -/

namespace Insert

variable {i : Insert} {clause : ConflictClause}

/-- The assignment is of a proposed value only if the column is written and the action says so. -/
def Warrants (i : Insert) (action : ConflictAction) (a : ConflictAssignment) : Prop :=
  a.value = .proposed → a.column ∈ i.columns ∧ action = .updateNewValues

theorem warrants_of_map {action : ConflictAction} {w : AssignedValue}
    (hw : w = .proposed → action = .updateNewValues) :
    ∀ a ∈ i.columns.map (ConflictAssignment.mk · w), i.Warrants action a := by
  rintro a ha hvalue
  obtain ⟨c, hc, rfl⟩ := List.mem_map.mp ha
  exact ⟨hc, hw hvalue⟩

theorem warrants_of_conflictClause {policy : ConflictPolicy}
    (h : i.conflictClause policy = .ok clause) :
    ∀ a ∈ clause.assignments, i.Warrants policy.action a := by
  unfold conflictClause at h
  dsimp only at h
  split at h
  case h_1 =>
    obtain rfl := Except.ok.inj h
    exact nofun
  case h_2 =>
    split at h
    case isTrue => cases h
    case isFalse =>
      obtain rfl := Except.ok.inj h
      exact warrants_of_map nofun
  case h_3 haction =>
    split at h
    case isTrue => cases h
    case isFalse =>
      obtain rfl := Except.ok.inj h
      refine warrants_of_map fun _ => ?_
      split at haction
      case isTrue => cases haction
      case isFalse => exact haction

theorem warrants_of_duplicateAssignments {action : ConflictAction} :
    ∀ a ∈ i.duplicateAssignments action, i.Warrants action a := by
  cases action with
  | doNothing =>
    unfold duplicateAssignments
    rintro a ha hvalue
    cases hcolumns : i.columns <;> simp_all
  | ignore => exact warrants_of_map nofun
  | updateNewValues => exact warrants_of_map fun _ => rfl

/-- The ID of a conflicting row is reported, and not written. -/
theorem warrants_of_duplicateClause {policy : ConflictPolicy}
    (h : i.duplicateClause policy = .ok clause) :
    ∀ a ∈ clause.assignments, i.Warrants policy.action a := by
  have hreport : ∀ a ∈ i.reportAssignments policy.action
      (i.duplicateAssignments policy.action), i.Warrants policy.action a := by
    intro a ha
    unfold reportAssignments at ha
    split at ha
    case h_1 => exact warrants_of_duplicateAssignments a ha
    case h_2 id _ =>
      split at ha
      case isFalse => exact warrants_of_duplicateAssignments a ha
      case isTrue =>
        rcases List.mem_append.mp ha with ha | ha
        · exact warrants_of_duplicateAssignments a (List.mem_of_mem_filter ha)
        · rw [List.mem_singleton.mp ha]
          rintro ⟨⟩
  unfold duplicateClause at h
  split at h
  case h_1 =>
    split at h
    case h_1 =>
      obtain rfl := Except.ok.inj h
      intro a ha
      rw [List.mem_singleton.mp ha]
      rintro ⟨⟩
    case h_2 => cases h
  case h_2 =>
    obtain rfl := Except.ok.inj h
    exact hreport

/-- A conflict clause sets only columns of its INSERT to proposed values, and only if its policy
asks for that. -/
theorem warrants_of_compiledClause (h : Sql.compiledClause d i = .ok (some clause)) :
    ∃ policy, i.policy = some policy ∧
      ∀ a ∈ clause.assignments, i.Warrants policy.action a := by
  unfold Sql.compiledClause at h
  split at h
  case h_1 => cases h
  all_goals
    obtain ⟨compiled, hcompiled, hsome⟩ := bind_eq_ok.mp h
    obtain rfl : compiled = clause := Option.some.inj (Except.ok.inj hsome)
  case h_2 policy hpolicy => exact ⟨policy, hpolicy, warrants_of_duplicateClause hcompiled⟩
  case h_3 policy hpolicy => exact ⟨policy, hpolicy, warrants_of_conflictClause hcompiled⟩
  case h_4 policy hpolicy => exact ⟨policy, hpolicy, warrants_of_conflictClause hcompiled⟩

end Insert

/-! ## Parts of an operation -/

/-- Edges of many to many are added as rows that change no stored one. -/
theorem JoinTable.inert_of_insertOf {table : String} {links : List (List Value × Edge)} {i : Insert}
    {statement : InsertStatement} (hinsert : insertOf table links = .ok i) (hne : links ≠ [])
    (hcompile : i.compile d = .ok statement) {clause : ConflictClause}
    (hclause : statement.conflict = some clause) :
    i.policy = some ⟨[], .doNothing⟩ ∧ clause.IsInert := by
  obtain ⟨first, -, rowss, -, hi⟩ := insertOf_eq_ok hinsert hne
  have hpolicy : i.policy = none ∨ i.policy = some ⟨[], .doNothing⟩ := by
    rw [hi]
    dsimp only
    split <;> simp
  have hreported : i.reportedId = none := by
    rw [hi]
    rfl
  exact inert_of_compile hcompile hpolicy hreported hclause

/-- The statements about edges, where none is cleared. -/
theorem EdgeChanges.MaySend.allowed {edges : List Edge} {s : Command}
    (h : EdgeChanges.MaySend d ⟨edges, []⟩ s) (hP : Command.AllowsAdding P)
    (hlink : ∀ e ∈ edges, e.isForeignKeyEdge = true → ∀ id fk, e.columns = [fk] →
      P (.update (ForeignKey.linking id fk e))) : P s := by
  cases h with
  | ask s => exact hP.anyRow s
  | addPairs hlinks hinsert _ hcompile =>
    exact hP.insert _ fun clause hclause =>
      (JoinTable.inert_of_insertOf hinsert hlinks hcompile hclause).2
  | clearPairs _ hne hmem _ => exact absurd (List.subset_nil.mp hmem) hne
  | link id hmem hstored _ hcolumn => exact hlink _ hmem hstored id _ hcolumn
  | clearLinks _ hmem _ => cases hmem

namespace NodeCreation

variable {c : NodeCreation}

/-- The statements of a creation. -/
theorem issues_run (hP : Command.AllowsAdding P)
    (hinsert : ∀ supplied i, c.insertion d supplied = .ok i → ∀ statement : InsertStatement,
      statement.table = i.table → Sql.compiledClause d i = .ok statement.conflict →
        P (.insert statement))
    (hlink : ∀ e ∈ c.edges, e.isForeignKeyEdge = true → ∀ id fk, e.columns = [fk] →
      P (.update (ForeignKey.linking id fk e))) : (c.run d).Issues P := by
  refine issues_lift_bind fun _ _ => issues_connection fun inside => issues_write.mono fun s h => ?_
  cases h with
  | edges h => exact h.allowed hP hlink
  | row _ hinsertion hcompile =>
    obtain ⟨-, conflict, hconflict, rfl⟩ := Sql.compile_eq_ok.mp hcompile
    exact hinsert _ _ hinsertion _ rfl hconflict

end NodeCreation

namespace NodeUpdate

variable {u : NodeUpdate}

/-- The statements of an update of one node that clears no edges. -/
theorem issues_runOne (hP : Command.AllowsAdding P) (hclear : u.edges.clear = [])
    (hown : ∀ id own, u.ownUpdate = .ok own →
      P (.update ((own.filter (.eq u.node.id.column id)).filterOpt u.predicate)))
    (hlink : ∀ e ∈ u.edges.add, e.isForeignKeyEdge = true → ∀ id fk, e.columns = [fk] →
      P (.update (ForeignKey.linking id fk e))) : (u.runOne d).Issues P := by
  refine issues_lift_bind fun id _ => issues_ite (fun _ => issues_fail _) fun _ => ?_
  refine issues_lift_bind fun _ _ => issues_connection fun inside => ?_
  refine issues_writeOne.mono fun s h => ?_
  have hchanges : u.edges = ⟨u.edges.add, []⟩ := by
    rw [← hclear]
  cases h with
  | edges h =>
    rw [hchanges] at h
    exact h.allowed hP hlink
  | read s => exact hP.select s
  | namedRow id hcolumns _ => exact hown id _ hcolumns

end NodeUpdate

end EntityGraph
