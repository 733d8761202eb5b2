import EntityGraph.Proofs.Graph.IssuedStatements

/-!
# Upserts and the IDs of stored rows

A row that a new one conflicts with keeps its ID, so that whatever refers to it still does: no
conflict clause assigns anything but its own stored value to the ID column. The exception is asked
for: under a policy that overwrites stored rows with the proposed values an INSERT that writes the
ID column overwrites the ID as well.
-/

set_option autoImplicit false

namespace EntityGraph

open Program

variable {E : Engine} {S : Schema} {d : Dialect}

/-! ## Stored rows -/

namespace InsertStatement

variable {i : InsertStatement} {x : Tuple} {rows rows' reported : List Tuple}
  {values : List (List Value)} {o : Option Tuple} {k : String}

/-- Every row is still there, with the same value in a column. -/
def Keeps (k : String) (rows rows' : List Tuple) : Prop := ∀ r ∈ rows, ∃ r' ∈ rows', r' k = r k

/-- A row is stored without changing a column of the others if no conflict clause does. -/
theorem StoresRow.keeps_column (hkept : ∀ clause, i.conflict = some clause →
      ∀ stored proposed r, clause.resolve stored proposed = some r → r k = stored k)
    (h : i.StoresRow E S x rows rows' o) : Keeps k rows rows' := by
  cases h with
  | added _ perm => exact fun r hr => ⟨r, perm.mem_iff.mpr (List.mem_cons_of_mem x hr), rfl⟩
  | skipped => exact fun r hr => ⟨r, hr, rfl⟩
  | @changed before after key stored r' clause _ _ conflict _ resolve =>
    intro r hr
    rcases List.mem_append.mp hr with hr | hr
    · exact ⟨r, List.mem_append_left _ hr, rfl⟩
    · rcases List.mem_cons.mp hr with rfl | hr
      · exact ⟨r', List.mem_append_right _ List.mem_cons_self, hkept clause conflict _ _ _ resolve⟩
      · exact ⟨r, List.mem_append_right _ (List.mem_cons_of_mem _ hr), rfl⟩

theorem StoresRows.keeps_column (hkept : ∀ clause, i.conflict = some clause →
      ∀ stored proposed r, clause.resolve stored proposed = some r → r k = stored k)
    (h : i.StoresRows E S values rows rows' reported) : Keeps k rows rows' := by
  induction h with
  | nil => exact fun r hr => ⟨r, hr, rfl⟩
  | cons _ stores _ ih =>
    intro r hr
    obtain ⟨mid, hmid, hsame⟩ := stores.keeps_column hkept r hr
    obtain ⟨r', hr', hsame'⟩ := ih mid hmid
    exact ⟨r', hr', hsame'.trans hsame⟩

end InsertStatement

/-! ## Conflict clauses that are sent -/

namespace Mutation

/-- The nodes that a mutation creates, each under the policy in force: that of the batch, or its
own if the batch has none. -/
def creations : Mutation → List NodeCreation
  | .createNode c => [c]
  | .batchCreate b => b.nodes.map fun c => b.linked c c.edges
  | _ => []

/-- The policy that an INSERT has been compiled under is that of a node, and overwrites stored rows
with the proposed values. -/
def Overwrites (d : Dialect) (m : Mutation) (i : InsertStatement) : Prop :=
  ∃ c ∈ m.creations, ∃ policy, c.policy = some policy ∧ policy.action = .updateNewValues ∧
    ∃ j : Insert, j.policy = some policy ∧ j.compile d = .ok i

/-- A conflict clause proposes what its INSERT writes, and only where that is asked for. -/
def Asks (d : Dialect) (m : Mutation) (i : InsertStatement) : Prop :=
  ∀ clause, i.conflict = some clause → ∀ a ∈ clause.assignments, a.value = .proposed →
    a.column ∈ i.columns ∧ m.Overwrites d i

variable {m : Mutation} {i : InsertStatement}

/-- An INSERT asks for what its policy does. -/
theorem asks_of_compile {j : Insert} (hcompile : j.compile d = .ok i)
    (hpolicy : ∀ policy, j.policy = some policy → policy.action = .updateNewValues →
      ∀ column ∈ j.columns, ∃ c ∈ m.creations, c.policy = some policy) : m.Asks d i := by
  obtain ⟨-, conflict, hconflict, rfl⟩ := Sql.compile_eq_ok.mp hcompile
  intro clause hclause a ha hvalue
  obtain rfl : conflict = some clause := hclause
  obtain ⟨policy, hsome, hwarrants⟩ := Insert.warrants_of_compiledClause hconflict
  obtain ⟨hmem, haction⟩ := hwarrants a ha hvalue
  obtain ⟨c, hc, hforce⟩ := hpolicy policy hsome haction _ hmem
  exact ⟨hmem, c, hc, policy, hforce, haction, j, hsome, hcompile⟩

theorem asks_of_edges {changes : EdgeChanges} (h : changes.MaySend d (.insert i)) : m.Asks d i := by
  cases h with
  | addPairs hlinks hinsert _ hcompile =>
    refine asks_of_compile hcompile fun policy hpolicy haction => ?_
    obtain ⟨first, -, rowss, -, hi⟩ := JoinTable.insertOf_eq_ok hinsert hlinks
    rw [hi] at hpolicy
    dsimp only at hpolicy
    split at hpolicy
    case isTrue =>
      obtain rfl := Option.some.inj hpolicy
      cases haction
    case isFalse => cases hpolicy

theorem asks_of_creation {c : NodeCreation} (h : c.MaySend d (.insert i))
    (hc : ∀ policy, c.policy = some policy →
      (c.LeavesId → c.node.ownColumns c.fields c.edges ≠ .ok []) →
        ∃ c ∈ m.creations, c.policy = some policy) : m.Asks d i := by
  cases h with
  | edges h => exact asks_of_edges h
  | @row _ j _ _ hsupplies hinsertion hcompile =>
    obtain ⟨own, hown, -, hcolumns, -, hpolicy⟩ := NodeCreation.insertion_ok hinsertion
    refine asks_of_compile hcompile fun policy hsome _ column hcolumn => ?_
    refine hc policy (hpolicy.symm.trans hsome) fun hleaves hnone => ?_
    -- a node without columns has none in its INSERT
    obtain rfl : own = [] := Except.ok.inj (hown.symm.trans hnone)
    have hwritten : column ∈ j.columns := hcolumn
    rw [hcolumns, hsupplies hleaves] at hwritten
    cases hwritten

/-- Every INSERT of a mutation asks for no more than its policies do. -/
theorem MaySend.asks (h : m.MaySend d (.insert i)) : m.Asks d i := by
  cases m with
  | createNode c =>
    exact asks_of_creation h fun policy hpolicy _ => ⟨c, List.mem_singleton_self c, hpolicy⟩
  | batchCreate b =>
    have hforce : ∀ {c policy}, c ∈ b.nodes → b.policy.or c.policy = some policy →
        ∃ c ∈ (batchCreate b).creations, c.policy = some policy :=
      fun {c policy} hc hpolicy => ⟨_, List.mem_map_of_mem hc, hpolicy⟩
    cases h with
    | edges h => exact asks_of_edges h
    | chained hc h => exact asks_of_creation h fun policy hpolicy _ => hforce hc hpolicy
    | single _ hleaves hnone h =>
      exact asks_of_creation h fun _ _ hcolumns => absurd hnone (hcolumns hleaves)
    | rows hfirst _ _ hcompile =>
      exact asks_of_compile hcompile fun policy hpolicy _ _ _ =>
        hforce (List.mem_of_mem_head? hfirst) hpolicy
  | updateNode u | updateNodes u =>
    cases h with
    | edges h => exact asks_of_edges h
  | deleteNode x =>
    obtain ⟨id, hid⟩ := h
    cases hid
  | deleteNodes x => cases h

end Mutation

/-- An upsert keeps the IDs of stored rows. A conflict clause that a creation or a batch sends
assigns the ID column of its nodes nothing but its own stored value, and no stored row gets another
ID, unless the INSERT writes the ID column under a policy that overwrites stored rows. -/
theorem upsert_keeps_ids {m : Mutation} {log : List Exchange} {result : Except Error m.Result}
    (hrun : (m.program d).Run log result) {x : Exchange} (hx : x ∈ log) {i : InsertStatement}
    (hsent : x.call.statement? = some (.insert i)) :
    ∀ c ∈ m.creations,
      (m.Overwrites d i → ∀ column ∈ i.columns, columnName column ≠ columnName c.node.id.column) →
      (∀ clause, i.conflict = some clause → ∀ a ∈ clause.assignments,
        columnName a.column = columnName c.node.id.column → a.value ≠ .proposed) ∧
      ∀ (E : Engine) (S : Schema) (db db' : Database) (reported : List Tuple),
        i.Inserts E S db db' reported → ∀ r ∈ (db (nameParts i.table)).rows,
          ∃ r' ∈ (db' (nameParts i.table)).rows,
            r' (columnName c.node.id.column) = r (columnName c.node.id.column) := by
  intro c _ hkept
  have hasks : m.Asks d i := ((Mutation.issues d m).onlySends hrun x hx _ hsent).asks
  have hstored : ∀ clause, i.conflict = some clause → ∀ a ∈ clause.assignments,
      a.value = .proposed → columnName a.column ≠ columnName c.node.id.column := by
    intro clause hclause a ha hvalue
    obtain ⟨hmem, hoverwrites⟩ := hasks clause hclause a ha hvalue
    exact hkept hoverwrites _ hmem
  refine ⟨fun clause hclause a ha hname hvalue => hstored clause hclause a ha hvalue hname, ?_⟩
  intro E S db db' reported hinserts
  exact hinserts.stored.keeps_column fun clause hclause stored proposed r hr =>
    ConflictClause.resolve_of_ne (hstored clause hclause) hr

/-- A user who comes with an ID and an email, under a policy for conflicts of the email. -/
def member (action : ConflictAction) : NodeCreation :=
  { NodeCreation.ofNode (.ofTable "users" ⟨"id", .int, .int 7⟩) with
    fields := [⟨"email", .string, .string "ann"⟩]
    policy := some ⟨["email"], action⟩ }

/-- The INSERT of that user, which assigns so in conflicts. -/
def memberInsert (value : AssignedValue) : InsertStatement :=
  { table := "users", columns := ["id", "email"], rows := [[.int 7, .string "ann"]]
    conflict := some (.doUpdate ["email"] [⟨"id", value⟩, ⟨"email", value⟩]), returning := ["id"] }

/-- A run that creates the user, or finds one with that email. -/
def memberRun (value : AssignedValue) (id : Int64) : List Exchange :=
  [⟨.query false (.insert (memberInsert value)), true,
      (.done ⟨["id"], [[.int id]]⟩ : Outcome Rows)⟩,
    ⟨.revise 0 (.id (.int id)), true, ()⟩]

theorem member_kept_run :
    ((Mutation.createNode (member .ignore)).program .sqlite).Run (memberRun .stored 1)
      (.ok (.int 1)) := by
  apply Run.call
  apply Run.call
  exact .done _

theorem upsert_keeps_ids_member :
    ((Mutation.createNode (member .ignore)).program .sqlite).Run (memberRun .stored 1)
        (.ok (.int 1)) ∧
      (∀ a ∈ [⟨"id", .stored⟩, (⟨"email", .stored⟩ : ConflictAssignment)],
        columnName a.column = columnName "id" → a.value ≠ .proposed) ∧
      ∀ (E : Engine) (S : Schema) (db db' : Database) (reported : List Tuple),
        (memberInsert .stored).Inserts E S db db' reported → ∀ r ∈ (db (nameParts "users")).rows,
          ∃ r' ∈ (db' (nameParts "users")).rows, r' (columnName "id") = r (columnName "id") := by
  have hkeeps : ¬(Mutation.createNode (member .ignore)).Overwrites .sqlite
      (memberInsert .stored) := by
    rintro ⟨c, hc, policy, hpolicy, haction, -⟩
    obtain rfl := List.mem_singleton.mp hc
    obtain rfl := Option.some.inj hpolicy
    cases haction
  obtain ⟨hclause, hrows⟩ := upsert_keeps_ids member_kept_run List.mem_cons_self rfl
    (member .ignore) (List.mem_singleton_self _) fun h => absurd h hkeeps
  exact ⟨member_kept_run, hclause _ rfl, hrows⟩

theorem member_overwritten_run :
    ((Mutation.createNode (member .updateNewValues)).program .sqlite).Run (memberRun .proposed 7)
      (.ok (.int 7)) := by
  apply Run.call
  apply Run.call
  exact .done _

/-- Under a policy that overwrites stored rows the ID that a user comes with is assigned to the row
with the same email, which has been that of user 1. -/
theorem upsert_overwrites_id :
    ((Mutation.createNode (member .updateNewValues)).program .sqlite).Run (memberRun .proposed 7)
        (.ok (.int 7)) ∧
      ∃ x ∈ memberRun .proposed 7, ∃ i clause, x.call.statement? = some (.insert i) ∧
        i.conflict = some clause ∧ ⟨"id", .proposed⟩ ∈ clause.assignments ∧
          ∀ stored proposed : Tuple, stored "id" = .int 1 → proposed "id" = .int 7 →
            ∃ r, clause.resolve stored proposed = some r ∧ r "id" = .int 7 := by
  refine ⟨member_overwritten_run, _, List.mem_cons_self, memberInsert .proposed, _, rfl, rfl,
    List.mem_cons_self, fun stored proposed _ hproposed => ⟨_, rfl, ?_⟩⟩
  have hid : columnName "id" = "id" := by decide
  have hemail : columnName "email" = "email" := by decide
  simp [ConflictClause.assigned, AssignedValue.result, Function.update, hid, hemail, hproposed]

end EntityGraph
