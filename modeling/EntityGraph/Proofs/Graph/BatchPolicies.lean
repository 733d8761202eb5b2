import EntityGraph.Proofs.Graph.AttributedIds
import EntityGraph.Proofs.Graph.CreationRounds

/-!
# The conflict policy of a batch

A batch has a conflict policy for all of its nodes, which takes the place of their own. It reaches the
INSERTs of own rows in two of three ways: nodes that are inserted together are inserted under it, and
each node of a batch with references is given it before its turn. Nodes that are inserted one by one
because none of them writes a column are inserted as they are, each under its own policy or under
none.
-/

set_option autoImplicit false

namespace EntityGraph

open Program

variable {d : Dialect} {log : List Exchange}

namespace BatchCreation

/-- What is inserted for own rows of a batch: the row of one node, whose references may be resolved,
or the rows of all nodes. -/
inductive Describes (d : Dialect) (b : BatchCreation) : Insert → Prop
  | single {c : NodeCreation} {edges : List Edge} {policy : Option ConflictPolicy}
      {supplied : Option Value} {i : Insert} (returning : List String) (mem : c ∈ b.nodes)
      (insertion : { c with edges, policy }.insertion d supplied = .ok i) :
      Describes d b { i with returning }
  | together {first : NodeCreation} {rows : List OwnRow} (returning : List String)
      (policy : Option ConflictPolicy) (head : b.nodes.head? = some first)
      (own : List.Forall₂ OwnRow.IsOf b.nodes rows) :
      Describes d b { insertOf first.node.table first.node.id.column rows returning with policy }

/-- A round inserts own rows of a batch under a conflict policy. -/
def Carries (d : Dialect) (b : BatchCreation) (policy : Option ConflictPolicy) (r : Round) : Prop :=
  ∃ j i, b.Describes d j ∧ j.policy = policy ∧ j.compile d = .ok i ∧
    r.own.call.statement? = some (.insert i)

variable {b : BatchCreation} {policy : ConflictPolicy} {conn : Connection} {rounds : List Round}

/-- Own rows with columns are those of nodes of which some write one. -/
theorem writesColumn_of_columns {rows : List OwnRow} {idColumn : String}
    (hrows : List.Forall₂ OwnRow.IsSupplied b.nodes rows)
    (h : columnsOf idColumn (rows.filterMap OwnRow.id) rows ≠ []) : b.WritesColumn := by
  obtain ⟨column, hcolumn⟩ := List.exists_mem_of_ne_nil _ h
  rcases mem_columnsOf.mp hcolumn with ⟨hsome, -⟩ | ⟨r, hr, v, hv⟩
  · obtain ⟨id, hid⟩ := List.exists_mem_of_ne_nil _ hsome
    obtain ⟨r, hr, hid⟩ := List.mem_filterMap.mp hid
    obtain ⟨c, hc, hsupplied⟩ := exists_of_forall₂ hrows.flip hr
    refine ⟨c, hc, fun hleaves => ?_⟩
    cases hid.symm.trans (hsupplied.leaves_iff.mpr hleaves)
  · obtain ⟨c, hc, hsupplied⟩ := exists_of_forall₂ hrows.flip hr
    refine ⟨c, hc, fun _ hnone => ?_⟩
    rw [Except.ok.inj (hsupplied.columns.symm.trans hnone)] at hv
    cases hv

/-- A node that has its turn is inserted under the policy of its creation. -/
theorem carries_of_turn {t : Turn} (h : t.Conforms conn) {c : NodeCreation} {edges : List Edge}
    {policy : Option ConflictPolicy} (hc : c ∈ b.nodes)
    (hcreation : t.creation = { c with edges, policy }) :
    b.Carries conn.dialect policy t.round := by
  obtain ⟨i, returning, statement, hinsertion, hcompile, hsends⟩ :=
    NodeCreation.ownCall_eq_ok h.own
  obtain ⟨own, -, -, -, -, hpolicy⟩ := NodeCreation.insertion_ok hinsertion
  refine ⟨_, statement, .single returning hc (hcreation ▸ hinsertion), ?_, hcompile, hsends⟩
  rw [hcreation] at hpolicy
  exact hpolicy

/-- In a chain of references, and where the nodes are inserted together, every round carries the
policy of the batch. -/
theorem Rounds.carries_batch (h : b.Rounds conn log rounds) (hpolicy : b.policy = some policy)
    (hpath : (∃ c ∈ b.nodes, c.dependencies ≠ []) ∨ b.WritesColumn) {r : Round} (hr : r ∈ rounds) :
    b.Carries conn.dialect (some policy) r := by
  cases h with
  | none => cases hr
  | @chained order turns _ _ htakes =>
    obtain ⟨t, ht, rfl⟩ := List.mem_map.mp hr
    obtain ⟨c, hc, hcreation, -⟩ := htakes.resolved t ht
    have hforce : t.creation =
        { c with edges := c.edges.map (Edge.withIds (idsOf turns)), policy := some policy } := by
      rw [hcreation, resolved, hpolicy, Option.some_or]
    exact carries_of_turn (htakes.conforms t ht) (List.mem_of_getElem? hc) hforce
  | singly hdirect hbare =>
    rcases hpath with ⟨c, hc, hrefers⟩ | ⟨c, hc, hwrites⟩
    · exact absurd (hdirect c hc) hrefers
    · obtain ⟨hleaves, hnone⟩ := hbare c hc
      exact absurd hnone (hwrites hleaves)
  | together _ hshares =>
    obtain rfl := List.mem_singleton.mp hr
    obtain ⟨returning, i, hs, hi⟩ := hshares.own
    obtain ⟨checks, -, hrows⟩ := hshares.found
    refine ⟨_, i, .together returning _ hshares.head (ownRows_are_of hrows), ?_, hi, hs⟩
    show b.policy.or _ = _
    rw [hpolicy, Option.some_or]

/-- Where no node writes a column, the rounds are those of the nodes, each under its own policy. -/
theorem Rounds.carries_own (h : b.Rounds conn log rounds)
    (hdirect : ∀ c ∈ b.nodes, c.dependencies = []) (hbare : ¬b.WritesColumn) :
    ∃ creations, creations <+: b.nodes ∧
      List.Forall₂ (fun c r => b.Carries conn.dialect c.policy r) creations rounds := by
  cases h with
  | none => exact ⟨[], List.nil_prefix, .nil⟩
  | chained hrefers =>
    obtain ⟨c, hc, hrefers⟩ := hrefers
    exact absurd (hdirect c hc) hrefers
  | @singly turns _ _ hcreations hconforms =>
    refine ⟨_, hcreations, ?_⟩
    rw [List.forall₂_map_left_iff, List.forall₂_map_right_iff]
    refine List.forall₂_same.mpr fun t ht => ?_
    exact carries_of_turn (hconforms t ht) (hcreations.subset (List.mem_map_of_mem ht)) rfl
  | together _ hshares =>
    obtain ⟨checks, -, hrows⟩ := hshares.found
    exact absurd (writesColumn_of_columns (ownRows_supplied hrows) hshares.some_columns) hbare

/-- The conflict policy of a batch reaches every INSERT of own rows if some node refers to another or
writes a column. Otherwise it reaches none: each node is inserted under its own policy. All else that
is written are edges of the nodes. -/
theorem policy_reaches_rows {result : Except Error (List Value)} (hpolicy : b.policy = some policy)
    (hrun : (b.run d).Run log result) :
    ∃ rounds : List Round, writing log = rounds.flatMap Round.writes ∧
      ((∃ c ∈ b.nodes, c.dependencies ≠ []) ∨ b.WritesColumn →
        ∀ r ∈ rounds, b.Carries d (some policy) r) ∧
      ((∀ c ∈ b.nodes, c.dependencies = []) → ¬b.WritesColumn →
        ∃ creations, creations <+: b.nodes ∧
          List.Forall₂ (fun c r => b.Carries d c.policy r) creations rounds) ∧
      ∀ r ∈ rounds, ∃ links, OnlySends (WritesLinks d links) r.links ∧
        ∀ link ∈ links, ∃ c ∈ b.nodes, ∃ e ∈ c.edges, ∃ idOf, link.2 = e.withIds idOf := by
  obtain ⟨conn, rounds, rfl, hwrites, h⟩ := run_rounds hrun
  exact ⟨rounds, hwrites, fun hpath r hr => h.carries_batch hpolicy hpath hr, h.carries_own,
    fun r hr => h.writesLinks hr⟩

end BatchCreation

/-- A user without a column. -/
def bareUser : NodeCreation := NodeCreation.ofNode (.ofTable "users" ⟨"id", .int, .null⟩)

/-- Two users without a column, under a policy to skip users who are there already. -/
def bareUsers : BatchCreation := { nodes := [bareUser, bareUser], policy := some ⟨[], .doNothing⟩ }

/-- The INSERT of a user without a column. -/
def bareInsert (conflict : Option ConflictClause) : InsertStatement :=
  { table := "users", columns := [], rows := [], conflict, returning := ["id"] }

/-- The run that inserts the two users. -/
def bareRun : List Exchange :=
  let stored (id : Int64) : List Exchange :=
    [⟨.query false (.insert (bareInsert none)), true, (.done ⟨["id"], [[.int id]]⟩ : Outcome Rows)⟩]
  stored 1 ++ [⟨.revise 0 (.id (.int 1)), true, ()⟩] ++
    (stored 2 ++ [⟨.revise 1 (.id (.int 2)), true, ()⟩])

theorem bareUsers_run : (bareUsers.run .postgres).Run bareRun (.ok [.int 1, .int 2]) := by
  repeat apply Run.call
  exact .done _

/-- The users refer to nothing and write no column, so each is inserted under its own policy, which is
none. -/
theorem policy_reaches_rows_bareUsers :
    bareUsers.policy = some ⟨[], .doNothing⟩ ∧
      (bareUsers.run .postgres).Run bareRun (.ok [.int 1, .int 2]) ∧
      ∃ rounds : List Round, writing bareRun = rounds.flatMap Round.writes ∧
        ∃ creations, creations <+: [bareUser, bareUser] ∧
          List.Forall₂ (fun c r => bareUsers.Carries .postgres c.policy r) creations rounds := by
  obtain ⟨rounds, hwrites, -, hown, -⟩ := BatchCreation.policy_reaches_rows rfl bareUsers_run
  have hdirect : ∀ c ∈ bareUsers.nodes, c.dependencies = [] := by decide
  refine ⟨rfl, bareUsers_run, rounds, hwrites, hown hdirect ?_⟩
  rintro ⟨c, hc, hwrites⟩
  obtain rfl : c = bareUser := by simpa [bareUsers] using hc
  exact hwrites ⟨rfl, rfl⟩ rfl

/-- The two users are inserted without a conflict clause. Under the policy of the batch the same
INSERT has one. -/
theorem bare_users_lose_policy :
    (bareUsers.run .postgres).Run bareRun (.ok [.int 1, .int 2]) ∧
      bareUsers.policy = some ⟨[], .doNothing⟩ ∧
      (∀ x ∈ bareRun, ∀ i, x.call.statement? = some (.insert i) → i.conflict = none) ∧
      ∃ i, { bareUser with policy := bareUsers.policy }.insertion .postgres none = .ok i ∧
        (i.withReturning "id").compile .postgres = .ok (bareInsert (some (.doNothing []))) := by
  refine ⟨bareUsers_run, rfl, fun x hx i hi => ?_, _, rfl, rfl⟩
  simp only [bareRun, List.cons_append, List.nil_append, List.mem_cons, List.not_mem_nil,
    or_false] at hx
  rcases hx with rfl | rfl | rfl | rfl <;> cases hi
  all_goals rfl

end EntityGraph
