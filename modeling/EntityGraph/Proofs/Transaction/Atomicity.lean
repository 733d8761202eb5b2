import EntityGraph.Proofs.Graph.OwnRow
import EntityGraph.Proofs.Transaction.Discipline
import EntityGraph.Proofs.Transaction.Writes

/-!
# Which mutations write in one transaction

Whether a mutation opens a transaction is decided from its description, before it sends anything. A
mutation without a transaction writes once, with one exception: a batch of nodes of which nothing is
written is inserted node by node, on no connection but the plain one. `writes_in_one_transaction`
says that this is the only exception.
-/

set_option autoImplicit false

namespace EntityGraph

open Program

/-! ## Batches of bare nodes -/

/-- Nothing of the node is written: it has no fields and no edges, and leaves its ID to the
database. -/
def NodeCreation.IsBare (c : NodeCreation) : Prop :=
  c.fields = [] ∧ c.edges = [] ∧ c.LeavesId

/-- A batch of bare nodes. -/
def Mutation.IsBareBatch : Mutation → Prop
  | .batchCreate b => ∀ c ∈ b.nodes, c.IsBare
  | _ => False

theorem sortedNames_eq_nil {names : List String} (h : sortedNames names = []) : names = [] := by
  cases names with
  | nil => rfl
  | cons name rest =>
    have hne : ∀ l : List String, insertName name l ≠ [] := by
      intro l
      cases l with
      | nil => simp [insertName]
      | cons n l =>
        unfold insertName
        split
        case isTrue => simp
        case isFalse => split <;> simp
    exact absurd h (hne _)

/-- A node without own columns, and with no edges but those stored in its row, has no fields and no
edges. -/
theorem NodeCreation.nothing_written {c : NodeCreation}
    (hcolumns : c.node.ownColumns c.fields c.edges = .ok [])
    (hedges : ExternalEdges.needTransaction c.edges = false) : c.fields = [] ∧ c.edges = [] := by
  obtain ⟨written, linked, hwritten, hlinked, hnil, -⟩ := Node.ownColumns_eq_ok.mp hcolumns
  obtain ⟨rfl, rfl⟩ := List.append_eq_nil_iff.mp hnil.symm
  refine ⟨List.forall₂_nil_right_iff.mp hwritten, ?_⟩
  have hown := List.filter_eq_nil_iff.mp (List.forall₂_nil_right_iff.mp hlinked)
  refine List.eq_nil_iff_forall_not_mem.mpr fun e he => hown e he ?_
  simp [Edge.writesOwnColumn, (ExternalEdges.not_external hedges he).2]

/-- An insert of a batch has no columns only if all its nodes are bare. -/
theorem BatchCreation.bare_of_columnless {idColumn : String} {nodes : List NodeCreation}
    {rows : List OwnRow} (hrows : List.Forall₂ OwnRow.IsOf nodes rows)
    (hedges : ∀ c ∈ nodes, ExternalEdges.needTransaction c.edges = false)
    (hcolumns : columnsOf idColumn (rows.filterMap OwnRow.id) rows = []) :
    ∀ c ∈ nodes, c.IsBare := by
  obtain ⟨hids, hnames⟩ := List.append_eq_nil_iff.mp hcolumns
  have hids : ∀ r ∈ rows, r.id = none := by
    refine List.filterMap_eq_nil_iff.mp ?_
    cases hlist : rows.filterMap OwnRow.id with
    | nil => rfl
    | cons id ids => simp [hlist] at hids
  have hempty : ∀ r ∈ rows, r.columns = [] := by
    intro r hr
    have := List.flatMap_eq_nil_iff.mp (sortedNames_eq_nil hnames) r hr
    exact List.map_eq_nil_iff.mp this
  intro c hc
  obtain ⟨r, hr, hrow⟩ := exists_of_forall₂ hrows hc
  obtain ⟨hfields, hedges⟩ :=
    NodeCreation.nothing_written (hempty r hr ▸ hrow.columns) (hedges c hc)
  exact ⟨hfields, hedges, hrow.leavesId (hids r hr)⟩

/-- A bulk insert whose edges need no transaction writes once, unless all nodes are bare. -/
theorem BatchCreation.createBulk_writes {conn : Connection} {b : BatchCreation}
    (hedges : ∀ c ∈ b.nodes, ExternalEdges.needTransaction c.edges = false)
    (hbare : ¬∀ c ∈ b.nodes, c.IsBare) : (createBulk conn b).WritesAtMost 1 := by
  intro log result h
  unfold createBulk at h
  rcases run_bind.mp h with ⟨e, h, -⟩ | ⟨rows, before, after, rfl, hrows, h⟩
  · have := ownRows_reads conn b.nodes 0 [] log _ h
    omega
  have hbefore := ownRows_reads conn b.nodes 0 [] before _ hrows
  suffices hafter : writes after ≤ 1 by
    rw [writes_append]
    omega
  have hrest : ∀ (first : NodeCreation) (rest : List NodeCreation) (ids : List Value),
      b.nodes = first :: rest → (do
        reviseIds 0 ids
        addEdges conn (first :: rest) ids
        pure ids : Program (List Value)).WritesAtMost 0 := by
    intro first rest ids hnodes
    refine (reviseIds_reads ids 0).then_bind fun _ => ?_
    refine (addEdges_reads ids fun c hc e he => ?_).then_bind fun _ => writesAtMost_done _
    exact (ExternalEdges.not_external (hedges c (hnodes ▸ hc)) he).2
  cases hnodes : b.nodes with
  | nil => simp [hnodes] at hbare
  | cons first rest =>
    simp only [hnodes] at h
    split at h
    case isTrue =>
      obtain ⟨rfl, -⟩ := run_fail.mp h
      exact Nat.zero_le 1
    case isFalse =>
      split at h
      case isTrue hcolumns =>
        exact absurd (bare_of_columnless (ownRows_are_of hrows) hedges
          (List.isEmpty_iff.mp hcolumns)) hbare
      case isFalse =>
        have hids := fun ids => hrest first rest ids hnodes
        exact (insertRows_writes conn first.node _ _ _).bind_reads hids after result h

/-! ## Plans without a transaction -/

namespace Mutation

variable {m : Mutation} {p : Plan m.Result}

/-- A plan without a transaction writes once, unless it is that of a batch of bare nodes. -/
theorem plan_writes (h : m.plan = .ok p) (hplain : p.transactional = false)
    (hbare : ¬m.IsBareBatch) (conn : Connection) : (p.body conn).WritesAtMost 1 := by
  cases planned h with
  | createNode => exact NodeCreation.write_writes hplain
  | batchCreate hbatch =>
    cases hbatch with
    | nothing => exact writesAtMost_done _
    | chain => cases hplain
    | bulk =>
      refine BatchCreation.createBulk_writes (fun c hc => ?_) hbare
      simpa using List.any_eq_false.mp hplain c hc
  | updateNode => cases hplain
  | updateFound => cases hplain
  | @updateRows u => exact NodeUpdate.writeRows_writes conn u
  | deleteNode =>
    refine (writesAtMost_exec conn _).bind_reads fun result => ?_
    exact writesAtMost_ite (writesAtMost_fail _) (writesAtMost_done _)
  | deleteNodes => exact (writesAtMost_exec conn _).bind_reads fun result => writesAtMost_done _

/-- A batch of bare nodes is planned without a transaction. -/
theorem bare_plan (hbare : m.IsBareBatch) (h : m.plan = .ok p) : p.transactional = false := by
  cases planned h with
  | batchCreate hbatch =>
    cases hbatch with
    | nothing => rfl
    | chain _ hrefers =>
      obtain ⟨c, hc, hrefers⟩ := hrefers
      simp [NodeCreation.dependencies, (hbare c hc).2.1] at hrefers
    | bulk =>
      refine List.any_eq_false.mpr fun c hc => ?_
      simp [ExternalEdges.needTransaction, (hbare c hc).2.1]
  | _ => exact hbare.elim

end Mutation

/-! ## Mutations -/

/-- All that the driver gets is one transaction: its opening, statements inside it, and its end. -/
def InOneTransaction (log : List Exchange) : Prop :=
  ∃ opening inner last, received log = opening :: (inner ++ [last]) ∧ opening.opens ∧
    (∀ x ∈ inner, x.call.isStatement = true ∧ x.call.isInside = true) ∧
    (last.call = .commit ∨ last.call = .rollback)

theorem Transacted.inOneTransaction {α : Type} {d : Dialect} {body : Connection → Program α}
    {log : List Exchange} {result : Except Error α} (h : Transacted d body log result) :
    InOneTransaction log := by
  obtain ⟨opening, last, inner, -, -, -, hopen, -, hreceived, hinner, hlast, -⟩ := h
  exact ⟨opening, received inner, last, hreceived, hopen, hinner, hlast⟩

theorem writes_received_le (log : List Exchange) : writes (received log) ≤ writes log :=
  List.filter_sublist.countP_le

/-- A mutation of which the driver gets several writes sends all of them inside one transaction,
opened before the first, unless it is a batch of bare nodes; such a batch never does. -/
theorem writes_in_one_transaction {d : Dialect} {m : Mutation} {live : Bool}
    {log : List Exchange} {result : Except Error m.Result} (h : (m.program d).Run log result)
    (hc : Conducted live log) (hw : 2 ≤ writes (received log)) :
    InOneTransaction log ↔ ¬m.IsBareBatch := by
  have hwrites := Nat.le_trans hw (writes_received_le log)
  rw [Mutation.program_eq] at h
  rcases run_bind.mp h with ⟨e, hplan, rfl⟩ | ⟨p, before, after, rfl, hplan, hrun⟩
  · obtain ⟨rfl, -⟩ := run_ofExcept.mp hplan
    simp [writes] at hwrites
  obtain ⟨rfl, hp⟩ := run_ofExcept.mp hplan
  rw [List.nil_append] at hc hw hwrites ⊢
  have hbody := Mutation.plan_orderly hp.symm
  cases htx : p.transactional with
  | false =>
    rw [htx] at hrun
    have hplain : (p.body ⟨d, false⟩).Run after result := hrun
    constructor
    · rintro ⟨opening, inner, last, hreceived, ⟨hopen, -⟩, -⟩
      have hmem : opening ∈ received after := by simp [hreceived]
      have hcall := ((hbody _).run hplain).1 opening (List.mem_filter.mp hmem).1
      rw [hopen] at hcall
      exact hcall.elim
    · intro hbare
      have hle := Mutation.plan_writes hp.symm htx hbare ⟨d, false⟩ after result hplain
      omega
  | true =>
    constructor
    · intro _ hbare
      have hfalse := Mutation.bare_plan hbare hp.symm
      rw [htx] at hfalse
      cases hfalse
    · intro _
      have hopens : ∃ x ∈ after, x.opens := by
        rw [htx] at hrun
        rcases run_connection.mp hrun with
          ⟨live, r, e, rfl, -⟩ | ⟨live, inner, ending, outcome, rfl, -⟩
        · simp [writes, Call.isWrite] at hwrites
        · exact ⟨_, List.mem_cons_self, rfl, rfl⟩
      exact ((connection_transaction hbody hrun hc).2 hopens).2.inOneTransaction

theorem writes_in_one_transaction_user_with_pet :
    InOneTransaction userWithPetRun ↔ ¬(Mutation.createNode userWithPet).IsBareBatch :=
  writes_in_one_transaction userWithPet_runs userWithPetRun_conducted (by decide)

/-- Two users of whom nothing is written. -/
def twoUsers : BatchCreation :=
  let user : NodeCreation := .ofNode (.ofTable "users" ⟨"id", .int, .null⟩)
  { nodes := [user, user], policy := none }

/-- A run that creates them: one insert after another. -/
def twoUsersRun : List Exchange :=
  let user : InsertStatement :=
    { table := "users", columns := [], rows := [], conflict := none, returning := ["id"] }
  let row (id : Int64) : Outcome Rows := .done ⟨["id"], [[.int id]]⟩
  [⟨.query false (.insert user), true, row 1⟩, ⟨.revise 0 (.id (.int 1)), true, ()⟩,
    ⟨.query false (.insert user), true, row 2⟩, ⟨.revise 1 (.id (.int 2)), true, ()⟩]

/-- Two bare users are inserted outside a transaction. -/
theorem two_users_without_transaction :
    ((Mutation.batchCreate twoUsers).program .sqlite).Run twoUsersRun (.ok [.int 1, .int 2]) ∧
      Conducted true twoUsersRun ∧ 2 ≤ writes (received twoUsersRun) ∧
      ¬InOneTransaction twoUsersRun := by
  refine ⟨?_, ⟨id, nofun, id, trivial, id, nofun, id, trivial, trivial⟩, by decide, ?_⟩
  · apply Run.call
    apply Run.call
    apply Run.call
    apply Run.call
    exact .done _
  · rintro ⟨opening, inner, last, hreceived, ⟨hopen, -⟩, -⟩
    have hfirst := (List.cons.inj hreceived).1
    rw [← hfirst] at hopen
    cases hopen

end EntityGraph
