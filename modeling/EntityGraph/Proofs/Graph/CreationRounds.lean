import EntityGraph.Proofs.Graph.AddedLinks
import EntityGraph.Proofs.Transaction.Leftovers
import EntityGraph.Proofs.Transaction.SplitRuns

/-!
# The rounds of a batch

What a batch writes comes in rounds: an INSERT of own rows, followed by the statements that write the
edges of their nodes. A batch with references has a round for each node, in the order of the
references; nodes that write no column have a round each, in their own order; all others share one.
This holds for arbitrary replies, and a run may stop anywhere. So what is said of the INSERTs of own
rows is said of the first statements of rounds.
-/

set_option autoImplicit false

namespace EntityGraph

open Program

/-- An INSERT of own rows, and the statements that write the edges of their nodes. -/
structure Round where
  own : Exchange
  links : List Exchange

/-- What is written in a round. -/
def Round.writes (r : Round) : List Exchange := r.own :: r.links

/-- What is written in the turn of a node. -/
def Turn.round (t : Turn) : Round := ⟨t.own, t.links⟩

variable {d : Dialect} {conn : Connection} {log : List Exchange}

/-- A call that changes rows sends a statement that does. -/
theorem exists_statement_of_isWrite {call : Call} (h : call.isWrite = true) :
    ∃ s, call.statement? = some s ∧ s.isWrite = true := by
  cases call with
  | exec inside s => exact ⟨s, rfl, h⟩
  | query inside s => exact ⟨s, rfl, h⟩
  | _ => cases h

/-- What is written is not read. -/
theorem OnlySends.writing {P : Command → Prop} (h : OnlySends (fun s => s.IsRead ∨ P s) log) :
    OnlySends P (writing log) := by
  intro x hx s hs
  obtain ⟨hx, hwrite⟩ := List.mem_filter.mp hx
  obtain ⟨s', hs', hwrite⟩ := exists_statement_of_isWrite hwrite
  obtain rfl := Option.some.inj (hs.symm.trans hs')
  exact (h x hx s hs).resolve_left fun hread => by cases hread.symm.trans hwrite

/-- All statements of an operation that has a result have been carried out. -/
theorem carriedOut_of_ok {α : Type} {p : Program α} {a : α} (hp : p.Orderly conn)
    (h : p.Run log (.ok a)) : CarriedOut log := by
  rcases (hp.run h).2 with hsmooth | ⟨_, _, _, -, -, -, he⟩
  · intro x hx hstatement
    by_contra hfails
    exact not_refused_of_smooth (hsmooth x hx) ⟨.inl hstatement, by simpa using hfails⟩
  · cases he

/-- What turns write one after another. -/
theorem writing_turns {turns : List Turn} (h : ∀ t ∈ turns, t.Conforms conn) :
    writing (turns.flatMap Turn.log) = (turns.map Turn.round).flatMap Round.writes := by
  rw [List.flatMap_map, writing, List.filter_flatMap]
  exact List.flatMap_congr fun t ht => (h t ht).writing

/-- The own row of a node that has its turn is inserted with its ID and its own columns. -/
theorem Turn.Conforms.inserts {t : Turn} (h : t.Conforms conn) :
    ∃ own i, t.creation.node.ownColumns t.creation.fields t.creation.edges = .ok own ∧
      t.own.call.statement? = some (.insert i) ∧ i.table = t.creation.node.table ∧
      i.columns = (t.creation.insertedColumns t.supplied own).map (·.1) := by
  obtain ⟨j, returning, i, hinsertion, hcompile, hsends⟩ := NodeCreation.ownCall_eq_ok h.own
  obtain ⟨own, hown, htable, hcolumns, -⟩ := NodeCreation.insertion_ok hinsertion
  obtain ⟨-, conflict, -, rfl⟩ := Sql.compile_eq_ok.mp hcompile
  exact ⟨own, _, hown, hsends, htable, hcolumns⟩

/-- After the own row of a node, its turn writes its edges. -/
theorem Turn.Conforms.writesLinks {t : Turn} (h : t.Conforms conn) :
    ∃ links, OnlySends (WritesLinks conn.dialect links) t.links ∧
      ∀ link ∈ links, link.2 ∈ t.creation.edges := by
  cases hid : t.id with
  | none => exact ⟨[], h.unlinked hid ▸ onlySends_nil, List.forall_mem_nil _⟩
  | some id =>
    refine ⟨t.creation.edges.map fun e => ([id], e), fun x hx s hs => ?_, fun link hlink => ?_⟩
    · obtain ⟨s', hs', hwrites⟩ := ExternalEdges.writesLinks_of_mem
        ((h.linked id hid).subset (List.mem_map_of_mem hx))
      obtain rfl := Option.some.inj (hs.symm.trans hs')
      exact hwrites
    · obtain ⟨e, he, rfl⟩ := List.mem_map.mp hlink
      exact he

namespace BatchCreation

variable {b : BatchCreation}

/-- A round in which the own rows of all nodes are inserted: the own rows of the nodes have been
found, some column is written, and an ID is supplied for all nodes or for none. -/
structure SharesRound (conn : Connection) (b : BatchCreation) (log : List Exchange)
    (first : NodeCreation) (rows : List OwnRow) (r : Round) : Prop where
  head : b.nodes.head? = some first
  found : ∃ checks, checks <:+: log ∧ (ownRows conn 0 [] b.nodes).Run checks (.ok rows)
  supplied : rows.filterMap OwnRow.id ≠ [] → (rows.filterMap OwnRow.id).length = rows.length
  some_columns : columnsOf first.node.id.column (rows.filterMap OwnRow.id) rows ≠ []
  own : ∃ returning i, r.own.call.statement? = some (.insert i) ∧
    { insertOf first.node.table first.node.id.column rows returning with
      policy := b.policy.or first.policy }.compile conn.dialect = .ok i
  links : ∃ ids, OnlySends (WritesLinks conn.dialect
    ((b.nodes.zip ids).flatMap fun p => p.1.edges.map fun e => ([p.2], e))) r.links

/-- The rounds of a run: none if it stops before, one for each node that has its turn, or one for all
nodes. -/
inductive Rounds (conn : Connection) (b : BatchCreation) (log : List Exchange) :
    List Round → Prop
  | none : Rounds conn b log []
  | chained {order : List Nat} {turns : List Turn}
      (references : ∃ c ∈ b.nodes, c.dependencies ≠ []) (ordered : b.order = .ok order)
      (takes : b.TakesTurns conn (idsOf turns) order turns) :
      Rounds conn b log (turns.map Turn.round)
  | singly {turns : List Turn} (direct : ∀ c ∈ b.nodes, c.dependencies = [])
      (bare : ∀ c ∈ b.nodes, c.LeavesId ∧ c.node.ownColumns c.fields c.edges = .ok [])
      (creations : turns.map Turn.creation <+: b.nodes)
      (conforms : ∀ t ∈ turns, t.Conforms conn) : Rounds conn b log (turns.map Turn.round)
  | together {first : NodeCreation} {rows : List OwnRow} {r : Round}
      (direct : ∀ c ∈ b.nodes, c.dependencies = [])
      (inserts : b.SharesRound conn log first rows r) : Rounds conn b log [r]

/-- More calls before and after do not matter. -/
theorem Rounds.mono {log' : List Exchange} {rounds : List Round} (h : b.Rounds conn log rounds)
    (hsub : log <:+: log') : b.Rounds conn log' rounds := by
  cases h with
  | none => exact .none
  | chained hrefers horder htakes => exact .chained hrefers horder htakes
  | singly hdirect hbare hcreations hconforms => exact .singly hdirect hbare hcreations hconforms
  | together hdirect h =>
    obtain ⟨checks, hchecks, hrun⟩ := h.found
    exact .together hdirect { h with found := ⟨checks, hchecks.trans hsub, hrun⟩ }

/-- What the rounds of a batch write after the own rows are edges of its nodes, in which IDs may stand
for references. -/
theorem Rounds.writesLinks {rounds : List Round} (h : b.Rounds conn log rounds) {r : Round}
    (hr : r ∈ rounds) : ∃ links, OnlySends (WritesLinks conn.dialect links) r.links ∧
      ∀ link ∈ links, ∃ c ∈ b.nodes, ∃ e ∈ c.edges, ∃ idOf, link.2 = e.withIds idOf := by
  have hturn {t : Turn} (ht : t.Conforms conn) (hedges : ∀ e ∈ t.creation.edges,
      ∃ c ∈ b.nodes, ∃ e' ∈ c.edges, ∃ idOf, e = e'.withIds idOf) :
      ∃ links, OnlySends (WritesLinks conn.dialect links) t.links ∧
        ∀ link ∈ links, ∃ c ∈ b.nodes, ∃ e ∈ c.edges, ∃ idOf, link.2 = e.withIds idOf := by
    obtain ⟨links, hwrites, hmem⟩ := ht.writesLinks
    exact ⟨links, hwrites, fun link hlink => hedges link.2 (hmem link hlink)⟩
  have hdirect {c : NodeCreation} (hc : c ∈ b.nodes) (hnone : c.dependencies = []) {e : Edge}
      (he : e ∈ c.edges) : ∃ c ∈ b.nodes, ∃ e' ∈ c.edges, ∃ idOf, e = e'.withIds idOf :=
    ⟨c, hc, e, he, fun _ => .null, (withIds_of_none (List.flatMap_eq_nil_iff.mp hnone e he)).symm⟩
  cases h with
  | none => cases hr
  | chained _ _ htakes =>
    obtain ⟨t, ht, rfl⟩ := List.mem_map.mp hr
    refine hturn (htakes.conforms t ht) fun e he => ?_
    obtain ⟨c, hc, hcreation, -⟩ := htakes.resolved t ht
    rw [hcreation] at he
    obtain ⟨e', he', rfl⟩ := List.mem_map.mp he
    exact ⟨c, List.mem_of_getElem? hc, e', he', _, rfl⟩
  | singly hnone _ hcreations hconforms =>
    obtain ⟨t, ht, rfl⟩ := List.mem_map.mp hr
    have hc := hcreations.subset (List.mem_map_of_mem ht)
    exact hturn (hconforms t ht) fun e he => hdirect hc (hnone _ hc) he
  | together hnone hshares =>
    obtain rfl := List.mem_singleton.mp hr
    obtain ⟨ids, hlinks⟩ := hshares.links
    refine ⟨_, hlinks, fun link hlink => ?_⟩
    obtain ⟨p, hp, hlink⟩ := List.mem_flatMap.mp hlink
    obtain ⟨e, he, rfl⟩ := List.mem_map.mp hlink
    have hc := (List.of_mem_zip hp).1
    exact hdirect hc (hnone _ hc) he

/-! ## Nodes without columns -/

/-- Nodes that are created one after another take their turns in order. -/
theorem run_createEach {nodes : List NodeCreation} {i : Nat} {result : Except Error (List Value)}
    (h : (createEach conn i nodes).Run log result) :
    ∃ turns : List Turn, writing log = (turns.map Turn.round).flatMap Round.writes ∧
      turns.map Turn.creation <+: nodes ∧ ∀ t ∈ turns, t.Conforms conn := by
  induction nodes generalizing i log result with
  | nil =>
    obtain ⟨rfl, -⟩ := run_done.mp h
    exact ⟨[], rfl, List.nil_prefix, List.forall_mem_nil _⟩
  | cons c rest ih =>
    have hturn {log : List Exchange} {written : Except Error Value}
        (hwrite : (NodeCreation.write conn i c).Run log written) :
        (writing log = [] ∧ ∃ e, written = .error e) ∨
          ∃ t : Turn, writing log = t.round.writes ∧ t.creation = c ∧ t.Conforms conn := by
      rcases NodeCreation.run_write hwrite with hnone | ⟨t, -, hc, rfl, hconforms, -⟩
      · exact .inl hnone
      · exact .inr ⟨t, hconforms.writing, hc, hconforms⟩
    rcases run_bind.mp h with ⟨e, hwrite, -⟩ | ⟨id, first, last, rfl, hwrite, hothers⟩
    · rcases hturn hwrite with ⟨hnone, -⟩ | ⟨t, hwrites, rfl, hconforms⟩
      · exact ⟨[], hnone, List.nil_prefix, List.forall_mem_nil _⟩
      · refine ⟨[t], by simp [hwrites], List.prefix_append [t.creation] rest, ?_⟩
        exact List.forall_mem_singleton.mpr hconforms
    · have hrest : ∃ others, (createEach conn (i + 1) rest).Run last others := by
        rcases run_bind.mp hothers with ⟨e, hfail, -⟩ | ⟨ids, before, after, rfl, hrun, hdone⟩
        · exact ⟨_, hfail⟩
        · rw [(run_done.mp hdone).1, List.append_nil]
          exact ⟨_, hrun⟩
      obtain ⟨others, hrest⟩ := hrest
      obtain ⟨turns, hwrites', hcreations, hconforms'⟩ := ih hrest
      rcases hturn hwrite with ⟨-, e, he⟩ | ⟨t, hwrites, rfl, hconforms⟩
      · cases he
      · refine ⟨t :: turns, by simp [hwrites, hwrites'], ?_, ?_⟩
        · exact (List.prefix_cons_inj t.creation).mpr hcreations
        · exact List.forall_mem_cons.mpr ⟨hconforms, hconforms'⟩

/-! ## Nodes that are inserted together -/

/-- Nodes that are inserted together are written by one INSERT at most. -/
theorem run_insertRows {node : Node} {policy : Option ConflictPolicy} {supplied : List Value}
    {bound : BoundRows} {result : Except Error (List Value)}
    (h : (insertRows conn node policy supplied bound).Run log result) :
    writing log = [] ∨ ∃ own returning i, writing log = [own] ∧
      own.call.statement? = some (.insert i) ∧
      { bound.rows.foldl Insert.addRow ((Insert.into node.table).withColumns bound.columns) with
        returning, policy }.compile conn.dialect = .ok i := by
  have hone : (writing log).length ≤ 1 := by
    have hwrites := insertRows_writes conn node policy supplied bound log result h
    rwa [writes, List.countP_eq_length_filter] at hwrites
  have hsends : OnlySends (fun s => s.IsRead ∨ ∃ returning i, s = .insert i ∧
      { bound.rows.foldl Insert.addRow ((Insert.into node.table).withColumns bound.columns) with
        returning, policy }.compile conn.dialect = .ok i) log :=
    (issues_insertRows (fun s => .inl rfl) fun returning i hi =>
      .inr ⟨returning, i, rfl, hi⟩).onlySends h
  cases hwriting : writing log with
  | nil => exact .inl rfl
  | cons own rest =>
    right
    obtain rfl : rest = [] := by
      rw [hwriting, List.length_cons] at hone
      exact List.length_eq_zero_iff.mp (by omega)
    have hmem : own ∈ writing log := hwriting ▸ List.mem_cons_self
    obtain ⟨s, hs, -⟩ := exists_statement_of_isWrite (List.mem_filter.mp hmem).2
    obtain ⟨returning, i, rfl, hi⟩ := hsends.writing own hmem s hs
    exact ⟨own, returning, i, rfl, hs, hi⟩

/-- Nodes that are inserted together with a result have been written. -/
theorem writing_ne_nil_of_insertRows {node : Node} {policy : Option ConflictPolicy}
    {supplied ids : List Value} {bound : BoundRows}
    (h : (insertRows conn node policy supplied bound).Run log (.ok ids)) : writing log ≠ [] := by
  have hwritten := (insertRows_stores conn node policy supplied bound log _ h
    (carriedOut_of_ok (insertRows_orderly conn node policy supplied bound) h)).1 ids rfl
  rw [writes, List.countP_eq_length_filter] at hwritten
  exact List.length_pos_iff.mp hwritten

/-- Nodes that do not refer to each other have a round each if none of them writes a column, and
share one otherwise. -/
theorem rounds_of_createBulk (hdirect : ∀ c ∈ b.nodes, c.dependencies = [])
    {result : Except Error (List Value)} (h : (createBulk conn b).Run log result) :
    ∃ rounds, writing log = rounds.flatMap Round.writes ∧ b.Rounds conn log rounds := by
  unfold createBulk at h
  have hreads := ownRows_reads conn b.nodes 0 []
  rcases run_bind.mp h with ⟨e, hfail, -⟩ | ⟨rows, checks, rest, rfl, hrows, h⟩
  · exact ⟨[], hreads.writing_eq_nil hfail, .none⟩
  rw [writing_append, hreads.writing_eq_nil hrows, List.nil_append]
  split at h
  case h_1 =>
    rw [(run_done.mp h).1]
    exact ⟨[], rfl, .none⟩
  case h_2 first others hnodes =>
    dsimp only at h
    split at h
    case isTrue =>
      rw [(run_fail.mp h).1]
      exact ⟨[], rfl, .none⟩
    case isFalse hmixed =>
      split at h
      case isTrue hcolumns =>
        obtain ⟨turns, hwrites, hcreations, hconforms⟩ := run_createEach h
        refine ⟨_, hwrites, .singly hdirect (fun c hc => ?_) hcreations hconforms⟩
        exact leavesId_of_no_columns (ownRows_are_of hrows) (by simpa using hcolumns) hc
      case isFalse hcolumns =>
        have hshares (returning : List String) (ids : List Value) {own : Exchange}
            {links : List Exchange} {i : InsertStatement}
            (hs : own.call.statement? = some (.insert i))
            (hi : { insertOf first.node.table first.node.id.column rows returning with
              policy := b.policy.or first.policy }.compile conn.dialect = .ok i)
            (hlinks : OnlySends (WritesLinks conn.dialect
              ((b.nodes.zip ids).flatMap fun p => p.1.edges.map fun e => ([p.2], e))) links) :
            b.Rounds conn (checks ++ rest) [⟨own, links⟩] := by
          refine @Rounds.together _ _ _ first rows _ hdirect ?_
          refine ⟨by rw [hnodes]; rfl, ⟨checks, List.infix_append [] checks rest, hrows⟩, ?_,
            by simpa using hcolumns, ⟨returning, i, hs, hi⟩, ids, hlinks⟩
          intro hsome
          by_contra hlength
          exact hmixed ⟨by simpa using hsome, hlength⟩
        rcases run_bind.mp h with ⟨e, hinsert, -⟩ | ⟨ids, inserting, after, rfl, hinsert, h⟩
        · rcases run_insertRows hinsert with hnone | ⟨own, returning, i, hwriting, hs, hi⟩
          · exact ⟨[], hnone, .none⟩
          · rw [foldl_addRow_eq] at hi
            exact ⟨_, by simpa [Round.writes] using hwriting,
              hshares returning [] hs hi onlySends_nil⟩
        · rcases run_insertRows hinsert with hnone | ⟨own, returning, i, hwriting, hs, hi⟩
          · exact absurd hnone (writing_ne_nil_of_insertRows hinsert)
          · rw [foldl_addRow_eq] at hi
            have hlinks := Issues.onlySends (issues_reviseIds.bind fun _ =>
              (@addEdges_writesLinks conn b.nodes ids).bind fun _ => issues_done ids) h
            refine ⟨_, by rw [writing_append, hwriting]; exact (List.flatMap_singleton _ _).symm,
              hshares returning ids hs hi fun x hx => ?_⟩
            exact hlinks x (List.mem_of_mem_filter hx)

/-- What the plan of a batch writes are its rounds. -/
theorem rounds_of_plan {p : Plan (List Value)} (hplan : b.Planned p)
    {result : Except Error (List Value)} (h : (p.body conn).Run log result) :
    ∃ rounds, writing log = rounds.flatMap Round.writes ∧ b.Rounds conn log rounds := by
  cases hplan with
  | nothing =>
    rw [(run_done.mp h).1]
    exact ⟨[], rfl, .none⟩
  | chain _ hrefers horder =>
    obtain ⟨turns, rest, rfl, hquiet, hturns, -⟩ := run_createChain (perm_of_order horder) h
    refine ⟨turns.map Turn.round, ?_, .chained hrefers horder hturns⟩
    rw [writing_append, hquiet, List.append_nil, writing_turns hturns.conforms]
  | bulk _ hdirect => exact rounds_of_createBulk hdirect h

/-- What a run of a batch has written are its rounds. -/
theorem run_rounds {result : Except Error (List Value)} (h : (b.run d).Run log result) :
    ∃ conn rounds, conn.dialect = d ∧ writing log = rounds.flatMap Round.writes ∧
      b.Rounds conn log rounds := by
  rcases Mutation.run_body (m := .batchCreate b) h with
    ⟨rfl, -⟩ | ⟨live, r, e, rfl, -, -⟩ | ⟨p, conn, inner, outcome, hplan, hdialect, hinner, hwriting,
      hbody, -, -⟩
  · exact ⟨⟨d, true⟩, [], rfl, rfl, .none⟩
  · exact ⟨⟨d, true⟩, [], rfl, rfl, .none⟩
  · obtain ⟨rounds, hwrites, hrounds⟩ := rounds_of_plan (Mutation.batch_planned hplan) hbody
    exact ⟨conn, rounds, hdialect, hwriting.trans hwrites, hrounds.mono hinner⟩

end BatchCreation

end EntityGraph
