import EntityGraph.Proofs.Graph.BulkInserts
import EntityGraph.Proofs.Graph.CreationTurns
import EntityGraph.Proofs.Graph.UpsertReads
import EntityGraph.Proofs.Transaction.Endings

/-!
# Batches that are upserted together

A batch under a conflict policy that has a result, and whose nodes do not refer to each other, has
gone through five parts: the own rows of its nodes are found, the upsert is sent and rows are read
back, the IDs of the nodes are told, and their edges are written. `UpsertsTogether` has the calls of
each part, for arbitrary replies. What is sent for the edges follows from the IDs: it is what the
nodes with an ID ask for, in two groups.

A node whose row was not given to it has no ID, and nothing is written for its edges. This is so for
nodes that the policy has skipped, but also where the rows that come back are fewer than the nodes
with their key: then the first of these nodes have the IDs.
-/

set_option autoImplicit false

namespace EntityGraph

open Program

variable {conn : Connection} {d : Dialect} {b : BatchCreation} {log : List Exchange}
  {ids : List Value}

/-! ## Edges that have been sent -/

/-- What a node's edge consists of has been sent: each of its rows in an INSERT into its join table,
or the UPDATE that links its targets. -/
structure Edge.IsSent (conn : Connection) (id : Value) (e : Edge) (log : List Exchange) : Prop where
  rows : e.isManyToMany = true → ∃ rows, JoinTable.edgeRows [id] e = .ok rows ∧ ∀ row ∈ rows,
    ∃ x ∈ log, ∃ statement, x.call = .exec conn.inside (.insert statement) ∧
      statement.table = e.table ∧ row ∈ statement.rows
  link : e.isForeignKeyEdge = true → e.target.nodes ≠ [] → ∃ fk, e.foreignKey = .ok fk ∧
    ∃ x ∈ log, x.call = .exec conn.inside (.update (ForeignKey.linking id fk e))

theorem Edge.IsSent.mono {id : Value} {e : Edge} {log' : List Exchange} (h : e.IsSent conn id log)
    (hsub : log ⊆ log') : e.IsSent conn id log' where
  rows hmany := by
    obtain ⟨rows, hrows, hsent⟩ := h.rows hmany
    refine ⟨rows, hrows, fun row hrow => ?_⟩
    obtain ⟨x, hx, hx'⟩ := hsent row hrow
    exact ⟨x, hsub hx, hx'⟩
  link hforeign htargets := by
    obtain ⟨fk, hfk, x, hx, hx'⟩ := h.link hforeign htargets
    exact ⟨fk, hfk, x, hsub hx, hx'⟩

theorem mem_callsOf {call : Call} : .ok call ∈ callsOf log ↔ ∃ x ∈ log, x.call = call := by
  unfold callsOf
  rw [List.mem_map]
  exact exists_congr fun x => and_congr_right fun _ => ⟨Except.ok.inj, congrArg _⟩

/-- All calls of a run exist. -/
theorem exists_call_of_mem {x : Except Error Call} (h : x ∈ callsOf log) : ∃ call, x = .ok call := by
  obtain ⟨y, -, rfl⟩ := List.mem_map.mp h
  exact ⟨_, rfl⟩

/-- If the INSERTs into the join tables have been sent, each row of an edge is in one of them. -/
theorem JoinTable.sent_of_statements {links : List (List Value × Edge)} {id : Value} {e : Edge}
    (h : ∀ x ∈ statements conn links, x ∈ callsOf log) (hlink : ([id], e) ∈ links)
    (hmany : e.isManyToMany = true) : ∃ rows, edgeRows [id] e = .ok rows ∧ ∀ row ∈ rows,
      ∃ x ∈ log, ∃ statement, x.call = .exec conn.inside (.insert statement) ∧
        statement.table = e.table ∧ row ∈ statement.rows := by
  have hjoin : ([id], e) ∈ links.filter fun link => link.2.isManyToMany :=
    List.mem_filter.mpr ⟨hlink, hmany⟩
  obtain ⟨g, hg, hname, hmem⟩ : ∃ g ∈ groupByName (fun link : List Value × Edge => link.2.table)
      (links.filter fun link => link.2.isManyToMany), g.1 = e.table ∧ ([id], e) ∈ g.2 := by
    refine ⟨⟨e.table, (links.filter fun link => link.2.isManyToMany).filter
      fun link => link.2.table == e.table⟩, mem_groupByName.mpr ⟨⟨_, hjoin, rfl⟩, rfl⟩, rfl, ?_⟩
    exact List.mem_filter.mpr ⟨hjoin, by simp⟩
  have hsent := fun x hx => h x (List.mem_flatMap.mpr ⟨g, hg, hx⟩)
  cases hinsert : insertOf g.1 g.2 with
  | error why =>
    rw [hinsert] at hsent
    obtain ⟨_, hcall⟩ := exists_call_of_mem (hsent _ List.mem_cons_self)
    cases hcall
  | ok i =>
    rw [hinsert] at hsent
    dsimp only at hsent
    obtain ⟨first, -, rowss, hrowss, hi⟩ := insertOf_eq_ok hinsert (List.ne_nil_of_mem hmem)
    obtain ⟨rows, hrows, hedge⟩ := exists_of_forall₂ hrowss hmem
    refine ⟨rows, hedge, fun row hrow => ?_⟩
    have hrow : row ∈ i.rows := by
      rw [hi]
      exact List.mem_flatten.mpr ⟨rows, hrows, hrow⟩
    rw [if_neg (by simpa using List.ne_nil_of_mem hrow)] at hsent
    obtain ⟨call, hcall⟩ := exists_call_of_mem (hsent _ List.mem_cons_self)
    cases hcompile : i.compile conn.dialect with
    | error why =>
      rw [hcompile] at hcall
      cases hcall
    | ok statement =>
      rw [hcompile] at hsent
      obtain ⟨x, hx, hcall⟩ := mem_callsOf.mp (hsent _ List.mem_cons_self)
      refine ⟨x, hx, statement, hcall, ?_, ?_⟩
      · rw [compile_table hcompile, insertOf_table hinsert, hname]
      · obtain ⟨-, _, -, rfl⟩ := Sql.compile_eq_ok.mp hcompile
        exact hrow

/-- If the UPDATEs of a node have been sent, the one that links an edge is among them. -/
theorem ForeignKey.sent_of_statements {id : Value} {edges : List Edge} {e : Edge}
    (h : ∀ x ∈ statements conn id edges, x ∈ callsOf log) (he : e ∈ edges)
    (hforeign : e.isForeignKeyEdge = true) (htargets : e.target.nodes ≠ []) :
    ∃ fk, e.foreignKey = .ok fk ∧
      ∃ x ∈ log, x.call = .exec conn.inside (.update (linking id fk e)) := by
  have hmem : e ∈ edges.filter fun e => e.isForeignKeyEdge && !e.target.nodes.isEmpty :=
    List.mem_filter.mpr ⟨he, by simp [hforeign, htargets]⟩
  have hsent := h _ (List.mem_map_of_mem hmem)
  cases hfk : e.foreignKey with
  | error why =>
    rw [hfk] at hsent
    obtain ⟨_, hcall⟩ := exists_call_of_mem hsent
    cases hcall
  | ok fk =>
    rw [hfk] at hsent
    exact ⟨fk, rfl, mem_callsOf.mp hsent⟩

/-! ## The parts of an upsert -/

namespace BatchCreation

variable {first c : NodeCreation} {node : Node} {policy : ConflictPolicy} {rows : List OwnRow}
  {stored : List (List Value)} {checks reads told links : List Exchange} {i : Nat} {v : Value}

/-- The nodes of a batch whose IDs are known send all that their edges ask for, first the rows of
join tables. -/
theorem sends_addEdges (conn : Connection) (nodes : List NodeCreation) (ids : List Value) :
    (addEdges conn nodes ids).Sends
      (JoinTable.statements conn (((nodes.zip ids).filter fun p => !p.2.isNull).flatMap
          fun p => p.1.edges.map fun e => ([p.2], e)) ++
        ((nodes.zip ids).filter fun p => !p.2.isNull).flatMap
          fun p => ForeignKey.statements conn p.2 p.1.edges) := by
  refine (JoinTable.sends_add conn _).bind fun _ => ?_
  exact sends_forM fun p _ => ForeignKey.sends_add conn p.2 p.1.edges

/-- All edges of a node with an ID have been sent when the edges of a batch have been written. -/
theorem sent_of_addEdges {nodes : List NodeCreation} (h : (addEdges conn nodes ids).Run log (.ok ()))
    (hc : nodes[i]? = some c) (hid : ids[i]? = some v) (hv : v.isNull = false) :
    ∀ e ∈ c.edges, e.IsSent conn v log := by
  have hcalls := (sends_addEdges conn nodes ids log _ h).2 () rfl
  have hcreated : (c, v) ∈ (nodes.zip ids).filter fun p => !p.2.isNull := by
    refine List.mem_filter.mpr ⟨List.mem_of_getElem? (i := i) ?_, by simp [hv]⟩
    exact List.getElem?_zip_eq_some.mpr ⟨hc, hid⟩
  intro e he
  constructor
  · have hlink : ([v], e) ∈ ((nodes.zip ids).filter fun p => !p.2.isNull).flatMap
        fun p => p.1.edges.map fun e => ([p.2], e) :=
      List.mem_flatMap.mpr ⟨(c, v), hcreated, List.mem_map_of_mem he⟩
    refine JoinTable.sent_of_statements (fun x hx => ?_) hlink
    rw [hcalls]
    exact List.mem_append_left _ hx
  · refine ForeignKey.sent_of_statements (fun x hx => ?_) he
    rw [hcalls]
    exact List.mem_append_right _ (List.mem_flatMap.mpr ⟨_, hcreated, hx⟩)

/-- The rows that a batch inserts together. -/
def boundRows (idColumn : String) (rows : List OwnRow) : BoundRows :=
  { columns := columnsOf idColumn (rows.filterMap OwnRow.id) rows
    rows := rows.map fun r =>
      OwnRow.valuesOf (columnsOf idColumn (rows.filterMap OwnRow.id) rows) (r.withId idColumn)
    generated := (rows.filterMap OwnRow.id).isEmpty }

/-- What upserting nodes together does, part by part: their own rows are found, the rows that the
upsert has stored come back, the IDs that are found there are told, and the edges are written. -/
structure UpsertsTogether (conn : Connection) (b : BatchCreation) (node : Node)
    (policy : ConflictPolicy) (rows : List OwnRow) (stored : List (List Value)) (ids : List Value)
    (checks reads told links : List Exchange) : Prop where
  ownRows : (BatchCreation.ownRows conn 0 [] b.nodes).Run checks (.ok rows)
  columns : columnsOf node.id.column (rows.filterMap OwnRow.id) rows ≠ []
  supplied : rows.filterMap OwnRow.id ≠ [] → (rows.filterMap OwnRow.id).length = rows.length
  readBack : ((boundRows node.id.column rows).storedRows conn node
    ((boundRows node.id.column rows).upsert node policy []) policy).Run reads (.ok stored)
  identified : (boundRows node.id.column rows).identifyAll node
    ((boundRows node.id.column rows).keys policy) stored = .ok ids
  revised : (reviseIds 0 ids).Run told (.ok ())
  edges : (addEdges conn b.nodes ids).Run links (.ok ())

/-- Some node of the batch writes a column: its ID, or one of its own columns. -/
def WritesColumn (b : BatchCreation) : Prop :=
  ∃ c ∈ b.nodes, c.LeavesId → c.node.ownColumns c.fields c.edges ≠ .ok []

theorem columnsOf_ne_nil {idColumn : String} (hrows : List.Forall₂ OwnRow.IsOf b.nodes rows)
    (h : b.WritesColumn) : columnsOf idColumn (rows.filterMap OwnRow.id) rows ≠ [] := by
  obtain ⟨c, hc, hwrites⟩ := h
  obtain ⟨r, hr, hof⟩ := exists_of_forall₂ hrows hc
  cases hid : r.id with
  | some id =>
    have hsupplied := List.ne_nil_of_mem (List.mem_filterMap.mpr ⟨r, hr, hid⟩)
    exact List.ne_nil_of_mem (mem_columnsOf.mpr (.inl ⟨hsupplied, rfl⟩))
  | none =>
    have hcolumns : r.columns ≠ [] := by
      intro hnil
      apply hwrites (hof.leavesId hid)
      rw [hof.columns, hnil]
    obtain ⟨⟨column, v⟩, hmem⟩ := List.exists_mem_of_ne_nil _ hcolumns
    exact List.ne_nil_of_mem (mem_columnsOf.mpr (.inr ⟨r, hr, v, hmem⟩))

/-- Nodes that write a column are upserted together where there is a conflict policy. -/
theorem run_createBulk (hfirst : b.nodes.head? = some first)
    (hpolicy : b.policy.or first.policy = some policy) (hwrites : b.WritesColumn)
    (h : (createBulk conn b).Run log (.ok ids)) : ∃ rows stored checks reads told links,
      log = checks ++ (reads ++ (told ++ links)) ∧
        b.UpsertsTogether conn first.node policy rows stored ids checks reads told links := by
  unfold createBulk at h
  obtain ⟨rows, checks, rest, rfl, hrows, h⟩ := run_bind_ok.mp h
  have hcolumns : columnsOf first.node.id.column (rows.filterMap OwnRow.id) rows ≠ [] :=
    columnsOf_ne_nil (ownRows_are_of hrows) hwrites
  split at h
  case h_1 hnil =>
    rw [hnil] at hfirst
    cases hfirst
  case h_2 other others hcons =>
    obtain rfl : other = first := by
      rw [hcons] at hfirst
      exact Option.some.inj hfirst
    dsimp only at h
    split at h
    case isTrue => cases (run_fail.mp h).2
    case isFalse hmixed =>
      rw [if_neg (by simpa using hcolumns), hpolicy] at h
      obtain ⟨found, upserting, rest, rfl, hinsert, h⟩ := run_bind_ok.mp h
      obtain ⟨_, told, rest, rfl, htold, h⟩ := run_bind_ok.mp h
      obtain ⟨_, links, rest, rfl, hlinks, h⟩ := run_bind_ok.mp h
      obtain ⟨rfl, hids⟩ := run_done.mp h
      obtain rfl := Except.ok.inj hids
      unfold insertRows at hinsert
      dsimp only at hinsert
      rw [foldl_addRow_eq] at hinsert
      obtain ⟨stored, hstored, hfound⟩ := BoundRows.run_upsertedIds.mp hinsert
      refine ⟨rows, stored, checks, upserting, told, links, by rw [List.append_nil], ?_⟩
      refine ⟨hrows, hcolumns, fun hsome => ?_, hstored, hfound, htold, hlinks⟩
      by_contra hlength
      exact hmixed ⟨by simpa using hsome, hlength⟩

/-- A batch with a result whose nodes do not refer to each other has run as a bulk, on a connection
of its dialect. -/
theorem run_bulk (hdirect : ∀ c ∈ b.nodes, c.dependencies = []) (hne : b.nodes ≠ [])
    (h : (b.run d).Run log (.ok ids)) : ∃ conn inner, conn.dialect = d ∧ inner ⊆ log ∧
      (createBulk conn b).Run inner (.ok ids) := by
  obtain ⟨p, conn, inner, hplan, hdialect, hinner, hbody⟩ :=
    Mutation.run_ok (m := .batchCreate b) h
  rw [(Mutation.batch_planned hplan).body_eq hne hdirect] at hbody
  exact ⟨conn, inner, hdialect, hinner, hbody⟩

end BatchCreation

/-! ## Nodes without an ID

A node of an upserted batch has an ID if a row came back that has its key, unless that row was given
to a node before it. The edges of a node with an ID are written. A node without one is taken for one
that the conflict policy has skipped, although a policy that updates the stored row skips none: where
two nodes have the same key and the stored row is read back by a selection, it comes back once, and
the edges of the second node are lost. -/

/-- A node of a batch that is upserted together has an ID exactly if a row has come back that has its
key and an ID, and that was not given to a node before it. If the node has an ID, all its edges have
been sent. -/
theorem BatchCreation.has_id_iff_row_left {d : Dialect} {b : BatchCreation} {first : NodeCreation}
    {policy : ConflictPolicy} {log : List Exchange} {ids : List Value}
    (hrun : (b.run d).Run log (.ok ids)) (hfirst : b.nodes.head? = some first)
    (hpolicy : b.policy.or first.policy = some policy)
    (hdirect : ∀ c ∈ b.nodes, c.dependencies = []) (hwrites : b.WritesColumn) :
    ∃ conn rows reads stored, conn.dialect = d ∧ reads ⊆ log ∧
      List.Forall₂ OwnRow.IsOf b.nodes rows ∧
      ((boundRows first.node.id.column rows).storedRows conn first.node
        ((boundRows first.node.id.column rows).upsert first.node policy []) policy).Run reads
          (.ok stored) ∧
      ids.length = b.nodes.length ∧
      ∀ i c, b.nodes[i]? = some c →
        ((∃ v, ids[i]? = some v ∧ v.isNull = false) ↔ ∃ p r, stored[p]? = some r ∧
          BoundRows.TellsId r ∧ (boundRows first.node.id.column rows).Matches
            ((boundRows first.node.id.column rows).keys policy) i r ∧
          ∀ j v, j < i → ¬(boundRows first.node.id.column rows).Gives first.node
            ((boundRows first.node.id.column rows).keys policy) stored p j v) ∧
        ∀ v, ids[i]? = some v → v.isNull = false → ∀ e ∈ c.edges, e.IsSent conn v log := by
  have hne : b.nodes ≠ [] := List.ne_nil_of_mem (List.mem_of_head? hfirst)
  obtain ⟨conn, inner, hdialect, hinner, hbulk⟩ := run_bulk hdirect hne hrun
  obtain ⟨rows, stored, checks, reads, told, links, rfl, h⟩ :=
    run_createBulk hfirst hpolicy hwrites hbulk
  have hassigns := BoundRows.assigns_of_identifyAll h.identified
  have hrows := ownRows_are_of h.ownRows
  refine ⟨conn, rows, reads, stored, hdialect, fun x hx => hinner ?_, hrows, h.readBack, ?_, ?_⟩
  · exact List.mem_append_right _ (List.mem_append_left _ hx)
  · rw [hassigns.length, boundRows, List.length_map, hrows.length_eq]
  · intro i c hc
    refine ⟨hassigns.present_iff, fun v hid hv e he => ?_⟩
    refine (sent_of_addEdges h.edges hc hid hv e he).mono fun x hx => hinner ?_
    exact List.mem_append_right _ (List.mem_append_right _ (List.mem_append_right _ hx))

/-- Two users with the same email, each with a friend. -/
def namesakes : BatchCreation :=
  let user (friend : Int64) : NodeCreation :=
    { NodeCreation.ofNode (.ofTable "users" ⟨"id", .int, .null⟩) with
      fields := [⟨"email", .string, .string "ann"⟩]
      edges := [{ Edge.manyToMany "friends" "user_id" "friend_id" with
        target := { nodes := [.int friend], id := ⟨"id", .int, .null⟩, fields := [], pending := [] } }] }
  { nodes := [user 8, user 9], policy := some ⟨["email"], .updateNewValues⟩ }

/-- The rows of the namesakes in the INSERT. -/
def namesakeRows : List BatchCreation.OwnRow :=
  [⟨none, [("email", .string "ann")]⟩, ⟨none, [("email", .string "ann")]⟩]

/-- MySQL stores one row for the namesakes, and a selection reads it back once. -/
def namesakeReads : List Exchange :=
  [⟨.exec true (.insert
        { table := "users", columns := ["email"], rows := [[.string "ann"], [.string "ann"]]
          conflict := some (.onDuplicateKey [⟨"email", .proposed⟩]), returning := [] }), true,
      (.done ⟨1, some 5⟩ : Outcome ExecResult)⟩,
    ⟨.query true (.select ((BatchCreation.boundRows "id" namesakeRows).readBack
        (.ofTable "users" ⟨"id", .int, .null⟩) [0])), true,
      (.done ⟨["id", "email"], [[.int 5, .string "ann"]]⟩ : Outcome Rows)⟩]

/-- The run that upserts the namesakes. -/
def namesakeRun : List Exchange :=
  [⟨.begin, true, (.done () : Outcome Unit)⟩] ++ namesakeReads ++
    [⟨.revise 0 (.id (.int 5)), true, ()⟩,
    ⟨.revise 1 (.id .null), true, ()⟩,
    ⟨.exec true (.insert
        { table := "friends", columns := ["user_id", "friend_id"], rows := [[.int 5, .int 8]]
          conflict := some (.onDuplicateKey [⟨"user_id", .itself⟩]), returning := [] }), true,
      (.done ⟨1, none⟩ : Outcome ExecResult)⟩,
    ⟨.check, true, (.ok () : Except Interruption Unit)⟩,
    ⟨.commit, true, (.ok () : Except Failure Unit)⟩]

theorem namesakes_run : (namesakes.run .mysql).Run namesakeRun (.ok [.int 5, .null]) := by
  repeat apply Run.call
  exact .done _

/-- Of the namesakes only the first has an ID and a friend. The row that came back has the key of the
second as well, and the policy has skipped neither. -/
theorem second_namesake_without_id :
    (namesakes.run .mysql).Run namesakeRun (.ok [.int 5, .null]) ∧
      ((BatchCreation.boundRows "id" namesakeRows).storedRows ⟨.mysql, true⟩
        (.ofTable "users" ⟨"id", .int, .null⟩)
        ((BatchCreation.boundRows "id" namesakeRows).upsert (.ofTable "users" ⟨"id", .int, .null⟩)
          ⟨["email"], .updateNewValues⟩ []) ⟨["email"], .updateNewValues⟩).Run namesakeReads
        (.ok [[.int 5, .string "ann"]]) ∧
      (BatchCreation.boundRows "id" namesakeRows).Matches [0] 1 [.int 5, .string "ann"] ∧
      ∀ x ∈ namesakeRun, ∀ inside statement, x.call = .exec inside (.insert statement) →
        [.int 5, .int 9] ∉ statement.rows := by
  refine ⟨namesakes_run, ?_, ?_, ?_⟩
  · repeat apply Run.call
    exact .done _
  · exact ⟨_, _, rfl, _, rfl, BoundRows.sameKey_iff.mp (by decide)⟩
  · intro x hx inside statement hstatement
    simp only [namesakeRun, namesakeReads, List.cons_append, List.nil_append, List.mem_cons,
      List.not_mem_nil, or_false] at hx
    rcases hx with rfl | rfl | rfl | rfl | rfl | rfl | rfl | rfl <;> cases hstatement <;> simp

/-- The row that came back was given to the first of the namesakes, whose edge is written. -/
theorem has_id_iff_row_left_namesakes :
    (namesakes.run .mysql).Run namesakeRun (.ok [.int 5, .null]) ∧
      ∃ conn rows reads stored, conn.dialect = .mysql ∧ reads ⊆ namesakeRun ∧
        ((BatchCreation.boundRows "id" rows).storedRows conn (.ofTable "users" ⟨"id", .int, .null⟩)
          ((BatchCreation.boundRows "id" rows).upsert (.ofTable "users" ⟨"id", .int, .null⟩)
            ⟨["email"], .updateNewValues⟩ []) ⟨["email"], .updateNewValues⟩).Run reads (.ok stored) ∧
        (∀ c, namesakes.nodes[0]? = some c → ∀ e ∈ c.edges, e.IsSent conn (.int 5) namesakeRun) ∧
        ∀ p r, stored[p]? = some r → BoundRows.TellsId r →
          (BatchCreation.boundRows "id" rows).Matches
            ((BatchCreation.boundRows "id" rows).keys ⟨["email"], .updateNewValues⟩) 1 r →
          ∃ j v, j < 1 ∧ (BatchCreation.boundRows "id" rows).Gives
            (.ofTable "users" ⟨"id", .int, .null⟩)
            ((BatchCreation.boundRows "id" rows).keys ⟨["email"], .updateNewValues⟩) stored p j v := by
  refine ⟨namesakes_run, ?_⟩
  have hwrites : namesakes.WritesColumn :=
    ⟨_, List.mem_cons_self, fun _ hnone => by cases hnone⟩
  obtain ⟨conn, rows, reads, stored, hdialect, hreads, -, hstored, -, hnodes⟩ :=
    BatchCreation.has_id_iff_row_left namesakes_run rfl rfl (by simp [namesakes]; decide) hwrites
  refine ⟨conn, rows, reads, stored, hdialect, hreads, hstored, ?_, ?_⟩
  · exact fun c hc => (hnodes 0 c hc).2 _ rfl rfl
  · intro p r hrow hid hkey
    by_contra hnone
    have hpresent := (hnodes 1 _ rfl).1.mpr ⟨p, r, hrow, hid, hkey, fun j v hj hgives =>
      hnone ⟨j, v, hj, hgives⟩⟩
    obtain ⟨v, hsome, hv⟩ := hpresent
    obtain rfl := Option.some.inj hsome
    cases hv

end EntityGraph
