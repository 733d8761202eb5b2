import EntityGraph.Proofs.Graph.BulkCreation
import EntityGraph.Proofs.Graph.BulkUpserts
import EntityGraph.Proofs.Transaction.SplitRuns
import EntityGraph.Sample.Generators

/-!
# Creations of rows that a policy skips

Where rows are returned, an INSERT that reports no row has been skipped by its conflict policy. A
batch then has no ID for the node and writes none of its edges. The creation of a single node is told
apart by who gave the ID: where the database assigns it, nothing has been found; where it was given
with the node or drawn for it, the creation goes on with that ID as if its row were there. A drawn ID
is the ID of no stored row, and the edges that are written refer to nothing.
-/

set_option autoImplicit false

namespace EntityGraph

open Program

/-- The INSERT of a row has been carried out and has reported no row. -/
def Exchange.IsSkipped (x : Exchange) : Prop :=
  ∃ inside statement live rows,
    x = ⟨.query inside (.insert statement), live, (.done rows : Outcome Rows)⟩ ∧ rows.rows = []

variable {d : Dialect} {conn : Connection} {before after log : List Exchange} {x : Exchange}

namespace Exchange.IsSkipped

theorem isWrite (hx : x.IsSkipped) : x.call.isWrite = true := by
  obtain ⟨inside, statement, live, rows, rfl, -⟩ := hx
  rfl

theorem isStatement (hx : x.IsSkipped) : x.call.isStatement = true := by
  obtain ⟨inside, statement, live, rows, rfl, -⟩ := hx
  rfl

/-- What only reads skips nothing. -/
theorem avoids_of_reads {α : Type} {p : Program α} (hx : x.IsSkipped) (hp : p.WritesAtMost 0) :
    p.Avoids x := by
  intro log result h hmem
  have hwriting : x ∈ writing log := List.mem_filter.mpr ⟨hmem, hx.isWrite⟩
  rw [hp.writing_eq_nil h] at hwriting
  cases hwriting

/-- A statement that does not ask for rows skips nothing. -/
theorem avoids_of_sends {α : Type} {p : Program α} {calls : List (Except Error Call)}
    (hx : x.IsSkipped) (hp : p.Sends calls)
    (hcalls : ∀ call, .ok call ∈ calls → ∃ inside c, call = .exec inside c) : p.Avoids x := by
  intro log result h hmem
  obtain ⟨inside, c, hcall⟩ :=
    hcalls x.call ((hp log result h).1.subset (List.mem_map_of_mem hmem))
  obtain ⟨_, _, _, _, rfl, -⟩ := hx
  cases hcall

theorem avoids_execInsert {i : Insert} (hx : x.IsSkipped) : (conn.execInsert i).Avoids x := by
  refine hx.avoids_of_sends (sends_execInsert conn i) fun call hcall => ?_
  cases hcompile : i.compile conn.dialect with
  | error e => simp [hcompile, Except.map] at hcall
  | ok statement =>
    rw [hcompile] at hcall
    exact ⟨_, _, Except.ok.inj (List.mem_singleton.mp hcall)⟩

end Exchange.IsSkipped

/-! ## Edges -/

/-- Edges are written without asking for rows. -/
theorem ExternalEdges.avoids_create (hx : x.IsSkipped) {id : Value} {edges : List Edge} :
    (create conn id edges).Avoids x := by
  refine hx.avoids_of_sends (sends_create conn id edges) fun call hcall => ?_
  rcases List.mem_append.mp hcall with hcall | hcall
  · obtain ⟨i, rfl⟩ := JoinTable.insert_of_mem hcall
    exact ⟨_, _, rfl⟩
  · obtain ⟨w, rfl⟩ := ForeignKey.update_of_mem hcall
    exact ⟨_, _, rfl⟩

/-! ## Creations -/

/-- An INSERT that is skipped reports that there is no row. -/
theorem run_queryInsert_skipped {i : Insert} {result : Except Error Rows} (hx : x.IsSkipped)
    (h : (conn.queryInsert i).Run (before ++ x :: after) result) :
    before = [] ∧ after = [] ∧ ∃ rows, rows.rows = [] ∧ result = .ok rows := by
  obtain ⟨inside, statement, live, rows, rfl, hnone⟩ := hx
  obtain ⟨_, _, front, rfl, hlift, hquery⟩ := run_bind_later (avoids_ofExcept _) h
  obtain rfl := (run_ofExcept.mp hlift).1
  obtain ⟨_, r, hlog, hr⟩ := run_query hquery
  cases front with
  | nil =>
    cases hlog
    exact ⟨rfl, rfl, rows, hnone, (hr rows).mpr rfl⟩
  | cons y front =>
    exact absurd (List.cons.inj hlog).2 (List.append_ne_nil_of_right_ne_nil _ (List.cons_ne_nil _ _))

/-- What follows a skipped INSERT goes on without a row. -/
theorem run_bind_skipped {α : Type} {i : Insert} {read : Rows → Program α}
    {result : Except Error α} (hx : x.IsSkipped) (hread : ∀ rows, (read rows).Avoids x)
    (h : (conn.queryInsert i >>= read).Run (before ++ x :: after) result) :
    before = [] ∧ ∃ rows, rows.rows = [] ∧ (read rows).Run after result := by
  rcases run_bind_sooner hread h with ⟨e, hquery, -⟩ | ⟨rows, inner, rest, rfl, hquery, hrest⟩
  · obtain ⟨-, -, _, -, he⟩ := run_queryInsert_skipped hx hquery
    cases he
  · obtain ⟨rfl, rfl, _, hnone, hrows⟩ := run_queryInsert_skipped hx hquery
    obtain rfl := Except.ok.inj hrows
    exact ⟨rfl, rows, hnone, hrest⟩

namespace NodeCreation

variable {c : NodeCreation} {supplied : Option Value} {i : Insert} {result : Except Error Value}

/-- If the row of a node is skipped, its ID is the one that it was inserted with. There is none
where the database was to assign it. -/
theorem run_insertRow_skipped (hreturning : conn.dialect.supportsReturning = true)
    (hx : x.IsSkipped) (h : (insertRow conn c supplied i).Run (before ++ x :: after) result) :
    before = [] ∧ after = [] ∧
      result = supplied.elim (.error (.notFound c.node.label)) .ok := by
  have hinserted (h : (insertedId conn c.node i supplied).Run (before ++ x :: after) result) :
      before = [] ∧ after = [] ∧
        result = supplied.elim (.error (.notFound c.node.label)) .ok := by
    unfold insertedId at h
    rw [if_pos hreturning] at h
    obtain ⟨rfl, rows, hnone, h⟩ := run_bind_skipped hx (fun rows => by
      split
      case h_1 => exact avoids_ofExcept _
      case h_2 => exact avoids_done _
      case h_3 => exact avoids_ofExcept (.error _)) h
    have hfirst : rows.firstValue? = none := by
      rw [Rows.firstValue?, hnone]
      rfl
    rw [hfirst] at h
    cases supplied with
    | none =>
      obtain ⟨rfl, rfl⟩ := run_fail.mp h
      exact ⟨rfl, rfl, rfl⟩
    | some id =>
      obtain ⟨rfl, rfl⟩ := run_done.mp h
      exact ⟨rfl, rfl, rfl⟩
  unfold insertRow at h
  split at h
  case h_1 id _ =>
    -- an INSERT with an ID and without a policy does not ask for rows
    exact absurd List.mem_append_cons_self
      ((hx.avoids_execInsert.discard.bind fun _ => avoids_done id) _ _ h)
  case h_2 => exact hinserted h

/-- If the row of a node is skipped, its creation goes on with the ID that the node was inserted
with, and fails where the database was to assign one. -/
theorem run_write_skipped (hreturning : conn.dialect.supportsReturning = true) (hx : x.IsSkipped)
    {position : Nat} (h : (write conn position c).Run (before ++ x :: after) result) :
    ∃ supplied, c.node.Supplies before supplied ∧
      (supplied = none → after = [] ∧ result = .error (.notFound c.node.label)) ∧
      ∀ id, supplied = some id →
        callsOf (writing after) <+: ExternalEdges.statements conn id c.edges ∧
        ∀ v, result = .ok v →
          v = id ∧ callsOf (writing after) = ExternalEdges.statements conn id c.edges := by
  rw [write_eq] at h
  obtain ⟨_, probes, before, rfl, -, h⟩ :=
    run_bind_later (hx.avoids_of_reads (Partner.check_reads conn c.node none c.edges [])) h
  obtain ⟨supplied, draws, before, rfl, hsupply, h⟩ :=
    run_bind_later (hx.avoids_of_reads (supplyId_reads position c.node)) h
  obtain ⟨i, _, before, rfl, hi, h⟩ := run_bind_later (avoids_ofExcept _) h
  refine ⟨supplied, (run_supplyId hsupply).mono fun y hy => by simp [hy], ?_⟩
  have hedges : ∀ id, (Program.revise position (.id id) >>= fun _ =>
      ExternalEdges.create conn id c.edges >>= fun _ => (pure id : Program Value)).Avoids x := by
    intro id
    refine Avoids.bind (hx.avoids_of_reads (writesAtMost_revise _ _)) fun _ => ?_
    exact (ExternalEdges.avoids_create hx).bind fun _ => avoids_done id
  rcases run_bind_sooner hedges h with ⟨e, hrow, rfl⟩ | ⟨id, inner, rest, rfl, hrow, hcreate⟩
  · obtain ⟨-, rfl, hresult⟩ := run_insertRow_skipped hreturning hx hrow
    cases supplied with
    | none =>
      obtain rfl := Except.error.inj hresult
      exact ⟨fun _ => ⟨rfl, rfl⟩, nofun⟩
    | some id => cases hresult
  · obtain ⟨-, rfl, hresult⟩ := run_insertRow_skipped hreturning hx hrow
    cases supplied with
    | none => cases hresult
    | some v =>
      obtain rfl := Except.ok.inj hresult
      refine ⟨nofun, ?_⟩
      rintro _ ⟨⟩
      exact run_create hcreate

end NodeCreation

/-! ## Batches -/

namespace BoundRows

variable {b : BoundRows} {node : Node} {i : Insert} {result : Except Error (List Value)}

/-- Nodes whose rows are skipped together have no IDs. -/
theorem run_upsertedIds_skipped (hreturning : conn.dialect.supportsReturning = true)
    (hx : x.IsSkipped) {policy : ConflictPolicy}
    (h : (b.upsertedIds conn node i policy).Run (before ++ x :: after) result) :
    before = [] ∧ after = [] ∧ result = .ok b.noIds := by
  unfold upsertedIds storedRows at h
  dsimp only at h
  rw [if_pos hreturning, bind_assoc] at h
  obtain ⟨rfl, rows, hnone, h⟩ := run_bind_skipped hx (fun rows => avoids_ofExcept _) h
  obtain ⟨rfl, rfl⟩ := run_ofExcept.mp h
  rw [hnone]
  exact ⟨rfl, rfl, rfl⟩

theorem run_insertedIds_skipped (hreturning : conn.dialect.supportsReturning = true)
    (hx : x.IsSkipped) (h : (b.insertedIds conn node i).Run (before ++ x :: after) result) :
    before = [] ∧ after = [] ∧ result = .ok b.noIds := by
  unfold insertedIds at h
  rw [if_pos hreturning] at h
  obtain ⟨rfl, rows, hnone, h⟩ := run_bind_skipped hx (fun rows => avoids_ofExcept _) h
  rw [hnone] at h
  obtain ⟨rfl, rfl⟩ := run_ofExcept.mp h
  refine ⟨rfl, rfl, ?_⟩
  cases b.noIds <;> rfl

end BoundRows

namespace BatchCreation

variable {b : BatchCreation} {result : Except Error (List Value)}

theorem run_insertRows_skipped (hreturning : conn.dialect.supportsReturning = true)
    (hx : x.IsSkipped) {node : Node} {policy : Option ConflictPolicy} {supplied : List Value}
    {rows : BoundRows}
    (h : (insertRows conn node policy supplied rows).Run (before ++ x :: after) result) :
    before = [] ∧ after = [] ∧ result = .ok rows.noIds := by
  unfold insertRows at h
  dsimp only at h
  split at h
  case h_1 => exact BoundRows.run_upsertedIds_skipped hreturning hx h
  case h_2 =>
    split at h
    case isTrue => exact BoundRows.run_insertedIds_skipped hreturning hx h
    case isFalse =>
      -- an INSERT with IDs and without a policy does not ask for rows
      exact absurd List.mem_append_cons_self
        (((hx.avoids_execInsert).discard.bind fun _ => avoids_done supplied) _ _ h)

theorem avoids_addEdges (hx : x.IsSkipped) {nodes : List NodeCreation} {ids : List Value} :
    (addEdges conn nodes ids).Avoids x := by
  refine hx.avoids_of_sends (sends_addEdges conn nodes ids) fun call hcall => ?_
  rcases List.mem_append.mp hcall with hcall | hcall
  · obtain ⟨i, rfl⟩ := JoinTable.insert_of_mem hcall
    exact ⟨_, _, rfl⟩
  · obtain ⟨p, -, hcall⟩ := List.mem_flatMap.mp hcall
    obtain ⟨w, rfl⟩ := ForeignKey.update_of_mem hcall
    exact ⟨_, _, rfl⟩

/-- Nodes that are created one after another stop at the first whose row is skipped. -/
theorem run_createEach_skipped (hreturning : conn.dialect.supportsReturning = true)
    (hx : x.IsSkipped) {nodes : List NodeCreation} (hleaves : ∀ c ∈ nodes, c.LeavesId) {i : Nat}
    (h : (createEach conn i nodes).Run (before ++ x :: after) result) :
    after = [] ∧ ∃ e, result = .error e := by
  induction nodes generalizing before after i result with
  | nil => exact absurd List.mem_append_cons_self (avoids_done _ _ _ h)
  | cons c rest ih =>
    obtain ⟨hleavesId, hrest⟩ := List.forall_mem_cons.mp hleaves
    have hstops {more : List Exchange} {written : Except Error Value}
        (hwrite : (NodeCreation.write conn i c).Run (before ++ x :: more) written) :
        more = [] ∧ ∃ e, written = .error e := by
      obtain ⟨supplied, hsupplies, hnone, -⟩ :=
        NodeCreation.run_write_skipped hreturning hx hwrite
      obtain ⟨rfl, rfl⟩ := hnone ((NodeCreation.leavesId_iff hsupplies).mp hleavesId)
      exact ⟨rfl, _, rfl⟩
    rcases run_bind_split h with
      ⟨e, hwrite, rfl⟩ | ⟨id, inner, last, -, hwrite, -⟩ | ⟨id, first, before, rfl, -, h⟩
    · exact ⟨(hstops hwrite).1, e, rfl⟩
    · obtain ⟨_, he⟩ := (hstops hwrite).2
      cases he
    · rcases run_bind_sooner (fun ids => avoids_done (id :: ids)) h with
        ⟨e, hothers, rfl⟩ | ⟨ids, inner, last, -, hothers, -⟩
      · exact ⟨(ih hrest hothers).1, e, rfl⟩
      · obtain ⟨_, he⟩ := (ih hrest hothers).2
        cases he

/-- Nodes without IDs have nothing written for their edges. -/
theorem addEdges_skipped (conn : Connection) (nodes : List NodeCreation) (ids : List Value)
    (hids : ∀ id ∈ ids, id = .null) : addEdges conn nodes ids = pure () := by
  have hnone : (nodes.zip ids).filter (fun p => !p.2.isNull) = [] := by
    refine List.filter_eq_nil_iff.mpr fun p hp => ?_
    rw [hids p.2 (List.of_mem_zip hp).2]
    decide
  unfold addEdges
  dsimp only
  rw [hnone]
  rfl

/-- If the rows of a batch whose nodes do not refer to each other are skipped, no node has an ID and
nothing is written for the edges. -/
theorem run_createBulk_skipped (hreturning : conn.dialect.supportsReturning = true)
    (hx : x.IsSkipped) (h : (createBulk conn b).Run (before ++ x :: after) result) :
    writing after = [] ∧ ∀ ids, result = .ok ids → ids = b.nodes.map fun _ => .null := by
  unfold createBulk at h
  obtain ⟨rows, checks, before, rfl, hrows, h⟩ :=
    run_bind_later (hx.avoids_of_reads (ownRows_reads conn b.nodes 0 [])) h
  have hrows := ownRows_are_of hrows
  split at h
  case h_1 => exact absurd List.mem_append_cons_self (avoids_done [] _ _ h)
  case h_2 first others hnodes =>
    dsimp only at h
    split at h
    case isTrue => exact absurd List.mem_append_cons_self (avoids_ofExcept (.error _) _ _ h)
    case isFalse =>
      split at h
      case isTrue hcolumns =>
        rw [List.isEmpty_iff] at hcolumns
        obtain ⟨rfl, e, rfl⟩ := run_createEach_skipped hreturning hx
          (fun c hc => (leavesId_of_no_columns hrows hcolumns hc).1) h
        exact ⟨rfl, nofun⟩
      case isFalse =>
        have htail : ∀ ids, (reviseIds 0 ids >>= fun _ => addEdges conn b.nodes ids >>=
            fun _ => (pure ids : Program (List Value))).Avoids x := by
          intro ids
          refine Avoids.bind (hx.avoids_of_reads (reviseIds_reads ids 0)) fun _ => ?_
          exact (avoids_addEdges hx).bind fun _ => avoids_done ids
        rcases run_bind_sooner htail h with ⟨e, hinsert, rfl⟩ | ⟨ids, inner, rest, rfl, hinsert, h⟩
        · cases (run_insertRows_skipped hreturning hx hinsert).2.2
        · obtain ⟨-, rfl, hids⟩ := run_insertRows_skipped hreturning hx hinsert
          obtain rfl := Except.ok.inj hids
          rw [addEdges_skipped conn b.nodes _ fun id hid => by
            obtain ⟨_, -, rfl⟩ := List.mem_map.mp hid
            rfl] at h
          refine ⟨((reviseIds_reads _ 0).then_bind fun _ => writesAtMost_done _).writing_eq_nil h, ?_⟩
          rintro ids' rfl
          obtain ⟨_, _, _, -, -, h⟩ := run_bind_ok.mp h
          obtain rfl := Except.ok.inj (run_done.mp h).2
          simp only [BoundRows.noIds, List.map_map, Function.comp_def, List.map_const',
            hrows.length_eq]

/-- If the rows of a batch whose nodes do not refer to each other are skipped, no node has an ID and
nothing is written for the edges. -/
theorem run_skipped (hreturning : d.supportsReturning = true)
    (hdirect : ∀ c ∈ b.nodes, c.dependencies = []) (hx : x.IsSkipped)
    (h : (b.run d).Run (before ++ x :: after) result) :
    writing after = [] ∧ ∀ ids, result = .ok ids → ids = b.nodes.map fun _ => .null := by
  obtain ⟨p, conn, opening, first, rest, ending, outcome, hplan, rfl, -, rfl, hquiet, hbody, -,
    hresult⟩ := Mutation.run_split (m := .batchCreate b) hx.isStatement h
  have hbulk : (createBulk conn b).Run (first ++ x :: rest) outcome := by
    cases Mutation.batch_planned hplan with
    | nothing => exact absurd List.mem_append_cons_self (avoids_done [] _ _ hbody)
    | chain _ hrefers =>
      obtain ⟨c, hc, hrefers⟩ := hrefers
      exact absurd (hdirect c hc) hrefers
    | bulk => exact hbody
  obtain ⟨hwriting, hids⟩ := run_createBulk_skipped hreturning hx hbulk
  refine ⟨?_, fun ids hok => hids ids (hresult ids hok)⟩
  rw [writing_append, hwriting, writing_eq_nil_of_quiet fun y hy =>
    hquiet y (List.mem_append_right _ hy)]
  rfl

end BatchCreation

/-! ## Reports -/

/-- What is reported of a node whose row has been skipped. If the database was to assign its ID,
nothing has been found, and nothing more is written. If the ID was given with the node or drawn for
it, the creation goes on with that ID: it writes the edges, and the ID is its result. A batch of the
same node has no ID for it in either case, and writes no edge. -/
theorem NodeCreation.skipped_not_found {c : NodeCreation} {result : Except Error Value}
    (hreturning : d.supportsReturning = true)
    (hrun : (c.run d).Run (before ++ x :: after) result) (hskipped : x.IsSkipped) :
    (c.LeavesId → writing after = [] ∧
      ∃ e, result = .error e ∧ e.cause = .notFound c.node.label) ∧
    (¬c.LeavesId → ∃ conn id, conn.dialect = d ∧ c.node.Supplies before (some id) ∧
      callsOf (writing after) <+: ExternalEdges.statements conn id c.edges ∧
      ∀ v, result = .ok v →
        v = id ∧ callsOf (writing after) = ExternalEdges.statements conn id c.edges) ∧
    ∀ b : BatchCreation, b.nodes = [c] → ∀ before' y after' result',
      (b.run d).Run (before' ++ y :: after') result' → y.IsSkipped →
        writing after' = [] ∧ ∀ ids, result' = .ok ids → ids = [.null] := by
  obtain ⟨p, conn, opening, first, rest, ending, outcome, hplan, rfl, rfl, rfl, hquiet, hbody,
    herror, hresult⟩ := Mutation.run_split (m := .createNode c) hskipped.isStatement hrun
  obtain ⟨_, hchecked, hplan⟩ := bind_eq_ok.mp hplan
  obtain rfl := Except.ok.inj hplan
  have hdirect : c.dependencies = [] := List.flatMap_eq_nil_iff.mpr fun e he =>
    (Edge.checkDirect_eq_ok.mp (forM_eq_ok.mp hchecked e he)).1
  obtain ⟨supplied, hsupplies, hnone, hsome⟩ := run_write_skipped hreturning hskipped hbody
  have hwriting : writing (rest ++ ending) = writing rest := by
    rw [writing_append, writing_eq_nil_of_quiet fun y hy => hquiet y (List.mem_append_right _ hy),
      List.append_nil]
  refine ⟨fun hleaves => ?_, fun hleaves => ?_, ?_⟩
  case refine_1 =>
    obtain ⟨rfl, rfl⟩ := hnone ((leavesId_iff hsupplies).mp hleaves)
    obtain ⟨e, rfl, hcause⟩ := herror _ rfl
    exact ⟨hwriting, e, rfl, hcause⟩
  case refine_2 =>
    obtain ⟨id, rfl⟩ := Option.ne_none_iff_exists'.mp fun hnone =>
      hleaves ((leavesId_iff hsupplies).mpr hnone)
    obtain ⟨hfront, hall⟩ := hsome id rfl
    rw [hwriting]
    exact ⟨conn, id, rfl, hsupplies.mono (List.subset_append_right _ _), hfront, fun v hv =>
      hall v (hresult v hv)⟩
  case refine_3 =>
    intro b hb before' y after' result' hbatch hy
    have h := BatchCreation.run_skipped hreturning (by simpa [hb] using hdirect) hy hbatch
    rwa [hb] at h

/-- A user with an email and a friend, whose ID is drawn. The user is skipped if there is one with
this email. -/
def newcomer : NodeCreation :=
  { NodeCreation.ofNode { Node.ofTable "users" ⟨"id", .uuid, .null⟩ with
      strategy := .generator .countingUuids } with
    fields := [⟨"email", .string, .string "ann"⟩]
    edges := [{ Edge.manyToMany "friends" "user_id" "friend_id" with
      target := { nodes := [.int 8], id := ⟨"id", .int, .null⟩, fields := [], pending := [] } }]
    policy := some ⟨["email"], .doNothing⟩ }

/-- The ID that is drawn for the newcomer. -/
def newcomerId : Value := .uuid (IdGenerator.numberedUuid 1)

/-- The row of the newcomer is skipped. -/
def newcomerSkipped (returning : List String) : Exchange :=
  ⟨.query true (.insert
      { table := "users", columns := ["id", "email"], rows := [[newcomerId, .string "ann"]]
        conflict := some (.doNothing ["email"]), returning }), true,
    (.done ⟨returning, []⟩ : Outcome Rows)⟩

/-- What comes before: the ID is drawn. -/
def newcomerDrawn : List Exchange :=
  [⟨.begin, true, (.done () : Outcome Unit)⟩,
    ⟨.draw .countingUuids, true, newcomerId⟩,
    ⟨.revise 0 (.id newcomerId), true, ()⟩]

/-- What comes after: the friend is written. -/
def newcomerLinked : List Exchange :=
  [⟨.revise 0 (.id newcomerId), true, ()⟩,
    ⟨.exec true (.insert
        { table := "friends", columns := ["user_id", "friend_id"], rows := [[newcomerId, .int 8]]
          conflict := some (.doNothing []), returning := [] }), true,
      (.done ⟨1, none⟩ : Outcome ExecResult)⟩,
    ⟨.check, true, (.ok () : Except Interruption Unit)⟩,
    ⟨.commit, true, (.ok () : Except Failure Unit)⟩]

theorem newcomer_run : (newcomer.run .sqlite).Run
    (newcomerDrawn ++ newcomerSkipped ["id"] :: newcomerLinked) (.ok newcomerId) := by
  repeat apply Run.call
  exact .done _

theorem newcomer_is_skipped {returning : List String} : (newcomerSkipped returning).IsSkipped :=
  ⟨_, _, _, _, rfl, rfl⟩

/-- The ID that was drawn for the newcomer is returned and gets a friend, although no row has been
stored. A batch of the newcomer alone has no ID and writes no friend. -/
theorem skipped_newcomer_reported :
    (newcomer.run .sqlite).Run (newcomerDrawn ++ newcomerSkipped ["id"] :: newcomerLinked)
        (.ok newcomerId) ∧
      (newcomerSkipped ["id"]).IsSkipped ∧
      ⟨.draw .countingUuids, true, newcomerId⟩ ∈ newcomerDrawn ∧
      (∃ y ∈ newcomerLinked, ∃ inside i, y.call = .exec inside (.insert i) ∧
        i.table = "friends" ∧ i.rows = [[newcomerId, .int 8]]) ∧
      ((⟨[newcomer], none⟩ : BatchCreation).run .sqlite).Run
        (newcomerDrawn ++ newcomerSkipped ["id", "email"] ::
          [⟨.revise 0 (.id .null), true, ()⟩, ⟨.check, true, (.ok () : Except Interruption Unit)⟩,
            ⟨.commit, true, (.ok () : Except Failure Unit)⟩]) (.ok [.null]) := by
  refine ⟨newcomer_run, newcomer_is_skipped, List.mem_cons_of_mem _ List.mem_cons_self,
    ⟨_, List.mem_cons_of_mem _ List.mem_cons_self, _, _, rfl, rfl, rfl⟩, ?_⟩
  repeat apply Run.call
  exact .done _

/-- The newcomer does not leave the ID to the database, so the skipped row is no failure. -/
theorem skipped_not_found_newcomer :
    (newcomer.run .sqlite).Run (newcomerDrawn ++ newcomerSkipped ["id"] :: newcomerLinked)
        (.ok newcomerId) ∧
      (∃ conn, conn.dialect = .sqlite ∧ newcomer.node.Supplies newcomerDrawn (some newcomerId) ∧
        callsOf (writing newcomerLinked) =
          ExternalEdges.statements conn newcomerId newcomer.edges) ∧
      ∀ b : BatchCreation, b.nodes = [newcomer] → ∀ before y after result,
        (b.run .sqlite).Run (before ++ y :: after) result → y.IsSkipped →
          writing after = [] ∧ ∀ ids, result = .ok ids → ids = [.null] := by
  obtain ⟨-, hsupplied, hbatch⟩ :=
    NodeCreation.skipped_not_found rfl newcomer_run newcomer_is_skipped
  obtain ⟨conn, id, hdialect, hsupplies, -, hresult⟩ := hsupplied fun h => by cases h.2
  obtain ⟨rfl, hlinks⟩ := hresult _ rfl
  exact ⟨newcomer_run, ⟨conn, hdialect, hsupplies, hlinks⟩, hbatch⟩

end EntityGraph
