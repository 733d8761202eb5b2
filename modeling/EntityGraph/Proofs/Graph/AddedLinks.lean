import EntityGraph.Proofs.Graph.BulkUpserts
import EntityGraph.Proofs.Graph.LinkingRuns
import EntityGraph.Proofs.Graph.OneToOneBatches
import EntityGraph.Proofs.Graph.SentStatements

/-!
# The edges that a mutation has added

A mutation that has a result has added its edges to certain nodes: to the one that it has created, to
those of a batch, or to those that an update has named or found. `Mutation.Adds` says which edges
these are, with the IDs of their nodes. Then what is sent has three parts: reads, the statements about
own rows and edges to be cleared, and the statements that write these edges, which are INSERTs into
join tables and UPDATEs of the targets' rows.
-/

set_option autoImplicit false

namespace EntityGraph

open Program

variable {d : Dialect} {conn : Connection} {log : List Exchange}
  {links : List (List Value × Edge)}

/-! ## Statements that write edges -/

/-- The statements that write edges which are stored outside their nodes' rows: an INSERT of those of
one join table, or an UPDATE that links the targets of one. -/
inductive WritesLinks (d : Dialect) (links : List (List Value × Edge)) : Command → Prop
  | pairs {group : List (List Value × Edge)} {i : Insert} {statement : InsertStatement}
      (some_links : group ≠ []) (mem : group ⊆ links)
      (joined : ∀ link ∈ group, link.2.isManyToMany = true ∧ link.2.table = statement.table)
      (insert : JoinTable.insertOf statement.table group = .ok i)
      (compiled : i.compile d = .ok statement) : WritesLinks d links (.insert statement)
  | targets {id : Value} {e : Edge} {fk : String} (mem : ([id], e) ∈ links)
      (stored : e.isForeignKeyEdge = true) (column : e.columns = [fk]) :
      WritesLinks d links (.update (ForeignKey.linking id fk e))

theorem WritesLinks.mono {links' : List (List Value × Edge)} {s : Command}
    (h : WritesLinks d links s) (hsub : links ⊆ links') : WritesLinks d links' s := by
  cases h with
  | pairs hsome hmem hjoined hinsert hcompiled =>
    exact .pairs hsome (List.Subset.trans hmem hsub) hjoined hinsert hcompiled
  | targets hmem hstored hcolumn => exact .targets (hsub hmem) hstored hcolumn

/-- The INSERTs into join tables write edges. -/
theorem JoinTable.writesLinks_of_mem {call : Call} (h : .ok call ∈ statements conn links) :
    ∃ s, call.statement? = some s ∧ WritesLinks conn.dialect links s := by
  obtain ⟨g, hg, hcall⟩ := List.mem_flatMap.mp h
  obtain ⟨hsome, hgroup⟩ := mem_of_groupByName hg
  cases hinsert : insertOf g.1 g.2 with
  | error e => simp [hinsert] at hcall
  | ok i =>
    rw [hinsert] at hcall
    dsimp only at hcall
    split at hcall
    case isTrue => cases hcall
    case isFalse =>
      cases hcompile : i.compile conn.dialect with
      | error e => simp [hcompile, Except.map] at hcall
      | ok statement =>
        rw [hcompile] at hcall
        obtain rfl := Except.ok.inj (List.mem_singleton.mp hcall)
        have htable : statement.table = g.1 := by
          rw [compile_table hcompile, insertOf_table hinsert]
        refine ⟨_, rfl, @WritesLinks.pairs _ _ g.2 _ _ hsome ?_ ?_ (htable ▸ hinsert) hcompile⟩
        · exact fun link hmem => ((hgroup link).mp hmem).1
        · exact fun link hmem => htable ▸ ((hgroup link).mp hmem).2

/-- The UPDATEs of the targets' rows write edges. -/
theorem ForeignKey.writesLinks_of_mem {id : Value} {edges : List Edge} {call : Call}
    (h : .ok call ∈ statements conn id edges) :
    ∃ s, call.statement? = some s ∧ WritesLinks d (edges.map fun e => ([id], e)) s := by
  obtain ⟨e, he, hcall⟩ := List.mem_map.mp h
  obtain ⟨hmem, hstored⟩ := List.mem_filter.mp he
  cases hfk : e.foreignKey with
  | error why => simp [hfk, Except.map] at hcall
  | ok fk =>
    rw [hfk] at hcall
    obtain rfl := Except.ok.inj hcall
    exact ⟨_, rfl, .targets (List.mem_map_of_mem hmem) (Bool.and_eq_true_iff.mp hstored).1
      (Edge.foreignKey_eq_ok.mp hfk)⟩

/-- What writes the edges of a new node writes them with its ID. -/
theorem ExternalEdges.writesLinks_of_mem {id : Value} {edges : List Edge} {call : Call}
    (h : .ok call ∈ statements conn id edges) :
    ∃ s, call.statement? = some s ∧
      WritesLinks conn.dialect (edges.map fun e => ([id], e)) s :=
  (List.mem_append.mp h).elim JoinTable.writesLinks_of_mem ForeignKey.writesLinks_of_mem

/-- A program that sends fixed calls sends their statements only. -/
theorem Program.Sends.issues {α : Type} {p : Program α} {calls : List (Except Error Call)}
    {P : Command → Prop} (h : p.Sends calls)
    (hcalls : ∀ call, .ok call ∈ calls → ∃ s, call.statement? = some s ∧ P s) : p.Issues P := by
  refine issues_iff.mpr fun log result hrun x hx s hs => ?_
  have hmem : .ok x.call ∈ callsOf log := List.mem_map_of_mem hx
  obtain ⟨s', hs', hP⟩ := hcalls _ ((h log result hrun).1.subset hmem)
  obtain rfl := Option.some.inj (hs.symm.trans hs')
  exact hP

theorem JoinTable.issues_links : (add conn links).Issues (WritesLinks conn.dialect links) :=
  (sends_add conn links).issues fun _ => writesLinks_of_mem

/-- Targets are linked to one node, or to none. -/
theorem ForeignKey.issues_links {ids : List Value} {edges : List Edge} :
    (add conn ids edges).Issues (WritesLinks d (edges.map fun e => (ids, e))) := by
  unfold add
  split
  case h_1 => exact issues_done _
  case h_2 id _ =>
    refine maintains_forM fun e he => (sends_link conn id e).issues fun call hcall => ?_
    have hmem : .ok call ∈ statements conn id edges :=
      List.mem_map.mpr ⟨e, he, (List.mem_singleton.mp hcall).symm⟩
    exact writesLinks_of_mem hmem
  case h_3 => exact issues_fail _

/-! ## Mutations -/

/-- The INSERT of a new node's own row. -/
def NodeCreation.InsertsRow (d : Dialect) (c : NodeCreation) (s : Command) : Prop :=
  ∃ supplied i returning, ∃ statement : InsertStatement, c.insertion d supplied = .ok i ∧
    { i with returning }.compile d = .ok statement ∧ s = .insert statement

namespace BatchCreation

/-- The INSERTs of the own rows of a batch: of one node, whose references may be resolved, or of all
nodes together. -/
inductive InsertsRows (d : Dialect) (b : BatchCreation) : Command → Prop
  | single {c : NodeCreation} {edges : List Edge} {policy : Option ConflictPolicy} {s : Command}
      (mem : c ∈ b.nodes) (row : { c with edges, policy }.InsertsRow d s) : InsertsRows d b s
  | together {first : NodeCreation} {rows : List OwnRow} {returning : List String}
      {statement : InsertStatement} (head : b.nodes.head? = some first)
      (own : List.Forall₂ OwnRow.IsOf b.nodes rows)
      (compiled : { insertOf first.node.table first.node.id.column rows returning with
        policy := b.policy.or first.policy }.compile d = .ok statement) :
      InsertsRows d b (.insert statement)

/-- The edges of the nodes of a batch, with the IDs of the nodes, which also stand for references
to them. -/
def linksWith (b : BatchCreation) (ids : List Value) : List (List Value × Edge) :=
  (b.nodes.zip ids).flatMap fun p =>
    p.1.edges.map fun e => ([p.2], e.withIds fun i => ids[i]?.getD .null)

end BatchCreation

/-- The statements of an update that write no edges outside the nodes' own rows: the UPDATE of these
rows, and those that clear edges. -/
inductive NodeUpdate.WritesRows (u : NodeUpdate) : Command → Prop
  | own {own : Update} {rows : Option Predicate} (columns : u.ownUpdate = .ok own) :
      WritesRows u (.update { own with predicate := rows })
  | clearsPairs {table : String} {ids : List Value} {edges : List Edge} {x : Delete}
      (mem : edges ⊆ u.edges.clear) (clearing : JoinTable.clearing table ids edges = .ok x) :
      WritesRows u (.delete x)
  | clearsTargets {ids : List Value} {e : Edge} {w : Update} (mem : e ∈ u.edges.clear)
      (clearing : ForeignKey.clearing ids e = .ok w) : WritesRows u (.update w)

/-- The nodes of these IDs are those that the database has reported to an update. -/
def NodeUpdate.HasFound (u : NodeUpdate) (log : List Exchange) (ids : List Value) : Prop :=
  ∃ inside live s, ∃ rows : Rows,
    ⟨.query inside (.select s), live, (.done rows : Outcome Rows)⟩ ∈ log ∧
      (rows.rows.filterMap List.head?).mapM u.node.readId = .ok ids

namespace Mutation

/-- The statements of a mutation that write the own rows of its nodes, or clear edges. -/
def WritesRows (d : Dialect) : Mutation → Command → Prop
  | .createNode c, s => c.InsertsRow d s
  | .batchCreate b, s => b.InsertsRows d s
  | .updateNode u, s | .updateNodes u, s => u.WritesRows s
  | .deleteNode _, s | .deleteNodes _, s => ∃ x, s = .delete x

/-- The edges that a mutation with a result has added, with the IDs of their nodes. An update under a
condition adds its edges to the nodes that the database has reported; one that needs no IDs adds
edges in own rows only. -/
def Adds : (m : Mutation) → List Exchange → m.Result → List (List Value × Edge) → Prop
  | .createNode c, _, id, links => links = c.edges.map fun e => ([id], e)
  | .batchCreate b, _, ids, links => links = b.linksWith ids
  | .updateNode u, _, _, links =>
    ∃ id, u.node.id.bindValue = .ok id ∧ links = u.edges.add.map fun e => ([id], e)
  | .updateNodes u, log, n, links =>
    (u.needsIds = false ∧ links = []) ∨ ∃ ids, u.HasFound log ids ∧ n = ids.length ∧
      links = u.edges.add.map fun e => (ids, e)
  | .deleteNode _, _, _, links | .deleteNodes _, _, _, links => links = []

/-- What a mutation that adds these edges sends: it reads, it writes own rows or clears edges, and it
writes the edges. -/
def SendsFor (d : Dialect) (m : Mutation) (links : List (List Value × Edge)) (s : Command) : Prop :=
  s.IsRead ∨ m.WritesRows d s ∨ WritesLinks d links s

end Mutation

section

variable {P : Command → Prop} {before after : List Exchange}

theorem onlySends_nil : OnlySends P [] := fun _ hx => absurd hx List.not_mem_nil

theorem OnlySends.append (h : OnlySends P before) (h' : OnlySends P after) :
    OnlySends P (before ++ after) :=
  fun x hx => (List.mem_append.mp hx).elim (h x) (h' x)

/-- A call that sends no statement does not matter. -/
theorem OnlySends.cons_quiet {x : Exchange} (hx : x.call.statement? = none)
    (h : OnlySends P after) : OnlySends P (x :: after) := by
  refine List.forall_mem_cons.mpr ⟨fun s hs => ?_, h⟩
  rw [hx] at hs
  cases hs

/-- A property of all statements that read, and of those that a run sends to change rows. -/
theorem onlySends_of_writing (hread : ∀ s, s.IsRead → P s) (h : OnlySends P (writing log)) :
    OnlySends P log := by
  intro x hx s hs
  cases hwrite : s.isWrite with
  | false => exact hread s hwrite
  | true =>
    have hcall : x.call.isWrite = true := by
      obtain ⟨c, live, r⟩ := x
      cases c <;> cases hs
      all_goals exact hwrite
    exact h x (List.mem_filter.mpr ⟨hx, hcall⟩) s hs

end

/-- The beginning and the end of a transaction send no statements. -/
theorem Program.sends_connection {α : Type} {transactional : Bool}
    {body : Connection → Program α} {a : α}
    (h : (Connection.run d transactional body).Run log (.ok a)) :
    ∃ conn inner, conn.dialect = d ∧ inner ⊆ log ∧ (body conn).Run inner (.ok a) ∧
      ∀ P, OnlySends P inner → OnlySends P log := by
  cases transactional with
  | false => exact ⟨⟨d, false⟩, log, rfl, List.Subset.refl log, h, fun _ => id⟩
  | true =>
    rcases run_connection.mp h with
      ⟨live, r, e, -, -, he⟩ | ⟨live, inner, ending, outcome, rfl, hinner, hfinish⟩
    · cases he
    have hending : outcome = .ok a ∧ ∀ P, OnlySends P ending := by
      cases outcome with
      | error e =>
        obtain ⟨_, _, -, he⟩ := run_finish_error.mp hfinish
        cases he
      | ok b =>
        rcases run_finish_ok.mp hfinish with ⟨_, _, _, _, -, he⟩ | ⟨_, _, r, rfl, hr⟩
        · cases he
        · cases r with
          | error f => cases hr
          | ok _ =>
            exact ⟨hr.symm, fun P => .cons_quiet rfl (.cons_quiet rfl onlySends_nil)⟩
    refine ⟨⟨d, true⟩, inner, rfl, fun x hx => by simp [hx], hending.1 ▸ hinner, fun P hP => ?_⟩
    exact .cons_quiet rfl (hP.append (hending.2 P))

/-- What follows from the plan of a mutation for its runs. -/
theorem Mutation.sends_plan {m : Mutation} {a : m.Result} (h : (m.program d).Run log (.ok a)) :
    ∃ p conn inner, m.plan = .ok p ∧ conn.dialect = d ∧ inner ⊆ log ∧
      (p.body conn).Run inner (.ok a) ∧ ∀ P, OnlySends P inner → OnlySends P log := by
  rw [program_eq] at h
  obtain ⟨p, none, after, rfl, hplan, hrun⟩ := run_bind_ok.mp h
  obtain ⟨rfl, hp⟩ := run_ofExcept.mp hplan
  obtain ⟨conn, inner, hdialect, hinner, hbody, hsends⟩ := sends_connection hrun
  exact ⟨p, conn, inner, hp.symm, hdialect, hinner, hbody, hsends⟩

/-! ## Creations -/

/-- If all statements that write the edges of a node have been sent, each edge has been. -/
theorem ExternalEdges.sent_of_statements {id : Value} {edges : List Edge} {e : Edge}
    (h : ∀ x ∈ statements conn id edges, x ∈ callsOf log) (he : e ∈ edges) :
    e.IsSent conn id log where
  rows := JoinTable.sent_of_statements (fun x hx => h x (List.mem_append_left _ hx))
    (List.mem_map_of_mem he)
  link := ForeignKey.sent_of_statements (fun x hx => h x (List.mem_append_right _ hx)) he

namespace NodeCreation

variable {c : NodeCreation} {supplied : Option Value} {id : Value}

/-- The call that is made for the own row of a node sends an INSERT of it. -/
theorem ownCall_eq_ok {call : Call} (h : c.ownCall conn supplied = .ok call) :
    ∃ i returning statement, c.insertion conn.dialect supplied = .ok i ∧
      { i with returning }.compile conn.dialect = .ok statement ∧
      call.statement? = some (.insert statement) := by
  obtain ⟨i, hinsertion, hsent⟩ := bind_eq_ok.mp h
  have hmap : ∀ {j : Insert} {send : InsertStatement → Call}, (j.compile conn.dialect).map send =
      .ok call → ∃ statement, j.compile conn.dialect = .ok statement ∧ call = send statement := by
    intro j send hsend
    cases hcompile : j.compile conn.dialect with
    | error e =>
      rw [hcompile] at hsend
      cases hsend
    | ok statement =>
      rw [hcompile] at hsend
      exact ⟨statement, rfl, (Except.ok.inj hsend).symm⟩
  split at hsent
  all_goals
    obtain ⟨statement, hcompile, rfl⟩ := hmap hsent
    exact ⟨i, _, statement, hinsertion, hcompile, rfl⟩

theorem insertsRow_of_ownCall {call : Call} (h : c.ownCall conn supplied = .ok call) {s : Command}
    (hs : call.statement? = some s) : c.InsertsRow conn.dialect s := by
  obtain ⟨i, returning, statement, hinsertion, hcompile, hsends⟩ := ownCall_eq_ok h
  exact ⟨supplied, i, returning, statement, hinsertion, hcompile,
    Option.some.inj (hs.symm.trans hsends)⟩

/-- What has been sent when a node has been written: its own row, and its edges. -/
structure IsWritten (conn : Connection) (c : NodeCreation) (id : Value) (log : List Exchange) :
    Prop where
  sends : OnlySends (fun s => s.IsRead ∨ c.InsertsRow conn.dialect s ∨
    WritesLinks conn.dialect (c.edges.map fun e => ([id], e)) s) log
  edges : ∀ e ∈ c.edges, e.IsSent conn id log

/-- A turn that is taken to its end writes its node. -/
theorem isWritten_of_turn {t : Turn} (h : t.Conforms conn) (hid : t.id = some id)
    (hcomplete : t.IsComplete conn) : t.creation.IsWritten conn id t.log := by
  obtain ⟨id', hid', hcalls⟩ := hcomplete
  obtain rfl : id' = id := Option.some.inj (hid'.symm.trans hid)
  have hlinks : ∀ x ∈ t.links, .ok x.call ∈ ExternalEdges.statements conn id' t.creation.edges :=
    fun x hx => hcalls ▸ mem_callsOf.mpr ⟨x, hx, rfl⟩
  constructor
  · refine onlySends_of_writing (fun s => .inl) ?_
    rw [h.writing]
    refine List.forall_mem_cons.mpr ⟨?_, fun x hx s hs => ?_⟩
    · exact fun s hs => .inr (.inl (insertsRow_of_ownCall h.own hs))
    · obtain ⟨s', hs', hwrites⟩ := ExternalEdges.writesLinks_of_mem (hlinks x hx)
      obtain rfl := Option.some.inj (hs.symm.trans hs')
      exact .inr (.inr hwrites)
  · intro e he
    have hsent : e.IsSent conn id' t.links :=
      ExternalEdges.sent_of_statements (fun x hx => hcalls ▸ hx) he
    refine hsent.mono fun x hx => ?_
    have hmem : x ∈ writing t.log := h.writing ▸ List.mem_cons_of_mem _ hx
    exact List.mem_of_mem_filter hmem

theorem isWritten_of_write {position : Nat} (h : (write conn position c).Run log (.ok id)) :
    c.IsWritten conn id log := by
  rcases run_write h with ⟨-, e, he⟩ | ⟨t, -, rfl, rfl, hconforms, hdone⟩
  · cases he
  · obtain ⟨hid, hcomplete⟩ := hdone id rfl
    exact isWritten_of_turn hconforms hid hcomplete

end NodeCreation

/-! ## Batches -/

namespace BatchCreation

variable {b : BatchCreation} {c : NodeCreation} {ids : List Value}

theorem mem_linksWith {link : List Value × Edge} : link ∈ b.linksWith ids ↔
    ∃ i : Nat, ∃ c : NodeCreation, ∃ id, ∃ e : Edge, b.nodes[i]? = some c ∧ ids[i]? = some id ∧
      e ∈ c.edges ∧ link = ([id], e.withIds fun i => ids[i]?.getD .null) := by
  unfold linksWith
  rw [List.mem_flatMap]
  constructor
  · rintro ⟨⟨c, id⟩, hp, hlink⟩
    obtain ⟨i, hi⟩ := List.mem_iff_getElem?.mp hp
    obtain ⟨hc, hid⟩ := List.getElem?_zip_eq_some.mp hi
    obtain ⟨e, he, rfl⟩ := List.mem_map.mp hlink
    exact ⟨i, c, id, e, hc, hid, he, rfl⟩
  · rintro ⟨i, c, id, e, hc, hid, he, rfl⟩
    have hp : (c, id) ∈ b.nodes.zip ids :=
      List.mem_iff_getElem?.mpr ⟨i, List.getElem?_zip_eq_some.mpr ⟨hc, hid⟩⟩
    exact ⟨(c, id), hp, List.mem_map.mpr ⟨e, he, rfl⟩⟩

/-- What a batch with a result has sent: own rows and edges of its nodes, and all edges of those that
have an ID. -/
structure IsWritten (conn : Connection) (b : BatchCreation) (ids : List Value)
    (log : List Exchange) : Prop where
  sends : OnlySends (fun s => s.IsRead ∨ b.InsertsRows conn.dialect s ∨
    WritesLinks conn.dialect (b.linksWith ids) s) log
  edges : ∀ id e, ([id], e) ∈ b.linksWith ids → id.isNull = false → e.IsSent conn id log

/-- The IDs that the turns of a chain have obtained are those of the result. -/
theorem idsOf_eq_getElem {order : List Nat} {turns : List Turn}
    (hperm : order.Perm (List.range b.nodes.length)) (hall : turns.map Turn.position = order) :
    idsOf turns = fun i => ((List.range b.nodes.length).map (idsOf turns))[i]?.getD .null := by
  funext i
  rw [List.getElem?_map]
  by_cases hi : i < b.nodes.length
  · rw [List.getElem?_range hi]
    rfl
  · have hnone : turns.find? (fun t => t.position == i) = none := by
      refine List.find?_eq_none.mpr fun t ht hpos => hi ?_
      have hmem : t.position ∈ order := hall ▸ List.mem_map_of_mem ht
      rw [beq_iff_eq.mp hpos] at hmem
      exact List.mem_range.mp (hperm.mem_iff.mp hmem)
    rw [List.getElem?_eq_none (by simpa using hi), idsOf, hnone]
    rfl

theorem isWritten_of_createChain {order : List Nat} (horder : b.order = .ok order)
    (h : (createChain conn b order).Run log (.ok ids)) : b.IsWritten conn ids log := by
  have hperm := perm_of_order horder
  obtain ⟨turns, rest, rfl, hquiet, hturns, hdone⟩ := run_createChain hperm h
  obtain ⟨hall, hcomplete, hids⟩ := hdone ids rfl
  have hknown : idsOf turns = fun i => ids[i]?.getD .null := by
    rw [hids]
    exact idsOf_eq_getElem hperm hall
  have hnodup : (turns.map Turn.position).Nodup := by
    rw [hall]
    exact hperm.nodup_iff.mpr List.nodup_range
  -- each turn is that of a node of the batch, whose ID it has obtained
  have hturn : ∀ t ∈ turns, ∃ c id, b.nodes[t.position]? = some c ∧
      ids[t.position]? = some id ∧ t.creation = b.resolved (fun i => ids[i]?.getD .null) c ∧
      t.creation.IsWritten conn id t.log := by
    intro t ht
    obtain ⟨c, hc, hcreation, -⟩ := hturns.resolved t ht
    obtain ⟨id, hid, -⟩ := hcomplete t ht
    have hlt : t.position < b.nodes.length := (List.getElem?_eq_some_iff.mp hc).1
    refine ⟨c, id, hc, ?_, hknown ▸ hcreation,
      NodeCreation.isWritten_of_turn (hturns.conforms t ht) hid (hcomplete t ht)⟩
    rw [hids, List.getElem?_map, List.getElem?_range hlt, Option.map_some,
      idsOf_eq hnodup ht hid]
  constructor
  · refine OnlySends.append ?_ (onlySends_of_writing (fun s => .inl) ?_)
    · intro x hx s hs
      obtain ⟨t, ht, hx⟩ := List.mem_flatMap.mp hx
      obtain ⟨c, id, hc, hid, hcreation, hwritten⟩ := hturn t ht
      rw [hcreation] at hwritten
      rcases hwritten.sends x hx s hs with hread | hrow | hlinks
      · exact .inl hread
      · exact .inr (.inl (.single (List.mem_of_getElem? hc) hrow))
      · refine .inr (.inr (hlinks.mono fun link hlink => ?_))
        obtain ⟨e', he', rfl⟩ := List.mem_map.mp hlink
        obtain ⟨e, he, rfl⟩ := List.mem_map.mp he'
        exact mem_linksWith.mpr ⟨t.position, c, id, e, hc, hid, he, rfl⟩
    · rw [hquiet]
      exact onlySends_nil
  · intro id e hlink hpresent
    obtain ⟨i, c, id', e', hc, hid, he, heq⟩ := mem_linksWith.mp hlink
    obtain ⟨hids', rfl⟩ := Prod.mk.inj heq
    obtain rfl : id = id' := List.head_eq_of_cons_eq hids'
    have hi : i ∈ turns.map Turn.position := by
      rw [hall]
      exact hperm.mem_iff.mpr (List.mem_range.mpr (List.getElem?_eq_some_iff.mp hc).1)
    obtain ⟨t, ht, rfl⟩ := List.mem_map.mp hi
    obtain ⟨c', id', hc', hid', hcreation, hwritten⟩ := hturn t ht
    obtain rfl := Option.some.inj (hc.symm.trans hc')
    obtain rfl := Option.some.inj (hid.symm.trans hid')
    rw [hcreation] at hwritten
    refine (hwritten.edges _ (List.mem_map_of_mem he)).mono fun x hx => ?_
    exact List.mem_append_left _ (List.mem_flatMap.mpr ⟨t, ht, hx⟩)

/-- Nodes that are created one after another have each been written. -/
theorem isWritten_of_createEach {nodes : List NodeCreation} {i : Nat}
    (h : (createEach conn i nodes).Run log (.ok ids)) :
    List.Forall₂ (fun c id => ∃ part ⊆ log, c.IsWritten conn id part) nodes ids ∧
      ∀ x ∈ log, ∃ p ∈ nodes.zip ids, ∃ part, x ∈ part ∧ p.1.IsWritten conn p.2 part := by
  induction nodes generalizing i log ids with
  | nil =>
    obtain ⟨rfl, hids⟩ := run_done.mp h
    obtain rfl := Except.ok.inj hids
    exact ⟨.nil, fun x hx => absurd hx List.not_mem_nil⟩
  | cons c rest ih =>
    obtain ⟨id, first, _, rfl, hwrite, h⟩ := run_bind_ok.mp h
    obtain ⟨others, last, none, rfl, hothers, h⟩ := run_bind_ok.mp h
    obtain ⟨rfl, hids⟩ := run_done.mp h
    obtain rfl := Except.ok.inj hids
    have hwritten := NodeCreation.isWritten_of_write hwrite
    obtain ⟨hall, hparts⟩ := ih hothers
    rw [List.append_nil]
    refine ⟨.cons ⟨first, List.subset_append_left _ _, hwritten⟩ (hall.imp ?_), ?_⟩
    · rintro c id ⟨part, hsub, hpart⟩
      exact ⟨part, List.subset_append_of_subset_right _ hsub, hpart⟩
    · intro x hx
      rcases List.mem_append.mp hx with hx | hx
      · exact ⟨(c, id), List.mem_cons_self, first, hx, hwritten⟩
      · obtain ⟨p, hp, hpart⟩ := hparts x hx
        exact ⟨p, List.mem_cons_of_mem _ hp, hpart⟩

/-- Without references the edges of a batch are those of its nodes. -/
theorem linksWith_of_direct (hdirect : ∀ c ∈ b.nodes, c.dependencies = []) :
    b.linksWith ids = (b.nodes.zip ids).flatMap fun p => p.1.edges.map fun e => ([p.2], e) := by
  refine List.flatMap_congr fun p hp => List.map_congr_left fun e he => ?_
  have hnone := List.flatMap_eq_nil_iff.mp (hdirect p.1 (List.of_mem_zip hp).1) e he
  rw [withIds_of_none hnone]

theorem mem_linksWith_of_direct (hdirect : ∀ c ∈ b.nodes, c.dependencies = [])
    {link : List Value × Edge} : link ∈ b.linksWith ids ↔
      ∃ p ∈ b.nodes.zip ids, ∃ e ∈ p.1.edges, link = ([p.2], e) := by
  simp only [linksWith_of_direct hdirect, List.mem_flatMap, List.mem_map, eq_comm]

/-- What is written for the edges of a batch are the edges of those of its nodes that have an ID. -/
theorem addEdges_writesLinks (nodes : List NodeCreation) (ids : List Value) :
    (addEdges conn nodes ids).Issues (WritesLinks conn.dialect
      ((nodes.zip ids).flatMap fun p => p.1.edges.map fun e => ([p.2], e))) := by
  have hkept : ∀ p ∈ (nodes.zip ids).filter fun p => !p.2.isNull,
      (p.1.edges.map fun e => ([p.2], e)) ⊆
        (nodes.zip ids).flatMap fun p => p.1.edges.map fun e => ([p.2], e) :=
    fun p hp link hlink => List.mem_flatMap.mpr ⟨p, List.mem_of_mem_filter hp, hlink⟩
  refine (sends_addEdges conn nodes ids).issues fun call hcall => ?_
  rcases List.mem_append.mp hcall with hcall | hcall
  · obtain ⟨s, hs, hwrites⟩ := JoinTable.writesLinks_of_mem hcall
    refine ⟨s, hs, hwrites.mono fun link hlink => ?_⟩
    obtain ⟨p, hp, hlink⟩ := List.mem_flatMap.mp hlink
    exact hkept p hp hlink
  · obtain ⟨p, hp, hcall⟩ := List.mem_flatMap.mp hcall
    obtain ⟨s, hs, hwrites⟩ := ForeignKey.writesLinks_of_mem hcall
    exact ⟨s, hs, hwrites.mono (hkept p hp)⟩

/-- Nodes that do not refer to each other are written together, or one after another. -/
theorem isWritten_of_createBulk (hdirect : ∀ c ∈ b.nodes, c.dependencies = [])
    (h : (createBulk conn b).Run log (.ok ids)) : b.IsWritten conn ids log := by
  have hsub : ∀ p ∈ b.nodes.zip ids, (p.1.edges.map fun e => ([p.2], e)) ⊆ b.linksWith ids := by
    intro p hp link hlink
    obtain ⟨e, he, rfl⟩ := List.mem_map.mp hlink
    exact (mem_linksWith_of_direct hdirect).mpr ⟨p, hp, e, he, rfl⟩
  unfold createBulk at h
  obtain ⟨rows, checks, rest, rfl, hrows, h⟩ := run_bind_ok.mp h
  have hchecks : OnlySends (fun s => s.IsRead ∨ b.InsertsRows conn.dialect s ∨
      WritesLinks conn.dialect (b.linksWith ids) s) checks :=
    (issues_ownRows fun s => .inl rfl).onlySends hrows
  split at h
  case h_1 hnil =>
    obtain ⟨rfl, hids⟩ := run_done.mp h
    refine ⟨by rwa [List.append_nil], fun id e hlink => ?_⟩
    obtain ⟨p, hp, -⟩ := (mem_linksWith_of_direct hdirect).mp hlink
    rw [hnil] at hp
    cases hp
  case h_2 first others hcons =>
    dsimp only at h
    split at h
    case isTrue => cases (run_fail.mp h).2
    case isFalse =>
      split at h
      case isTrue =>
        obtain ⟨hall, hparts⟩ := isWritten_of_createEach h
        refine ⟨hchecks.append fun x hx s hs => ?_, fun id e hlink _ => ?_⟩
        · obtain ⟨p, hp, part, hxp, hwritten⟩ := hparts x hx
          rcases hwritten.sends x hxp s hs with hread | hrow | hlinks
          · exact .inl hread
          · exact .inr (.inl (@InsertsRows.single _ _ p.1 p.1.edges p.1.policy _
              (List.of_mem_zip hp).1 hrow))
          · exact .inr (.inr (hlinks.mono (hsub p hp)))
        · obtain ⟨p, hp, e', he, heq⟩ := (mem_linksWith_of_direct hdirect).mp hlink
          obtain ⟨hid, rfl⟩ := Prod.mk.inj heq
          obtain rfl := List.head_eq_of_cons_eq hid
          obtain ⟨part, hpart, hwritten⟩ := List.forall₂_iff_zip.mp hall |>.2 hp
          exact (hwritten.edges e he).mono (List.subset_append_of_subset_right _ hpart)
      case isFalse =>
        obtain ⟨found, inserting, _, rfl, hinsert, h⟩ := run_bind_ok.mp h
        obtain ⟨_, told, _, rfl, htold, h⟩ := run_bind_ok.mp h
        obtain ⟨_, linking, none, rfl, hlinking, h⟩ := run_bind_ok.mp h
        obtain ⟨rfl, hids⟩ := run_done.mp h
        obtain rfl := Except.ok.inj hids
        constructor
        · refine hchecks.append (OnlySends.append ?_ (OnlySends.append ?_ (OnlySends.append ?_ ?_)))
          · refine Issues.onlySends (issues_insertRows (fun s => .inl rfl)
              fun returning statement hcompile => ?_) hinsert
            rw [foldl_addRow_eq] at hcompile
            exact .inr (.inl (@InsertsRows.together _ _ first rows returning _ (by rw [hcons]; rfl)
              (ownRows_are_of hrows) hcompile))
          · exact issues_reviseIds.onlySends htold
          · rw [linksWith_of_direct hdirect]
            exact ((addEdges_writesLinks b.nodes ids).mono fun s h => .inr (.inr h)).onlySends
              hlinking
          · exact onlySends_nil
        · intro id e hlink hpresent
          obtain ⟨p, hp, e', he, heq⟩ := (mem_linksWith_of_direct hdirect).mp hlink
          obtain ⟨hid, rfl⟩ := Prod.mk.inj heq
          obtain rfl := List.head_eq_of_cons_eq hid
          obtain ⟨i, hi⟩ := List.mem_iff_getElem?.mp hp
          obtain ⟨hc, hid⟩ := List.getElem?_zip_eq_some.mp hi
          exact (sent_of_addEdges hlinking hc hid hpresent e he).mono fun x hx => by simp [hx]

end BatchCreation

/-- A batch that has a result has been written, and its edges were complete. -/
theorem BatchCreation.isWritten_of_plan {b : BatchCreation} {ids : List Value}
    {p : Plan (List Value)} (hplan : b.Planned p) (h : (p.body conn).Run log (.ok ids)) :
    (∀ link ∈ b.linksWith ids, link.2.IsComplete) ∧ b.IsWritten conn ids log := by
  have hcomplete : ∀ {first}, b.IsChecked first → ∀ link ∈ b.linksWith ids, link.2.IsComplete := by
    intro first hchecked link hlink
    obtain ⟨i, c, id, e, hc, -, he, rfl⟩ := mem_linksWith.mp hlink
    exact isComplete_withIds (hchecked.edges c (List.mem_of_getElem? hc) e he)
  cases hplan with
  | nothing hnil =>
    obtain ⟨rfl, -⟩ := run_done.mp h
    have hnone : ∀ link, link ∉ b.linksWith ids := by
      intro link hlink
      obtain ⟨i, c, id, e, hc, -⟩ := mem_linksWith.mp hlink
      rw [hnil] at hc
      cases hc
    exact ⟨fun link hlink => absurd hlink (hnone link), onlySends_nil,
      fun id e hlink => absurd hlink (hnone _)⟩
  | chain hchecked _ horder => exact ⟨hcomplete hchecked, isWritten_of_createChain horder h⟩
  | bulk hchecked hdirect => exact ⟨hcomplete hchecked, isWritten_of_createBulk hdirect h⟩

/-! ## Updates -/

namespace NodeUpdate

variable {u : NodeUpdate} {ids : List Value} {id : Value} {e : Edge}

/-- Changing edges clears edges of the update and writes those that it adds. -/
theorem issues_change : (ExternalEdges.change conn ids u.edges).Issues
    (fun s => u.WritesRows s ∨ WritesLinks conn.dialect (u.edges.add.map fun e => (ids, e)) s) := by
  have hpairs : (JoinTable.clear conn ids u.edges.clear).Issues u.WritesRows := by
    refine issues_ite (fun _ => issues_done _) fun _ => maintains_forM fun g hg => ?_
    refine issues_lift_bind fun x hx => Maintains.discard (issues_exec (.clearsPairs ?_ hx))
    exact fun e he => (((mem_of_groupByName hg).2 e).mp he).1
  have htargets : (ForeignKey.clear conn ids u.edges.clear).Issues u.WritesRows := by
    refine issues_ite (fun _ => issues_done _) fun _ => maintains_forM fun e he => ?_
    refine issues_lift_bind fun w hw => Maintains.discard (issues_exec (.clearsTargets ?_ hw))
    exact List.mem_of_mem_filter he
  exact (hpairs.mono fun _ => .inl).bind fun _ => (JoinTable.issues_links.mono fun _ => .inr).bind
    fun _ => (htargets.mono fun _ => .inl).bind fun _ =>
      ForeignKey.issues_links.mono fun _ => .inr

/-- When the edges of one node have been changed, those that are added have been sent. -/
theorem sent_of_change (h : (ExternalEdges.change conn [id] u.edges).Run log (.ok ()))
    (he : e ∈ u.edges.add) : e.IsSent conn id log := by
  obtain ⟨_, _, _, rfl, -, h⟩ := run_bind_ok.mp h
  obtain ⟨_, joins, _, rfl, hjoins, h⟩ := run_bind_ok.mp h
  obtain ⟨_, _, keys, rfl, -, hkeys⟩ := run_bind_ok.mp h
  have hjoins := (JoinTable.sends_add conn _ joins _ hjoins).2 () rfl
  have hkeys := (ForeignKey.sends_add conn id _ keys _ hkeys).2 () rfl
  have hsent : e.IsSent conn id (joins ++ keys) := by
    refine ExternalEdges.sent_of_statements (fun x hx => ?_) he
    rw [callsOf_append, hjoins, hkeys]
    exact hx
  refine hsent.mono fun x hx => ?_
  rcases List.mem_append.mp hx with hx | hx <;> simp [hx]

/-- The UPDATE of own rows writes them, whatever its condition. -/
theorem writesRows_of_own {own w : Update} (hown : u.ownUpdate = .ok own)
    (hrows : ∃ rows, w = { own with predicate := rows }) (condition : Option Predicate) :
    u.WritesRows (.update (w.filterOpt condition)) := by
  obtain ⟨rows, rfl⟩ := hrows
  cases condition with
  | none => exact @WritesRows.own _ own rows hown
  | some p => exact @WritesRows.own _ own (some (Predicate.conjoin rows p)) hown

theorem issues_writeOwnRow : (u.writeOwnRow conn id).Issues u.WritesRows := by
  refine issues_lift_bind fun own hown => issues_ite (fun _ => issues_done _) fun _ => ?_
  exact (issues_exec (writesRows_of_own hown ⟨_, rfl⟩ _)).bind fun _ => issues_done _

/-- An update of one node reads, changes rows, and writes the edges that it adds to the node. -/
theorem writeOne_sends : (u.writeOne conn id).Issues
    ((Mutation.updateNode u).SendsFor conn.dialect (u.edges.add.map fun e => ([id], e))) := by
  have hafter : (ExternalEdges.change conn [id] u.edges >>= fun _ =>
      if u.delivers = true then u.readBack conn id else Program.done ()).Issues
        ((Mutation.updateNode u).SendsFor conn.dialect (u.edges.add.map fun e => ([id], e))) := by
    refine (issues_change.mono fun _ => .inr).bind fun _ => ?_
    exact issues_ite (fun _ => issues_readBack fun s => .inl rfl) fun _ => issues_done _
  refine (Partner.issues_check fun s => .inl rfl).bind fun _ =>
    (issues_writeOwnRow.mono fun _ h => .inr (.inl h)).bind fun changed => ?_
  refine issues_ite (fun _ => ?_) fun _ => hafter
  refine (issues_probe (.inl rfl)).bind fun present => ?_
  cases present with
  | false => exact issues_fail _
  | true => exact hafter

theorem HasFound.mono {log' : List Exchange} (h : u.HasFound log ids) (hsub : log ⊆ log') :
    u.HasFound log' ids := by
  obtain ⟨inside, live, s, rows, hmem, hread⟩ := h
  exact ⟨inside, live, s, rows, hsub hmem, hread⟩

/-- All edges that an update adds have been checked. -/
theorem isComplete_of_check (h : u.check = .ok ()) (he : e ∈ u.edges.add) : e.IsComplete := by
  obtain ⟨_, hadd, -⟩ := bind_eq_ok.mp h
  exact Edge.isComplete_of_check (forM_eq_ok.mp hadd e he)

theorem hasFound_of_matchedIds (h : (u.matchedIds conn).Run log (.ok ids)) :
    u.HasFound log ids := by
  obtain ⟨rows, _, _, rfl, hquery, hread⟩ := run_bind_ok.mp h
  obtain ⟨live, r, rfl, hr⟩ := run_query hquery
  obtain rfl := (hr rows).mp rfl
  exact ⟨_, live, _, rows, List.mem_append_left _ List.mem_cons_self,
    (run_ofExcept.mp hread).2.symm⟩

/-- An update of the nodes that meet a condition finds their IDs, looks for partners and writes own
rows, and changes edges, unless it has found none. -/
theorem run_writeMany_parts {n : Nat} (h : (u.writeMany conn).Run log (.ok n)) :
    ∃ ids finding before change, log = finding ++ (before ++ change) ∧ n = ids.length ∧
      (u.matchedIds conn).Run finding (.ok ids) ∧
      OnlySends (fun s => s.IsRead ∨ u.WritesRows s) before ∧
      (ids = [] ∧ change = [] ∨ (ExternalEdges.change conn ids u.edges).Run change (.ok ())) := by
  obtain ⟨ids, finding, rest, rfl, hids, h⟩ := run_bind_ok.mp h
  dsimp only at h
  split at h
  case isTrue hempty =>
    obtain ⟨rfl, hn⟩ := run_done.mp h
    exact ⟨ids, finding, [], [], rfl, Except.ok.inj hn ▸ by simp_all, hids, onlySends_nil,
      .inl ⟨List.isEmpty_iff.mp hempty, rfl⟩⟩
  case isFalse =>
    obtain ⟨_, checks, _, rfl, hchecks, hchecked⟩ := run_bind_ok.mp h
    obtain ⟨own, none, rest, rfl, hlift, hwritten⟩ := run_bind_ok.mp hchecked
    obtain ⟨rfl, hown⟩ := run_ofExcept.mp hlift
    have hpartners : (u.checkPartners conn ids).Issues fun s => s.IsRead ∨ u.WritesRows s :=
      issues_ite (fun _ => issues_ite (fun _ => issues_fail _) fun _ =>
        Partner.issues_check fun s => .inl rfl) fun _ => issues_done _
    have hrow : (discard (conn.exec (.update (own.filter (.oneOf u.node.id.column ids)))) :
        Program Unit).Issues fun s => s.IsRead ∨ u.WritesRows s :=
      Maintains.discard (issues_exec (.inr (.own hown.symm)))
    have hafter : ∀ {log : List Exchange}, (ExternalEdges.change conn ids u.edges >>= fun _ =>
        (pure ids.length : Program Nat)).Run log (.ok n) → n = ids.length ∧
          (ExternalEdges.change conn ids u.edges).Run log (.ok ()) := by
      intro log hrest
      obtain ⟨_, change, _, rfl, hrun, hdone⟩ := run_bind_ok.mp hrest
      obtain ⟨rfl, hn⟩ := run_done.mp hdone
      exact ⟨Except.ok.inj hn, by rwa [List.append_nil]⟩
    split at hwritten
    case isTrue =>
      obtain ⟨_, writing, change, rfl, hwriting, hchange⟩ := run_bind_ok.mp hwritten
      obtain ⟨hn, hrun⟩ := hafter hchange
      exact ⟨ids, finding, checks ++ writing, change, by simp, hn, hids,
        (hpartners.onlySends hchecks).append (hrow.onlySends hwriting), .inr hrun⟩
    case isFalse =>
      obtain ⟨hn, hrun⟩ := hafter hwritten
      exact ⟨ids, finding, checks, rest, by simp, hn, hids, hpartners.onlySends hchecks,
        .inr hrun⟩

/-- An update of the nodes that it finds reads, changes rows, and writes the edges that it adds to
these nodes. -/
theorem writeMany_sends {n : Nat} (h : (u.writeMany conn).Run log (.ok n)) :
    ∃ ids, u.HasFound log ids ∧ n = ids.length ∧
      OnlySends ((Mutation.updateNodes u).SendsFor conn.dialect
        (u.edges.add.map fun e => (ids, e))) log ∧
      ∀ id, ids = [id] → ∀ e ∈ u.edges.add, e.IsSent conn id log := by
  obtain ⟨ids, finding, before, change, rfl, hn, hids, hbefore, hchange⟩ := run_writeMany_parts h
  obtain ⟨inside, live, s, rows, hmem, hread⟩ := hasFound_of_matchedIds hids
  refine ⟨ids, ⟨inside, live, s, rows, List.mem_append_left _ hmem, hread⟩, hn, ?_, ?_⟩
  · refine OnlySends.append ?_ (OnlySends.append ?_ ?_)
    · exact Issues.onlySends ((issues_query (.inl rfl)).bind fun rows => issues_lift _) hids
    · intro x hx s hs
      exact (hbefore x hx s hs).imp_right .inl
    · rcases hchange with ⟨-, rfl⟩ | hchange
      · exact onlySends_nil
      · exact (issues_change.mono fun _ => .inr).onlySends hchange
  · rintro id rfl e he
    rcases hchange with ⟨hnone, -⟩ | hchange
    · cases hnone
    · exact (sent_of_change hchange he).mono fun x hx => by simp [hx]

end NodeUpdate

/-! ## What is sent -/

/-- A mutation that has a result has added edges, which are complete, to certain nodes. It has read,
written own rows and cleared edges, and written these edges; and all edges of a node that has an ID
have been sent. -/
theorem Mutation.sends_links {m : Mutation} {a : m.Result} (h : (m.program d).Run log (.ok a)) :
    ∃ conn links, conn.dialect = d ∧ m.Adds log a links ∧ (∀ link ∈ links, link.2.IsComplete) ∧
      OnlySends (m.SendsFor d links) log ∧
      ∀ id e, ([id], e) ∈ links → id.isNull = false → e.IsSent conn id log := by
  obtain ⟨p, conn, inner, hplan, rfl, hinner, hbody, hsends⟩ := sends_plan h
  refine ⟨conn, ?_⟩
  cases planned hplan with
  | createNode hcheck =>
    have hwritten := NodeCreation.isWritten_of_write hbody
    refine ⟨_, rfl, rfl, ?_, hsends _ hwritten.sends, ?_⟩
    · intro link hlink
      obtain ⟨e, he, rfl⟩ := List.mem_map.mp hlink
      exact Edge.isComplete_of_check (hcheck e he)
    · intro id e hlink _
      obtain ⟨e', he, heq⟩ := List.mem_map.mp hlink
      obtain ⟨hid, rfl⟩ := Prod.mk.inj heq
      obtain rfl := List.head_eq_of_cons_eq hid
      exact (hwritten.edges e' he).mono hinner
  | batchCreate hbatch =>
    obtain ⟨hcomplete, hwritten⟩ := BatchCreation.isWritten_of_plan hbatch hbody
    refine ⟨_, rfl, rfl, hcomplete, hsends _ hwritten.sends, fun id e hlink hid => ?_⟩
    exact (hwritten.edges id e hlink hid).mono hinner
  | updateNode hid _ hcheck =>
    refine ⟨_, rfl, ⟨_, hid, rfl⟩, ?_, hsends _ (NodeUpdate.writeOne_sends.onlySends hbody), ?_⟩
    · intro link hlink
      obtain ⟨e, he, rfl⟩ := List.mem_map.mp hlink
      exact NodeUpdate.isComplete_of_check hcheck he
    · intro id' e hlink _
      obtain ⟨e', he, heq⟩ := List.mem_map.mp hlink
      obtain ⟨hid', rfl⟩ := Prod.mk.inj heq
      obtain rfl := List.head_eq_of_cons_eq hid'
      obtain ⟨part, hpart, hchange⟩ := NodeUpdate.run_writeOne_change hbody
      exact (NodeUpdate.sent_of_change hchange he).mono (List.Subset.trans hpart hinner)
  | updateFound hcheck =>
    obtain ⟨ids, hfound, hn, hall, hsent⟩ := NodeUpdate.writeMany_sends hbody
    refine ⟨_, rfl, .inr ⟨ids, hfound.mono hinner, hn, rfl⟩, ?_, hsends _ hall, ?_⟩
    · intro link hlink
      obtain ⟨e, he, rfl⟩ := List.mem_map.mp hlink
      exact NodeUpdate.isComplete_of_check hcheck he
    · intro id e hlink _
      obtain ⟨e', he, heq⟩ := List.mem_map.mp hlink
      obtain ⟨hids, rfl⟩ := Prod.mk.inj heq
      exact (hsent id hids e' he).mono hinner
  | @updateRows u _ hplain =>
    refine ⟨[], rfl, .inl ⟨hplain, rfl⟩, fun _ h => absurd h List.not_mem_nil,
      hsends _ ?_, fun _ _ h => absurd h List.not_mem_nil⟩
    have hrows : (u.writeRows conn).Issues ((Mutation.updateNodes u).SendsFor conn.dialect []) := by
      refine issues_lift_bind fun own hown => issues_ite (fun _ => issues_done _) fun _ => ?_
      refine (issues_exec (.inr (.inl ?_))).bind fun _ => issues_done _
      exact NodeUpdate.writesRows_of_own hown ⟨_, rfl⟩ _
    exact hrows.onlySends hbody
  | deleteNode =>
    refine ⟨[], rfl, rfl, fun _ h => absurd h List.not_mem_nil, hsends _ ?_,
      fun _ _ h => absurd h List.not_mem_nil⟩
    refine Issues.onlySends ?_ hbody
    refine (issues_exec (.inr (.inl ⟨_, rfl⟩))).bind fun result => ?_
    exact issues_ite (fun _ => issues_fail _) fun _ => issues_done _
  | deleteNodes =>
    refine ⟨[], rfl, rfl, fun _ h => absurd h List.not_mem_nil, hsends _ ?_,
      fun _ _ h => absurd h List.not_mem_nil⟩
    exact Issues.onlySends ((issues_exec (.inr (.inl ⟨_, rfl⟩))).bind fun _ => issues_done _) hbody

end EntityGraph
