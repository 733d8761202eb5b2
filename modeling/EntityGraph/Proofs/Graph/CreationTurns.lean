import EntityGraph.Proofs.Graph.CreationRuns
import EntityGraph.Proofs.Program.Sending
import EntityGraph.Proofs.Transaction.Writes

/-!
# What a creation sends

The writes of a creation, for arbitrary replies: first the INSERT of the node's own row, to which the
reply tells the ID that the node gets, then the statements that write its edges. A run may stop at
any of them. `Turn` collects what one run has sent, and `Turn.Conforms` says that it is what the
creation asks for.
-/

set_option autoImplicit false

namespace EntityGraph

open Program

variable {conn : Connection} {log : List Exchange}

/-- What only reads sends no statement that changes rows. -/
theorem Program.WritesAtMost.writing_eq_nil {α : Type} {p : Program α} {result : Except Error α}
    (hp : p.WritesAtMost 0) (h : p.Run log result) : writing log = [] := by
  have hnone := hp log result h
  rw [writes, List.countP_eq_length_filter, Nat.le_zero] at hnone
  exact List.length_eq_zero_iff.mp hnone

/-! ## Edges -/

/-- The INSERTs into the join tables, one for each table that gets rows. -/
def JoinTable.statements (conn : Connection) (links : List (List Value × Edge)) :
    List (Except Error Call) :=
  (groupByName (fun link => link.2.table) (links.filter fun link => link.2.isManyToMany)).flatMap
    fun group =>
      match insertOf group.1 group.2 with
      | .error e => [.error e]
      | .ok i =>
        if i.rows.isEmpty then []
        else [(i.compile conn.dialect).map fun s => .exec conn.inside (.insert s)]

theorem JoinTable.sends_add (conn : Connection) (links : List (List Value × Edge)) :
    (add conn links).Sends (statements conn links) := by
  unfold add
  dsimp only
  rw [mapM_liftM fun group : String × List (List Value × Edge) => insertOf group.1 group.2]
  refine sends_lift_bind fun inserts hinserts => ?_
  have hcalls : statements conn links = inserts.flatMap fun i =>
      if i.rows.isEmpty then []
      else [(i.compile conn.dialect).map fun s => .exec conn.inside (.insert s)] := by
    unfold statements
    have hgroups := mapM_eq_ok.mp hinserts
    clear hinserts
    generalize groupByName (fun link : List Value × Edge => link.2.table)
      (links.filter fun link => link.2.isManyToMany) = groups at hgroups ⊢
    induction hgroups with
    | nil => rfl
    | cons hinsert _ ih => rw [List.flatMap_cons, List.flatMap_cons, ih, hinsert]
  rw [hcalls]
  refine sends_forM fun i _ => ?_
  split
  case isTrue => exact sends_done _
  case isFalse => exact (sends_execInsert conn i).discard

theorem JoinTable.insert_of_mem {links : List (List Value × Edge)} {call : Call}
    (h : .ok call ∈ statements conn links) : ∃ i, call = .exec conn.inside (.insert i) := by
  obtain ⟨group, -, h⟩ := List.mem_flatMap.mp h
  cases hinsert : insertOf group.1 group.2 with
  | error e => simp [hinsert] at h
  | ok i =>
    rw [hinsert] at h
    dsimp only at h
    split at h
    case isTrue => cases h
    case isFalse =>
      cases hcompile : i.compile conn.dialect with
      | error e => simp [hcompile, Except.map] at h
      | ok statement =>
        rw [hcompile] at h
        exact ⟨statement, Except.ok.inj (List.mem_singleton.mp h)⟩

/-- The UPDATEs that link the targets of edges which are stored in the targets' rows. -/
def ForeignKey.statements (conn : Connection) (id : Value) (edges : List Edge) :
    List (Except Error Call) :=
  (edges.filter fun e => e.isForeignKeyEdge && !e.target.nodes.isEmpty).map fun e =>
    e.foreignKey.map fun fk => .exec conn.inside (.update (linking id fk e))

theorem ForeignKey.sends_link (conn : Connection) (id : Value) (e : Edge) :
    (link conn id e).Sends
      [e.foreignKey.map fun fk => .exec conn.inside (.update (linking id fk e))] := by
  unfold link
  refine sends_lift_bind fun fk hfk => ?_
  rw [hfk]
  refine (sends_exec conn _).bind fun result => ?_
  split
  case isTrue => exact sends_fail _ _
  case isFalse => exact sends_done _

theorem ForeignKey.sends_add (conn : Connection) (id : Value) (edges : List Edge) :
    (add conn [id] edges).Sends (statements conn id edges) := by
  unfold add statements
  cases edges.filter fun e => e.isForeignKeyEdge && !e.target.nodes.isEmpty with
  | nil => exact sends_done _
  | cons e links =>
    rw [← List.flatMap_singleton' (List.map _ _), List.flatMap_map]
    exact sends_forM fun e _ => sends_link conn id e

theorem ForeignKey.update_of_mem {id : Value} {edges : List Edge} {call : Call}
    (h : .ok call ∈ statements conn id edges) : ∃ w, call = .exec conn.inside (.update w) := by
  obtain ⟨e, -, h⟩ := List.mem_map.mp h
  cases hfk : e.foreignKey with
  | error why => simp [hfk, Except.map] at h
  | ok fk =>
    rw [hfk] at h
    exact ⟨linking id fk e, (Except.ok.inj h).symm⟩

/-- The statements that write the edges of a new node. -/
def ExternalEdges.statements (conn : Connection) (id : Value) (edges : List Edge) :
    List (Except Error Call) :=
  JoinTable.statements conn (edges.map fun e => ([id], e)) ++ ForeignKey.statements conn id edges

theorem ExternalEdges.sends_create (conn : Connection) (id : Value) (edges : List Edge) :
    (create conn id edges).Sends (statements conn id edges) :=
  (JoinTable.sends_add conn _).bind fun _ => ForeignKey.sends_add conn id edges

/-- All these statements change rows. -/
theorem ExternalEdges.isWrite_of_mem {id : Value} {edges : List Edge} {c : Call}
    (h : .ok c ∈ statements conn id edges) : c.isWrite = true := by
  rcases List.mem_append.mp h with h | h
  · obtain ⟨i, rfl⟩ := JoinTable.insert_of_mem h
    rfl
  · obtain ⟨w, rfl⟩ := ForeignKey.update_of_mem h
    rfl

/-- All that is sent to write edges changes rows. -/
theorem ExternalEdges.writing_create {id : Value} {edges : List Edge} {result : Except Error Unit}
    (h : (create conn id edges).Run log result) : writing log = log := by
  rw [writing, List.filter_eq_self]
  intro x hx
  have hmem : .ok x.call ∈ callsOf log := List.mem_map_of_mem hx
  exact isWrite_of_mem ((sends_create conn id edges log result h).1.subset hmem)

/-! ## The node's own row -/

/-- How a node comes by the ID to insert it with: it is given, or drawn for it; there is none where
the database assigns it. -/
inductive Node.Supplies (node : Node) (log : List Exchange) : Option Value → Prop
  | given {v : Value} (hid : node.id.value.isNull = false) (hbind : node.id.bindValue = .ok v) :
    Supplies node log (some v)
  | drawn {g : IdGenerator} {live : Bool} {drawn v : Value} (hid : node.id.value.isNull = true)
    (hstrategy : node.strategy = .generator g) (hdraw : ⟨.draw g, live, drawn⟩ ∈ log)
    (hbind : (node.withId drawn).id.bindValue = .ok v) : Supplies node log (some v)
  | assigned (hid : node.id.value.isNull = true) (hstrategy : node.strategy = .sequence) :
    Supplies node log none

theorem Node.Supplies.mono {node : Node} {supplied : Option Value} {log' : List Exchange}
    (h : node.Supplies log supplied) (hsub : log ⊆ log') : node.Supplies log' supplied := by
  cases h with
  | given hid hbind => exact .given hid hbind
  | drawn hid hstrategy hdraw hbind => exact .drawn hid hstrategy (hsub hdraw) hbind
  | assigned hid hstrategy => exact .assigned hid hstrategy

/-- The ID of a node is left to the database exactly if there is none to insert it with. -/
theorem NodeCreation.leavesId_iff {c : NodeCreation} {supplied : Option Value}
    (h : c.node.Supplies log supplied) : c.LeavesId ↔ supplied = none := by
  cases h with
  | given hid => exact ⟨fun hleaves => absurd hleaves.1 (by simp [hid]), nofun⟩
  | drawn hid hstrategy => exact ⟨fun hleaves => absurd hleaves.2 (by simp [hstrategy]), nofun⟩
  | assigned hid hstrategy => exact iff_of_true ⟨hid, hstrategy⟩ rfl

/-- The ID that a node gets by the INSERT of its row and the reply to it: the returned one, the one
that it was inserted with, or the last one that the driver reports. -/
inductive Node.Obtains (node : Node) (supplied : Option Value) : Exchange → Value → Prop
  | returned {inside live : Bool} {c : Command} {rows : Rows} {v id : Value}
    (hfirst : rows.firstValue? = some v) (hread : node.readId v = .ok id) :
    Obtains node supplied ⟨.query inside c, live, (.done rows : Outcome Rows)⟩ id
  | unreturned {inside live : Bool} {c : Command} {rows : Rows} {id : Value}
    (hfirst : rows.firstValue? = none) (hsupplied : supplied = some id) :
    Obtains node supplied ⟨.query inside c, live, (.done rows : Outcome Rows)⟩ id
  | supplied {inside live : Bool} {c : Command} {r : ExecResult} {id : Value}
    (hsupplied : supplied = some id) :
    Obtains node supplied ⟨.exec inside c, live, (.done r : Outcome ExecResult)⟩ id
  | reported {inside live : Bool} {c : Command} {r : ExecResult} {last : Int64} {id : Value}
    (hsupplied : supplied = none) (hlast : r.lastInsertId = some last) (hne : last ≠ 0)
    (hread : node.readId (.int last) = .ok id) :
    Obtains node supplied ⟨.exec inside c, live, (.done r : Outcome ExecResult)⟩ id

namespace NodeCreation

variable {c : NodeCreation} {supplied : Option Value} {i : Insert} {result : Except Error Value}

/-- The ID of a node is read back from the returned row. -/
def returnsId (conn : Connection) (c : NodeCreation) (supplied : Option Value) : Bool :=
  conn.dialect.supportsReturning && !(supplied.isSome && c.policy.isNone)

/-- The call that sends the INSERT of a node's own row. -/
def ownCall (conn : Connection) (c : NodeCreation) (supplied : Option Value) :
    Except Error Call := do
  let i ← c.insertion conn.dialect supplied
  if c.returnsId conn supplied then
    ((i.withReturning c.node.id.column).compile conn.dialect).map fun s =>
      .query conn.inside (.insert s)
  else (i.compile conn.dialect).map fun s => .exec conn.inside (.insert s)

theorem run_supplyId {position : Nat} {node : Node}
    (h : (supplyId position node).Run log (.ok supplied)) : node.Supplies log supplied := by
  unfold supplyId at h
  split at h
  case isTrue hgiven =>
    obtain ⟨v, before, after, rfl, hbind, hdone⟩ := run_bind_ok.mp h
    obtain ⟨rfl, hv⟩ := run_ofExcept.mp hbind
    obtain ⟨rfl, hsupplied⟩ := run_done.mp hdone
    obtain rfl := Except.ok.inj hsupplied
    exact .given (by simpa using hgiven) hv.symm
  case isFalse hnull =>
    have hnull : node.id.value.isNull = true := by simpa using hnull
    split at h
    case h_1 hstrategy =>
      obtain ⟨-, hsupplied⟩ := run_done.mp h
      obtain rfl := Except.ok.inj hsupplied
      exact .assigned hnull hstrategy
    case h_2 => cases (run_fail.mp h).2
    case h_3 g hstrategy =>
      obtain ⟨live, drawn, rest, rfl, hrest⟩ := run_request.mp h
      obtain ⟨_, _, rest', rfl, hbind⟩ := run_request.mp hrest
      obtain ⟨v, before, after, rfl, hlift, hdone⟩ := run_bind_ok.mp hbind
      obtain ⟨-, hsupplied⟩ := run_done.mp hdone
      obtain rfl := Except.ok.inj hsupplied
      exact .drawn hnull hstrategy List.mem_cons_self (run_ofExcept.mp hlift).2.symm

/-- An insert is sent unless it cannot be compiled. -/
theorem run_execInsert {result : Except Error ExecResult} (h : (conn.execInsert i).Run log result) :
    (log = [] ∧ ∃ e, result = .error e) ∨ ∃ statement live,
      ∃ r : Outcome ExecResult, i.compile conn.dialect = .ok statement ∧
        log = [⟨.exec conn.inside (.insert statement), live, r⟩] ∧
        ∀ a, result = .ok a → r = .done a := by
  rcases run_bind.mp h with ⟨e, hlift, rfl⟩ | ⟨statement, before, after, rfl, hlift, hexec⟩
  · exact .inl ⟨(run_ofExcept.mp hlift).1, e, rfl⟩
  · obtain ⟨rfl, hcompile⟩ := run_ofExcept.mp hlift
    obtain ⟨live, r, rfl, hr⟩ := run_exec hexec
    exact .inr ⟨statement, live, r, hcompile.symm, rfl, fun a => (hr a).mp⟩

theorem run_queryInsert {result : Except Error Rows} (h : (conn.queryInsert i).Run log result) :
    (log = [] ∧ ∃ e, result = .error e) ∨ ∃ statement live,
      ∃ r : Outcome Rows, i.compile conn.dialect = .ok statement ∧
        log = [⟨.query conn.inside (.insert statement), live, r⟩] ∧
        ∀ a, result = .ok a → r = .done a := by
  rcases run_bind.mp h with ⟨e, hlift, rfl⟩ | ⟨statement, before, after, rfl, hlift, hquery⟩
  · exact .inl ⟨(run_ofExcept.mp hlift).1, e, rfl⟩
  · obtain ⟨rfl, hcompile⟩ := run_ofExcept.mp hlift
    obtain ⟨live, r, rfl, hr⟩ := run_query hquery
    exact .inr ⟨statement, live, r, hcompile.symm, rfl, fun a => (hr a).mp⟩

/-- The call that sends an INSERT of a row, and what its reply tells of the ID. -/
def InsertsBy (node : Node) (supplied : Option Value) (call : Except Error Call)
    (log : List Exchange) (result : Except Error Value) : Prop :=
  (log = [] ∧ ∃ e, result = .error e) ∨ ∃ own, log = [own] ∧ call = .ok own.call ∧
    own.call.isWrite = true ∧ ∀ id, result = .ok id → node.Obtains supplied own id

/-- An ID that is read back from a returned row. -/
theorem insertsBy_of_query {node : Node} {read : Rows → Program Value}
    (hread : ∀ rows log id, (read rows).Run log (.ok id) → ∀ inside live c,
      node.Obtains supplied ⟨.query inside c, live, (.done rows : Outcome Rows)⟩ id)
    (hquiet : ∀ rows log result, (read rows).Run log result → log = [])
    (h : (conn.queryInsert i >>= read).Run log result) :
    InsertsBy node supplied ((i.compile conn.dialect).map fun s => .query conn.inside (.insert s))
      log result := by
  rcases run_bind.mp h with ⟨e, hfail, rfl⟩ | ⟨rows, before, after, rfl, hquery, hrest⟩
  · rcases run_queryInsert hfail with ⟨rfl, -⟩ | ⟨statement, live, r, hcompile, rfl, -⟩
    · exact .inl ⟨rfl, e, rfl⟩
    · exact .inr ⟨_, rfl, by rw [hcompile]; rfl, rfl, nofun⟩
  · have hnone := hquiet rows after result hrest
    subst hnone
    rw [List.append_nil]
    rcases run_queryInsert hquery with ⟨-, e, hfail⟩ | ⟨statement, live, r, hcompile, rfl, hdone⟩
    · cases hfail
    · obtain rfl := hdone rows rfl
      refine .inr ⟨_, rfl, by rw [hcompile]; rfl, rfl, ?_⟩
      rintro id rfl
      exact hread rows [] id hrest _ _ _

/-- An ID that is known without a returned row. -/
theorem insertsBy_of_exec {node : Node} {read : ExecResult → Program Value}
    (hread : ∀ r log id, (read r).Run log (.ok id) → ∀ inside live c,
      node.Obtains supplied ⟨.exec inside c, live, (.done r : Outcome ExecResult)⟩ id)
    (hquiet : ∀ r log result, (read r).Run log result → log = [])
    (h : (conn.execInsert i >>= read).Run log result) :
    InsertsBy node supplied ((i.compile conn.dialect).map fun s => .exec conn.inside (.insert s))
      log result := by
  rcases run_bind.mp h with ⟨e, hfail, rfl⟩ | ⟨rows, before, after, rfl, hexec, hrest⟩
  · rcases run_execInsert hfail with ⟨rfl, -⟩ | ⟨statement, live, r, hcompile, rfl, -⟩
    · exact .inl ⟨rfl, e, rfl⟩
    · exact .inr ⟨_, rfl, by rw [hcompile]; rfl, rfl, nofun⟩
  · have hnone := hquiet rows after result hrest
    subst hnone
    rw [List.append_nil]
    rcases run_execInsert hexec with ⟨-, e, hfail⟩ | ⟨statement, live, r, hcompile, rfl, hdone⟩
    · cases hfail
    · obtain rfl := hdone rows rfl
      refine .inr ⟨_, rfl, by rw [hcompile]; rfl, rfl, ?_⟩
      rintro id rfl
      exact hread rows [] id hrest _ _ _

theorem run_insertedId {node : Node} (h : (insertedId conn node i supplied).Run log result) :
    InsertsBy node supplied
      (if conn.dialect.supportsReturning then
        ((i.withReturning node.id.column).compile conn.dialect).map fun s =>
          .query conn.inside (.insert s)
      else (i.compile conn.dialect).map fun s => .exec conn.inside (.insert s)) log result := by
  unfold insertedId at h
  by_cases hreturning : conn.dialect.supportsReturning = true
  · rw [if_pos hreturning] at h ⊢
    refine insertsBy_of_query ?_ ?_ h
    · intro rows log id hread inside live c
      cases hfirst : rows.firstValue? with
      | some v =>
        rw [hfirst] at hread
        exact .returned hfirst (run_ofExcept.mp hread).2.symm
      | none =>
        rw [hfirst] at hread
        cases supplied with
        | some v =>
          obtain rfl := Except.ok.inj (run_done.mp hread).2
          exact .unreturned hfirst rfl
        | none => cases (run_fail.mp hread).2
    · intro rows log result hread
      cases hfirst : rows.firstValue? with
      | some v =>
        rw [hfirst] at hread
        exact (run_ofExcept.mp hread).1
      | none =>
        rw [hfirst] at hread
        cases supplied with
        | some v => exact (run_done.mp hread).1
        | none => exact (run_fail.mp hread).1
  · rw [if_neg hreturning] at h ⊢
    refine insertsBy_of_exec ?_ ?_ h
    · intro r log id hread inside live c
      cases supplied with
      | some v =>
        obtain rfl := Except.ok.inj (run_done.mp hread).2
        exact .supplied rfl
      | none =>
        obtain ⟨_, before, after, -, -, hread⟩ := run_bind_ok.mp hread
        cases hlast : r.lastInsertId with
        | none =>
          rw [hlast] at hread
          cases (run_fail.mp hread).2
        | some last =>
          rw [hlast] at hread
          dsimp only at hread
          split at hread
          case isTrue hne => exact .reported rfl hlast hne (run_ofExcept.mp hread).2.symm
          case isFalse => cases (run_fail.mp hread).2
    · intro r log result hread
      cases supplied with
      | some v => exact (run_done.mp hread).1
      | none =>
        rcases run_bind.mp hread with ⟨e, hcheck, -⟩ | ⟨_, before, after, rfl, hcheck, hread⟩
        · exact (run_ofExcept.mp hcheck).1
        · rw [(run_ofExcept.mp hcheck).1]
          cases hlast : r.lastInsertId with
          | none =>
            rw [hlast] at hread
            exact (run_fail.mp hread).1
          | some last =>
            rw [hlast] at hread
            dsimp only at hread
            split at hread
            case isTrue => exact (run_ofExcept.mp hread).1
            case isFalse => exact (run_fail.mp hread).1

/-- The INSERT of a node's own row is sent as one call, and the ID of the node is known from it. -/
theorem run_insertRow (hi : c.insertion conn.dialect supplied = .ok i)
    (h : (insertRow conn c supplied i).Run log result) :
    InsertsBy c.node supplied (c.ownCall conn supplied) log result := by
  have hcall : c.ownCall conn supplied = if c.returnsId conn supplied then
      ((i.withReturning c.node.id.column).compile conn.dialect).map fun s =>
        .query conn.inside (.insert s)
      else (i.compile conn.dialect).map fun s => .exec conn.inside (.insert s) := by
    unfold ownCall
    rw [hi]
    rfl
  have hreads (hplain : insertRow conn c supplied i = insertedId conn c.node i supplied)
      (hreturns : c.returnsId conn supplied = conn.dialect.supportsReturning) :
      InsertsBy c.node supplied (c.ownCall conn supplied) log result := by
    rw [hcall, hreturns]
    exact run_insertedId (hplain ▸ h)
  cases supplied with
  | none => exact hreads rfl (by simp [returnsId])
  | some id =>
    cases hpolicy : c.policy with
    | some policy =>
      exact hreads (by simp [insertRow, hpolicy]) (by simp [returnsId, hpolicy])
    | none =>
      rw [hcall, returnsId, hpolicy, if_neg (by simp)]
      have hrow : insertRow conn c (some id) i = conn.execInsert i >>= fun _ => pure id := by
        unfold insertRow
        rw [hpolicy]
        exact bind_map_left _ _ _
      rw [hrow] at h
      refine insertsBy_of_exec ?_ ?_ h
      · intro r log id' hread inside live c
        obtain rfl := Except.ok.inj (run_done.mp hread).2
        exact .supplied rfl
      · intro r log result hread
        exact (run_done.mp hread).1

end NodeCreation

/-! ## Turns -/

/-- What has been sent when it was the turn of one node. -/
structure Turn where
  /-- The position of the node in its batch. -/
  position : Nat
  /-- What is to be created. -/
  creation : NodeCreation
  /-- The ID to insert the node with. -/
  supplied : Option Value
  log : List Exchange
  /-- The INSERT of the node's own row. -/
  own : Exchange
  /-- The ID of the node, if the INSERT has told one. -/
  id : Option Value
  /-- The statements that write the edges of the node. -/
  links : List Exchange

namespace Turn

/-- What has been sent is what the creation asks for. -/
structure Conforms (conn : Connection) (t : Turn) : Prop where
  supplied : t.creation.node.Supplies t.log t.supplied
  writing : writing t.log = t.own :: t.links
  own : t.creation.ownCall conn t.supplied = .ok t.own.call
  obtained : ∀ id, t.id = some id → t.creation.node.Obtains t.supplied t.own id
  unlinked : t.id = none → t.links = []
  linked : ∀ id, t.id = some id →
    callsOf t.links <+: ExternalEdges.statements conn id t.creation.edges

/-- All edges of the node have been written. -/
def IsComplete (conn : Connection) (t : Turn) : Prop :=
  ∃ id, t.id = some id ∧ callsOf t.links = ExternalEdges.statements conn id t.creation.edges

/-- A turn that starts with what does not write. -/
theorem Conforms.prepend {t : Turn} (h : t.Conforms conn) (hquiet : EntityGraph.writing log = []) :
    ({ t with log := log ++ t.log } : Turn).Conforms conn :=
  { supplied := h.supplied.mono (List.subset_append_right _ _)
    writing := by rw [writing_append, hquiet, List.nil_append, h.writing]
    own := h.own
    obtained := h.obtained
    unlinked := h.unlinked
    linked := h.linked }

end Turn

/-- The edges of a node are written once its own row has been inserted. -/
theorem NodeCreation.run_create {position : Nat} {edges : List Edge} {id : Value}
    {result : Except Error Value}
    (h : (Program.revise position (.id id) >>= fun _ =>
      ExternalEdges.create conn id edges >>= fun _ => (pure id : Program Value)).Run log result) :
    callsOf (writing log) <+: ExternalEdges.statements conn id edges ∧
      ∀ id', result = .ok id' →
        id' = id ∧ callsOf (writing log) = ExternalEdges.statements conn id edges := by
  obtain ⟨live, r, links, rfl, hrest⟩ := run_request.mp h
  have hsent : ∃ sent, (ExternalEdges.create conn id edges).Run links sent ∧
      ∀ id', result = .ok id' → id' = id ∧ sent = .ok () := by
    rcases run_bind.mp hrest with ⟨e, hcreate, rfl⟩ | ⟨_, created, rest, rfl, hcreate, hdone⟩
    · exact ⟨_, hcreate, nofun⟩
    · obtain ⟨rfl, rfl⟩ := run_done.mp hdone
      rw [List.append_nil]
      exact ⟨_, hcreate, fun id' hid => ⟨(Except.ok.inj hid).symm, rfl⟩⟩
  obtain ⟨sent, hcreate, hresult⟩ := hsent
  have hwriting : writing (⟨.revise position (.id id), live, r⟩ :: links) = links :=
    ExternalEdges.writing_create hcreate
  obtain ⟨hfront, hall⟩ := ExternalEdges.sends_create conn id edges links sent hcreate
  rw [hwriting]
  refine ⟨hfront, ?_⟩
  intro id' hid
  obtain ⟨hid, hsent⟩ := hresult id' hid
  exact ⟨hid, hall () hsent⟩

/-- Every run of a creation stops before it writes, or has a turn of its node. -/
theorem NodeCreation.run_write {position : Nat} {c : NodeCreation} {result : Except Error Value}
    (h : (write conn position c).Run log result) :
    (writing log = [] ∧ ∃ e, result = .error e) ∨ ∃ t : Turn, t.position = position ∧
      t.creation = c ∧ t.log = log ∧ t.Conforms conn ∧
        ∀ id, result = .ok id → t.id = some id ∧ t.IsComplete conn := by
  have hchecks := Partner.check_reads conn c.node none c.edges []
  have hsupplies := supplyId_reads position c.node
  rw [write_eq] at h
  rcases run_bind.mp h with ⟨e, hcheck, rfl⟩ | ⟨_, probes, log₁, rfl, hcheck, hfound⟩
  · exact .inl ⟨hchecks.writing_eq_nil hcheck, e, rfl⟩
  rcases run_bind.mp hfound with ⟨e, hsupply, rfl⟩ | ⟨supplied, draws, log₂, rfl, hsupply, hinsert⟩
  · left
    rw [writing_append, hchecks.writing_eq_nil hcheck, hsupplies.writing_eq_nil hsupply]
    exact ⟨rfl, e, rfl⟩
  have hquiet : writing (probes ++ draws) = [] := by
    rw [writing_append, hchecks.writing_eq_nil hcheck, hsupplies.writing_eq_nil hsupply]
    rfl
  have hsupplied : ∀ more, c.node.Supplies (probes ++ (draws ++ more)) supplied := by
    intro more
    apply (run_supplyId hsupply).mono
    intro x hx
    simp [hx]
  rcases run_bind.mp hinsert with ⟨e, hlift, rfl⟩ | ⟨i, before, log₃, rfl, hlift, hwritten⟩
  · left
    rw [(run_ofExcept.mp hlift).1, List.append_nil]
    exact ⟨hquiet, e, rfl⟩
  obtain ⟨rfl, hi⟩ := run_ofExcept.mp hlift
  rcases run_bind.mp hwritten with ⟨e, hrow, rfl⟩ | ⟨id, inserts, links, rfl, hrow, hcreate⟩
  · rcases run_insertRow hi.symm hrow with ⟨rfl, -⟩ | ⟨own, rfl, hcall, hwrite, -⟩
    · left
      rw [List.append_nil, List.append_nil]
      exact ⟨hquiet, e, rfl⟩
    · right
      refine ⟨⟨position, c, supplied, _, own, none, []⟩, rfl, rfl, rfl, ?_, nofun⟩
      have hwriting : writing (probes ++ (draws ++ ([] ++ [own]))) = [own] := by
        rw [List.nil_append, ← List.append_assoc, writing_append, hquiet]
        simp [writing, hwrite]
      exact ⟨hsupplied _, hwriting, hcall, nofun, fun _ => rfl, nofun⟩
  · rcases run_insertRow hi.symm hrow with ⟨-, e, hfail⟩ | ⟨own, rfl, hcall, hwrite, hobtains⟩
    · cases hfail
    · obtain ⟨hfront, hall⟩ := run_create hcreate
      right
      refine ⟨⟨position, c, supplied, _, own, some id, writing links⟩, rfl, rfl, rfl, ?_, ?_⟩
      · have hwriting : writing (probes ++ (draws ++ ([] ++ ([own] ++ links)))) =
            own :: writing links := by
          rw [List.nil_append, ← List.append_assoc, writing_append, hquiet, writing_append]
          simp [writing, hwrite]
        refine ⟨hsupplied _, hwriting, hcall, ?_, nofun, ?_⟩
        · rintro _ ⟨⟩
          exact hobtains id rfl
        · rintro _ ⟨⟩
          exact hfront
      · intro id' hid
        obtain ⟨rfl, hlinks⟩ := hall id' hid
        exact ⟨rfl, id', rfl, hlinks⟩

end EntityGraph
