import EntityGraph.Proofs.Graph.BulkInserts
import EntityGraph.Proofs.Graph.ChainRuns
import EntityGraph.Proofs.Graph.OwnRow
import EntityGraph.Proofs.Program.Maintained
import EntityGraph.Proofs.Transaction.Mutation

/-!
# The statements that mutations may send

What a mutation can send is said once: each kind of statement is a constructor, with what has been
checked before the statement is sent. `Mutation.issues` says that no run of a mutation sends
anything else, whatever the replies are, so a property of what is sent is a case analysis of
`Mutation.MaySend`.
-/

set_option autoImplicit false

namespace EntityGraph

open Program

/-- A statement that only reads. -/
def Command.IsRead (c : Command) : Prop := c.isWrite = false

/-! ## The statements -/

/-- The statements about edges that are stored outside the rows of their nodes, and the questions
about their partners. -/
inductive EdgeChanges.MaySend (d : Dialect) (changes : EdgeChanges) : Command → Prop
  | ask (s : Selector) : MaySend d changes (.anyRow s)
  | addPairs {table : String} {links : List (List Value × Edge)} {i : Insert}
      {statement : InsertStatement} (some_links : links ≠ [])
      (insert : JoinTable.insertOf table links = .ok i) (some_rows : i.rows ≠ [])
      (compiled : i.compile d = .ok statement) : MaySend d changes (.insert statement)
  | clearPairs {table : String} {ids : List Value} {edges : List Edge} {x : Delete}
      (some_ids : ids ≠ []) (some_edges : edges ≠ []) (mem : edges ⊆ changes.clear)
      (clearing : JoinTable.clearing table ids edges = .ok x) : MaySend d changes (.delete x)
  | link {e : Edge} {fk : String} (id : Value) (mem : e ∈ changes.add)
      (stored : e.isForeignKeyEdge = true) (some_targets : e.target.nodes ≠ [])
      (column : e.columns = [fk]) : MaySend d changes (.update (ForeignKey.linking id fk e))
  | clearLinks {e : Edge} {ids : List Value} {u : Update} (some_ids : ids ≠ [])
      (mem : e ∈ changes.clear) (clearing : ForeignKey.clearing ids e = .ok u) :
      MaySend d changes (.update u)

theorem EdgeChanges.MaySend.mono {d : Dialect} {add add' : List Edge} {s : Command}
    (h : EdgeChanges.MaySend d ⟨add, []⟩ s) (hadd : add ⊆ add') :
    EdgeChanges.MaySend d ⟨add', []⟩ s := by
  cases h with
  | ask s => exact .ask s
  | addPairs hlinks hinsert hrows hcompile => exact .addPairs hlinks hinsert hrows hcompile
  | clearPairs _ hne hmem _ => exact absurd (List.subset_nil.mp hmem) hne
  | link id hmem hstored htargets hcolumn => exact .link id (hadd hmem) hstored htargets hcolumn
  | clearLinks _ hmem _ => cases hmem

/-- The statements of the creation of a node. -/
inductive NodeCreation.MaySend (d : Dialect) (c : NodeCreation) : Command → Prop
  | edges {s : Command} (h : EdgeChanges.MaySend d ⟨c.edges, []⟩ s) : MaySend d c s
  | row {supplied : Option Value} {i : Insert} {returning : List String}
      {statement : InsertStatement} (supplies : c.LeavesId → supplied = none)
      (insertion : c.insertion d supplied = .ok i)
      (compiled : { i with returning }.compile d = .ok statement) :
      MaySend d c (.insert statement)

namespace BatchCreation

/-- The node of a batch with some of its references resolved, under the policy of the batch. -/
def linked (b : BatchCreation) (c : NodeCreation) (edges : List Edge) : NodeCreation :=
  { c with edges, policy := b.policy.or c.policy }

/-- The statements of a batch. The rows of nodes are inserted one by one in a chain of references,
and where no node writes a column. -/
inductive MaySend (d : Dialect) (b : BatchCreation) : Command → Prop
  | edges {s : Command} (h : EdgeChanges.MaySend d ⟨b.nodes.flatMap NodeCreation.edges, []⟩ s) :
      MaySend d b s
  | read (s : Selector) : MaySend d b (.select s)
  | chained {c : NodeCreation} {edges : List Edge} {s : Command} (mem : c ∈ b.nodes)
      (h : (b.linked c edges).MaySend d s) : MaySend d b s
  | single {c : NodeCreation} {s : Command} (mem : c ∈ b.nodes) (leavesId : c.LeavesId)
      (no_columns : c.node.ownColumns c.fields c.edges = .ok []) (h : c.MaySend d s) :
      MaySend d b s
  | rows {first : NodeCreation} {rows : List OwnRow} {returning : List String}
      {statement : InsertStatement} (head : b.nodes.head? = some first) (some_rows : rows ≠ [])
      (some_columns : columnsOf first.node.id.column (rows.filterMap OwnRow.id) rows ≠ [])
      (compiled : { insertOf first.node.table first.node.id.column rows returning with
        policy := b.policy.or first.policy }.compile d = .ok statement) :
      MaySend d b (.insert statement)

end BatchCreation

/-- The statements of an update: of one node that is named by its ID, or of all that meet a
condition. -/
inductive NodeUpdate.MaySend (d : Dialect) (u : NodeUpdate) : (named : Bool) → Command → Prop
  | edges {named : Bool} {s : Command} (h : u.edges.MaySend d s) : MaySend d u named s
  | read {named : Bool} (s : Selector) : MaySend d u named (.select s)
  | namedRow {own : Update} (id : Value) (columns : u.ownUpdate = .ok own)
      (some_columns : own.isEmpty = false) :
      MaySend d u true (.update ((own.filter (.eq u.node.id.column id)).filterOpt u.predicate))
  | foundRows {own : Update} (ids : List Value) (columns : u.ownUpdate = .ok own)
      (some_columns : own.isEmpty = false) :
      MaySend d u false (.update (own.filter (.oneOf u.node.id.column ids)))
  | rows {own : Update} (plain : u.needsIds = false) (columns : u.ownUpdate = .ok own)
      (some_columns : own.isEmpty = false) : MaySend d u false (.update (own.filterOpt u.predicate))

/-- The statements of a mutation. -/
def Mutation.MaySend (d : Dialect) : Mutation → Command → Prop
  | .createNode c, s => c.MaySend d s
  | .batchCreate b, s => b.MaySend d s
  | .updateNode u, s => u.MaySend d true s
  | .updateNodes u, s => u.MaySend d false s
  | .deleteNode x, s => ∃ id, s = .delete
      (((Delete.ofTable x.node.table).filter (.eq x.node.id.column id)).filterOpt x.predicate)
  | .deleteNodes x, s => s = .delete ((Delete.ofTable x.node.table).filterOpt x.predicate)

/-! ## Edges -/

variable {P : Command → Prop} {conn : Connection} {d : Dialect}

/-- Looking for partners only asks. -/
theorem Partner.issues_check (hP : ∀ s, P (.anyRow s)) {node : Node} {id? : Option Value}
    {add clear : List Edge} : (check conn node id? add clear).Issues P := by
  refine maintains_forM fun e _ => ?_
  unfold checkEdge
  split
  case h_1 => exact issues_done _
  case h_2 =>
    refine issues_lift_bind fun fk _ => maintains_forM fun q _ => ?_
    refine (issues_probe (hP q.rows)).bind fun taken => ?_
    cases taken with
    | true => exact issues_fail _
    | false => exact issues_done _

section Edges

variable {changes : EdgeChanges} {ids : List Value}

/-- Edges of many to many are added table by table, where there are rows to add. -/
theorem JoinTable.issues_add {links : List (List Value × Edge)} :
    (add conn links).Issues (changes.MaySend conn.dialect) := by
  unfold add
  dsimp only
  rw [mapM_liftM]
  refine issues_lift_bind fun inserts hinserts => maintains_forM fun i hi => ?_
  obtain ⟨g, hg, hinsert⟩ := exists_of_forall₂ (mapM_eq_ok.mp hinserts).flip hi
  split
  case isTrue => exact issues_done _
  case isFalse hrows =>
    refine Maintains.discard (issues_execInsert fun statement hcompile => ?_)
    exact .addPairs (mem_of_groupByName hg).1 hinsert (by simpa using hrows) hcompile

theorem JoinTable.issues_clear :
    (clear conn ids changes.clear).Issues (changes.MaySend d) := by
  unfold clear
  split
  case isTrue => exact issues_done _
  case isFalse hids =>
    refine maintains_forM fun g hg => issues_lift_bind fun x hx => ?_
    obtain ⟨hne, hgroup⟩ := mem_of_groupByName hg
    have hsub : g.2 ⊆ changes.clear := fun e he => ((hgroup e).mp he).1
    exact Maintains.discard (issues_exec (.clearPairs (by simpa using hids) hne hsub hx))

/-- Targets of edges are linked one edge after the other. -/
theorem ForeignKey.issues_add : (add conn ids changes.add).Issues (changes.MaySend d) := by
  unfold add
  split
  case h_1 => exact issues_done _
  case h_2 id _ =>
    refine maintains_forM fun e he => issues_lift_bind fun fk hfk => ?_
    obtain ⟨hmem, he⟩ := List.mem_filter.mp he
    obtain ⟨hstored, htargets⟩ := Bool.and_eq_true_iff.mp he
    refine (issues_exec (.link id hmem hstored (by simpa using htargets)
      (Edge.foreignKey_eq_ok.mp hfk))).bind fun result => ?_
    split
    case isTrue => exact issues_fail _
    case isFalse => exact issues_done _
  case h_3 => exact issues_fail _

theorem ForeignKey.issues_clear :
    (clear conn ids changes.clear).Issues (changes.MaySend d) := by
  unfold clear
  split
  case isTrue => exact issues_done _
  case isFalse hids =>
    refine maintains_forM fun e he => issues_lift_bind fun u hu => ?_
    exact Maintains.discard
      (issues_exec (.clearLinks (by simpa using hids) (List.mem_of_mem_filter he) hu))

theorem ExternalEdges.issues_change :
    (change conn ids changes).Issues (changes.MaySend conn.dialect) :=
  JoinTable.issues_clear.bind fun _ => JoinTable.issues_add.bind fun _ =>
    ForeignKey.issues_clear.bind fun _ => ForeignKey.issues_add

theorem ExternalEdges.issues_create {id : Value} {edges : List Edge} :
    (create conn id edges).Issues (EdgeChanges.MaySend conn.dialect ⟨edges, []⟩) := by
  have hlinks : (ForeignKey.add conn [id] (EdgeChanges.mk edges []).add).Issues
      (EdgeChanges.MaySend conn.dialect ⟨edges, []⟩) := ForeignKey.issues_add
  exact JoinTable.issues_add.bind fun _ => hlinks

end Edges

/-! ## Creations -/

namespace NodeCreation

variable {c : NodeCreation}

theorem issues_supplyId {position : Nat} {node : Node} : (supplyId position node).Issues P := by
  unfold supplyId
  split
  case isTrue => exact issues_lift_bind fun v _ => issues_done _
  case isFalse =>
    split
    case h_1 => exact issues_done _
    case h_2 => exact issues_fail _
    case h_3 g _ =>
      refine (issues_draw g).bind fun drawn => (issues_revise _ _).bind fun _ => ?_
      exact issues_lift_bind fun v _ => issues_done _

/-- A node that leaves its ID to the database is not supplied with one. -/
theorem LeavesId.supplied {position : Nat} {supplied : Option Value} {log : List Exchange}
    (h : c.LeavesId) (hrun : (supplyId position c.node).Run log (.ok supplied)) :
    supplied = none := by
  cases run_supplyId hrun with
  | given hgiven => simp [h.1] at hgiven
  | drawn _ hstrategy => cases h.2.symm.trans hstrategy
  | assigned => rfl

/-- The own row of a node is inserted by one statement, with or without rows in its reply. -/
theorem issues_insertRow {supplied : Option Value} {i : Insert}
    (hinsert : ∀ returning (statement : InsertStatement),
      { i with returning }.compile conn.dialect = .ok statement → P (.insert statement)) :
    (insertRow conn c supplied i).Issues P := by
  have hread : (insertedId conn c.node i supplied).Issues P := by
    unfold insertedId
    split
    case isTrue =>
      refine (issues_queryInsert fun statement => hinsert _ statement).bind fun rows => ?_
      split
      case h_1 => exact issues_lift _
      case h_2 => exact issues_done _
      case h_3 => exact issues_fail _
    case isFalse =>
      refine (issues_execInsert fun statement => hinsert _ statement).bind fun r => ?_
      split
      case h_1 => exact issues_done _
      case h_2 =>
        refine issues_lift_bind fun _ _ => ?_
        split
        case h_1 =>
          split
          case isTrue => exact issues_lift _
          case isFalse => exact issues_fail _
        case h_2 => exact issues_fail _
  unfold insertRow
  split
  case h_1 id _ =>
    refine Issues.bind ?_ fun _ => issues_done _
    exact Maintains.discard (issues_execInsert fun statement => hinsert _ statement)
  case h_2 => exact hread

/-- What is inserted for a node: the columns of its own row, under its conflict policy. -/
theorem insertion_ok {supplied : Option Value} {i : Insert} (h : c.insertion d supplied = .ok i) :
    ∃ own, c.node.ownColumns c.fields c.edges = .ok own ∧ i.table = c.node.table ∧
      i.columns = (c.insertedColumns supplied own).map (·.1) ∧
      i.rows = (if (c.insertedColumns supplied own).isEmpty then []
        else [(c.insertedColumns supplied own).map (·.2)]) ∧ i.policy = c.policy := by
  obtain ⟨own, hown, hi⟩ := bind_eq_ok.mp h
  refine ⟨own, hown, ?_⟩
  have hset := Insert.foldl_set (c.insertedColumns supplied own) c.node.table
  unfold insertedColumns at hset ⊢
  dsimp only at hi
  rw [hset] at hi
  split at hi
  case h_1 hpolicy =>
    obtain rfl := Except.ok.inj hi
    exact ⟨rfl, rfl, rfl, hpolicy.symm⟩
  case h_2 policy hpolicy =>
    split at hi
    all_goals
      obtain rfl := Except.ok.inj hi
      exact ⟨rfl, rfl, rfl, hpolicy.symm⟩

theorem issues_write {position : Nat} :
    (write conn position c).Issues (c.MaySend conn.dialect) := by
  rw [write_eq]
  refine (Partner.issues_check fun s => .edges (.ask s)).bind fun _ => ?_
  refine issues_supplyId.bind_run fun supplied log hsupplied => issues_lift_bind fun i hi => ?_
  refine (issues_insertRow fun returning statement => ?_).bind fun id => ?_
  · exact .row (fun h => h.supplied hsupplied) hi
  refine (issues_revise _ _).bind fun _ => Issues.bind ?_ fun _ => issues_done _
  exact ExternalEdges.issues_create.mono fun _ => .edges

end NodeCreation

/-! ## Batches -/

namespace BatchCreation

variable {b : BatchCreation}

theorem issues_createChain {order : List Nat} :
    (createChain conn b order).Issues (b.MaySend conn.dialect) := by
  refine (issues_foldlM (fun s i _ => ?_) _).bind fun _ => issues_done _
  cases hc : b.nodes[i]? with
  | none =>
    unfold createLink
    rw [hc]
    exact issues_done s
  | some c =>
    rw [createLink_eq hc]
    refine (issues_revise _ _).bind fun _ => ?_
    split
    case isFalse => exact issues_fail _
    case isTrue =>
      refine issues_lift_bind fun claims _ => Issues.bind ?_ fun _ => ?_
      · exact maintains_forM fun policy _ => issues_revise _ _
      · refine Issues.bind ?_ fun id => issues_done _
        exact NodeCreation.issues_write.mono fun _ => .chained (List.mem_of_getElem? hc)

theorem issues_ownRows {nodes : List NodeCreation} {i : Nat} {claims : List PartnerClaim}
    (hP : ∀ s, P (.anyRow s)) : (ownRows conn i claims nodes).Issues P := by
  induction nodes generalizing i claims with
  | nil => exact issues_done _
  | cons c rest ih =>
    refine issues_lift_bind fun claimed _ => (Partner.issues_check hP).bind fun _ => ?_
    refine NodeCreation.issues_supplyId.bind fun id => issues_lift_bind fun columns _ => ?_
    exact ih.bind fun others => issues_done _

theorem foldl_withReturning (columns : List String) (i : Insert) :
    columns.foldl Insert.withReturning i = { i with returning := i.returning ++ columns } := by
  induction columns generalizing i with
  | nil => simp
  | cons column columns ih =>
    rw [List.foldl_cons, ih]
    simp [Insert.withReturning]

/-- Rows are inserted by one statement. Where conflicts are resolved, the stored rows may be read
back afterwards. -/
theorem issues_insertRows {node : Node} {policy : Option ConflictPolicy} {supplied : List Value}
    {bound : BoundRows} (hread : ∀ s, P (.select s))
    (hinsert : ∀ returning (statement : InsertStatement),
      { bound.rows.foldl Insert.addRow ((Insert.into node.table).withColumns bound.columns) with
        returning, policy }.compile conn.dialect = .ok statement → P (.insert statement)) :
    (insertRows conn node policy supplied bound).Issues P := by
  cases policy with
  | none =>
    have hplain : ∀ returning (statement : InsertStatement),
        { bound.rows.foldl Insert.addRow ((Insert.into node.table).withColumns bound.columns) with
          returning }.compile conn.dialect = .ok statement → P (.insert statement) := by
      rw [Insert.foldl_addRow] at hinsert ⊢
      exact hinsert
    refine issues_ite (fun _ => issues_ite (fun _ => ?_) fun _ => ?_) fun _ => ?_
    · exact (issues_queryInsert fun statement => hplain _ statement).bind fun _ => issues_lift _
    · refine issues_lift_bind fun _ _ => ?_
      refine (issues_execInsert fun statement => hplain _ statement).bind fun result => ?_
      split
      case h_1 => exact issues_fail _
      case h_2 => exact issues_lift _
    · refine Issues.bind ?_ fun _ => issues_done _
      exact Maintains.discard (issues_execInsert fun statement => hplain _ statement)
  | some policy =>
    have hselect : ∀ s, (conn.query (.select s) >>= fun rows => pure rows.rows).Issues P :=
      fun s => (issues_query (hread s)).bind fun _ => issues_done _
    refine Issues.bind (issues_ite (fun _ => ?_) fun _ => ?_) fun stored => issues_lift _
    · refine (issues_queryInsert fun statement hcompile => ?_).bind fun rows => issues_done _
      rw [foldl_withReturning] at hcompile
      exact hinsert _ statement hcompile
    · refine issues_ite (fun _ => issues_lift_bind fun _ _ => ?_) fun _ => ?_
      all_goals
        refine (issues_execInsert fun statement => hinsert _ statement).bind fun result => ?_
        refine issues_ite (fun _ => ?_) fun _ => hselect _
        split
        case h_1 => exact issues_ite (fun _ => hselect _) fun _ => issues_done _
        case h_2 => exact issues_done _

theorem issues_createEach {nodes : List NodeCreation} {i : Nat} (hsub : nodes ⊆ b.nodes)
    (hbare : ∀ c ∈ nodes, c.LeavesId ∧ c.node.ownColumns c.fields c.edges = .ok []) :
    (createEach conn i nodes).Issues (b.MaySend conn.dialect) := by
  induction nodes generalizing i with
  | nil => exact issues_done _
  | cons c rest ih =>
    obtain ⟨hc, hrest⟩ := List.cons_subset.mp hsub
    obtain ⟨⟨hleaves, hcolumns⟩, hothers⟩ := List.forall_mem_cons.mp hbare
    refine (NodeCreation.issues_write.mono fun _ => .single hc hleaves hcolumns).bind fun id => ?_
    exact (ih hrest hothers).bind fun ids => issues_done _

theorem issues_reviseIds {ids : List Value} {i : Nat} : (reviseIds i ids).Issues P := by
  induction ids generalizing i with
  | nil => exact issues_done _
  | cons id ids ih => exact (issues_revise i (.id id)).bind fun _ => ih

theorem issues_addEdges {ids : List Value} :
    (addEdges conn b.nodes ids).Issues (b.MaySend conn.dialect) := by
  refine Issues.bind (JoinTable.issues_add.mono fun _ => .edges) fun _ => ?_
  refine maintains_forM fun p hp => ?_
  have hc : p.1 ∈ b.nodes := (List.of_mem_zip (List.mem_of_mem_filter hp)).1
  have hlinks : (ForeignKey.add conn [p.2] (EdgeChanges.mk p.1.edges []).add).Issues
      (EdgeChanges.MaySend conn.dialect ⟨p.1.edges, []⟩) := ForeignKey.issues_add
  exact hlinks.mono fun s h => .edges (h.mono fun e he => List.mem_flatMap.mpr ⟨p.1, hc, he⟩)

/-- Own rows that have no columns are those of nodes that write none. -/
theorem leavesId_of_no_columns {nodes : List NodeCreation} {rows : List OwnRow} {idColumn : String}
    (hrows : List.Forall₂ OwnRow.IsOf nodes rows)
    (hnone : columnsOf idColumn (rows.filterMap OwnRow.id) rows = []) {c : NodeCreation}
    (hc : c ∈ nodes) : c.LeavesId ∧ c.node.ownColumns c.fields c.edges = .ok [] := by
  obtain ⟨r, hr, hcolumns, hleaves⟩ := exists_of_forall₂ hrows hc
  have hempty : ∀ column, column ∉ columnsOf idColumn (rows.filterMap OwnRow.id) rows := by
    simp [hnone]
  constructor
  · apply hleaves
    cases hid : r.id with
    | none => rfl
    | some id =>
      refine absurd (mem_columnsOf.mpr (.inl ⟨?_, rfl⟩)) (hempty idColumn)
      exact List.ne_nil_of_mem (List.mem_filterMap.mpr ⟨r, hr, hid⟩)
  · cases hown : r.columns with
    | nil => rw [hcolumns, hown]
    | cons p rest =>
      refine absurd (mem_columnsOf.mpr (.inr ⟨r, hr, p.2, ?_⟩)) (hempty p.1)
      rw [hown]
      exact List.mem_cons_self

theorem issues_createBulk : (createBulk conn b).Issues (b.MaySend conn.dialect) := by
  have hask : ∀ s, b.MaySend conn.dialect (.anyRow s) := fun s => .edges (.ask s)
  unfold createBulk
  refine (issues_ownRows hask).bind_run fun rows log hrun => ?_
  have hrows := ownRows_are_of hrun
  cases hnodes : b.nodes with
  | nil => exact issues_done _
  | cons first rest =>
    refine issues_ite (fun _ => issues_fail _) fun _ => issues_ite (fun hnone => ?_) fun hsome => ?_
    case refine_1 =>
      rw [List.isEmpty_iff] at hnone
      rw [hnodes] at hrows
      exact issues_createEach (hnodes ▸ List.Subset.refl _) fun c hc =>
        leavesId_of_no_columns hrows hnone hc
    case refine_2 =>
      rw [List.isEmpty_iff] at hsome
      have hne : rows ≠ [] := by
        rintro rfl
        rw [hnodes] at hrows
        cases hrows
      refine (issues_insertRows (fun s => .read s) fun returning statement hcompile => ?_).bind
        fun ids => issues_reviseIds.bind fun _ => ?_
      · rw [foldl_addRow_eq] at hcompile
        exact @MaySend.rows _ _ _ _ returning _ (by rw [hnodes]; rfl) hne hsome hcompile
      · rw [← hnodes]
        exact issues_addEdges.bind fun _ => issues_done _

end BatchCreation

/-! ## Updates -/

namespace NodeUpdate

variable {u : NodeUpdate}

theorem issues_readBack (hread : ∀ s, P (.select s)) {id : Value} :
    (u.readBack conn id).Issues P := by
  refine (issues_query (hread _)).bind fun rows => ?_
  split
  case h_1 => exact issues_fail _
  case h_2 =>
    refine issues_lift_bind fun types _ => issues_lift_bind fun values _ => ?_
    exact issues_deliver _

theorem issues_writeOne {id : Value} :
    (u.writeOne conn id).Issues (u.MaySend conn.dialect true) := by
  have hrow : (u.writeOwnRow conn id).Issues (u.MaySend conn.dialect true) := by
    refine issues_lift_bind fun own hown => issues_ite (fun _ => issues_done _) fun hsome => ?_
    refine (issues_exec ?_).bind fun _ => issues_done _
    exact .namedRow id hown (by simpa using hsome)
  have hafter : (ExternalEdges.change conn [id] u.edges >>= fun _ =>
      if u.delivers = true then u.readBack conn id else Program.done ()).Issues
        (u.MaySend conn.dialect true) := by
    refine (ExternalEdges.issues_change.mono fun _ => .edges).bind fun _ => ?_
    exact issues_ite (fun _ => issues_readBack fun s => .read s) fun _ => issues_done _
  refine (Partner.issues_check fun s => .edges (.ask s)).bind fun _ => hrow.bind fun changed => ?_
  refine issues_ite (fun _ => ?_) fun _ => hafter
  refine (issues_probe (.edges (.ask _))).bind fun present => ?_
  cases present with
  | false => exact issues_fail _
  | true => exact hafter

theorem issues_writeMany : (u.writeMany conn).Issues (u.MaySend conn.dialect false) := by
  have hids : (u.matchedIds conn).Issues (u.MaySend conn.dialect false) :=
    (issues_query (.read _)).bind fun rows => issues_lift _
  have hpartners : ∀ ids, (u.checkPartners conn ids).Issues (u.MaySend conn.dialect false) :=
    fun ids => issues_ite (fun _ => issues_ite (fun _ => issues_fail _) fun _ =>
      Partner.issues_check fun s => .edges (.ask s)) fun _ => issues_done _
  have hafter : ∀ ids, (ExternalEdges.change conn ids u.edges >>= fun _ =>
      Program.done ids.length).Issues (u.MaySend conn.dialect false) :=
    fun ids => (ExternalEdges.issues_change.mono fun _ => .edges).bind fun _ => issues_done _
  refine hids.bind fun ids => issues_ite (fun _ => issues_done _) fun _ => ?_
  refine (hpartners ids).bind fun _ => issues_lift_bind fun own hown => ?_
  refine issues_ite (fun hsome => ?_) fun _ => hafter ids
  refine (Maintains.discard (issues_exec ?_)).bind (fun _ => hafter ids) fun _ h => h
  exact .foundRows ids hown (by simpa using hsome)

theorem issues_writeRows (hplain : u.needsIds = false) :
    (u.writeRows conn).Issues (u.MaySend d false) := by
  refine issues_lift_bind fun own hown => issues_ite (fun _ => issues_done _) fun hsome => ?_
  exact (issues_exec (.rows hplain hown (by simpa using hsome))).bind fun _ => issues_done _

end NodeUpdate

/-! ## All mutations -/

/-- What a plan sends on its connection. -/
theorem Mutation.issues_plan {m : Mutation} {p : Plan m.Result} (h : m.plan = .ok p)
    (conn : Connection) : (p.body conn).Issues (m.MaySend conn.dialect) := by
  cases planned h with
  | createNode => exact NodeCreation.issues_write
  | batchCreate hbatch =>
    cases hbatch with
    | nothing => exact issues_done _
    | chain => exact BatchCreation.issues_createChain
    | bulk => exact BatchCreation.issues_createBulk
  | updateNode => exact NodeUpdate.issues_writeOne
  | updateFound => exact NodeUpdate.issues_writeMany
  | updateRows _ hplain => exact NodeUpdate.issues_writeRows hplain
  | @deleteNode x id =>
    refine (issues_exec ⟨id, rfl⟩).bind fun result => ?_
    exact issues_ite (fun _ => issues_fail _) fun _ => issues_done _
  | deleteNodes => exact Issues.bind (issues_exec rfl) fun _ => issues_done _

/-- Every statement that a mutation sends is one of those that it may send. -/
theorem Mutation.issues (d : Dialect) (m : Mutation) : (m.program d).Issues (m.MaySend d) := by
  rw [program_eq]
  exact issues_lift_bind fun p hp => issues_connection fun inside => issues_plan hp ⟨d, inside⟩

end EntityGraph
