import EntityGraph.Proofs.Graph.AttributedIds
import EntityGraph.Proofs.Graph.CreationRounds
import EntityGraph.Proofs.Graph.ListedPartners
import EntityGraph.Sample.Generators

/-!
# Rows and columns of a bulk INSERT

Nodes that are inserted together may set different columns. Their INSERT has a column for each name
that one of them sets, in order, and a row for each node, which holds what the node sets in each
column and nothing elsewhere. If the nodes have IDs, the ID column comes first, with the ID that has
been given with the node or drawn for it. A batch in which some nodes have an ID and others have none
is never inserted. It fails: as malformed, or earlier because a target of one to one cannot be
linked, or because a call has failed.
-/

set_option autoImplicit false

namespace EntityGraph

open Program

variable {d : Dialect} {conn : Connection} {log : List Exchange}

/-! ## Names of own columns -/

/-- The names of the columns that are set in a node's own row: fields, then the foreign keys of the
edges that are stored there. -/
def Node.ownNames (fields : List Field) (edges : List Edge) : List String :=
  fields.map (·.column) ++ (edges.filter Edge.writesOwnColumn).flatMap (·.columns)

theorem Edge.names_of_isLinkedAs {edges : List Edge} {linked : List (String × Value)}
    (h : List.Forall₂ IsLinkedAs edges linked) : linked.map (·.1) = edges.flatMap (·.columns) := by
  induction h with
  | nil => rfl
  | cons he _ ih => rw [List.map_cons, List.flatMap_cons, he.1, ih, List.singleton_append]

/-- Own columns have these names, each of which is there once. -/
theorem Node.names_of_ownColumns {node : Node} {fields : List Field} {edges : List Edge}
    {own : List (String × Value)} (h : node.ownColumns fields edges = .ok own) :
    own.map (·.1) = ownNames fields edges ∧ (ownNames fields edges).Nodup := by
  obtain ⟨written, linked, hwritten, hlinked, rfl, hnone⟩ := ownColumns_eq_ok.mp h
  have hfields : written.map (·.1) = fields.map (·.column) := by
    rw [← List.forall₂_eq_eq_eq, List.forall₂_map_left_iff, List.forall₂_map_right_iff]
    exact hwritten.flip.imp fun column f hf => (fieldColumn_eq_ok.mp hf).2.2
  have hnames : (written ++ linked).map (·.1) = ownNames fields edges := by
    rw [List.map_append, hfields, Edge.names_of_isLinkedAs hlinked]
    rfl
  exact ⟨hnames, hnames ▸ (nodup_of_firstRepeated hnone).1⟩

/-! ## What a row has for its node -/

namespace NodeCreation

/-- The names of the columns that a node sets in its own row. -/
def ownNames (c : NodeCreation) : List String := Node.ownNames c.fields c.edges

/-- An ID is given with the node, or one is drawn for it. -/
def HasId (c : NodeCreation) : Prop :=
  c.node.id.value.isNull = false ∨
    c.node.id.value.isNull = true ∧ ∃ g, c.node.strategy = .generator g

/-- The ID of the node at a position of a batch: the given one, or the one that has been drawn and
written down for this position. -/
inductive IdAt (c : NodeCreation) (position : Nat) (log : List Exchange) : Value → Prop
  | given {v : Value} (hid : c.node.id.value.isNull = false) (hbind : c.node.id.bindValue = .ok v) :
    IdAt c position log v
  | drawn {g : IdGenerator} {live live' : Bool} {drawn v : Value}
    (hid : c.node.id.value.isNull = true) (hstrategy : c.node.strategy = .generator g)
    (hdraw : [⟨.draw g, live, drawn⟩, ⟨.revise position (.id drawn), live', ()⟩] <:+: log)
    (hbind : (c.node.withId drawn).id.bindValue = .ok v) : IdAt c position log v

/-- What the row of the node at a position of a batch has in a column: its ID in the ID column, what
the node sets there in another one, and nothing where the node sets nothing. -/
inductive Stores (c : NodeCreation) (idColumn : String) (position : Nat) (log : List Exchange) :
    String → Value → Prop
  | id {v : Value} (h : c.IdAt position log v) : Stores c idColumn position log idColumn v
  | set {column : String} {v : Value} {own : List (String × Value)} (hother : column ≠ idColumn)
    (hown : c.node.ownColumns c.fields c.edges = .ok own) (hset : (column, v) ∈ own) :
    Stores c idColumn position log column v
  | unset {column : String} (hother : column ≠ idColumn) (hunset : column ∉ c.ownNames) :
    Stores c idColumn position log column .null

variable {c : NodeCreation} {position : Nat}

theorem IdAt.mono {log' : List Exchange} {v : Value} (h : c.IdAt position log v)
    (hsub : log <:+: log') : c.IdAt position log' v := by
  cases h with
  | given hid hbind => exact .given hid hbind
  | drawn hid hstrategy hdraw hbind => exact .drawn hid hstrategy (hdraw.trans hsub) hbind

/-- The own columns of a node have its own names, each of which is there once. -/
theorem names_of_ownColumns {own : List (String × Value)}
    (h : c.node.ownColumns c.fields c.edges = .ok own) :
    own.map (·.1) = c.ownNames ∧ c.ownNames.Nodup := Node.names_of_ownColumns h

/-- A node has an ID exactly if there is one to insert it with. -/
theorem hasId_iff {supplied : Option Value} (h : c.node.Supplies log supplied) :
    c.HasId ↔ supplied ≠ none := by
  cases h with
  | given hid _ => simp [HasId, hid]
  | drawn hid hstrategy _ _ => simp [HasId, hid, hstrategy]
  | assigned hid hstrategy => simp [HasId, hid, hstrategy]

/-- A node that leaves its ID to the database has none. -/
theorem LeavesId.not_hasId (h : c.LeavesId) : ¬c.HasId := by
  simp [HasId, h.1, h.2]

/-- The ID that a node of a batch is inserted with is its own. -/
theorem idAt_of_supplyId {v : Value} (h : (supplyId position c.node).Run log (.ok (some v))) :
    c.IdAt position log v := by
  unfold supplyId at h
  split at h
  case isTrue hgiven =>
    obtain ⟨v, _, _, -, hbind, hdone⟩ := run_bind_ok.mp h
    obtain rfl := Option.some.inj (Except.ok.inj (run_done.mp hdone).2)
    exact .given (by simpa using hgiven) (run_ofExcept.mp hbind).2.symm
  case isFalse hnull =>
    split at h
    case h_1 => cases (run_done.mp h).2
    case h_2 => cases (run_fail.mp h).2
    case h_3 g hstrategy =>
      obtain ⟨live, drawn, _, rfl, hrevise⟩ := run_request.mp h
      obtain ⟨live', _, rest, rfl, hread⟩ := run_request.mp hrevise
      obtain ⟨v, _, _, -, hbind, hdone⟩ := run_bind_ok.mp hread
      obtain rfl := Option.some.inj (Except.ok.inj (run_done.mp hdone).2)
      exact .drawn (by simpa using hnull) hstrategy ⟨[], rest, rfl⟩ (run_ofExcept.mp hbind).2.symm

end NodeCreation

namespace BatchCreation

variable {b : BatchCreation} {first : NodeCreation} {rows : List OwnRow} {i : InsertStatement}

/-- The columns of an INSERT of all nodes of a batch are all names that a node sets, in order, and
before them the ID column, if the nodes have IDs. -/
def Lists (b : BatchCreation) (idColumn : String) (columns : List String) : Prop :=
  ∃ names, names.Pairwise (· < ·) ∧ (∀ n, n ∈ names ↔ ∃ c ∈ b.nodes, n ∈ c.ownNames) ∧
    (((∀ c ∈ b.nodes, c.HasId) ∧ columns = idColumn :: names) ∨
      ((∀ c ∈ b.nodes, ¬c.HasId) ∧ columns = names))

/-- An INSERT of the nodes of a batch has a row for each node, which stores the node's values. -/
structure Aligned (b : BatchCreation) (first : NodeCreation) (log : List Exchange)
    (i : InsertStatement) : Prop where
  table : i.table = first.node.table
  columns : b.Lists first.node.id.column i.columns
  length : i.rows.length = b.nodes.length
  rows : ∀ (k : Nat) (c : NodeCreation) (row : List Value),
    b.nodes[k]? = some c → i.rows[k]? = some row →
      List.Forall₂ (c.Stores first.node.id.column k log) i.columns row

/-- The own rows of a batch have the IDs of its nodes, place by place. -/
theorem ownRows_idAt {nodes : List NodeCreation} {position : Nat} {claims : List PartnerClaim}
    (h : (ownRows conn position claims nodes).Run log (.ok rows)) {k : Nat} {c : NodeCreation}
    {r : OwnRow} {id : Value} (hc : nodes[k]? = some c) (hr : rows[k]? = some r)
    (hid : r.id = some id) : c.IdAt (position + k) log id := by
  induction nodes generalizing position claims log rows k with
  | nil => cases hc
  | cons c' rest ih =>
    obtain ⟨_, id', _, _, checking, supplying, finding, rfl, rfl, -, hsupplies, -, hothers⟩ :=
      run_ownRows_cons h
    cases k with
    | zero =>
      obtain rfl := Option.some.inj hc
      obtain rfl := Option.some.inj hr
      obtain rfl : id' = some id := hid
      exact (NodeCreation.idAt_of_supplyId hsupplies).mono ⟨checking, finding, by simp⟩
    | succ k =>
      have hrest := ih hothers hc hr
      rw [show position + 1 + k = position + (k + 1) by omega] at hrest
      exact hrest.mono ⟨checking ++ supplying, [], by simp⟩

/-- What a row of the INSERT has in a column is what its node stores there. -/
theorem stores_of_valueIn {c : NodeCreation} {r : OwnRow} {idColumn column : String} {k : Nat}
    (hown : c.node.ownColumns c.fields c.edges = .ok r.columns)
    (hid : ∀ id, r.id = some id → c.IdAt k log id) (hname : idColumn ∉ c.ownNames)
    (hcolumn : column = idColumn → r.id ≠ none) :
    c.Stores idColumn k log column (r.valueIn idColumn column) := by
  obtain ⟨hnames, -⟩ := NodeCreation.names_of_ownColumns hown
  by_cases h : column = idColumn
  · subst h
    obtain ⟨id, hsome⟩ := Option.ne_none_iff_exists'.mp (hcolumn rfl)
    rw [OwnRow.valueIn_id hsome]
    exact .id (hid id hsome)
  · rw [OwnRow.valueIn_of_ne h]
    cases hfound : r.columns.lookup column with
    | none =>
      refine .unset h fun hmem => ?_
      rw [← hnames] at hmem
      obtain ⟨p, hp, rfl⟩ := List.mem_map.mp hmem
      exact absurd (List.lookup_eq_none_iff.mp hfound p hp) (by simp)
    | some v =>
      obtain ⟨before, after, hsplit, -⟩ := List.lookup_eq_some_iff.mp hfound
      exact .set h hown (by simp [hsplit])

/-- If IDs are supplied for all rows or for none, the nodes have IDs or have none accordingly. -/
theorem hasId_of_supplied (hrows : List.Forall₂ OwnRow.IsSupplied b.nodes rows)
    (hall : rows.filterMap OwnRow.id ≠ [] → (rows.filterMap OwnRow.id).length = rows.length) :
    (rows.filterMap OwnRow.id ≠ [] → ∀ c ∈ b.nodes, c.HasId) ∧
      (rows.filterMap OwnRow.id = [] → ∀ c ∈ b.nodes, ¬c.HasId) := by
  refine ⟨fun hsome c hc => ?_, fun hnone c hc => ?_⟩
  all_goals
    obtain ⟨r, hr, hof⟩ := exists_of_forall₂ hrows hc
    obtain ⟨_, hsupplies⟩ := hof.supplied
    rw [NodeCreation.hasId_iff hsupplies]
  · obtain ⟨id, -, hid⟩ := exists_of_forall₂ (supplied_all (hall hsome)) hr
    simp [hid]
  · exact not_not.mpr (List.filterMap_eq_nil_iff.mp hnone r hr)

/-- The INSERT of a round that all nodes share has the columns of all nodes. -/
theorem SharesRound.lists {r : Round} (h : b.SharesRound conn log first rows r)
    (hi : r.own.call.statement? = some (.insert i)) :
    i.table = first.node.table ∧ b.Lists first.node.id.column i.columns := by
  obtain ⟨checks, -, hfound⟩ := h.found
  have hrows := ownRows_supplied hfound
  obtain ⟨hhave, hlack⟩ := hasId_of_supplied hrows h.supplied
  obtain ⟨returning, i', hi', hcompile⟩ := h.own
  obtain rfl : i = i' := by simpa using hi.symm.trans hi'
  obtain ⟨-, conflict, -, rfl⟩ := Sql.compile_eq_ok.mp hcompile
  have hset : ∀ n, (∃ r ∈ rows, n ∈ r.columns.map (·.1)) ↔ ∃ c ∈ b.nodes, n ∈ c.ownNames := by
    intro n
    constructor
    · rintro ⟨r, hr, hn⟩
      obtain ⟨c, hc, hof⟩ := exists_of_forall₂ hrows.flip hr
      exact ⟨c, hc, (NodeCreation.names_of_ownColumns hof.columns).1 ▸ hn⟩
    · rintro ⟨c, hc, hn⟩
      obtain ⟨r, hr, hof⟩ := exists_of_forall₂ hrows hc
      exact ⟨r, hr, (NodeCreation.names_of_ownColumns hof.columns).1 ▸ hn⟩
  refine ⟨rfl, _, pairwise_sortedNames (rows.flatMap fun r => r.columns.map (·.1)), ?_, ?_⟩
  · intro n
    rw [mem_sortedNames, List.mem_flatMap, hset]
  · by_cases hsome : rows.filterMap OwnRow.id = []
    · exact .inr ⟨hlack hsome, by simp [Sql.compiledAs, insertOf, columnsOf, hsome]⟩
    · exact .inl ⟨hhave hsome, by simp [Sql.compiledAs, insertOf, columnsOf, hsome]⟩

/-- The INSERT of a round that all nodes share is aligned with the nodes. -/
theorem SharesRound.aligned {r : Round} (h : b.SharesRound conn log first rows r)
    (hnames : ∀ c ∈ b.nodes, first.node.id.column ∉ c.ownNames)
    (hi : r.own.call.statement? = some (.insert i)) : b.Aligned first log i := by
  obtain ⟨htable, hlists⟩ := h.lists hi
  obtain ⟨checks, hchecks, hfound⟩ := h.found
  have hrows := ownRows_supplied hfound
  obtain ⟨returning, i', hi', hcompile⟩ := h.own
  obtain rfl : i = i' := by simpa using hi.symm.trans hi'
  obtain ⟨-, conflict, -, rfl⟩ := Sql.compile_eq_ok.mp hcompile
  have hunnamed : ∀ r ∈ rows, ∀ v, (first.node.id.column, v) ∈ r.columns → False := by
    intro r hr v hv
    obtain ⟨c, hc, hof⟩ := exists_of_forall₂ hrows.flip hr
    exact hnames c hc ((NodeCreation.names_of_ownColumns hof.columns).1 ▸ List.mem_map_of_mem hv)
  have hcolumns : (columnsOf first.node.id.column (rows.filterMap OwnRow.id) rows).Nodup :=
    nodup_columnsOf hunnamed
  refine ⟨htable, hlists, by simp [Sql.compiledAs, insertOf, hrows.length_eq], ?_⟩
  intro k c row hc hrow
  obtain ⟨own, hown, rfl⟩ : ∃ own, rows[k]? = some own ∧ OwnRow.valuesOf
      (columnsOf first.node.id.column (rows.filterMap OwnRow.id) rows)
      (own.withId first.node.id.column) = row := by
    simpa [Sql.compiledAs, insertOf] using hrow
  obtain ⟨hk, rfl⟩ := List.getElem?_eq_some_iff.mp hc
  obtain ⟨hk', rfl⟩ := List.getElem?_eq_some_iff.mp hown
  have hof := hrows.get hk hk'
  have hids : ∀ id, rows[k].id = some id → b.nodes[k].IdAt k log id := by
    intro id hid
    have hat := (ownRows_idAt hfound hc hown hid).mono hchecks
    rwa [Nat.zero_add] at hat
  refine List.forall₂_iff_zip.mpr ⟨length_valuesOf.symm, fun {column v} hmem => ?_⟩
  have hv : v = rows[k].valueIn first.node.id.column column :=
    eq_of_mem_zip_valuesOf hcolumns hmem
  rw [hv]
  refine stores_of_valueIn hof.columns hids (hnames _ (List.getElem_mem hk)) ?_
  rintro rfl
  -- the ID column is there, so all rows have IDs
  rcases mem_columnsOf.mp (List.of_mem_zip hmem).1 with ⟨hsome, -⟩ | ⟨r, hr, v, hv⟩
  · obtain ⟨id, -, hid⟩ := exists_of_forall₂ (supplied_all (h.supplied hsome)) (List.getElem_mem hk')
    simp [hid]
  · exact (hunnamed r hr v hv).elim

/-! ## Batches with and without IDs -/

/-- Some nodes of the batch have an ID and others have none. -/
def MixesIds (b : BatchCreation) : Prop := (∃ c ∈ b.nodes, c.HasId) ∧ ∃ c ∈ b.nodes, ¬c.HasId

/-- The error says that the batch is malformed, or that a target of one to one cannot be linked. -/
def Refuses (b : BatchCreation) (why : Error) : Prop :=
  why.IsMalformed ∨ ∃ c ∈ b.nodes, c.RefusesLink why

/-- The own rows of a batch are found, or the batch is refused, unless a statement fails. -/
theorem ownRows_refuses (conn : Connection) (b : BatchCreation) :
    (ownRows conn 0 [] b.nodes).Prepares fun why => ¬b.Refuses why :=
  ownRows_prepares_of (fun _ h => not_not.mpr (.inl h)) conn 0 [] fun c hc _ h =>
    not_not.mpr (.inr ⟨c, hc, h⟩)

/-- Nodes of which some have an ID and others have none are not inserted together. -/
theorem run_createBulk_mixed {result : Except Error (List Value)} (hmixed : b.MixesIds)
    (h : (createBulk conn b).Run log result) :
    writing log = [] ∧ ∃ e, result = .error e ∧ (CarriedOut log → b.Refuses e) := by
  obtain ⟨⟨c, hc, hhas⟩, c', hc', hlacks⟩ := hmixed
  have hreads := ownRows_reads conn b.nodes 0 []
  unfold createBulk at h
  rcases run_bind.mp h with ⟨e, hfail, rfl⟩ | ⟨rows, checks, rest, rfl, hrows, h⟩
  · refine ⟨hreads.writing_eq_nil hfail, e, rfl, fun hcarried => not_not.mp ?_⟩
    exact (ownRows_refuses conn b log _ hfail hcarried).2 e rfl
  · have hsupplied := ownRows_supplied hrows
    obtain ⟨r, hr, hof⟩ := exists_of_forall₂ hsupplied hc
    obtain ⟨r', hr', hof'⟩ := exists_of_forall₂ hsupplied hc'
    have hsome : r.id ≠ none := (NodeCreation.hasId_iff hof.supplied.choose_spec).mp hhas
    have hnone : ¬r'.id ≠ none := mt (NodeCreation.hasId_iff hof'.supplied.choose_spec).mpr hlacks
    have hids : rows.filterMap OwnRow.id ≠ [] := fun hnil =>
      hsome (List.filterMap_eq_nil_iff.mp hnil r hr)
    have hlength : (rows.filterMap OwnRow.id).length ≠ rows.length := fun hall => by
      obtain ⟨id, -, hid⟩ := exists_of_forall₂ (supplied_all hall) hr'
      exact hnone (by simp [hid])
    split at h
    case h_1 hnil =>
      rw [hnil] at hc
      cases hc
    case h_2 first others hnodes =>
      dsimp only at h
      rw [if_pos ⟨by simpa using hids, hlength⟩] at h
      obtain ⟨rfl, rfl⟩ := run_fail.mp h
      rw [writing_append, hreads.writing_eq_nil hrows]
      exact ⟨rfl, _, rfl, fun _ => .inl trivial⟩

theorem Refuses.cause {why : Error} (h : b.Refuses why) : why.cause = why := by
  rcases h with h | ⟨c, -, e, -, -, target, -, column, rfl | rfl⟩
  · cases why with
    | rollback => exact h.elim
    | _ => rfl
  · rfl
  · rfl

/-- A batch in which some nodes have an ID and others have none writes nothing and fails. -/
theorem run_mixed {result : Except Error (List Value)} (hdirect : ∀ c ∈ b.nodes, c.dependencies = [])
    (hmixed : b.MixesIds) (h : (b.run d).Run log result) :
    writing log = [] ∧ ∃ e, result = .error e ∧ (Unhindered log → b.Refuses e.cause) := by
  rcases Mutation.run_body (m := .batchCreate b) h with
    ⟨rfl, e, hplan, rfl⟩ | ⟨live, r, e, rfl, hfails, rfl⟩ |
    ⟨p, conn, inner, outcome, hplan, -, hinner, hwriting, hbody, herror, -⟩
  · have hmalformed : b.Refuses e := .inl (Mutation.batchPlan_malformed b e hplan)
    exact ⟨rfl, e, rfl, fun _ => hmalformed.cause.symm ▸ hmalformed⟩
  · refine ⟨rfl, e, rfl, fun hunhindered => ?_⟩
    have hopened := (hunhindered _ List.mem_cons_self).2 (.inr (.inl rfl))
    cases r with
    | done _ => cases hfails
    | failed f => cases hopened
    | interrupted w => cases hopened
  · obtain ⟨c, hc, -⟩ := hmixed.1
    rw [(Mutation.batch_planned hplan).body_eq (List.ne_nil_of_mem hc) hdirect] at hbody
    obtain ⟨hnone, e, rfl, hrefuses⟩ := run_createBulk_mixed hmixed hbody
    obtain ⟨e', rfl, hcause⟩ := herror e rfl
    refine ⟨hwriting.trans hnone, e', rfl, fun hunhindered => ?_⟩
    have hrefuses := hrefuses fun x hx hstatement =>
      (hunhindered x (hinner.subset hx)).2 (.inl hstatement)
    rwa [hcause, hrefuses.cause]

/-- In a batch without references whose nodes do not set the ID column, the INSERT of the nodes is
aligned with them. If some nodes have an ID and others have none, nothing is written and the result
is an error: the batch is malformed, or a target of one to one cannot be linked, unless a call has
failed before. -/
theorem rows_aligned {result : Except Error (List Value)} (hfirst : b.nodes.head? = some first)
    (hdirect : ∀ c ∈ b.nodes, c.dependencies = [])
    (hnames : ∀ c ∈ b.nodes, first.node.id.column ∉ c.ownNames) (hrun : (b.run d).Run log result) :
    (∀ before x after i, log = before ++ x :: after → writing before = [] →
      x.call.statement? = some (.insert i) → i.columns ≠ [] → b.Aligned first log i) ∧
    (b.MixesIds → writing log = [] ∧
      ∃ e, result = .error e ∧ (Unhindered log → b.Refuses e.cause)) := by
  refine ⟨fun before x after i hlog hbefore hi hcolumns => ?_, fun hmixed =>
    run_mixed hdirect hmixed hrun⟩
  obtain ⟨conn, rounds, -, hwrites, hrounds⟩ := run_rounds hrun
  have hx : x.call.isWrite = true := by
    cases hcall : x.call <;> rw [hcall] at hi <;> cases hi <;> rfl
  have hwriting : writing log = x :: writing after := by
    rw [hlog, writing_append, hbefore, List.nil_append]
    exact List.filter_cons_of_pos hx
  rw [hwriting] at hwrites
  cases hrounds with
  | none => cases hwrites
  | chained hrefers =>
    obtain ⟨c, hc, hrefers⟩ := hrefers
    exact absurd (hdirect c hc) hrefers
  | @singly turns _ hbare hcreations hconforms =>
    cases turns with
    | nil => cases hwrites
    | cons t turns =>
      obtain rfl : x = t.own := (List.cons.inj hwrites).1
      have ht := hconforms t List.mem_cons_self
      obtain ⟨own, i', hown, hi', -, hnone⟩ := ht.inserts
      obtain rfl : i = i' := by simpa using hi.symm.trans hi'
      obtain ⟨hleaves, hbare⟩ := hbare t.creation (hcreations.subset List.mem_cons_self)
      obtain rfl : own = [] := Except.ok.inj (hown.symm.trans hbare)
      have hassigned : t.supplied = none :=
        not_not.mp (mt (NodeCreation.hasId_iff ht.supplied).mpr hleaves.not_hasId)
      exact absurd (by simpa [NodeCreation.insertedColumns, hassigned] using hnone) hcolumns
  | @together first' rows r _ hshares =>
    obtain rfl : first' = first := Option.some.inj (hshares.head.symm.trans hfirst)
    obtain rfl : x = r.own := (List.cons.inj hwrites).1
    exact hshares.aligned hnames hi

end BatchCreation

/-- The IDs of two users. -/
def raggedId (n : Nat) : Value := .uuid (IdGenerator.numberedUuid n)

/-- A user with an email, whose ID is given. -/
def givenUser : NodeCreation :=
  { NodeCreation.ofNode (.ofTable "users" ⟨"id", .uuid, raggedId 7⟩) with
    fields := [⟨"email", .string, .string "ann"⟩] }

/-- A user with an age, whose ID is drawn. -/
def drawnUser : NodeCreation :=
  { NodeCreation.ofNode { Node.ofTable "users" ⟨"id", .uuid, .null⟩ with
      strategy := .generator .countingUuids } with
    fields := [⟨"age", .int, .int 30⟩] }

/-- The two users, which set different columns. -/
def raggedUsers : BatchCreation := { nodes := [givenUser, drawnUser], policy := none }

/-- The INSERT of the two users. -/
def raggedInsert : InsertStatement :=
  { table := "users", columns := ["id", "age", "email"]
    rows := [[raggedId 7, .null, .string "ann"], [raggedId 1, .int 30, .null]]
    conflict := none, returning := [] }

/-- Before the users are inserted, an ID is drawn for the second. -/
def raggedDrawn : List Exchange :=
  [⟨.draw .countingUuids, true, raggedId 1⟩, ⟨.revise 1 (.id (raggedId 1)), true, ()⟩]

/-- The users are inserted. -/
def raggedStored : Exchange :=
  ⟨.exec false (.insert raggedInsert), true, (.done ⟨2, none⟩ : Outcome ExecResult)⟩

/-- Afterwards their IDs are written down. -/
def raggedTold : List Exchange :=
  [⟨.revise 0 (.id (raggedId 7)), true, ()⟩, ⟨.revise 1 (.id (raggedId 1)), true, ()⟩]

theorem raggedUsers_run : (raggedUsers.run .sqlite).Run
    (raggedDrawn ++ raggedStored :: raggedTold) (.ok [raggedId 7, raggedId 1]) := by
  repeat apply Run.call
  exact .done _

/-- The rows of the two users are aligned with them. -/
theorem rows_aligned_raggedUsers :
    raggedUsers.nodes.head? = some givenUser ∧
      (∀ c ∈ raggedUsers.nodes, c.dependencies = [] ∧ givenUser.node.id.column ∉ c.ownNames) ∧
      (raggedUsers.run .sqlite).Run (raggedDrawn ++ raggedStored :: raggedTold)
        (.ok [raggedId 7, raggedId 1]) ∧
      writing raggedDrawn = [] ∧ raggedStored.call.statement? = some (.insert raggedInsert) ∧
      raggedUsers.Aligned givenUser (raggedDrawn ++ raggedStored :: raggedTold) raggedInsert := by
  have hnodes : ∀ c ∈ raggedUsers.nodes,
      c.dependencies = [] ∧ givenUser.node.id.column ∉ c.ownNames := by decide
  refine ⟨rfl, hnodes, raggedUsers_run, rfl, rfl, ?_⟩
  exact (BatchCreation.rows_aligned rfl (fun c hc => (hnodes c hc).1) (fun c hc => (hnodes c hc).2)
    raggedUsers_run).1 raggedDrawn raggedStored raggedTold raggedInsert rfl rfl rfl (by decide)

/-- A user with a spouse. -/
def userWithSpouse (id : Value) : NodeCreation :=
  { NodeCreation.ofNode (.ofTable "users" ⟨"id", .int, id⟩) with
    edges := [{ Edge.oneToOne "users" "spouse_id" with
      inverse := true
      target := { nodes := [.int 1], id := ⟨"id", .int, .null⟩, fields := [], pending := [] } }] }

/-- Two users with the same spouse, of which only the first has an ID. -/
def suitors : BatchCreation :=
  { nodes := [userWithSpouse (.int 5), userWithSpouse .null], policy := none }

/-- The run of the two users: the first may have the spouse. -/
def suitorsRun : List Exchange :=
  [⟨.begin, true, (.done () : Outcome Unit)⟩,
    ⟨.query true (.anyRow ((Selector.ofTable "users").filter (.eq "spouse_id" (.int 1)))), true,
      (.done ⟨["exists"], [[.int 0]]⟩ : Outcome Rows)⟩,
    ⟨.rollback, true, (.ok () : Except Failure Unit)⟩]

/-- Some nodes have an ID and others have none, but the error is that the second user cannot have the
spouse of the first. -/
theorem suitors_not_malformed :
    (∀ c ∈ suitors.nodes, c.dependencies = [] ∧ "id" ∉ c.ownNames) ∧ suitors.MixesIds ∧
      (suitors.run .sqlite).Run suitorsRun
        (.error (LinkConflict.claimedTwice (.int 1) "users" "spouse_id").toError) ∧
      (LinkConflict.claimedTwice (.int 1) "users" "spouse_id").toError.isValidation = false := by
  refine ⟨by decide, ⟨⟨_, List.mem_cons_self, .inl rfl⟩, ?_⟩, ?_, rfl⟩
  · exact ⟨userWithSpouse .null, List.mem_cons_of_mem _ List.mem_cons_self,
      NodeCreation.LeavesId.not_hasId ⟨rfl, rfl⟩⟩
  · repeat apply Run.call
    exact .fail _

end EntityGraph
