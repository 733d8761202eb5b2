import EntityGraph.Graph.Create
import EntityGraph.Proofs.Graph.ForeignKeyLinks
import EntityGraph.Proofs.Graph.JoinTableUpdates
import EntityGraph.Proofs.Graph.NeighborLoads

/-!
# Creations on a database

What a creation that has a result has done to the database: the node has a row of its own, with the
columns that were set, and the edges that are stored elsewhere have been written to the other
tables. `Stored` says of each kind of storage how the edges are found there afterwards.
-/

set_option autoImplicit false

namespace EntityGraph

open Program

variable {E : Engine} {S : Schema} {keys : List (String × String)} {s s' : Session}
  {conn : Connection}

/-! ## One new row -/

namespace Insert

theorem foldl_set_row (columns : List (String × Value)) (i : Insert) (row : List Value) :
    columns.foldl (fun i c => i.set c.1 c.2) { i with rows := [row] } =
      { i with columns := i.columns ++ columns.map (·.1), rows := [row ++ columns.map (·.2)] } := by
  induction columns generalizing i row with
  | nil => simp
  | cons c columns ih =>
    rw [List.foldl_cons]
    refine (ih { i with columns := i.columns ++ [c.1] } (row ++ [c.2])).trans ?_
    simp

/-- An insert into which columns have been set has one row, or none without columns. -/
theorem foldl_set (columns : List (String × Value)) (table : String) :
    columns.foldl (fun i c => i.set c.1 c.2) (into table) =
      { into table with
        columns := columns.map (·.1)
        rows := if columns.isEmpty then [] else [columns.map (·.2)] } := by
  cases columns with
  | nil => rfl
  | cons c columns => exact foldl_set_row columns { into table with columns := [c.1] } [c.2]

end Insert

/-- A table has one row more, in which some columns have been written. -/
structure AddsRow (E : Engine) (S : Schema) (table : String) (columns : List (String × Value))
    (db db' : Database) (own : Tuple) : Prop where
  others : ∀ name, name ≠ nameParts table → db' name = db name
  sameColumns : (db' (nameParts table)).columns = (db (nameParts table)).columns
  rows : (db' (nameParts table)).rows.Perm (own :: (db (nameParts table)).rows)
  known : ∀ p ∈ columns, (db (nameParts table)).HasColumn p.1
  written : ∀ p ∈ columns, own p.1 = p.2
  unwritten : ∀ c, (∀ p ∈ columns, p.1 ≠ c) → S.identity table ≠ some c → own c = .null
  fresh : ∀ k, (table, k) ∈ S.keys → ∀ r ∈ (db (nameParts table)).rows,
    E.equal (r k) (own k) = false

/-- The INSERT of some columns adds a row that has them, and reports this row. -/
theorem addsRow_of_inserts {d : Dialect} {columns : List (String × Value)} {table : String}
    {returning : List String} {statement : InsertStatement} {db db' : Database}
    {reported : List Tuple}
    (hcompile : ({ Insert.into table with
      columns := columns.map (·.1)
      rows := if columns.isEmpty then [] else [columns.map (·.2)]
      returning } : Insert).compile d = .ok statement)
    (hcarried : (Command.insert statement).Carried E db db')
    (hinserts : statement.Inserts E S db db' reported) :
    ∃ own, reported = [own] ∧ AddsRow E S table columns db db' own := by
  obtain ⟨-, conflict, hclause, rfl⟩ := Sql.compile_eq_ok.mp hcompile
  obtain rfl : none = conflict := Except.ok.inj hclause
  have hproposals : (Sql.compiledAs d
      { Insert.into table with
        columns := columns.map (·.1)
        rows := if columns.isEmpty then [] else [columns.map (·.2)]
        returning } none).proposals = [columns.map (·.2)] := by
    cases columns <;> rfl
  obtain ⟨own, hproposes, hreported, hrows, hfree⟩ := hinserts.added rfl hproposals
  have hzip : (columns.map (·.1)).zip (columns.map (·.2)) = columns :=
    (List.zip_of_prod rfl rfl).symm
  refine ⟨own, hreported, hcarried, hinserts.sameColumns, hrows, fun p hp => ?_, fun p hp => ?_,
    fun c hc hidentity => ?_, fun k hk r hr => ?_⟩
  · exact hinserts.columns p.1 (List.mem_map_of_mem hp)
  · have hp : p ∈ (columns.map (·.1)).zip (columns.map (·.2)) := by rwa [hzip]
    exact hproposes.written p hp
  · refine hproposes.unwritten c (fun hmem => ?_) hidentity
    obtain ⟨p, hp, hpc⟩ := List.mem_map.mp hmem
    exact hc p hp hpc
  · rw [Bool.eq_false_iff]
    intro hequal
    refine hfree [k] (S.key_mem_uniques _ hk) r hr fun c hc => ?_
    rwa [List.mem_singleton.mp hc]

/-- Linking the targets of a node goes through the edges that are stored in their rows. -/
theorem ForeignKey.leads_links_of_add {id : Value} {edges : List Edge}
    (h : (ForeignKey.add conn [id] edges).Leads E keys s () s') :
    ((edges.filter fun e => e.isForeignKeyEdge && !e.target.nodes.isEmpty).forM
      (link conn id)).Leads E keys s () s' := by
  rcases leads_add h with ⟨hnil, rfl⟩ | ⟨id', hid, hlinks⟩
  · rw [hnil]
    exact leads_forM_nil.mpr rfl
  · obtain rfl : id = id' := by simpa using hid
    exact hlinks

namespace NodeCreation

variable {c : NodeCreation} {d : Dialect} {supplied : Option Value} {x : Value}

/-- The insert of a node sets its ID, where it has one, and the columns of its own row. -/
theorem insertion_eq_ok (hpolicy : c.policy = none) {i : Insert}
    (h : c.insertion d supplied = .ok i) :
    ∃ columns, c.node.ownColumns c.fields c.edges = .ok columns ∧
      i = (supplied.toList.map (fun id => (c.node.id.column, id)) ++ columns).foldl
        (fun i c => i.set c.1 c.2) (Insert.into c.node.table) := by
  obtain ⟨columns, hcolumns, hi⟩ := bind_eq_ok.mp h
  rw [hpolicy] at hi
  exact ⟨columns, hcolumns, (Except.ok.inj hi).symm⟩

/-- Supplying an ID leaves the database as it is. -/
theorem leads_supplyId {position : Nat} {node : Node}
    (h : (supplyId position node).Leads E keys s supplied s') : s' = s := by
  unfold supplyId at h
  split at h
  case isTrue =>
    obtain ⟨v, mid, hbind, hdone⟩ := leads_bind.mp h
    obtain ⟨-, rfl⟩ := leads_ofExcept.mp hbind
    exact (leads_done.mp hdone).2
  case isFalse =>
    split at h
    case h_1 => exact (leads_done.mp h).2
    case h_2 => exact absurd h leads_fail
    case h_3 g _ =>
      obtain ⟨drawn, mid, hdraw, hrest⟩ := leads_request.mp h
      obtain ⟨_, mid', hrevise, hbind⟩ := leads_request.mp hrest
      obtain ⟨v, mid'', hlift, hdone⟩ := leads_bind.mp hbind
      obtain ⟨-, rfl⟩ := leads_ofExcept.mp hlift
      obtain ⟨-, rfl⟩ := leads_done.mp hdone
      exact hrevise.trans hdraw

/-- Where the reply to an INSERT has no rows, the database tells the ID that it gives to a node,
which nothing else in the INSERT sets. -/
def TellsId (S : Schema) (d : Dialect) (c : NodeCreation) : Prop :=
  d.supportsReturning = false → c.LeavesId →
    S.reportsIds = true ∧ S.identity c.node.table = some c.node.id.column ∧
      (∀ f ∈ c.fields, f.column ≠ c.node.id.column) ∧
        ∀ e ∈ c.edges, e.writesOwnColumn = true → e.columns ≠ [c.node.id.column]

/-- The columns that the INSERT of a node writes. -/
def insertedColumns (c : NodeCreation) (supplied : Option Value)
    (columns : List (String × Value)) : List (String × Value) :=
  supplied.toList.map (fun id => (c.node.id.column, id)) ++ columns

/-- How a node is inserted: its ID is read back unless it is supplied. -/
def insertRow (conn : Connection) (c : NodeCreation) (supplied : Option Value) (i : Insert) :
    Program Value :=
  match supplied, c.policy with
  | some id, none => do
    discard (conn.execInsert i)
    pure id
  | _, _ => insertedId conn c.node i supplied

/-- How a node is written: its ID is found, its own row is inserted, its edges are written. -/
theorem write_eq (conn : Connection) (position : Nat) (c : NodeCreation) :
    write conn position c =
      (Partner.check conn c.node none c.edges [] >>= fun _ =>
        supplyId position c.node >>= fun supplied =>
          (liftM (c.insertion conn.dialect supplied) : Program Insert) >>= fun i =>
            insertRow conn c supplied i >>= fun id =>
              Program.revise position (.id id) >>= fun _ =>
                ExternalEdges.create conn id c.edges >>= fun _ => pure id) := by
  unfold write
  congr 1
  funext _
  congr 1
  funext supplied
  congr 1
  funext i
  unfold insertRow
  cases supplied with
  | none => rfl
  | some id =>
    cases c.policy with
    | none => exact (bind_bind _ _ _).symm
    | some policy => rfl

/-- The INSERT of a node's own row has added it, and its ID has been read back. -/
theorem reaches_insertRow {i : Insert} {columns : List (String × Value)}
    (hpolicy : c.policy = none) (hcolumns : c.node.ownColumns c.fields c.edges = .ok columns)
    (hi : i = (c.insertedColumns supplied columns).foldl (fun i c => i.set c.1 c.2)
      (Insert.into c.node.table))
    (hid : (s.current (nameParts c.node.table)).HasColumn c.node.id.column)
    (htells : supplied = none → c.LeavesId ∧ c.TellsId S conn.dialect)
    (h : (insertRow conn c supplied i).Reaches (Call.Records E S) s x s') :
    s'.current.Obeys E S.keys ∧ ∃ own,
      AddsRow E S c.node.table (c.insertedColumns supplied columns) s.current s'.current own ∧
        (own c.node.id.column = x ∨ c.node.readId (own c.node.id.column) = .ok x) := by
  rw [Insert.foldl_set] at hi
  subst hi
  unfold insertRow at h
  rw [hpolicy] at h
  cases supplied with
  | some id =>
    obtain ⟨_, mid, hdiscard, hdone⟩ := reaches_bind.mp h
    obtain ⟨rfl, rfl⟩ := reaches_done.mp hdone
    obtain ⟨r, hexec⟩ := reaches_discard.mp hdiscard
    obtain ⟨statement, hcompile, ⟨hcarried, -, hobeys, -⟩, reported, hinserts, -⟩ :=
      reaches_execInsert.mp hexec
    obtain ⟨own, -, hadds⟩ := addsRow_of_inserts hcompile hcarried hinserts
    refine ⟨hobeys, own, hadds, .inl ?_⟩
    exact hadds.written (c.node.id.column, x) List.mem_cons_self
  | none =>
    change (insertedId conn c.node _ none).Reaches _ _ _ _ at h
    unfold insertedId at h
    split at h
    case isTrue hreturning =>
      obtain ⟨rows, mid, hquery, hread⟩ := reaches_bind.mp h
      obtain ⟨statement, hcompile, ⟨hcarried, -, hobeys, -⟩, reported, hinserts, hrows⟩ :=
        reaches_queryInsert.mp hquery
      obtain ⟨own, rfl, hadds⟩ := addsRow_of_inserts hcompile hcarried hinserts
      have hstatement : statement.returning = [c.node.id.column] := by
        obtain ⟨-, _, -, rfl⟩ := Sql.compile_eq_ok.mp hcompile
        exact if_pos hreturning
      have hfirst : rows.firstValue? = some (own c.node.id.column) := by
        rw [Rows.firstValue?, hrows, hstatement]
        exact congrArg (fun k => some (own k)) (columnName_plain hid.plain)
      rw [hfirst] at hread
      obtain ⟨hok, rfl⟩ := reaches_ofExcept.mp hread
      exact ⟨hobeys, own, hadds, .inr hok⟩
    case isFalse hreturning =>
      obtain ⟨hleaves, htells⟩ := htells rfl
      obtain ⟨hreports, hidentity, hfields, hedges⟩ :=
        htells (Bool.eq_false_iff.mpr hreturning) hleaves
      obtain ⟨result, mid, hexec, hrest⟩ := reaches_bind.mp h
      obtain ⟨statement, hcompile, ⟨hcarried, -, hobeys, -⟩, reported, hinserts, hreported⟩ :=
        reaches_execInsert.mp hexec
      obtain ⟨own, rfl, hadds⟩ := addsRow_of_inserts hcompile hcarried hinserts
      obtain ⟨_, start, hlift, hread⟩ := reaches_bind.mp hrest
      obtain ⟨-, rfl⟩ := reaches_ofExcept.mp hlift
      have hunwritten : c.node.id.column ∉ columns.map (·.1) := by
        intro hmem
        obtain ⟨p, hp, hname⟩ := List.mem_map.mp hmem
        rcases Node.mem_ownColumns hcolumns hp with ⟨f, hf, -, hcolumn⟩ | ⟨e, he, hown, hlinked⟩
        · exact hfields f hf (hcolumn.symm.trans hname)
        · exact hedges e he hown (by rw [hlinked.1]; exact congrArg (fun c => [c]) hname)
      split at hread
      case h_2 => exact absurd hread reaches_fail
      case h_1 n hlast =>
        split at hread
        case isFalse => exact absurd hread reaches_fail
        case isTrue hne =>
          obtain ⟨hok, rfl⟩ := reaches_ofExcept.mp hread
          obtain ⟨-, conflict, hclause, rfl⟩ := Sql.compile_eq_ok.mp hcompile
          obtain rfl : none = conflict := Except.ok.inj hclause
          have hvalue : own c.node.id.column = .int n :=
            hreported hreports rfl _ hidentity hunwritten n own hlast hne rfl
          refine ⟨hobeys, own, hadds, .inr ?_⟩
          rw [hvalue]
          exact hok

/-- The parts of writing a node that has a result. -/
theorem reaches_write {position : Nat} {R : Answering Session}
    (h : (write conn position c).Reaches R s x s') :
    ∃ probed supplied drawn i inserted revised,
      (Partner.check conn c.node none c.edges []).Reaches R s () probed ∧
      (supplyId position c.node).Reaches R probed supplied drawn ∧
      c.insertion conn.dialect supplied = .ok i ∧
      (insertRow conn c supplied i).Reaches R drawn x inserted ∧
      R (.revise position (.id x)) () inserted revised ∧
      (ExternalEdges.create conn x c.edges).Reaches R revised () s' := by
  rw [write_eq] at h
  obtain ⟨_, probed, hcheck, hrest⟩ := reaches_bind.mp h
  obtain ⟨supplied, drawn, hsupply, hinsert⟩ := reaches_bind.mp hrest
  obtain ⟨i, start, hinsertion, hrow⟩ := reaches_bind.mp hinsert
  obtain ⟨hi, hstart⟩ := reaches_ofExcept.mp hinsertion
  rw [hstart] at hrow
  obtain ⟨id, inserted, hinserted, hedges⟩ := reaches_bind.mp hrow
  obtain ⟨_, revised, hrevise, hcreate⟩ := reaches_request.mp hedges
  obtain ⟨_, _, hcreated, hdone⟩ := reaches_bind.mp hcreate
  obtain ⟨rfl, rfl⟩ := reaches_done.mp hdone
  exact ⟨probed, supplied, drawn, i, inserted, revised, hcheck, hsupply, hi, hinserted, hrevise,
    hcreated⟩

/-- What a creation does, step by step: its edges are complete; the node's own row is added and its
ID read back; then the join tables are written, and then the foreign keys in other rows. -/
structure Writes (E : Engine) (S : Schema) (c : NodeCreation) (conn : Connection) (x : Value)
    (supplied : Option Value) (columns : List (String × Value)) (own : Tuple)
    (s inserted joined s' : Session) : Prop where
  complete : ∀ e ∈ c.edges, e.IsComplete
  ownColumns : c.node.ownColumns c.fields c.edges = .ok columns
  row : AddsRow E S c.node.table (c.insertedColumns supplied columns) s.current inserted.current
    own
  id : own c.node.id.column = x ∨ c.node.readId (own c.node.id.column) = .ok x
  obeys : inserted.current.Obeys E S.keys
  joins : (JoinTable.add conn (c.edges.map fun e => ([x], e))).Reaches (Call.Records E S) inserted
    () joined
  links : ((c.edges.filter fun e => e.isForeignKeyEdge && !e.target.nodes.isEmpty).forM
    (ForeignKey.link conn x)).Leads E S.keys joined () s'

/-- Writing a node goes through these steps, after probes that have found no partners. -/
theorem reaches_write_steps {position : Nat} (hpolicy : c.policy = none)
    (hcomplete : ∀ e ∈ c.edges, e.IsComplete)
    (hid : (s.current (nameParts c.node.table)).HasColumn c.node.id.column)
    (htells : c.TellsId S conn.dialect)
    (h : (write conn position c).Reaches (Call.Records E S) s x s') :
    (∀ e ∈ c.edges, e.isOneToOne = true → Partner.Unclaimed E s.current c.node none e) ∧
      ∃ supplied columns own inserted joined,
        c.Writes E S conn x supplied columns own s inserted joined s' := by
  have hanswers : ∀ c r s s', Call.Records E S c r s s' → c.Answers E S.keys r s s' :=
    fun _ _ _ _ => Call.Records.answers
  obtain ⟨probed, supplied, drawn, i, inserted, revised, hcheck, hsupply, hinsertion, hinserted,
    hrevise, hcreate⟩ := reaches_write h
  obtain ⟨columns, hcolumns, hi⟩ := insertion_eq_ok hpolicy hinsertion
  obtain ⟨hprobed, hunclaimed⟩ := Partner.leads_check (hcheck.leads hanswers)
  have hdrawn := leads_supplyId (hsupply.leads hanswers)
  have hrevised : revised = inserted := hrevise.answers
  have hsame : drawn = s := hdrawn.trans hprobed
  have hleaves : supplied = none → c.LeavesId ∧ c.TellsId S conn.dialect := by
    rintro rfl
    obtain ⟨log, hlog, -⟩ := hsupply
    exact ⟨supplyId_none hlog, htells⟩
  rw [hsame] at hinserted
  obtain ⟨hobeys, own, hadds, hown⟩ := reaches_insertRow hpolicy hcolumns hi hid hleaves hinserted
  rw [hrevised] at hcreate
  obtain ⟨_, joined, hjoin, hadd⟩ := reaches_bind.mp hcreate
  refine ⟨fun e he hone => hunclaimed e he hone rfl, supplied, columns, own, inserted, joined, ?_⟩
  exact
    { complete := hcomplete
      ownColumns := hcolumns
      row := hadds
      id := hown
      obeys := hobeys
      joins := hjoin
      links := ForeignKey.leads_links_of_add (hadd.leads hanswers) }

/-- A creation that has a result has written its node. -/
theorem reaches_run (hpolicy : c.policy = none)
    (hid : (s.current (nameParts c.node.table)).HasColumn c.node.id.column)
    (htells : c.TellsId S d) (h : (c.run d).Reaches (Call.Records E S) s x s') :
    ∃ conn supplied columns own start inserted joined mid, start.current = s.current ∧
      (∀ e ∈ c.edges, e.isOneToOne = true → Partner.Unclaimed E s.current c.node none e) ∧
      c.Writes E S conn x supplied columns own start inserted joined mid ∧
        s'.current = mid.current := by
  obtain ⟨_, checked, hlift, hrun⟩ := reaches_bind.mp h
  obtain ⟨hchecks, hchecked⟩ := reaches_ofExcept.mp hlift
  rw [hchecked] at hrun
  obtain ⟨inside, start, mid, hstart, hwrite, hs'⟩ :=
    reaches_connection (fun _ _ _ _ => Call.Records.answers) hrun
  obtain ⟨hunclaimed, supplied, columns, own, inserted, joined, w⟩ := reaches_write_steps hpolicy
    (fun e he => Edge.isComplete_of_check (forM_eq_ok.mp hchecks e he)) (hstart ▸ hid) htells hwrite
  rw [hstart] at hunclaimed
  exact ⟨_, supplied, columns, own, start, inserted, joined, mid, hstart, hunclaimed, w, hs'⟩

end NodeCreation

end EntityGraph
