import EntityGraph.Proofs.Graph.BulkUpserts
import EntityGraph.Proofs.Graph.OneToOneBatches
import EntityGraph.Proofs.Graph.OneToOneUpdates
import EntityGraph.Proofs.Graph.RowOrigins

/-!
# The nodes that rows of an upsert are attributed to

Each ID that a batch under a conflict policy has for a node is that of a row with the key of the
node, and `BoundRows.Origin` says where the row comes from. Where the database returns the rows of an
INSERT, they are rows that it has touched. MySQL does not, and the rows are selected by their keys;
only for generated IDs under a policy that does nothing the selection is bounded to new rows. A node
with a supplied ID may get that of an older row so, and likewise a node without a value in a key
column under a policy that touches stored rows.
-/

set_option autoImplicit false

namespace EntityGraph

open Program

namespace BatchCreation

variable {E : Engine} {S : Schema} {d : Dialect} {b : BatchCreation} {first : NodeCreation}
  {policy : ConflictPolicy} {ids : List Value} {s s' : Session} {inside : Bool} {rows : List OwnRow}
  {i : InsertStatement}

/-! ## Supplied IDs -/

/-- The row is that of a node, with the ID that is supplied for the node. -/
structure OwnRow.IsSupplied (c : NodeCreation) (r : OwnRow) : Prop where
  columns : c.node.ownColumns c.fields c.edges = .ok r.columns
  supplied : ∃ log, c.node.Supplies log r.id

/-- No ID is supplied exactly for nodes that leave it to the database. -/
theorem OwnRow.IsSupplied.leaves_iff {c : NodeCreation} {r : OwnRow} (h : IsSupplied c r) :
    r.id = none ↔ c.LeavesId := by
  obtain ⟨log, hsupplies⟩ := h.supplied
  exact (NodeCreation.leavesId_iff hsupplies).symm

theorem OwnRow.IsSupplied.isOf {c : NodeCreation} {r : OwnRow} (h : IsSupplied c r) :
    OwnRow.IsOf c r :=
  ⟨h.columns, h.leaves_iff.mp⟩

/-- The own rows of a batch have the IDs that are supplied for its nodes. -/
theorem ownRows_supplied {conn : Connection} {nodes : List NodeCreation} {position : Nat}
    {claims : List PartnerClaim} {log : List Exchange}
    (h : (ownRows conn position claims nodes).Run log (.ok rows)) :
    List.Forall₂ OwnRow.IsSupplied nodes rows :=
  ownRows_forall₂ (fun _ _ hcolumns _ log hid =>
    ⟨hcolumns, log, NodeCreation.run_supplyId hid⟩) h

/-- The IDs of bound rows are generated if all nodes leave them to the database. -/
theorem generated_iff (idColumn : String) (hrows : List.Forall₂ OwnRow.IsSupplied b.nodes rows) :
    (boundRows idColumn rows).generated = true ↔ ∀ c ∈ b.nodes, c.LeavesId := by
  rw [boundRows, List.isEmpty_iff, List.filterMap_eq_nil_iff]
  constructor
  · intro hnone c hc
    obtain ⟨r, hr, hsupplied⟩ := exists_of_forall₂ hrows hc
    exact hsupplied.leaves_iff.mp (hnone r hr)
  · intro hleaves r hr
    obtain ⟨c, hc, hsupplied⟩ := exists_of_forall₂ hrows.flip hr
    exact hsupplied.leaves_iff.mpr (hleaves c hc)

/-- A row that is proposed for a node has the ID that is supplied for it. -/
theorem supplied_of_proposes {node : Node} {row : List Value} {mid : List Tuple} {x : Tuple} {j : Nat}
    (hrows : List.Forall₂ OwnRow.IsSupplied b.nodes rows)
    (hupsert : (boundRows node.id.column rows).IsUpsert d node policy i)
    (hsupplied : rows.filterMap OwnRow.id ≠ [])
    (hall : (rows.filterMap OwnRow.id).length = rows.length) (hrow : i.proposals[j]? = some row)
    (hproposes : i.Proposes E S mid row x) :
    ∃ c log, b.nodes[j]? = some c ∧ c.node.Supplies log (some (x node.id.column)) := by
  rw [hupsert.proposals, boundRows, List.getElem?_map, Option.map_eq_some_iff] at hrow
  obtain ⟨own, hown, rfl⟩ := hrow
  obtain ⟨id, -, hid⟩ := exists_of_forall₂ (supplied_all hall) (List.mem_of_getElem? hown)
  have hcolumn : node.id.column ∈ columnsOf node.id.column (rows.filterMap OwnRow.id) rows :=
    mem_columnsOf.mpr (.inl ⟨hsupplied, rfl⟩)
  have hwritten := hproposes.written (node.id.column, own.valueIn node.id.column node.id.column)
    (hupsert.columns ▸ mem_zip_valuesOf hcolumn)
  rw [OwnRow.valueIn_id hid] at hwritten
  obtain ⟨hj, rfl⟩ := List.getElem?_eq_some_iff.mp hown
  have hj' : j < b.nodes.length := hrows.length_eq ▸ hj
  obtain ⟨log, hlog⟩ := (hrows.get hj' hj).supplied
  refine ⟨b.nodes[j], log, List.getElem?_eq_getElem hj', ?_⟩
  rw [hwritten, ← hid]
  exact hlog

/-! ## The database of an upsert -/

/-- What upserting the nodes of a batch does to the database: the INSERT of their own rows leads to
another one, and writing the edges of the nodes with IDs leads on from there. -/
structure UpsertsRows (E : Engine) (S : Schema) (d : Dialect) (b : BatchCreation) (node : Node)
    (policy : ConflictPolicy) (rows : List OwnRow) (i : InsertStatement) (ids : List Value)
    (before inserted after : Database) : Prop where
  supplied : List.Forall₂ OwnRow.IsSupplied b.nodes rows
  compiles : ∃ returning,
    ((boundRows node.id.column rows).upsert node policy returning).compile d = .ok i
  inserts : ∃ reported, i.Inserts E S before inserted reported
  edges : ∃ inside start last, start.current = inserted ∧ last.current = after ∧
    (addEdges ⟨d, inside⟩ b.nodes ids).Reaches (Call.Generates E S) start () last

/-- The rows that come back from nodes that are upserted together are read before their edges are
written. -/
theorem reaches_upsert {R : Answering Session} (hR : ∀ c r s s', R c r s s' → c.Answers E S.keys r s s')
    (hfirst : b.nodes.head? = some first) (hpolicy : b.policy.or first.policy = some policy)
    (hwrites : b.WritesColumn) (h : (createBulk ⟨d, inside⟩ b).Reaches R s ids s') :
    ∃ rows stored after, List.Forall₂ OwnRow.IsSupplied b.nodes rows ∧
      columnsOf first.node.id.column (rows.filterMap OwnRow.id) rows ≠ [] ∧
      (rows.filterMap OwnRow.id ≠ [] → (rows.filterMap OwnRow.id).length = rows.length) ∧
      ((boundRows first.node.id.column rows).storedRows ⟨d, inside⟩ first.node
        ((boundRows first.node.id.column rows).upsert first.node policy []) policy).Reaches R s stored
          after ∧
      (boundRows first.node.id.column rows).identifyAll first.node
        ((boundRows first.node.id.column rows).keys policy) stored = .ok ids ∧
      (addEdges ⟨d, inside⟩ b.nodes ids).Reaches R after () s' := by
  obtain ⟨log, hrun, hanswered⟩ := h
  obtain ⟨rows, stored, checks, reads, told, links, rfl, hparts⟩ :=
    run_createBulk hfirst hpolicy hwrites hrun
  obtain ⟨start, hchecks, hrest⟩ := answeredBy_append.mp hanswered
  obtain ⟨after, hreads, hrest⟩ := answeredBy_append.mp hrest
  obtain ⟨revised, htold, hlinks⟩ := answeredBy_append.mp hrest
  have hleads : (BatchCreation.ownRows ⟨d, inside⟩ 0 [] b.nodes).Leads E S.keys s rows start :=
    Reaches.leads ⟨checks, hparts.ownRows, hchecks⟩ hR
  obtain ⟨rfl, -⟩ := reaches_ownRows hleads
  obtain rfl := reaches_reviseIds (Reaches.leads ⟨told, hparts.revised, htold⟩ hR)
  exact ⟨rows, stored, revised, ownRows_supplied hparts.ownRows, hparts.columns, hparts.supplied,
    ⟨reads, hparts.readBack, hreads⟩, hparts.identified, ⟨links, hparts.edges, hlinks⟩⟩

/-- An ID that a batch under a conflict policy has for a node is that of a row of the table that is
attributed to the node: it has the node's key, and one of the origins of `BoundRows.Origin`. If the
policy is to do nothing, rows are returned and IDs supplied, the ID is the one supplied for a node
with that key. -/
theorem ids_have_origins (hrun : (b.run d).Reaches (Call.Generates E S) s ids s')
    (hfirst : b.nodes.head? = some first) (hpolicy : b.policy.or first.policy = some policy)
    (hdirect : ∀ c ∈ b.nodes, c.dependencies = []) (hwrites : b.WritesColumn)
    (hkey : (first.node.table, first.node.id.column) ∈ S.keys)
    (hsame : ∀ c ∈ b.nodes, c.node.id.column = first.node.id.column)
    (htells : ∀ c ∈ b.nodes, c.TellsId S d) :
    ∃ rows bound i inserted, bound = boundRows first.node.id.column rows ∧
      b.UpsertsRows E S d first.node policy rows i ids s.current inserted s'.current ∧
      ∀ n v, ids[n]? = some v → v.isNull = false → ∃ r,
        first.node.readId (r first.node.id.column) = .ok v ∧
        bound.Attributed E S d first.node policy i (s.current (nameParts first.node.table)).rows
          (inserted (nameParts first.node.table)).rows n r ∧
        (policy.action = .doNothing → d ≠ .mysql → (∃ c ∈ b.nodes, ¬c.LeavesId) → ∃ j c log,
          b.nodes[j]? = some c ∧ c.node.Supplies log (some (r first.node.id.column)) ∧
            bound.SharesKey (bound.keys policy) n j) := by
  have hR : ∀ (c : Call) (r : c.Reply) (s s' : Session), c.Generates E S r s s' →
      c.Answers E S.keys r s s' := fun _ _ _ _ h => h.records.answers
  have hne : b.nodes ≠ [] := List.ne_nil_of_mem (List.mem_of_head? hfirst)
  obtain ⟨hnil, -⟩ | ⟨head, hhead, htable, -, inside, start, mid, hstart, hend, hbody⟩ :=
    reaches_run hR hrun
  · exact absurd hnil hne
  obtain rfl : head = first := Option.some.inj (hhead.symm.trans hfirst)
  have hbulk : (createBulk ⟨d, inside⟩ b).Reaches (Call.Generates E S) start ids mid :=
    (hbody.resolve_left fun h => h.1 hdirect).2
  obtain ⟨rows, stored, after, hrows, hcolumns, hall, hreads, hids, hedges⟩ :=
    reaches_upsert hR hfirst hpolicy hwrites hbulk
  have hgenerated : (boundRows head.node.id.column rows).generated = true →
      d.supportsReturning = false → S.reportsIds = true ∧
        S.identity head.node.table = some head.node.id.column ∧
          head.node.id.column ∉ (boundRows head.node.id.column rows).columns := by
    intro hgenerated hreturning
    exact tells_of_leaves hne (hrows.imp fun _ _ h => h.isOf)
      (fun c hc => ⟨htable c hc, hsame c hc⟩) htells (List.isEmpty_iff.mp hgenerated) hreturning
  obtain ⟨returning, i, _, reported, hcompile, hinserts, rfl, hstored⟩ :=
    BoundRows.reaches_storedRows hkey hcolumns hgenerated hreads
  rw [hstart] at hinserts hstored
  have hupsert := BoundRows.isUpsert_of_compile hcolumns hcompile
  refine ⟨rows, _, i, after.current, rfl, ⟨hrows, ⟨returning, hcompile⟩, ⟨reported, hinserts⟩,
    ⟨inside, after, mid, rfl, hend.symm, hedges⟩⟩, fun n v hn hv => ?_⟩
  obtain ⟨p, hgives⟩ := ((BoundRows.assigns_of_identifyAll hids).given n v hv).mp hn
  obtain ⟨id, key, hrow, hmatch, hread⟩ := hgives.row
  obtain ⟨r, hr, hback⟩ := hstored _ (List.mem_of_getElem? hrow)
  obtain ⟨rfl, rfl⟩ := List.cons.inj hr
  have hattributed := hupsert.attributed (S.key_mem_uniques _ hkey) hinserts hmatch hback
  refine ⟨r, hread, hattributed, fun hskips hdialect ⟨c, hc, hleaves⟩ => ?_⟩
  have hsupplied : rows.filterMap OwnRow.id ≠ [] := fun hnone =>
    hleaves ((generated_iff head.node.id.column hrows).mp (List.isEmpty_iff.mpr hnone) c hc)
  cases hattributed.origin with
  | inserted shared turn =>
    obtain ⟨row, hrow, hproposes⟩ := turn.proposes
    obtain ⟨c, log, hc, hsupplies⟩ :=
      supplied_of_proposes hrows hupsert hsupplied (hall hsupplied) hrow hproposes
    exact ⟨_, c, log, hc, hsupplies, shared⟩
  | resolved touches => exact absurd hskips touches
  | kept _ touches => exact absurd hskips touches
  | found dialect => exact absurd dialect hdialect
  | foundWithout dialect => exact absurd dialect hdialect

end BatchCreation

/-! ## Users with an email -/

theorem identity_mem_users (table c : String)
    (h : (if table = "users" then some "id" else none) = some c) : (table, c) ∈ [("users", "id")] := by
  split at h
  case isTrue htable =>
    obtain rfl := Option.some.inj h
    rw [htable]
    exact List.mem_singleton_self _
  case isFalse => cases h

/-- No two users share an email. The database generates their IDs and tells them. -/
def emailSchema : Schema where
  keys := [("users", "id")]
  uniques table := if table = "users" then [["id"], ["email"]] else []
  identity table := if table = "users" then some "id" else none
  reportsIds := true
  key_mem_uniques := by
    intro k hk
    obtain rfl := List.mem_singleton.mp hk
    exact List.mem_cons_self
  identity_mem_keys := identity_mem_users

/-- The row of a user. -/
def emailRow (id email name : Value) : Tuple := fun c =>
  if c = "id" then id else if c = "email" then email else if c = "name" then name else .null

/-- The database of some users. -/
def emailDatabase (rows : List Tuple) : Database := fun name =>
  if name = ["users"] then ⟨["id", "email", "name"], rows⟩ else ⟨[], []⟩

/-- A user with an email, whose ID is supplied unless it is absent. -/
def emailUser (id email : Value) (others : List Field) : NodeCreation :=
  { NodeCreation.ofNode (.ofTable "users" ⟨"id", .int, id⟩) with
    fields := ⟨"email", .string, email⟩ :: others }

/-- The selection of the IDs and emails of users. -/
def emailSelect (p : Predicate) : Selector :=
  ⟨["id", "email"], .table "users" none, [], some p, [], none, none, false, false⟩

theorem emailDatabase_users (rows : List Tuple) :
    emailDatabase rows (nameParts "users") = ⟨["id", "email", "name"], rows⟩ := by
  have hname : nameParts "users" = ["users"] := by decide
  rw [hname]
  rfl

theorem emailDatabase_hasColumn {rows : List Tuple} {c : String} (hc : c ∈ ["id", "email", "name"]) :
    (emailDatabase rows (nameParts "users")).HasColumn c := by
  have hcolumn : (emailDatabase [] (nameParts "users")).HasColumn c := by
    revert c
    decide
  rw [emailDatabase_users] at hcolumn ⊢
  exact ⟨hcolumn.plain, hcolumn.notStar, hcolumn.mem⟩

/-- What the selection of some users returns. -/
theorem emailSelect_returns {p : Predicate} {rows found : List Tuple} {out : List (List Value)}
    (h : rows.filter ((emailDatabase rows).meets keyEngine "users" (some p)) = found)
    (hout : out.Perm (found.map fun r => [r "id", r "email"])) :
    (Command.select (emailSelect p)).Returns keyEngine (emailDatabase rows) ⟨["id", "email"], out⟩ := by
  have hcolumns : ∀ c ∈ ["id", "email"], (emailDatabase rows).Denotes "users" c c := by
    intro c hc
    refine (emailDatabase_hasColumn ?_).denotes
    revert c
    decide
  have hselected := outRows_columns (E := keyEngine) (List.cons_ne_nil _ _) hcolumns (some p)
  rw [List.map_id', emailDatabase_users, h] at hselected
  unfold Command.Returns emailSelect
  dsimp only
  rw [hselected, List.map_map]
  exact hout

/-- A proposed user has an ID that no other has, unless it is written. -/
theorem emailRow_proposes {i : InsertStatement} {rows : List Tuple} {id email name : Value}
    {values : List Value} (htable : i.table = "users")
    (hwritten : ∀ p ∈ i.columns.zip values, emailRow id email name p.1 = p.2)
    (hunwritten : ∀ c ∈ ["email", "name"], c ∉ i.columns → emailRow id email name c = .null)
    (hfresh : "id" ∉ i.columns → ∀ r ∈ rows, keyEngine.equal (r "id") id = false) :
    i.Proposes keyEngine emailSchema rows values (emailRow id email name) where
  written := hwritten
  unwritten := by
    intro c hc hidentity
    rw [htable] at hidentity
    have hid : c ≠ "id" := fun h => hidentity (h ▸ rfl)
    by_cases hmem : c ∈ ["email", "name"]
    · exact hunwritten c hmem hc
    · simp only [List.mem_cons, List.not_mem_nil, or_false, not_or] at hmem
      simp [emailRow, hid, hmem]
  fresh := by
    intro c hc hidentity
    rw [htable] at hidentity
    obtain rfl : "id" = c := Option.some.inj hidentity
    exact hfresh hc

theorem emailDatabase_inserts {i : InsertStatement} {rows rows' reported : List Tuple}
    (htable : i.table = "users") (hcolumns : ∀ c ∈ i.columns, c ∈ ["id", "email", "name"])
    (hstored : i.StoresRows keyEngine emailSchema i.proposals rows rows' reported) :
    i.Inserts keyEngine emailSchema (emailDatabase rows) (emailDatabase rows') reported where
  columns := by
    rw [htable]
    exact fun c hc => emailDatabase_hasColumn (hcolumns c hc)
  sameColumns := by rw [htable, emailDatabase_users, emailDatabase_users]
  stored := by
    rw [htable, emailDatabase_users, emailDatabase_users]
    exact hstored

/-- A user who is there under an email stays as it is if a column is assigned to itself. -/
theorem emailRow_touched {i : InsertStatement} {x r : Tuple} {column : String}
    (htable : i.table = "users") (hconflict : i.conflict = some (.onDuplicateKey [⟨column, .itself⟩]))
    (hagree : Agree keyEngine ["email"] r x) :
    i.StoresRow keyEngine emailSchema x ([] ++ [r]) ([] ++ [r]) (some r) :=
  .changed (by rw [htable]; decide) hagree hconflict trivial
    (congrArg some (Function.update_eq_self _ r))

/-- A run that sends an INSERT of users, selects some and tells their IDs. -/
theorem reaches_of_emails {b : BatchCreation} {i : InsertStatement} {p : Predicate}
    {rows rows' reported : List Tuple} {result : ExecResult} {out : List (List Value)}
    {told : List Exchange} {ids : List Value}
    (hrun : (b.run .mysql).Run (⟨.exec false (.insert i), true, (.done result : Outcome ExecResult)⟩ ::
      ⟨.query false (.select (emailSelect p)), true, (.done ⟨["id", "email"], out⟩ : Outcome Rows)⟩ ::
        told) (.ok ids))
    (htable : i.table = "users") (hconflict : i.conflict ≠ none)
    (hinserts : i.Inserts keyEngine emailSchema (emailDatabase rows) (emailDatabase rows') reported)
    (hobeys : (emailDatabase rows').Obeys keyEngine emailSchema.keys)
    (hascends : "id" ∉ i.columns → ∀ first, result.lastInsertId = some first →
      ∀ q ∈ rows, (keyEngine.compare .gte (q "id") (.int first)).isYes = false)
    (hreturns : (Command.select (emailSelect p)).Returns keyEngine (emailDatabase rows')
      ⟨["id", "email"], out⟩)
    (htold : ∀ s, AnsweredBy (Call.Generates keyEngine emailSchema) s told s) :
    (b.run .mysql).Reaches (Call.Generates keyEngine emailSchema) ⟨emailDatabase rows, none⟩ ids
      ⟨emailDatabase rows', none⟩ := by
  refine ⟨_, hrun, ⟨emailDatabase rows', none⟩, ⟨⟨⟨?_, trivial, hobeys, rfl⟩, reported, hinserts,
    fun _ hnone => absurd hnone hconflict⟩, ?_⟩, ?_⟩
  · intro name hother
    have hname : nameParts "users" = ["users"] := by decide
    have hother : name ≠ ["users"] := hname ▸ htable ▸ hother
    simp [emailDatabase, hother]
  · intro _ _ c hidentity hunwritten first hfirst _ _
    rw [htable] at hidentity ⊢
    dsimp only
    rw [emailDatabase_users]
    obtain rfl : "id" = c := Option.some.inj hidentity
    exact hascends hunwritten first hfirst
  · exact ⟨_, ⟨⟨⟨rfl, hreturns, hobeys, rfl⟩, trivial⟩, trivial⟩, htold _⟩

/-- The first of the users. -/
def storedAnn : Tuple := emailRow (.int 3) (.string "ann") .null

/-- A user who comes later. -/
def newBob : Tuple := emailRow (.int 12) (.string "bob") .null

/-- Two users, one of whom is there already. -/
def annAndBob : BatchCreation :=
  { nodes := [emailUser .null (.string "ann") [], emailUser .null (.string "bob") []]
    policy := some ⟨["email"], .doNothing⟩ }

/-- Their INSERT. -/
def annAndBobInsert : InsertStatement :=
  { table := "users", columns := ["email"], rows := [[.string "ann"], [.string "bob"]]
    conflict := some (.onDuplicateKey [⟨"email", .itself⟩]), returning := [] }

/-- The condition by which they are found. -/
def annAndBobCondition : Predicate :=
  .conj [.disj [.conj [.eq "email" (.string "ann")], .conj [.eq "email" (.string "bob")]],
    .compare "id" .gte (.int 12)]

/-- The run that adds the one who is new. -/
def annAndBobRun : List Exchange :=
  [⟨.exec false (.insert annAndBobInsert), true, (.done ⟨1, some 12⟩ : Outcome ExecResult)⟩,
    ⟨.query false (.select (emailSelect annAndBobCondition)), true,
      (.done ⟨["id", "email"], [[.int 12, .string "bob"]]⟩ : Outcome Rows)⟩,
    ⟨.revise 0 (.id .null), true, ()⟩,
    ⟨.revise 1 (.id (.int 12)), true, ()⟩]

theorem annAndBob_inserts : annAndBobInsert.Inserts keyEngine emailSchema
    (emailDatabase [storedAnn]) (emailDatabase [newBob, storedAnn]) [storedAnn, newBob] := by
  have hann : annAndBobInsert.Proposes keyEngine emailSchema [storedAnn] [.string "ann"]
      (emailRow (.int 11) (.string "ann") .null) :=
    emailRow_proposes rfl (by simp [annAndBobInsert, emailRow]) (by simp [annAndBobInsert, emailRow])
      (by decide)
  have hbob : annAndBobInsert.Proposes keyEngine emailSchema [storedAnn] [.string "bob"] newBob :=
    emailRow_proposes rfl (by simp [annAndBobInsert, emailRow]) (by simp [annAndBobInsert, emailRow])
      (by decide)
  have hadded : annAndBobInsert.StoresRow keyEngine emailSchema newBob [storedAnn]
      [newBob, storedAnn] (some newBob) := .added (by decide) (List.Perm.refl _)
  exact emailDatabase_inserts rfl (by decide)
    (.cons hann (emailRow_touched rfl rfl (by decide)) (.cons hbob hadded .nil))

theorem annAndBob_reaches : (annAndBob.run .mysql).Reaches (Call.Generates keyEngine emailSchema)
    ⟨emailDatabase [storedAnn], none⟩ [.null, .int 12] ⟨emailDatabase [newBob, storedAnn], none⟩ := by
  have hselected : [newBob, storedAnn].filter ((emailDatabase [newBob, storedAnn]).meets keyEngine
      "users" (some annAndBobCondition)) = [newBob] := by
    rw [List.filter_cons_of_pos (by decide), List.filter_cons_of_neg (by decide), List.filter_nil]
  have hrun : (annAndBob.run .mysql).Run annAndBobRun (.ok [.null, .int 12]) := by
    repeat apply Run.call
    exact .done _
  refine reaches_of_emails hrun rfl nofun annAndBob_inserts (by decide) ?_
    (emailSelect_returns hselected (List.Perm.refl _))
    fun _ => ⟨_, ⟨⟨rfl, trivial⟩, trivial⟩, _, ⟨⟨rfl, trivial⟩, trivial⟩, rfl⟩
  rintro - _ ⟨⟩
  decide

/-- The user who is new has an ID that no other had; the other user has none. -/
theorem ids_have_origins_annAndBob :
    (annAndBob.run .mysql).Reaches (Call.Generates keyEngine emailSchema)
        ⟨emailDatabase [storedAnn], none⟩ [.null, .int 12] ⟨emailDatabase [newBob, storedAnn], none⟩ ∧
      ∃ rows bound i inserted, bound = BatchCreation.boundRows "id" rows ∧
        annAndBob.UpsertsRows keyEngine emailSchema .mysql (.ofTable "users" ⟨"id", .int, .null⟩)
          ⟨["email"], .doNothing⟩ rows i [.null, .int 12] (emailDatabase [storedAnn]) inserted
            (emailDatabase [newBob, storedAnn]) ∧
        bound.generated = true ∧ ∃ r,
          Node.readId (.ofTable "users" ⟨"id", .int, .null⟩) (r "id") = .ok (.int 12) ∧
          bound.Attributed keyEngine emailSchema .mysql (.ofTable "users" ⟨"id", .int, .null⟩)
            ⟨["email"], .doNothing⟩ i [storedAnn] (inserted (nameParts "users")).rows 1 r ∧
          keyEngine.equal (storedAnn "id") (r "id") = false := by
  have hnode : ∀ c ∈ annAndBob.nodes, ∃ email, c = emailUser .null email [] := by
    intro c hc
    rcases List.mem_cons.mp hc with rfl | hc
    · exact ⟨_, rfl⟩
    · exact ⟨_, List.mem_singleton.mp hc⟩
  have hleaves : ∀ c ∈ annAndBob.nodes, c.LeavesId := by
    intro c hc
    obtain ⟨email, rfl⟩ := hnode c hc
    exact ⟨rfl, rfl⟩
  have htells : ∀ c ∈ annAndBob.nodes, c.TellsId emailSchema .mysql := by
    intro c hc _ _
    obtain ⟨email, rfl⟩ := hnode c hc
    refine ⟨rfl, rfl, fun f hf => ?_, by simp [emailUser, NodeCreation.ofNode]⟩
    obtain rfl := List.mem_singleton.mp hf
    exact ne_of_beq_false rfl
  have hwrites : annAndBob.WritesColumn := ⟨_, List.mem_cons_self, fun _ hnone => by cases hnone⟩
  obtain ⟨rows, bound, i, inserted, rfl, hupserts, hids⟩ :=
    BatchCreation.ids_have_origins annAndBob_reaches rfl rfl (by simp [annAndBob]; decide) hwrites
      (List.mem_singleton_self _) (by simp [annAndBob, emailUser, NodeCreation.ofNode]) htells
  obtain ⟨r, hread, hattributed, -⟩ := hids 1 (.int 12) rfl rfl
  have hgenerated := (BatchCreation.generated_iff "id" hupserts.supplied).mpr hleaves
  exact ⟨annAndBob_reaches, rows, _, i, inserted, rfl, hupserts, hgenerated, r, hread, hattributed,
    hattributed.new rfl (.inr hgenerated) _ (List.mem_singleton_self _)⟩

/-- A user with a supplied ID and the email of another. -/
def suppliedAnn : BatchCreation :=
  { nodes := [emailUser (.int 7) (.string "ann") []], policy := some ⟨["email"], .doNothing⟩ }

/-- The INSERT of that user. -/
def suppliedAnnInsert : InsertStatement :=
  { table := "users", columns := ["id", "email"], rows := [[.int 7, .string "ann"]]
    conflict := some (.onDuplicateKey [⟨"id", .itself⟩]), returning := [] }

/-- The run that finds the other user. -/
def suppliedAnnRun : List Exchange :=
  [⟨.exec false (.insert suppliedAnnInsert), true, (.done ⟨0, none⟩ : Outcome ExecResult)⟩,
    ⟨.query false (.select (emailSelect (.disj [.conj [.eq "email" (.string "ann")]]))), true,
      (.done ⟨["id", "email"], [[.int 3, .string "ann"]]⟩ : Outcome Rows)⟩,
    ⟨.revise 0 (.id (.int 3)), true, ()⟩]

theorem suppliedAnn_inserts : suppliedAnnInsert.Inserts keyEngine emailSchema
    (emailDatabase [storedAnn]) (emailDatabase [storedAnn]) [storedAnn] := by
  have hproposes : suppliedAnnInsert.Proposes keyEngine emailSchema [storedAnn]
      [.int 7, .string "ann"] (emailRow (.int 7) (.string "ann") .null) :=
    emailRow_proposes rfl (by simp [suppliedAnnInsert, emailRow])
      (by simp [suppliedAnnInsert, emailRow]) (by decide)
  exact emailDatabase_inserts rfl (by decide)
    (.cons hproposes (emailRow_touched rfl rfl (by decide)) .nil)

theorem suppliedAnn_reaches : (suppliedAnn.run .mysql).Reaches (Call.Generates keyEngine emailSchema)
    ⟨emailDatabase [storedAnn], none⟩ [.int 3] ⟨emailDatabase [storedAnn], none⟩ := by
  have hselected : [storedAnn].filter ((emailDatabase [storedAnn]).meets keyEngine "users"
      (some (.disj [.conj [.eq "email" (.string "ann")]]))) = [storedAnn] :=
    List.filter_cons_of_pos (by decide)
  have hrun : (suppliedAnn.run .mysql).Run suppliedAnnRun (.ok [.int 3]) := by
    repeat apply Run.call
    exact .done _
  exact reaches_of_emails hrun rfl nofun suppliedAnn_inserts (by decide) (fun _ _ => nofun)
    (emailSelect_returns hselected (List.Perm.refl _)) fun _ => ⟨_, ⟨⟨rfl, trivial⟩, trivial⟩, rfl⟩

/-- A user without an email. -/
def nameless : Tuple := emailRow (.int 3) .null .null

/-- Another one, who comes later. -/
def newNameless : Tuple := emailRow (.int 12) .null (.string "x")

/-- A user without an email, under a policy that overwrites those with the same. -/
def withoutEmail : BatchCreation :=
  { nodes := [emailUser .null .null [⟨"name", .string, .string "x"⟩]]
    policy := some ⟨["email"], .updateNewValues⟩ }

/-- The INSERT of that user. -/
def withoutEmailInsert : InsertStatement :=
  { table := "users", columns := ["email", "name"], rows := [[.null, .string "x"]]
    conflict := some (.onDuplicateKey [⟨"email", .proposed⟩, ⟨"name", .proposed⟩]), returning := [] }

/-- The run that adds the user and finds another one as well. -/
def withoutEmailRun : List Exchange :=
  [⟨.exec false (.insert withoutEmailInsert), true, (.done ⟨1, some 12⟩ : Outcome ExecResult)⟩,
    ⟨.query false (.select (emailSelect (.disj [.conj [.isNull "email"]]))), true,
      (.done ⟨["id", "email"], [[.int 3, .null], [.int 12, .null]]⟩ : Outcome Rows)⟩,
    ⟨.revise 0 (.id (.int 3)), true, ()⟩]

theorem withoutEmail_inserts : withoutEmailInsert.Inserts keyEngine emailSchema
    (emailDatabase [nameless]) (emailDatabase [newNameless, nameless]) [newNameless] := by
  have hproposes : withoutEmailInsert.Proposes keyEngine emailSchema [nameless] [.null, .string "x"]
      newNameless :=
    emailRow_proposes rfl (by simp [withoutEmailInsert, emailRow])
      (by simp [withoutEmailInsert, emailRow]) (by decide)
  exact emailDatabase_inserts rfl (by decide)
    (.cons hproposes (.added (by decide) (List.Perm.refl _)) .nil)

theorem withoutEmail_reaches : (withoutEmail.run .mysql).Reaches (Call.Generates keyEngine emailSchema)
    ⟨emailDatabase [nameless], none⟩ [.int 3] ⟨emailDatabase [newNameless, nameless], none⟩ := by
  have hselected : [newNameless, nameless].filter ((emailDatabase [newNameless, nameless]).meets
      keyEngine "users" (some (.disj [.conj [.isNull "email"]]))) = [newNameless, nameless] := by
    rw [List.filter_cons_of_pos (by decide), List.filter_cons_of_pos (by decide), List.filter_nil]
  have hrun : (withoutEmail.run .mysql).Run withoutEmailRun (.ok [.int 3]) := by
    repeat apply Run.call
    exact .done _
  refine reaches_of_emails hrun rfl nofun withoutEmail_inserts (by decide) ?_
    (emailSelect_returns hselected (List.Perm.swap _ _ _)) fun _ => ⟨_, ⟨⟨rfl, trivial⟩, trivial⟩, rfl⟩
  rintro - _ ⟨⟩
  decide

/-- On MySQL a user whose supplied ID is 7 gets the ID of an older user with the same email, although
the policy is to do nothing. A user without an email gets the ID of an older user without one, although
a row with the ID 12 has been inserted for it and the INSERT has not touched the older one. -/
theorem older_ids_attributed :
    (suppliedAnn.policy = some ⟨["email"], .doNothing⟩ ∧
      suppliedAnn.nodes.map (fun c => c.node.id.value) = [.int 7] ∧ storedAnn "id" = .int 3 ∧
      (suppliedAnn.run .mysql).Reaches (Call.Generates keyEngine emailSchema)
        ⟨emailDatabase [storedAnn], none⟩ [.int 3] ⟨emailDatabase [storedAnn], none⟩) ∧
    withoutEmail.policy = some ⟨["email"], .updateNewValues⟩ ∧
      withoutEmailInsert.Inserts keyEngine emailSchema (emailDatabase [nameless])
        (emailDatabase [newNameless, nameless]) [newNameless] ∧
      newNameless "id" = .int 12 ∧ nameless "id" = .int 3 ∧
      (withoutEmail.run .mysql).Reaches (Call.Generates keyEngine emailSchema)
        ⟨emailDatabase [nameless], none⟩ [.int 3] ⟨emailDatabase [newNameless, nameless], none⟩ :=
  ⟨⟨rfl, rfl, rfl, suppliedAnn_reaches⟩, rfl, withoutEmail_inserts, rfl, rfl, withoutEmail_reaches⟩

end EntityGraph
