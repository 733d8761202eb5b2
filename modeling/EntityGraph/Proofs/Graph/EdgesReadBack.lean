import EntityGraph.Proofs.Graph.EdgeReaders
import EntityGraph.Proofs.Graph.JoinTableUpdates
import EntityGraph.Proofs.Graph.StoredEdges

/-!
# Edges are read back as they were written

A creation writes edges to a node's own row, to other rows and to join tables. After a creation that
has a result each way to read finds the targets of the edges and no other rows, and where a relation
is stored for both of its directions the node is found from its targets.
-/

set_option autoImplicit false

namespace EntityGraph

open Program

variable {E : Engine} {S : Schema} {d : Dialect} {x : Value}

/-- The relation of the edge is stored for both of its directions. -/
def Edge.IsSymmetric (e : Edge) : Prop :=
  e.bidi = true ∧ (e.isManyToMany = true ∨ e.isOneToOne = true ∧ e.isForeignKeyEdge = true)

namespace NodeCreation

/-- The node type of the targets of an edge. -/
structure IsTarget (S : Schema) (c : NodeCreation) (e : Edge) (db : Database)
    (goal : Node) : Prop extends goal.IsReadable S.keys db where
  stored : e.isForeignKeyEdge = true → goal.table = e.table ∧
    ∀ f ∈ c.edges, e.sameRelation f = true → f.target.id.column = goal.id.column

/-- The node type of the created node. -/
structure IsSource (S : Schema) (c : NodeCreation) (db : Database) (goal : Node) :
    Prop extends goal.IsReadable S.keys db where
  table : goal.table = c.node.table
  id : goal.id.column = c.node.id.column

/-- An edge of a creation is read back as it was written, from a database in which the node has a
row. -/
structure IsReadBack (E : Engine) (S : Schema) (d : Dialect) (c : NodeCreation) (x : Value)
    (own : Tuple) (db : Database) (e : Edge) : Prop where
  /-- From the node the rows of the targets are reached, and no others. -/
  targets : ∀ goal, c.IsTarget S e db goal →
    e.Reads E S.keys d c.node goal db own fun r =>
      (c.targetsOf e).any (E.equal (r goal.id.column))
  /-- The node is paired with the targets, and with nothing else. -/
  pairs : e.isManyToMany = true →
    e.ReadsPairs E S.keys d db x fun v => (c.targetsOf e).any (E.equal v)
  /-- From the targets the node is reached. -/
  sources : e.IsSymmetric → ∀ t ∈ c.targetsOf e, ∀ start goal row, c.IsTarget S e db start →
    c.IsSource S db goal → row ∈ (db (nameParts start.table)).rows →
      E.equal (row start.id.column) t = true → e.Finds E S.keys d start goal db row own
  /-- The targets are paired with the node. -/
  sourcePairs : e.IsSymmetric → e.isManyToMany = true → ∀ t ∈ c.targetsOf e,
    ∃ p, p x = true ∧ e.ReadsPairs E S.keys d db t p

namespace Stored

variable {c : NodeCreation} {e : Edge} {own row : Tuple} {db : Database} {start goal : Node}
  {t : Value} {fk o o' : String}

/-- The rows to which a join table links the node are those of the targets. -/
theorem links_eq_targets (hE : E.ByKey) (hdb : db.Obeys E S.keys) (h : c.Stored E x own db)
    (he : e ∈ c.edges) (hgoal : c.IsTarget S e db goal) (hmany : e.isManyToMany = true)
    (hjoin : e.joinColumns = .ok (o, o')) :
    ∀ r ∈ (db (nameParts goal.table)).rows,
      (db (nameParts e.table)).links E o o' (own c.node.id.column) (r goal.id.column) =
        (c.targetsOf e).any (E.equal (r goal.id.column)) := by
  intro r hr
  rw [← h.joinTables e he hmany o o' hjoin]
  exact Table.links_congr h.id (hE.equal_self ((hdb _ hgoal.key).present r hr))

/-- The row to which the node's own row refers is that of the target. -/
theorem referred_eq_target (h : c.Stored E x own db) (he : e ∈ c.edges)
    (hwrites : e.writesOwnColumn = true) (hfk : e.columns = [fk]) (v : Value) :
    E.equal v (own fk) = (c.targetsOf e).any (E.equal v) := by
  obtain ⟨hmem, hall⟩ := h.ownColumns e he hwrites fk hfk
  rw [Bool.eq_iff_iff, List.any_eq_true]
  constructor
  · exact fun hequal => ⟨own fk, hmem, hequal⟩
  · rintro ⟨t, ht, hequal⟩
    rwa [hall t ht] at hequal

/-- The rows that refer to the node are those of the targets. -/
theorem refers_eq_targets (h : c.Stored E x own db) (he : e ∈ c.edges)
    (hgoal : c.IsTarget S e db goal) (hforeign : e.isForeignKeyEdge = true)
    (hfk : e.columns = [fk]) :
    ∀ r ∈ (db (nameParts goal.table)).rows,
      E.equal (r fk) (own c.node.id.column) =
        (c.targetsOf e).any (E.equal (r goal.id.column)) := by
  intro r hr
  obtain ⟨htable, hids⟩ := hgoal.stored hforeign
  rw [Engine.equal_congr_right h.id]
  exact h.foreignKeys e he hforeign fk hfk _ hids r (htable ▸ hr)

/-- The node's own row has a key by which to load the neighbors. -/
theorem key_present (h : c.Stored E x own db) (he : e ∈ c.edges)
    (htargets : ∀ t ∈ c.targetsOf e, t.isNull = false) :
    (own (e.keyColumn c.node)).isNull = false := by
  cases hwrites : e.writesOwnColumn with
  | true =>
    obtain ⟨fk, hfk⟩ := (h.complete e he).exists_foreignKey (Edge.isManyToMany_of_own hwrites)
    rw [Edge.keyColumn_of_own hwrites hfk]
    exact htargets _ (h.ownColumns e he hwrites fk hfk).1
  | false =>
    rw [Edge.keyColumn_of_not_own hwrites]
    exact Engine.isNull_of_equal h.id

/-- From the node the targets are reached. -/
theorem reads (hE : E.ByKey) (hdb : db.Obeys E S.keys) (h : c.Stored E x own db)
    (hnode : (c.node.table, c.node.id.column) ∈ S.keys)
    (htable : e.writesOwnColumn = true → e.table = c.node.table)
    (htargets : ∀ t ∈ c.targetsOf e, t.isNull = false)
    (hcolumns : ∀ k ∈ e.columns, (db (nameParts e.table)).HasColumn k) (he : e ∈ c.edges)
    (hgoal : c.IsTarget S e db goal) :
    e.Reads E S.keys d c.node goal db own fun r =>
      (c.targetsOf e).any (E.equal (r goal.id.column)) := by
  have hkey := h.key_present he htargets
  have hreadable := hgoal.toIsReadable
  cases hmany : e.isManyToMany with
  | true =>
    obtain ⟨o, o', hjoin⟩ := (h.complete e he).exists_joinColumns hmany
    obtain ⟨ho, ho'⟩ := Edge.mem_columns_of_join hjoin
    have hlinks := h.links_eq_targets hE hdb he hgoal hmany hjoin
    exact ⟨hkey,
      (Edge.loadsFrom_of_joinTable hE hdb hreadable hmany hjoin (hcolumns o ho)
        (hcolumns o' ho')).congr hlinks,
      (Edge.stepsFrom_of_joinTable hE hdb hreadable hmany hjoin (hcolumns o ho)
        (hcolumns o' ho')).congr hlinks⟩
  | false =>
    obtain ⟨fk, hfk⟩ := (h.complete e he).exists_foreignKey hmany
    have hcolumn := hcolumns fk (by simp [hfk])
    have hload : e.writesOwnColumn = true → e.LoadsFrom E S.keys d c.node goal db own fun r =>
        (c.targetsOf e).any (E.equal (r goal.id.column)) := fun hwrites =>
      (Edge.loadsFrom_of_own hE hdb hreadable hmany hwrites hfk).congr
        fun r _ => h.referred_eq_target he hwrites hfk _
    cases hforeign : e.isForeignKeyEdge with
    | true =>
      have hrefers := h.refers_eq_targets he hgoal hforeign hfk
      rw [← (hgoal.stored hforeign).1] at hcolumn
      refine ⟨hkey, ?_,
        (Edge.stepsFrom_of_foreignKey hE hdb hreadable hforeign hfk hcolumn).congr hrefers⟩
      cases hwrites : e.writesOwnColumn with
      | true => exact hload hwrites
      | false =>
        exact (Edge.loadsFrom_of_foreignKey hE hreadable hmany hwrites hfk hcolumn).congr hrefers
    | false =>
      have hwrites := Edge.writesOwnColumn_of_not hforeign hmany
      have hown := htable hwrites
      refine ⟨hkey, hload hwrites,
        (Edge.stepsFrom_of_own hE hdb hreadable hforeign hmany hfk hcolumn ?_ ?_).congr
          fun r _ => h.referred_eq_target he hwrites hfk _⟩
      · rw [hown]
        exact hdb _ hnode
      · rw [hown]
        exact h.mem

/-- From the targets the node is reached, if the relation is stored for both directions. -/
theorem finds (hE : E.ByKey) (hdb : db.Obeys E S.keys) (h : c.Stored E x own db)
    (htable : e.writesOwnColumn = true → e.table = c.node.table)
    (hcolumns : ∀ k ∈ e.columns, (db (nameParts e.table)).HasColumn k) (he : e ∈ c.edges)
    (hsymmetric : e.IsSymmetric) (ht : t ∈ c.targetsOf e) (hstart : c.IsTarget S e db start)
    (hgoal : c.IsSource S db goal) (hrow : row ∈ (db (nameParts start.table)).rows)
    (hequal : E.equal (row start.id.column) t = true) :
    e.Finds E S.keys d start goal db row own := by
  have hmem : own ∈ (db (nameParts goal.table)).rows := by
    rw [hgoal.table]
    exact h.mem
  have hid : E.equal (own goal.id.column) x = true := by
    rw [hgoal.id]
    exact h.id
  obtain ⟨hbidi, hkind⟩ := hsymmetric
  rcases hkind with hmany | ⟨hone, hforeign⟩
  · obtain ⟨o, o', hjoin⟩ := (h.complete e he).exists_joinColumns hmany
    obtain ⟨ho, ho'⟩ := Edge.mem_columns_of_join hjoin
    have hlinks : (db (nameParts e.table)).links E o o' (row start.id.column)
        (own goal.id.column) = true := by
      rw [Table.links_congr hequal hid]
      exact h.exchanged e he hmany hbidi o o' hjoin t ht
    have hkey : (row (e.keyColumn start)).isNull = false := by
      rw [Edge.keyColumn_of_not_own (Edge.writesOwnColumn_of_many hmany)]
      exact Engine.isNull_of_equal hequal
    exact ⟨hmem, hkey,
      ⟨_, hlinks, Edge.loadsFrom_of_joinTable hE hdb hgoal.toIsReadable hmany hjoin
        (hcolumns o ho) (hcolumns o' ho')⟩,
      ⟨_, hlinks, Edge.stepsFrom_of_joinTable hE hdb hgoal.toIsReadable hmany hjoin
        (hcolumns o ho) (hcolumns o' ho')⟩⟩
  · have hmany := Edge.isManyToMany_of_foreignKey hforeign
    obtain ⟨fk, hfk⟩ := (h.complete e he).exists_foreignKey hmany
    have hwrites : e.writesOwnColumn = true := by
      unfold Edge.writesOwnColumn
      rw [eq_of_beq hone, hbidi]
      exact Bool.or_true _
    obtain ⟨hstartTable, hids⟩ := hstart.stored hforeign
    -- the target's row refers to the node, and the node's row to the target
    have hrefers : E.equal (row fk) x = true := by
      rw [h.foreignKeys e he hforeign fk hfk _ hids row (hstartTable ▸ hrow)]
      exact List.any_eq_true.mpr ⟨t, ht, hequal⟩
    have hreferred : E.equal (own fk) (row start.id.column) = true := by
      rw [← (h.ownColumns e he hwrites fk hfk).2 t ht]
      exact Engine.equal_symm hequal
    have hcolumn : (db (nameParts goal.table)).HasColumn fk := by
      rw [hgoal.table, ← htable hwrites]
      exact hcolumns fk (by simp [hfk])
    have hkey : (row (e.keyColumn start)).isNull = false := by
      rw [Edge.keyColumn_of_own hwrites hfk]
      exact Engine.isNull_of_equal hrefers
    exact ⟨hmem, hkey,
      ⟨_, Engine.equal_trans hid (Engine.equal_symm hrefers),
        Edge.loadsFrom_of_own hE hdb hgoal.toIsReadable hmany hwrites hfk⟩,
      ⟨_, hreferred, Edge.stepsFrom_of_foreignKey hE hdb hgoal.toIsReadable hforeign hfk hcolumn⟩⟩

/-- What is stored is read back. -/
theorem isReadBack (hE : E.ByKey) (hdb : db.Obeys E S.keys) (h : c.Stored E x own db)
    (hnode : (c.node.table, c.node.id.column) ∈ S.keys)
    (htable : e.writesOwnColumn = true → e.table = c.node.table)
    (htargets : ∀ t ∈ c.targetsOf e, t.isNull = false)
    (hcolumns : ∀ k ∈ e.columns, (db (nameParts e.table)).HasColumn k) (he : e ∈ c.edges) :
    c.IsReadBack E S d x own db e where
  targets _ := h.reads hE hdb hnode htable htargets hcolumns he
  pairs hmany := Edge.readsPairs_of_links hE hcolumns (h.joinTables e he hmany)
  sources hsymmetric _ ht _ _ _ := h.finds hE hdb htable hcolumns he hsymmetric ht
  sourcePairs hsymmetric hmany t ht := by
    obtain ⟨o, o', hjoin⟩ := (h.complete e he).exists_joinColumns hmany
    refine ⟨_, h.exchanged e he hmany hsymmetric.1 o o' hjoin t ht,
      Edge.readsPairs_of_links hE hcolumns fun own other hjoin' w => ?_⟩
    obtain ⟨rfl, rfl⟩ := Prod.mk.inj (Except.ok.inj (hjoin.symm.trans hjoin'))
    rfl

end Stored

/-- After a creation that has a result the node has a row with the result as its ID, and each of its
edges is read back as it was written: by each way to read, from the node the targets are reached
over the relation of the edge and no other rows, and from the targets the node is reached if the
relation is stored for both of its directions. -/
theorem edges_read_back {c : NodeCreation} {s s' : Session} (hE : E.ByKey)
    (h : c.Fits E S d s.current) (hs : s.current.Obeys E S.keys)
    (hrun : (c.run d).Reaches (Call.Records E S) s x s')
    (hreads : (s'.current (nameParts c.node.table)).ReadsAs c.node.id.column c.node.id.type) :
    ∃ own ∈ (s'.current (nameParts c.node.table)).rows,
      E.equal (own c.node.id.column) x = true ∧
        ∀ e ∈ c.edges, c.IsReadBack E S d x own s'.current e := by
  obtain ⟨hobeys, hcolumns, own, hstored⟩ := stored_of_run hE h hs hrun hreads
  refine ⟨own, hstored.mem, hstored.id, fun e he => ?_⟩
  have htargets : ∀ t ∈ c.targetsOf e, t.isNull = false := by
    intro t ht
    obtain ⟨f, hf, -, ht⟩ := mem_targetsOf.mp ht
    exact h.targets f hf t ht
  exact hstored.isReadBack hE hobeys h.key (h.ownTable e he) htargets
    (fun k hk => hcolumns _ k (h.columns e he k hk)) he

end NodeCreation

/-! ## A new member of a family -/

theorem keyEngine_byKey : keyEngine.ByKey := by
  intro v w
  have hsame : keyEngine.equal v w = true ↔
      v.isNull = false ∧ w.isNull = false ∧ v.key?.isSome = true ∧ v.key? = w.key? := by
    simp [Engine.equal, keyEngine, and_assoc]
  rw [hsame]
  constructor
  · rintro ⟨-, -, hsome, hkey⟩
    obtain ⟨key, hv⟩ := Option.isSome_iff_exists.mp hsome
    exact ⟨key, hv, hkey ▸ hv⟩
  · rintro ⟨key, hv, hw⟩
    exact ⟨Value.isNull_of_key hv, Value.isNull_of_key hw, by rw [hv]; rfl, hv.trans hw.symm⟩

/-- The row of a user, with the user's parent and spouse. -/
def userRow (id parent spouse : Value) : Tuple := fun c =>
  if c = "id" then id else if c = "parent_id" then parent
  else if c = "spouse_id" then spouse else .null

/-- Users with some pairs of friends. -/
def familyDatabase (users friends : List Tuple) : Database := fun name =>
  if name = ["users"] then ⟨["id", "parent_id", "spouse_id"], users⟩
  else if name = ["friends"] then ⟨["user_id", "friend_id"], friends⟩
  else ⟨[], []⟩

/-- Two users who are not related. -/
def strangers : List Tuple := [userRow (.int 1) .null .null, userRow (.int 2) .null .null]

/-- The edge from a user to children, said to serve both directions. -/
def childEdge (children : List Value) : Edge :=
  let e := Edge.oneToMany "users" "parent_id"
  { e with bidi := true, target := { e.target with nodes := children } }

/-- The edge from a user to the spouse, which is stored in the user's own row only, though it is
said to serve both directions. -/
def spouseEdge (spouses : List Value) : Edge :=
  let e := Edge.oneToOne "users" "spouse_id"
  { e with inverse := true, bidi := true, target := { e.target with nodes := spouses } }

/-- The node type of users. -/
def userNode : Node := .ofTable "users" { column := "id", type := .int }

/-- The users to whom an edge leads from a user. -/
def follow (e : Edge) (user : Value) : Program (List Value) :=
  (NodeQuery.ofStep userNode (e.step userNode userNode user)).ids .sqlite

/-- The creation of a third user, who has the first as a friend and as the spouse, and the second as
a child. -/
def newMember : NodeCreation :=
  { NodeCreation.ofNode userNode with
    edges := [friendEdge [.int 1], childEdge [.int 2], spouseEdge [.int 1]] }

/-- The INSERT of the user. -/
def insertMember : InsertStatement :=
  { table := "users", columns := ["spouse_id"], rows := [[.int 1]], conflict := none,
    returning := ["id"] }

/-- The INSERT of the friends. -/
def joinMember : InsertStatement :=
  { joinFriend with rows := [[.int 3, .int 1], [.int 1, .int 3]] }

/-- The UPDATE that links the child. -/
def linkMember : Update := ForeignKey.linking (.int 3) "parent_id" (childEdge [.int 2])

/-- The run of the creation. -/
def newMemberRun : List Exchange :=
  [⟨.begin, true, (.done () : Outcome Unit)⟩,
    ⟨.query true (.anyRow ((Selector.ofTable "users").filter (.eq "spouse_id" (.int 1)))), true,
      (.done ⟨["exists"], [[.int 0]]⟩ : Outcome Rows)⟩,
    ⟨.query true (.insert insertMember), true, (.done ⟨["id"], [[.int 3]]⟩ : Outcome Rows)⟩,
    ⟨.revise 0 (.id (.int 3)), true, ()⟩,
    ⟨.exec true (.insert joinMember), true, (.done ⟨2, none⟩ : Outcome ExecResult)⟩,
    ⟨.exec true (.update linkMember), true, (.done ⟨1, none⟩ : Outcome ExecResult)⟩,
    ⟨.check, true, .ok ()⟩, ⟨.commit, true, .ok ()⟩]

/-- The users once the row of the third has been inserted. -/
def members : List Tuple := userRow (.int 3) .null (.int 1) :: strangers

/-- The friends after the creation. -/
def memberFriends : List Tuple := [friendRow (.int 1) (.int 3), friendRow (.int 3) (.int 1)]

/-- The database after the creation. -/
def newMemberAfter : Database :=
  familyDatabase [userRow (.int 3) .null (.int 1), userRow (.int 1) .null .null,
    userRow (.int 2) (.int 3) .null] memberFriends

theorem familyDatabase_users (users friends : List Tuple) :
    familyDatabase users friends (nameParts "users") =
      ⟨["id", "parent_id", "spouse_id"], users⟩ := by
  have hname : nameParts "users" = ["users"] := by decide
  rw [hname]
  rfl

theorem familyDatabase_friends (users friends : List Tuple) :
    familyDatabase users friends (nameParts "friends") = ⟨["user_id", "friend_id"], friends⟩ := by
  have hname : nameParts "friends" = ["friends"] := by decide
  rw [hname]
  rfl

/-- An UPDATE of users changes no friends. -/
theorem familyDatabase_applied {u : Update} (htable : u.table = "users")
    (users friends : List Tuple) : u.applied keyEngine (familyDatabase users friends) =
      familyDatabase (users.map (u.rowAfter keyEngine (familyDatabase users friends))) friends := by
  have husers : nameParts "users" = ["users"] := by decide
  funext name
  by_cases hname : name = nameParts u.table
  · subst hname
    rw [Update.applied_table, htable, familyDatabase_users, familyDatabase_users]
  · rw [Update.applied_of_ne hname]
    rw [htable, husers] at hname
    simp [familyDatabase, hname]

/-- The UPDATE links the second user to the third. -/
theorem linkMember_applied :
    linkMember.applied keyEngine (familyDatabase members memberFriends) = newMemberAfter := by
  have hrow : linkMember.assigned keyEngine (userRow (.int 2) .null .null) =
      userRow (.int 2) (.int 3) .null := by
    have hassigned : linkMember.assigned keyEngine (userRow (.int 2) .null .null) =
        Function.update (userRow (.int 2) .null .null) (columnName "parent_id") (.int 3) := rfl
    have hcolumn : columnName "parent_id" = "parent_id" := by decide
    rw [hassigned, hcolumn]
    funext c
    by_cases hc : c = "parent_id"
    · subst hc
      exact Function.update_self ..
    · rw [Function.update_of_ne hc]
      simp [userRow, hc]
  rw [familyDatabase_applied rfl, newMemberAfter]
  simp only [members, strangers, List.map_cons, List.map_nil, Update.rowAfter]
  rw [if_neg (by decide), if_neg (by decide), if_pos (by decide), hrow]

theorem familyDatabase_obeys {users : List Tuple} (friends : List Tuple)
    (h : (⟨["id", "parent_id", "spouse_id"], users⟩ : Table).HasKey keyEngine "id") :
    (familyDatabase users friends).Obeys keyEngine friendsSchema.keys := by
  intro k hk
  obtain rfl := List.mem_singleton.mp hk
  rw [familyDatabase_users]
  exact h

theorem newMemberAfter_obeys : newMemberAfter.Obeys keyEngine friendsSchema.keys :=
  familyDatabase_obeys _ (by decide)

/-- Such an INSERT proposes a user with an ID that no user has. -/
theorem insertMember_proposes (rowss : List (List Value)) {rows : List Tuple} {id spouse : Value}
    (hother : ∀ r ∈ rows, keyEngine.equal (r "id") id = false) :
    ({ insertMember with rows := rowss } : InsertStatement).Proposes keyEngine friendsSchema rows
      [spouse] (userRow id .null spouse) := by
  refine ⟨fun p hp => ?_, fun c hc hid => ?_, fun c _ hid => ?_⟩
  · obtain rfl := List.mem_singleton.mp hp
    rfl
  · have hid : c ≠ "id" := fun h => hid (by rw [h]; rfl)
    have hspouse : c ≠ "spouse_id" := fun h => hc (List.mem_singleton.mpr h)
    simp [userRow, hid, hspouse]
  · obtain rfl : "id" = c := Option.some.inj hid
    exact hother

/-- No user conflicts with one whose ID no user has. -/
theorem users_apart {rows : List Tuple} {id parent spouse : Value}
    (hother : ∀ r ∈ rows, keyEngine.equal (r "id") id = false) :
    ∀ key ∈ friendsSchema.uniques "users", ∀ r ∈ rows,
      ¬Agree keyEngine key r (userRow id parent spouse) := by
  intro key hkey r hr hagree
  obtain rfl := List.mem_singleton.mp hkey
  have hid : keyEngine.equal (r "id") id = true := hagree "id" List.mem_cons_self
  rw [hother r hr] at hid
  cases hid

/-- The INSERT stores the third user. -/
theorem insertMember_inserts : insertMember.Inserts keyEngine friendsSchema
    (familyDatabase strangers []) (familyDatabase members [])
      [userRow (.int 3) .null (.int 1)] := by
  have hother : ∀ r ∈ strangers, keyEngine.equal (r "id") (.int 3) = false := by decide
  have hstores : insertMember.StoresRows keyEngine friendsSchema [[.int 1]] strangers members
      [userRow (.int 3) .null (.int 1)] :=
    .cons (insertMember_proposes _ hother) (.added (users_apart hother) (List.Perm.refl _)) .nil
  have htable : insertMember.table = "users" := rfl
  refine ⟨by decide, ?_, ?_⟩
  · rw [htable, familyDatabase_users, familyDatabase_users]
  · rw [htable, familyDatabase_users, familyDatabase_users]
    exact hstores

theorem newMember_fits :
    newMember.Fits keyEngine friendsSchema .sqlite (familyDatabase strangers []) where
  policy := rfl
  key := by decide
  tellsId h := by cases h
  agree := by decide
  ownTable := by decide
  ownFields _ _ _ _ _ hf := by cases hf
  columns := by decide
  targets := by decide
  targetKey := by decide
  partners := by
    have hnone : ∀ e ∈ newMember.edges, e.isForeignKeyEdge = true → e.writesOwnColumn = false := by
      decide
    intro e he hforeign hown
    rw [hnone e he hforeign] at hown
    cases hown
  joinTable := by
    have htables : ∀ e ∈ newMember.edges, e.isManyToMany = true → e.table = "friends" ∧
        e.columns = ["user_id", "friend_id"] := by decide
    intro e he hmany
    obtain ⟨htable, hcolumns⟩ := htables e he hmany
    refine ⟨by rw [htable]; decide, by rw [htable]; decide, fun c₁ c₂ hpair key hkey => ?_⟩
    rw [htable] at hkey
    obtain rfl := List.mem_singleton.mp hkey
    obtain ⟨rfl, rfl⟩ : "user_id" = c₁ ∧ "friend_id" = c₂ := by
      simpa using hcolumns.symm.trans hpair
    exact .inl (by decide)
  integrity := by
    intro e he k hk r hr hpresent
    simp only [newMember, List.mem_cons, List.not_mem_nil, or_false] at he
    rcases he with rfl | rfl | rfl
    · rw [show (friendEdge [.int 1]).table = "friends" from rfl, familyDatabase_friends] at hr
      cases hr
    · rw [show (childEdge [.int 2]).table = "users" from rfl, familyDatabase_users] at hr
      rcases hk with ⟨-, hcolumns⟩ | ⟨hmany, -⟩
      · obtain rfl := List.singleton_inj.mp hcolumns
        have hnone : ∀ r ∈ strangers, (r "parent_id").isNull = true := by decide
        rw [hnone r hr] at hpresent
        cases hpresent
      · cases hmany
    · rcases hk with ⟨hforeign, -⟩ | ⟨hmany, -⟩
      · cases hforeign
      · cases hmany

/-- The run is that of a database. -/
theorem newMember_reaches : (newMember.run .sqlite).Reaches
    (Call.Records keyEngine friendsSchema) ⟨familyDatabase strangers [], none⟩ (.int 3)
    ⟨newMemberAfter, none⟩ := by
  refine ⟨newMemberRun, ?_, ?_⟩
  · apply Run.call
    apply Run.call
    apply Run.call
    apply Run.call
    apply Run.call
    apply Run.call
    apply Run.call
    apply Run.call
    exact .done _
  · have husers : nameParts "users" = ["users"] := by decide
    have hfriends : nameParts "friends" = ["friends"] := by decide
    have hfree : (Command.anyRow
        ((Selector.ofTable "users").filter (.eq "spouse_id" (.int 1)))).Returns
          keyEngine (familyDatabase strangers []) ⟨["exists"], [[.int 0]]⟩ :=
      returns_anyRow_filter.mpr (by decide)
    have hbefore : (familyDatabase strangers []).Obeys keyEngine friendsSchema.keys :=
      familyDatabase_obeys _ (by decide)
    have hobeys : ∀ friends, (familyDatabase members friends).Obeys keyEngine friendsSchema.keys :=
      fun friends => familyDatabase_obeys friends (by decide)
    refine ⟨_, ⟨rfl, trivial⟩, ?_⟩
    refine ⟨⟨familyDatabase strangers [], some _⟩, ⟨⟨rfl, hfree, hbefore, rfl⟩, trivial⟩, ?_⟩
    refine ⟨⟨familyDatabase members [], some _⟩,
      ⟨⟨?_, trivial, hobeys _, rfl⟩, _, insertMember_inserts, rfl⟩, ?_⟩
    · intro name hother
      have hother : name ≠ ["users"] := husers ▸ hother
      simp [familyDatabase, hother]
    refine ⟨_, ⟨rfl, trivial⟩, ?_⟩
    have hjoined : joinMember.Inserts keyEngine friendsSchema (familyDatabase members [])
        (familyDatabase members memberFriends)
        [friendRow (.int 3) (.int 1), friendRow (.int 1) (.int 3)] :=
      friends_inserted (by decide) rfl (familyDatabase_friends _ _) (familyDatabase_friends _ _)
    refine ⟨⟨familyDatabase members memberFriends, some _⟩,
      ⟨⟨?_, trivial, hobeys _, rfl⟩, _, hjoined, fun h => by cases h⟩, ?_⟩
    · intro name hother
      have hother : name ≠ ["friends"] := hfriends ▸ hother
      simp [familyDatabase, hother]
    have hlinked :
        1 ≤ (linkMember.reached keyEngine (familyDatabase members memberFriends)).length := by
      decide
    refine ⟨⟨newMemberAfter, some _⟩,
      ⟨⟨⟨by decide, linkMember_applied.symm⟩, hlinked, newMemberAfter_obeys, rfl⟩, trivial⟩, ?_⟩
    exact ⟨_, ⟨rfl, trivial⟩, _, ⟨rfl, trivial⟩, rfl⟩

/-- A step over the edge to children finds the users who have the user as their parent. -/
theorem follow_childEdge {i : Int64} {ids : List Value}
    (hids : distinctRows keyEngine (((newMemberAfter (nameParts userNode.table)).rows.filter
      fun r => keyEngine.equal (r "parent_id") (.int i)).map fun r => [("id", r "id")]) =
        ids.map fun v => [("id", v)])
    (hread : ∀ v ∈ ids, userNode.readId v = .ok v) :
    (follow (childEdge [.int 2]) (.int i)).Leads keyEngine friendsSchema.keys
      ⟨newMemberAfter, none⟩ ids ⟨newMemberAfter, none⟩ := by
  have hparent : (newMemberAfter (nameParts userNode.table)).HasColumn "parent_id" := by decide
  have hid : (newMemberAfter (nameParts userNode.table)).HasColumn userNode.id.column := by decide
  refine NodeQuery.leads_ids_of_outRows newMemberAfter_obeys ?_ hread
  exact (NodeQuery.outRows_step_of_goalOwner rfl rfl rfl hparent hid).trans hids

/-- The third user is related as the edges say, and a step from this user finds the child. -/
theorem edges_read_back_newMember :
    (newMember.run .sqlite).Reaches (Call.Records keyEngine friendsSchema)
        ⟨familyDatabase strangers [], none⟩ (.int 3) ⟨newMemberAfter, none⟩ ∧
      (∃ own ∈ (newMemberAfter (nameParts "users")).rows,
        keyEngine.equal (own "id") (.int 3) = true ∧ ∀ e ∈ newMember.edges,
          newMember.IsReadBack keyEngine friendsSchema .sqlite (.int 3) own newMemberAfter e) ∧
      (follow (childEdge [.int 2]) (.int 3)).Leads keyEngine friendsSchema.keys
        ⟨newMemberAfter, none⟩ [.int 2] ⟨newMemberAfter, none⟩ := by
  have hreads : (newMemberAfter (nameParts "users")).ReadsAs "id" .int := by
    intro r hr w hw
    rw [newMemberAfter, familyDatabase_users] at hr
    simp only [List.mem_cons, List.not_mem_nil, or_false] at hr
    rcases hr with rfl | rfl | rfl
    all_goals
      cases hw
      rfl
  have hbefore : (familyDatabase strangers []).Obeys keyEngine friendsSchema.keys :=
    familyDatabase_obeys _ (by decide)
  refine ⟨newMember_reaches, ?_, follow_childEdge ?_ fun v hv => ?_⟩
  · exact NodeCreation.edges_read_back keyEngine_byKey newMember_fits hbefore newMember_reaches
      hreads
  · rw [show userNode.table = "users" from rfl, newMemberAfter, familyDatabase_users]
    rfl
  · obtain rfl := List.mem_singleton.mp hv
    rfl

/-- Neither the child nor the spouse finds the third user, although both edges are said to serve
both directions. -/
theorem relatives_not_found :
    newMember.Fits keyEngine friendsSchema .sqlite (familyDatabase strangers []) ∧
      (newMember.run .sqlite).Reaches (Call.Records keyEngine friendsSchema)
        ⟨familyDatabase strangers [], none⟩ (.int 3) ⟨newMemberAfter, none⟩ ∧
      (childEdge [.int 2] ∈ newMember.edges ∧ (childEdge [.int 2]).bidi = true ∧
        (∀ row ∈ (newMemberAfter (nameParts "users")).rows,
          keyEngine.equal (row "parent_id") (.int 2) = false) ∧
        (follow (childEdge [.int 2]) (.int 2)).Leads keyEngine friendsSchema.keys
          ⟨newMemberAfter, none⟩ [] ⟨newMemberAfter, none⟩) ∧
      (spouseEdge [.int 1] ∈ newMember.edges ∧ (spouseEdge [.int 1]).bidi = true ∧
        (∀ row ∈ (newMemberAfter (nameParts "users")).rows,
          keyEngine.equal (row "id") (.int 1) = true →
            (row ((spouseEdge [.int 1]).keyColumn userNode)).isNull = true) ∧
        (follow (spouseEdge [.int 1]) (.int 1)).Leads keyEngine friendsSchema.keys
          ⟨newMemberAfter, none⟩ [] ⟨newMemberAfter, none⟩) := by
  refine ⟨newMember_fits, newMember_reaches,
    ⟨by simp [newMember], rfl, by decide, follow_childEdge ?_ (by simp)⟩,
    ⟨by simp [newMember], rfl, by decide, ?_⟩⟩
  · rw [show userNode.table = "users" from rfl, newMemberAfter, familyDatabase_users]
    rfl
  · have hspouse : (newMemberAfter (nameParts (spouseEdge [.int 1]).table)).HasColumn
        "spouse_id" := by decide
    have howner : (newMemberAfter (nameParts (spouseEdge [.int 1]).table)).HasColumn
        userNode.id.column := by decide
    have hneighbors :
        ((spouseEdge [.int 1]).step userNode userNode (.int 1)).neighbors = _ :=
      NodeQuery.neighbors_of_startOwner rfl rfl
    refine NodeQuery.leads_ids_of_outRows newMemberAfter_obeys ?_ (by simp)
    refine (NodeQuery.outRows_step_of_links rfl hneighbors hspouse.denotes hspouse.plain
      howner.denotes (by decide) howner).trans ?_
    show distinctRows keyEngine (((newMemberAfter (nameParts "users")).rows.flatMap _).map _) = _
    rw [newMemberAfter, familyDatabase_users]
    rfl

end EntityGraph
