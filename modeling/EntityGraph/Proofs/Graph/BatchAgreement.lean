import EntityGraph.Proofs.Graph.BulkCreation
import EntityGraph.Proofs.Graph.OneToOneKept

/-!
# Creating nodes together or one by one

If the nodes of a batch can be created one by one, then creating the batch has a result too, and it
leaves the same tables but for the order of their rows: both ways lead to a database that `Grows` by
the nodes, and there is only one. This needs nodes of one type, edges of one to one that do not claim
the same target, and join tables that are shaped by each node alike.
-/

set_option autoImplicit false

namespace EntityGraph

open Program

variable {E : Engine} {S : Schema} {s s' : Session} {d : Dialect} {db : Database}
  {b : BatchCreation}

/-- The targets of an edge are stored in one table, told apart by their IDs there. It is the table of
the edge, if the edge is stored in their rows. -/
def Edge.TargetsAreStored (E : Engine) (S : Schema) (db : Database) (e : Edge) : Prop :=
  ∃ goal, (goal, e.target.id.column) ∈ S.keys ∧ (e.isForeignKeyEdge = true → goal = e.table) ∧
    ∀ t ∈ e.target.nodes, (db (nameParts goal)).Holds E e.target.id.column t

/-- The edges of a node that are stored in a join table. -/
def NodeCreation.joinsIn (c : NodeCreation) (table : String) : List Edge :=
  c.edges.filter fun e => e.isManyToMany && e.table == table

namespace BatchCreation

/-- The nodes of a batch have IDs and stored targets, and there are no conflict policies. -/
structure IsSupplied (E : Engine) (S : Schema) (b : BatchCreation) (db : Database) : Prop where
  policy : b.policy = none
  policies : ∀ c ∈ b.nodes, c.policy = none
  supplied : ∀ c ∈ b.nodes, c.node.id.value.isNull = false
  targets : ∀ c ∈ b.nodes, ∀ e ∈ c.edges, e.TargetsAreStored E S db

/-- Such nodes can be written together: they are of one type, and their edges do not meet. -/
structure FitsTogether (E : Engine) (S : Schema) (b : BatchCreation) (db : Database) : Prop
    extends b.IsSupplied E S db where
  sameType : ∀ c ∈ b.nodes, ∀ c' ∈ b.nodes,
    c.node.table = c'.node.table ∧ c.node.id.column = c'.node.id.column
  /-- No two edges of one to one claim the same target by the same foreign key. -/
  apart : (b.nodes.flatMap NodeCreation.edges).Pairwise Edge.ClaimsApart
  /-- A join table is no table of nodes, nor of foreign keys. -/
  joinTable : ∀ c ∈ b.nodes, ∀ e ∈ c.edges, e.isManyToMany = true → e.table ≠ c.node.table ∧
    ∀ c' ∈ b.nodes, ∀ f ∈ c'.edges, f.isForeignKeyEdge = true → f.table ≠ e.table
  /-- The first edges that two nodes have in one join table name the same columns. -/
  sameJoin : ∀ c ∈ b.nodes, ∀ c' ∈ b.nodes, ∀ table e f, (c.joinsIn table).head? = some e →
    (c'.joinsIn table).head? = some f → e.SameJoin f
  /-- A column that is not written has no value. -/
  unwritten : ∀ c ∈ b.nodes, (∀ k, S.identity c.node.table = some k → k = c.node.id.column) ∧
    ∀ e ∈ c.edges, e.isManyToMany = true → S.identity e.table = none

namespace FitsTogether

/-- The INSERTs into the join tables of a batch have shapes. -/
theorem exists_shapes (h : b.FitsTogether E S db)
    (hcomplete : ∀ c ∈ b.nodes, ∀ e ∈ c.edges, e.IsComplete) :
    ∃ shapes : String → InsertStatement, ∀ t, ∀ c ∈ b.nodes, ∀ e, (c.joinsIn t).head? = some e →
      e.columns ≠ [] ∧ JoinTable.IsShape d t e (shapes t) := by
  have hcolumns : ∀ t, ∀ c ∈ b.nodes, ∀ e, (c.joinsIn t).head? = some e → e.columns ≠ [] := by
    intro t c hc e he
    obtain ⟨he, hmany⟩ := List.mem_filter.mp (List.mem_of_head? he)
    obtain ⟨c₁, c₂, hcolumns⟩ :=
      (hcomplete c hc e he).exists_columns (Bool.and_eq_true_iff.mp hmany).1
    simp [hcolumns]
  have hshape : ∀ t, ∃ shape, ∀ c ∈ b.nodes, ∀ e, (c.joinsIn t).head? = some e →
      JoinTable.IsShape d t e shape := by
    intro t
    by_cases hsome : ∃ c ∈ b.nodes, ∃ e, (c.joinsIn t).head? = some e
    · obtain ⟨c, hc, e, he⟩ := hsome
      obtain ⟨shape, hshape⟩ := JoinTable.exists_shape (hcolumns t c hc e he)
      exact ⟨shape, fun c' hc' f hf => hshape.congr (h.sameJoin c hc c' hc' t e f he hf)⟩
    · exact ⟨⟨t, [], [], none, []⟩, fun c hc e he => absurd ⟨c, hc, e, he⟩ hsome⟩
  choose shapes hshapes using hshape
  exact ⟨shapes, fun t c hc e he => ⟨hcolumns t c hc e he, hshapes t c hc e he⟩⟩

theorem linksOn_eq {c : NodeCreation} {id : Value} {t : String} :
    JoinTable.linksOn t (c.edges.map fun e => ([id], e)) =
      (c.joinsIn t).map fun e => ([id], e) := by
  unfold JoinTable.linksOn NodeCreation.joinsIn
  rw [List.filter_filter, List.filter_map]
  congr 1
  refine List.filter_congr fun e _ => ?_
  exact Bool.and_comm _ _

/-- The layout of a batch whose nodes are stored in the table of the first. -/
def layout (b : BatchCreation) (first : NodeCreation) (shapes : String → InsertStatement) : Layout where
  table := first.node.table
  idColumn := first.node.id.column
  joinTables := ((b.nodes.flatMap NodeCreation.edges).filter Edge.isManyToMany).map Edge.table
  shapes := shapes

theorem mem_layout {first : NodeCreation} {shapes : String → InsertStatement} {t : String} :
    t ∈ (layout b first shapes).joinTables ↔
      ∃ c ∈ b.nodes, ∃ e ∈ c.edges, e.isManyToMany = true ∧ e.table = t := by
  simp only [layout, List.mem_map, List.mem_filter, List.mem_flatMap]
  constructor
  · rintro ⟨e, ⟨⟨c, hc, he⟩, hmany⟩, rfl⟩
    exact ⟨c, hc, e, he, hmany, rfl⟩
  · rintro ⟨c, hc, e, he, hmany, rfl⟩
    exact ⟨e, ⟨⟨c, hc, he⟩, hmany⟩, rfl⟩

theorem exists_head {c : NodeCreation} {e : Edge} (he : e ∈ c.edges) (hmany : e.isManyToMany = true) :
    ∃ f rest, c.joinsIn e.table = f :: rest :=
  List.exists_cons_of_ne_nil <| List.ne_nil_of_mem <|
    List.mem_filter.mpr ⟨he, by rw [hmany, beq_self_eq_true]; rfl⟩

section

variable {first : NodeCreation} {shapes : String → InsertStatement}
  (h : b.FitsTogether E S db) (hfirst : first ∈ b.nodes)
  (hshapes : ∀ t, ∀ c ∈ b.nodes, ∀ e, (c.joinsIn t).head? = some e →
    e.columns ≠ [] ∧ JoinTable.IsShape d t e (shapes t))

include h hfirst hshapes

theorem layout_isSound : (layout b first shapes).IsSound S := by
  have hshape : ∀ t ∈ (layout b first shapes).joinTables,
      S.identity t = none ∧ ∃ e, JoinTable.IsShape d t e (shapes t) := by
    intro t ht
    obtain ⟨c, hc, e, he, hmany, rfl⟩ := mem_layout.mp ht
    obtain ⟨f, rest, hhead⟩ := exists_head he hmany
    exact ⟨(h.unwritten c hc).2 e he hmany, f, (hshapes _ c hc f (by rw [hhead]; rfl)).2⟩
  refine ⟨fun ht => ?_, (h.unwritten first hfirst).1, fun t ht => ?_, fun t ht k hk => ?_⟩
  · obtain ⟨c, hc, e, he, hmany, htable⟩ := mem_layout.mp ht
    exact (h.joinTable c hc e he hmany).1 (htable.trans (h.sameType first hfirst c hc).1)
  · obtain ⟨-, e, he⟩ := hshape t ht
    exact he.inert
  · obtain ⟨hnone, e, he⟩ := hshape t ht
    have hk : S.identity (shapes t).table = some k := hk
    rw [he.table, hnone] at hk
    cases hk

theorem isLaidOut {c : NodeCreation} (hc : c ∈ b.nodes) :
    c.IsLaidOut E S d (layout b first shapes) db where
  policy := h.policies c hc
  table := (h.sameType c hc first hfirst).1
  idColumn := (h.sameType c hc first hfirst).2
  supplied := h.supplied c hc
  joins e he hmany := mem_layout.mpr ⟨c, hc, e, he, hmany, rfl⟩
  shapes id := by
    intro t hne
    rw [linksOn_eq] at hne ⊢
    obtain ⟨e, rest, hjoins⟩ := List.exists_cons_of_ne_nil (List.map_eq_nil_iff.not.mp hne)
    obtain ⟨hcolumns, hshape⟩ := hshapes t c hc e (by rw [hjoins]; rfl)
    exact ⟨([id], e), rest.map fun e => ([id], e), by rw [hjoins, List.map_cons], hcolumns, hshape⟩
  targets e he hforeign := by
    obtain ⟨goal, hkey, hgoal, hstored⟩ := h.targets c hc e he
    obtain rfl := hgoal hforeign
    refine ⟨⟨hkey, hstored⟩, fun ht => ?_⟩
    obtain ⟨c', hc', f, hf, hmany, htable⟩ := mem_layout.mp ht
    exact (h.joinTable c' hc' f hf hmany).2 c hc e he hforeign htable.symm
  present e he t ht := by
    obtain ⟨goal, -, -, hstored⟩ := h.targets c hc e he
    exact (hstored t ht).isNull

end

/-- The nodes of a batch are laid out in tables of their own. -/
theorem exists_layout (h : b.FitsTogether E S db)
    (hcomplete : ∀ c ∈ b.nodes, ∀ e ∈ c.edges, e.IsComplete) :
    ∃ L : Layout, L.IsSound S ∧ ∀ c ∈ b.nodes, c.IsLaidOut E S d L db := by
  obtain ⟨shapes, hshapes⟩ := h.exists_shapes (d := d) hcomplete
  cases hnodes : b.nodes with
  | nil =>
    refine ⟨⟨"", (S.identity "").getD "", [], shapes⟩, ⟨by simp, fun k hk => ?_, by simp, by simp⟩,
      by simp⟩
    rw [hk]
    rfl
  | cons first others =>
    have hfirst : first ∈ b.nodes := by
      rw [hnodes]
      exact List.mem_cons_self
    refine ⟨layout b first shapes, layout_isSound h hfirst hshapes, fun c hc => ?_⟩
    exact isLaidOut h hfirst hshapes (hnodes ▸ hc)

end FitsTogether

/-- If the nodes of a batch can be created one by one, then creating the batch has a result. It has
the same IDs, and leaves the same tables but for the order of their rows. -/
theorem run_agrees_with_creations {ids : List Value} (hb : b.FitsTogether E S s.current)
    (hs : s.current.IsSound E S)
    (hrun : (b.nodes.mapM (NodeCreation.run d)).Reaches (Call.Performs E S) s ids s') :
    (b.run d).Ensures (Call.Performs E S) s fun ids' s'' => ids' = ids ∧ ∀ name,
      (s''.current name).columns = (s'.current name).columns ∧
        (s''.current name).rows.Perm (s'.current name).rows := by
  have hchecked := NodeCreation.checked_of_runs hrun
  obtain ⟨L, hL, hlaid⟩ := hb.exists_layout (d := d) fun c hc e he =>
    Edge.isComplete_of_check (hchecked c hc e he)
  obtain ⟨nodes, hnodes, rfl, hfits, hgrows⟩ :=
    NodeCreation.grows_of_runs hL hlaid (.refl hs) hrun
  rw [List.nil_append] at hgrows
  have hlaid : ∀ n ∈ nodes, n.creation.IsLaidOut E S d L s.current :=
    fun n hn => hlaid _ (hnodes ▸ List.mem_map_of_mem hn)
  have hapart := hb.apart
  rw [← hnodes, List.flatMap_map] at hapart
  refine (ensures_run hL hb.policy hnodes.symm hlaid hfits hapart hgrows hs).mono ?_
  rintro _ s'' ⟨rfl, hgrown⟩
  exact ⟨rfl, hgrown.same hL hgrows⟩

end BatchCreation

/-! ## Two users who are created together -/

/-- The edge from a user to the spouse, which is stored in the spouse's row. -/
def partnerEdge (partners : List Value) : Edge :=
  let e := Edge.oneToOne "users" "spouse_id"
  { e with target := { e.target with nodes := partners } }

/-- The creation of a user with an ID. -/
def userWith (id : Value) (edges : List Edge) : NodeCreation :=
  { NodeCreation.ofNode (userNode.withId id) with edges }

/-- A third user, who has the first as a friend, and becomes the spouse of the first. -/
def thirdUser : NodeCreation := userWith (.int 3) [friendEdge [.int 1], partnerEdge [.int 1]]

/-- A fourth user, who has the second as a friend, and has a spouse. -/
def fourthUser (spouse : Value) : NodeCreation :=
  userWith (.int 4) [friendEdge [.int 2], spouseEdge [spouse]]

/-- The creation of both. -/
def newUsers (spouse : Value) : BatchCreation :=
  { nodes := [thirdUser, fourthUser spouse], policy := none }

/-- The INSERT of a user. -/
def insertUser (columns : List String) (values : List Value) : InsertStatement :=
  { table := "users", columns, rows := [values], conflict := none, returning := [] }

/-- The UPDATE that makes the third user the spouse of the first. -/
def linkPartner : Update := ForeignKey.linking (.int 3) "spouse_id" (partnerEdge [.int 1])

/-- The INSERT of the fourth user's friends. -/
def joinFourth : InsertStatement :=
  { joinFriend with rows := [[.int 4, .int 2], [.int 2, .int 4]] }

/-- The run of the first creation. -/
def thirdUserRun : List Exchange :=
  [⟨.begin, true, (.done () : Outcome Unit)⟩,
    ⟨.exec true (.insert (insertUser ["id"] [.int 3])), true,
      (.done ⟨1, none⟩ : Outcome ExecResult)⟩,
    ⟨.revise 0 (.id (.int 3)), true, ()⟩,
    ⟨.exec true (.insert joinMember), true, (.done ⟨2, none⟩ : Outcome ExecResult)⟩,
    ⟨.exec true (.update linkPartner), true, (.done ⟨1, none⟩ : Outcome ExecResult)⟩,
    ⟨.check, true, .ok ()⟩, ⟨.commit, true, .ok ()⟩]

/-- The run of the second. -/
def fourthUserRun (spouse : Value) : List Exchange :=
  [⟨.begin, true, (.done () : Outcome Unit)⟩, askSpouse spouse,
    ⟨.exec true (.insert (insertUser ["id", "spouse_id"] [.int 4, spouse])), true,
      (.done ⟨1, none⟩ : Outcome ExecResult)⟩,
    ⟨.revise 0 (.id (.int 4)), true, ()⟩,
    ⟨.exec true (.insert joinFourth), true, (.done ⟨2, none⟩ : Outcome ExecResult)⟩,
    ⟨.check, true, .ok ()⟩, ⟨.commit, true, .ok ()⟩]

/-- The users after the first creation. -/
def partnered : List Tuple :=
  [userRow (.int 3) .null .null, userRow (.int 1) .null (.int 3), userRow (.int 2) .null .null]

/-- The users after both. -/
def foursome (spouse : Value) : List Tuple := userRow (.int 4) .null spouse :: partnered

/-- The friends after both. -/
def foursomeFriends : List Tuple :=
  friendRow (.int 2) (.int 4) :: friendRow (.int 4) (.int 2) :: memberFriends

section

variable {users friends : List Tuple} {i : InsertStatement} {inside : Bool}
  {saved : Option Database} {n : Nat}

/-- Users have IDs of their own, and no two friends are friends twice. -/
theorem familyDatabase_isSound
    (husers : users.Pairwise fun r x => ¬Agree keyEngine ["id"] r x)
    (hpresent : ∀ r ∈ users, (r "id").isNull = false)
    (hfriends : friends.Pairwise fun r x => ¬Agree keyEngine ["user_id", "friend_id"] r x) :
    (familyDatabase users friends).IsSound keyEngine friendsSchema := by
  intro table
  by_cases htable : table = "users"
  · subst htable
    rw [familyDatabase_users]
    refine ⟨fun key hkey => ?_, fun k hk => ?_, fun k hk => ?_⟩
    · obtain rfl := List.mem_singleton.mp hkey
      exact husers
    · obtain ⟨-, rfl⟩ := Prod.mk.inj (List.mem_singleton.mp hk)
      exact ⟨by decide, by decide, List.mem_cons_self⟩
    · obtain ⟨-, rfl⟩ := Prod.mk.inj (List.mem_singleton.mp hk)
      exact hpresent
  · have hkeys : ∀ k, (table, k) ∉ friendsSchema.keys := fun k hk =>
      htable (Prod.mk.inj (List.mem_singleton.mp hk)).1
    refine ⟨fun key hkey => ?_, fun k hk => absurd hk (hkeys k), fun k hk => absurd hk (hkeys k)⟩
    by_cases hfriendship : table = "friends"
    · subst hfriendship
      obtain rfl := List.mem_singleton.mp hkey
      rw [familyDatabase_friends]
      exact hfriends
    · have hnone : friendsSchema.uniques table = [] := by
        simp [friendsSchema, htable, hfriendship]
      rw [hnone] at hkey
      cases hkey

theorem strangers_isSound : (familyDatabase strangers []).IsSound keyEngine friendsSchema :=
  familyDatabase_isSound (by decide) (by decide) (by decide)

/-- A user is inserted. -/
theorem performs_user {columns : List String} {v : List Value} {x : Tuple}
    (hi : i = insertUser columns v) (hnames : columns.Nodup) (hid : "id" ∈ columns)
    (hknown : ∀ c ∈ columns, (⟨["id", "parent_id", "spouse_id"], users⟩ : Table).HasColumn c)
    (hx : i.IsRow v x)
    (hsound : (familyDatabase (x :: users) friends).IsSound keyEngine friendsSchema) :
    (Call.exec inside (.insert i)).Performs keyEngine friendsSchema
      (.done ⟨n, none⟩ : Outcome ExecResult) ⟨familyDatabase users friends, saved⟩
      ⟨familyDatabase (x :: users) friends, saved⟩ := by
  have hname : nameParts "users" = ["users"] := by decide
  have htable : i.table = "users" := by
    rw [hi]
    rfl
  have hcolumns : i.columns = columns := by
    rw [hi]
    rfl
  have hproposals : i.proposals = [v] := by
    rw [hi]
    exact if_neg (by simpa [insertUser] using List.ne_nil_of_mem hid)
  have hinserts : i.Inserts keyEngine friendsSchema (familyDatabase users friends)
      (familyDatabase (x :: users) friends) [x] := by
    refine InsertStatement.inserts_of_isSound ?_ (fun c hc => ?_) ?_ ?_ hsound
    · rw [htable, hcolumns, familyDatabase_users]
      exact hknown
    · rw [htable] at hc
      obtain rfl : "id" = c := Option.some.inj hc
      exact hcolumns ▸ hid
    · rw [hproposals]
      exact .cons hx .nil
    · rw [htable, familyDatabase_users, familyDatabase_users]
      rfl
  refine performs_insert (hcolumns ▸ hnames) hinserts (fun name hother => ?_) hsound
  rw [htable, hname] at hother
  simp [familyDatabase, hother]

/-- Friends are inserted. -/
theorem performs_friends {added : List Tuple} (htable : i.table = "friends")
    (hnames : i.columns.Nodup)
    (hknown : ∀ c ∈ i.columns, (⟨["user_id", "friend_id"], friends⟩ : Table).HasColumn c)
    (hrows : List.Forall₂ i.IsRow i.proposals added)
    (hsound : (familyDatabase users (added.reverse ++ friends)).IsSound keyEngine friendsSchema) :
    (Call.exec inside (.insert i)).Performs keyEngine friendsSchema
      (.done ⟨n, none⟩ : Outcome ExecResult) ⟨familyDatabase users friends, saved⟩
      ⟨familyDatabase users (added.reverse ++ friends), saved⟩ := by
  have hname : nameParts "friends" = ["friends"] := by decide
  have hinserts : i.Inserts keyEngine friendsSchema (familyDatabase users friends)
      (familyDatabase users (added.reverse ++ friends)) added := by
    refine InsertStatement.inserts_of_isSound ?_ (fun c hc => ?_) hrows ?_ hsound
    · rw [htable, familyDatabase_friends]
      exact hknown
    · rw [htable] at hc
      cases hc
    · rw [htable, familyDatabase_friends, familyDatabase_friends]
  refine performs_insert hnames hinserts (fun name hother => ?_) hsound
  rw [htable, hname] at hother
  simp [familyDatabase, hother]

/-- The rows of a pair of friends, in both directions. -/
theorem isRow_friends (h : i.columns = ["user_id", "friend_id"]) (a b : Value) :
    List.Forall₂ i.IsRow [[a, b], [b, a]] [friendRow a b, friendRow b a] := by
  have hrow : ∀ a b : Value, i.IsRow [a, b] (friendRow a b) := by
    intro a b
    refine ⟨fun p hp => ?_, fun c hc => ?_⟩
    · rw [h] at hp
      rcases List.mem_cons.mp hp with rfl | hp
      · rfl
      · obtain rfl := List.mem_singleton.mp hp
        rfl
    · rw [h] at hc
      simp only [List.mem_cons, List.not_mem_nil, or_false, not_or] at hc
      simp [friendRow, hc]
  exact .cons (hrow a b) (.cons (hrow b a) .nil)

end

/-- The row of a user of whom only the ID is written. -/
theorem isRow_third :
    (insertUser ["id"] [.int 3]).IsRow [.int 3] (userRow (.int 3) .null .null) := by
  refine ⟨by simp [insertUser, userRow], fun c hc => ?_⟩
  have hc : c ≠ "id" := by simpa [insertUser] using hc
  simp [userRow, hc]

/-- The UPDATE makes the third user the spouse of the first. -/
theorem linkPartner_applied : linkPartner.applied keyEngine
    (familyDatabase (userRow (.int 3) .null .null :: strangers) memberFriends) =
      familyDatabase partnered memberFriends := by
  have hrow : linkPartner.assigned keyEngine (userRow (.int 1) .null .null) =
      userRow (.int 1) .null (.int 3) := by
    have hassigned : linkPartner.assigned keyEngine (userRow (.int 1) .null .null) =
        Function.update (userRow (.int 1) .null .null) (columnName "spouse_id") (.int 3) := rfl
    have hcolumn : columnName "spouse_id" = "spouse_id" := by decide
    rw [hassigned, hcolumn]
    funext c
    by_cases hc : c = "spouse_id"
    · subst hc
      exact Function.update_self ..
    · rw [Function.update_of_ne hc]
      simp [userRow, hc]
  rw [familyDatabase_applied rfl]
  simp only [strangers, List.map_cons, List.map_nil, Update.rowAfter]
  rw [if_neg (by decide), if_pos (by decide), if_neg (by decide), hrow]
  rfl

theorem thirdUser_reaches : (thirdUser.run .sqlite).Reaches
    (Call.Performs keyEngine friendsSchema) ⟨familyDatabase strangers [], none⟩ (.int 3)
    ⟨familyDatabase partnered memberFriends, none⟩ := by
  refine ⟨thirdUserRun, ?_, ?_⟩
  · apply Run.call
    apply Run.call
    apply Run.call
    apply Run.call
    apply Run.call
    apply Run.call
    apply Run.call
    exact .done _
  · have hlinked : (linkPartner.applied keyEngine (familyDatabase
        (userRow (.int 3) .null .null :: strangers) memberFriends)).IsSound keyEngine
          friendsSchema := by
      rw [linkPartner_applied]
      exact familyDatabase_isSound (by decide) (by decide) (by decide)
    refine ⟨_, ⟨trivial, ⟨rfl, trivial⟩, trivial⟩, ?_⟩
    refine ⟨_, performs_user rfl (by decide) (by decide) (by decide) isRow_third
      (familyDatabase_isSound (by decide) (by decide) (by decide)), ?_⟩
    refine ⟨_, ⟨trivial, ⟨rfl, trivial⟩, trivial⟩, ?_⟩
    refine ⟨_, performs_friends rfl (by decide) (by decide) (isRow_friends rfl _ _)
      (familyDatabase_isSound (by decide) (by decide) (by decide)), ?_⟩
    refine ⟨_, performs_update (by decide) (by decide) hlinked, ?_⟩
    refine ⟨_, ⟨trivial, ⟨rfl, trivial⟩, trivial⟩, ?_⟩
    refine ⟨_, ⟨trivial, ⟨rfl, trivial⟩, trivial⟩, ?_⟩
    exact congrArg (fun db => Session.mk db none) linkPartner_applied.symm

/-- The fourth user can be created after the third, whoever is to be the spouse. -/
theorem fourthUser_reaches {spouse : Value} (h : spouse = .int 1 ∨ spouse = .int 2) :
    ((fourthUser spouse).run .sqlite).Reaches (Call.Performs keyEngine friendsSchema)
      ⟨familyDatabase partnered memberFriends, none⟩ (.int 4)
      ⟨familyDatabase (foursome spouse) foursomeFriends, none⟩ := by
  refine ⟨fourthUserRun spouse, ?_, ?_⟩
  · rcases h with rfl | rfl
    all_goals
      apply Run.call
      apply Run.call
      apply Run.call
      apply Run.call
      apply Run.call
      apply Run.call
      apply Run.call
      exact .done _
  · have hrow : (insertUser ["id", "spouse_id"] [.int 4, spouse]).IsRow [.int 4, spouse]
        (userRow (.int 4) .null spouse) := by
      refine ⟨by simp [insertUser, userRow], fun c hc => ?_⟩
      have hc : c ≠ "id" ∧ c ≠ "spouse_id" := by simpa [insertUser] using hc
      simp [userRow, hc]
    have hfree : (Command.anyRow
        ((Selector.ofTable "users").filter (.eq "spouse_id" spouse))).Returns keyEngine
          (familyDatabase partnered memberFriends) ⟨["exists"], [[.int 0]]⟩ := by
      rcases h with rfl | rfl
      · exact returns_anyRow_filter.mpr (by decide)
      · exact returns_anyRow_filter.mpr (by decide)
    have hbefore : (familyDatabase partnered memberFriends).IsSound keyEngine friendsSchema :=
      familyDatabase_isSound (by decide) (by decide) (by decide)
    have hafter : ∀ friends, (friends.Pairwise fun r x =>
        ¬Agree keyEngine ["user_id", "friend_id"] r x) →
          (familyDatabase (foursome spouse) friends).IsSound keyEngine friendsSchema := by
      intro friends hfriends
      rcases h with rfl | rfl
      · exact familyDatabase_isSound (by decide) (by decide) hfriends
      · exact familyDatabase_isSound (by decide) (by decide) hfriends
    refine ⟨_, ⟨trivial, ⟨rfl, trivial⟩, trivial⟩, ?_⟩
    refine ⟨_, ⟨trivial, ⟨⟨rfl, hfree, hbefore.obeys, rfl⟩, trivial⟩, trivial, hbefore⟩, ?_⟩
    refine ⟨_, performs_user rfl (by decide) (by decide) (by decide) hrow
      (hafter _ (by decide)), ?_⟩
    refine ⟨_, ⟨trivial, ⟨rfl, trivial⟩, trivial⟩, ?_⟩
    refine ⟨_, performs_friends rfl (by decide) (by decide) (isRow_friends rfl _ _)
      (hafter _ (by decide)), ?_⟩
    refine ⟨_, ⟨trivial, ⟨rfl, trivial⟩, trivial⟩, ?_⟩
    exact ⟨_, ⟨trivial, ⟨rfl, trivial⟩, trivial⟩, rfl⟩

theorem newUsers_reaches {spouse : Value} (h : spouse = .int 1 ∨ spouse = .int 2) :
    ((newUsers spouse).nodes.mapM (NodeCreation.run .sqlite)).Reaches
      (Call.Performs keyEngine friendsSchema) ⟨familyDatabase strangers [], none⟩
      [.int 3, .int 4] ⟨familyDatabase (foursome spouse) foursomeFriends, none⟩ :=
  reaches_mapM_cons.mpr ⟨_, _, _, rfl, thirdUser_reaches,
    reaches_mapM_cons.mpr ⟨_, _, _, rfl, fourthUser_reaches h, reaches_done.mpr ⟨rfl, rfl⟩⟩⟩

theorem targetsAreStored_strangers {e : Edge} (hcolumn : e.target.id.column = "id")
    (htable : e.isForeignKeyEdge = true → e.table = "users")
    (h : ∀ t ∈ e.target.nodes, t = .int 1 ∨ t = .int 2) :
    e.TargetsAreStored keyEngine friendsSchema (familyDatabase strangers []) := by
  refine ⟨"users", hcolumn ▸ List.mem_singleton.mpr rfl, fun hforeign => (htable hforeign).symm,
    fun t ht => ?_⟩
  rw [hcolumn, familyDatabase_users]
  rcases h t ht with rfl | rfl
  · exact ⟨_, List.mem_cons_self, by decide⟩
  · exact ⟨_, List.mem_cons_of_mem _ List.mem_cons_self, by decide⟩

theorem newUsers_isSupplied {spouse : Value} (h : spouse = .int 1 ∨ spouse = .int 2) :
    (newUsers spouse).IsSupplied keyEngine friendsSchema (familyDatabase strangers []) := by
  have hnodes : ∀ c ∈ (newUsers spouse).nodes, c = thirdUser ∨ c = fourthUser spouse := by
    simp [newUsers]
  refine ⟨rfl, fun c hc => ?_, fun c hc => ?_, fun c hc e he => ?_⟩
  · rcases hnodes c hc with rfl | rfl
    · rfl
    · rfl
  · rcases hnodes c hc with rfl | rfl
    · rfl
    · rfl
  · rcases hnodes c hc with rfl | rfl
    · rcases List.mem_cons.mp he with rfl | he
      · exact targetsAreStored_strangers rfl (by decide) (by simp [friendEdge])
      · obtain rfl := List.mem_singleton.mp he
        exact targetsAreStored_strangers rfl (by decide) (by simp [partnerEdge])
    · rcases List.mem_cons.mp he with rfl | he
      · exact targetsAreStored_strangers rfl (by decide) (by simp [friendEdge])
      · obtain rfl := List.mem_singleton.mp he
        exact targetsAreStored_strangers rfl (fun _ => rfl) (by simpa [spouseEdge] using h)

theorem newUsers_fitTogether :
    (newUsers (.int 2)).FitsTogether keyEngine friendsSchema (familyDatabase strangers []) where
  toIsSupplied := newUsers_isSupplied (.inr rfl)
  sameType := by decide
  apart := by decide
  joinTable := by decide
  sameJoin := by
    have hjoin : ∀ c ∈ (newUsers (.int 2)).nodes, ∀ e ∈ c.edges, e.isManyToMany = true →
        e.columns = ["user_id", "friend_id"] ∧ e.target.fields.map Field.column = [] := by decide
    intro c hc c' hc' table e f he hf
    obtain ⟨he, hmany⟩ := List.mem_filter.mp (List.mem_of_head? he)
    obtain ⟨hf, hmany'⟩ := List.mem_filter.mp (List.mem_of_head? hf)
    obtain ⟨hcolumns, hfields⟩ := hjoin c hc e he (Bool.and_eq_true_iff.mp hmany).1
    obtain ⟨hcolumns', hfields'⟩ := hjoin c' hc' f hf (Bool.and_eq_true_iff.mp hmany').1
    exact ⟨hcolumns.trans hcolumns'.symm, hfields.trans hfields'.symm⟩
  unwritten := by
    have hidentities : ∀ c ∈ (newUsers (.int 2)).nodes,
        friendsSchema.identity c.node.table = some c.node.id.column ∧
          ∀ e ∈ c.edges, e.isManyToMany = true → friendsSchema.identity e.table = none := by
      decide
    intro c hc
    obtain ⟨hidentity, hjoins⟩ := hidentities c hc
    exact ⟨fun k hk => Option.some.inj (hk.symm.trans hidentity), hjoins⟩

/-- The fourth user, whose spouse is the second, can be created together with the third. -/
theorem run_agrees_with_creations_users :
    (newUsers (.int 2)).FitsTogether keyEngine friendsSchema (familyDatabase strangers []) ∧
      ((newUsers (.int 2)).nodes.mapM (NodeCreation.run .sqlite)).Reaches
        (Call.Performs keyEngine friendsSchema) ⟨familyDatabase strangers [], none⟩
        [.int 3, .int 4] ⟨familyDatabase (foursome (.int 2)) foursomeFriends, none⟩ ∧
      ((newUsers (.int 2)).run .sqlite).Ensures (Call.Performs keyEngine friendsSchema)
        ⟨familyDatabase strangers [], none⟩ fun ids s' => ids = [.int 3, .int 4] ∧ ∀ name,
          (s'.current name).columns =
              (familyDatabase (foursome (.int 2)) foursomeFriends name).columns ∧
            (s'.current name).rows.Perm
              (familyDatabase (foursome (.int 2)) foursomeFriends name).rows :=
  ⟨newUsers_fitTogether, newUsers_reaches (.inr rfl),
    BatchCreation.run_agrees_with_creations newUsers_fitTogether strangers_isSound
      (newUsers_reaches (.inr rfl))⟩

/-! ## Batches that are not written as their nodes are -/

/-- A friendship as a node of its own, told apart by one of its columns. -/
def friendship (column : String) (id : Value) : NodeCreation :=
  .ofNode (.ofTable "friends" { column, type := .int, value := id })

/-- The INSERT of friendships. -/
def insertFriendships (column : String) (ids : List Value) : InsertStatement :=
  { table := "friends", columns := [column], rows := ids.map fun id => [id], conflict := none,
    returning := [] }

/-- The creation of a user and of a friendship. -/
def unlikeTables : BatchCreation :=
  { nodes := [userWith (.int 3) [], friendship "user_id" (.int 1)], policy := none }

/-- The creation of two friendships that are told apart by different columns. -/
def unlikeIds : BatchCreation :=
  { nodes := [friendship "user_id" (.int 1), friendship "friend_id" (.int 2)], policy := none }

theorem isSupplied_of_no_edges {nodes : List NodeCreation} (h : ∀ c ∈ nodes,
    c.policy = none ∧ c.node.id.value.isNull = false ∧ c.edges = []) :
    (BatchCreation.mk nodes none).IsSupplied keyEngine friendsSchema
      (familyDatabase strangers []) where
  policy := rfl
  policies c hc := (h c hc).1
  supplied c hc := (h c hc).2.1
  targets c hc e he := by
    rw [(h c hc).2.2] at he
    cases he

theorem isRow_friendship {ids : List Value} (a : Value) :
    (insertFriendships "user_id" ids).IsRow [a] (friendRow a .null) := by
  refine ⟨by simp [insertFriendships, friendRow], fun c hc => ?_⟩
  have hc : c ≠ "user_id" := by simpa [insertFriendships] using hc
  simp [friendRow, hc]

theorem unlikeTables_reaches : (unlikeTables.nodes.mapM (NodeCreation.run .sqlite)).Reaches
    (Call.Performs keyEngine friendsSchema) ⟨familyDatabase strangers [], none⟩ [.int 3, .int 1]
    ⟨familyDatabase (userRow (.int 3) .null .null :: strangers) [friendRow (.int 1) .null],
      none⟩ := by
  refine ⟨[⟨.exec false (.insert (insertUser ["id"] [.int 3])), true,
      (.done ⟨1, none⟩ : Outcome ExecResult)⟩, ⟨.revise 0 (.id (.int 3)), true, ()⟩,
    ⟨.exec false (.insert (insertFriendships "user_id" [.int 1])), true,
      (.done ⟨1, none⟩ : Outcome ExecResult)⟩, ⟨.revise 0 (.id (.int 1)), true, ()⟩], ?_, ?_⟩
  · apply Run.call
    apply Run.call
    apply Run.call
    apply Run.call
    exact .done _
  · refine ⟨_, performs_user rfl (by decide) (by decide) (by decide) isRow_third
      (familyDatabase_isSound (by decide) (by decide) (by decide)), ?_⟩
    refine ⟨_, ⟨trivial, ⟨rfl, trivial⟩, trivial⟩, ?_⟩
    refine ⟨_, performs_friends rfl (by decide) (by decide) (.cons (isRow_friendship _) .nil)
      (familyDatabase_isSound (by decide) (by decide) (by decide)), ?_⟩
    exact ⟨_, ⟨trivial, ⟨rfl, trivial⟩, trivial⟩, rfl⟩

theorem unlikeIds_reaches : (unlikeIds.nodes.mapM (NodeCreation.run .sqlite)).Reaches
    (Call.Performs keyEngine friendsSchema) ⟨familyDatabase strangers [], none⟩ [.int 1, .int 2]
    ⟨familyDatabase strangers [friendRow .null (.int 2), friendRow (.int 1) .null], none⟩ := by
  refine ⟨[⟨.exec false (.insert (insertFriendships "user_id" [.int 1])), true,
      (.done ⟨1, none⟩ : Outcome ExecResult)⟩, ⟨.revise 0 (.id (.int 1)), true, ()⟩,
    ⟨.exec false (.insert (insertFriendships "friend_id" [.int 2])), true,
      (.done ⟨1, none⟩ : Outcome ExecResult)⟩, ⟨.revise 0 (.id (.int 2)), true, ()⟩], ?_, ?_⟩
  · apply Run.call
    apply Run.call
    apply Run.call
    apply Run.call
    exact .done _
  · have hrow : (insertFriendships "friend_id" [.int 2]).IsRow [.int 2]
        (friendRow .null (.int 2)) := by
      refine ⟨by simp [insertFriendships, friendRow], fun c hc => ?_⟩
      have hc : c ≠ "friend_id" := by simpa [insertFriendships] using hc
      simp [friendRow, hc]
    refine ⟨_, performs_friends rfl (by decide) (by decide) (.cons (isRow_friendship _) .nil)
      (familyDatabase_isSound (by decide) (by decide) (by decide)), ?_⟩
    refine ⟨_, ⟨trivial, ⟨rfl, trivial⟩, trivial⟩, ?_⟩
    refine ⟨_, performs_friends rfl (by decide) (by decide) (.cons hrow .nil)
      (familyDatabase_isSound (by decide) (by decide) (by decide)), ?_⟩
    exact ⟨_, ⟨trivial, ⟨rfl, trivial⟩, trivial⟩, rfl⟩

/-- The IDs of a batch are all written in the ID column of its first node. -/
theorem rows_of_unlikeIds {ids : List Value} {s' : Session} (h : (unlikeIds.run .sqlite).Reaches
    (Call.Performs keyEngine friendsSchema) ⟨familyDatabase strangers [], none⟩ ids s') :
    (s'.current (nameParts "friends")).rows.Perm
      [friendRow (.int 2) .null, friendRow (.int 1) .null] := by
  obtain ⟨reply, mid, hexec, h⟩ := (reaches_call (c := .exec false
    (.insert (insertFriendships "user_id" [.int 1, .int 2])))).mp h
  obtain ⟨r, rfl⟩ : ∃ r : ExecResult, reply = .done r := by
    have hdone := performs_succeeds _ _ _ _ hexec
    cases reply with
    | done r => exact ⟨r, rfl⟩
    | failed => exact absurd hdone id
    | interrupted => exact absurd hdone id
  obtain ⟨_, next, hrevise, h⟩ := (reaches_call (c := .revise 0 (.id (.int 1)))).mp h
  obtain ⟨_, last, hrevise', h⟩ := (reaches_call (c := .revise 1 (.id (.int 2)))).mp h
  obtain ⟨-, rfl⟩ := reaches_done.mp h
  have hnext : next = mid := hrevise.answers
  have hlast : s' = next := hrevise'.answers
  rw [hlast, hnext]
  obtain ⟨reported, hinserts, -⟩ := hexec.records.2
  have hbefore : (familyDatabase strangers [] (nameParts "friends")).rows = [] := by
    rw [familyDatabase_friends]
  have hstored : (insertFriendships "user_id" [.int 1, .int 2]).StoresRows keyEngine friendsSchema
      [[.int 1], [.int 2]] (familyDatabase strangers [] (nameParts "friends")).rows
      (mid.current (nameParts "friends")).rows reported := hinserts.stored
  rw [hbefore] at hstored
  have hfilled : (insertFriendships "user_id" [.int 1, .int 2]).WritesIdentity friendsSchema := by
    rintro c ⟨⟩
  exact hstored.perm (by rintro clause ⟨⟩) hfilled (by decide) (.refl _)
    (InsertStatement.storesRows_of_apart hfilled
      (.cons (isRow_friendship _) (.cons (isRow_friendship _) .nil)) (by decide))

/-- Nodes that can be created one by one, but not so together: a spouse whom two of the users claim,
and nodes of two tables, are refused, and IDs of two columns are written in one. -/
theorem batch_differs_from_creations :
    ((newUsers (.int 1)).IsSupplied keyEngine friendsSchema (familyDatabase strangers []) ∧
      ((newUsers (.int 1)).nodes.mapM (NodeCreation.run .sqlite)).Reaches
        (Call.Performs keyEngine friendsSchema) ⟨familyDatabase strangers [], none⟩
        [.int 3, .int 4] ⟨familyDatabase (foursome (.int 1)) foursomeFriends, none⟩ ∧
      ∀ log ids, ¬((newUsers (.int 1)).run .sqlite).Run log (.ok ids)) ∧
    (unlikeTables.IsSupplied keyEngine friendsSchema (familyDatabase strangers []) ∧
      (unlikeTables.nodes.mapM (NodeCreation.run .sqlite)).Reaches
        (Call.Performs keyEngine friendsSchema) ⟨familyDatabase strangers [], none⟩
        [.int 3, .int 1] ⟨familyDatabase (userRow (.int 3) .null .null :: strangers)
          [friendRow (.int 1) .null], none⟩ ∧
      ∀ log ids, ¬(unlikeTables.run .sqlite).Run log (.ok ids)) ∧
    (unlikeIds.IsSupplied keyEngine friendsSchema (familyDatabase strangers []) ∧
      (unlikeIds.nodes.mapM (NodeCreation.run .sqlite)).Reaches
        (Call.Performs keyEngine friendsSchema) ⟨familyDatabase strangers [], none⟩
        [.int 1, .int 2] ⟨familyDatabase strangers
          [friendRow .null (.int 2), friendRow (.int 1) .null], none⟩ ∧
      ∀ ids s', (unlikeIds.run .sqlite).Reaches (Call.Performs keyEngine friendsSchema)
        ⟨familyDatabase strangers [], none⟩ ids s' →
          ¬(s'.current (nameParts "friends")).rows.Perm
            [friendRow .null (.int 2), friendRow (.int 1) .null]) := by
  refine ⟨⟨newUsers_isSupplied (.inl rfl), newUsers_reaches (.inl rfl), fun log ids hrun => ?_⟩,
    ⟨isSupplied_of_no_edges ?_, unlikeTables_reaches, fun log ids hrun => ?_⟩,
    isSupplied_of_no_edges ?_, unlikeIds_reaches, fun ids s' hrun hrows => ?_⟩
  · have hbatch : (newUsers (.int 1)).run .sqlite = Connection.run .sqlite true fun _ =>
        .fail (LinkConflict.claimedTwice (.int 1) userNode.label "spouse_id").toError := rfl
    rw [hbatch] at hrun
    obtain ⟨_, _, _, -, hbody, -⟩ := reaches_transaction.mp (reaches_recording hrun [])
    exact reaches_fail hbody
  · intro c hc
    rcases List.mem_cons.mp hc with rfl | hc
    · exact ⟨rfl, rfl, rfl⟩
    · obtain rfl := List.mem_singleton.mp hc
      exact ⟨rfl, rfl, rfl⟩
  · cases hrun
  · intro c hc
    rcases List.mem_cons.mp hc with rfl | hc
    · exact ⟨rfl, rfl, rfl⟩
    · obtain rfl := List.mem_singleton.mp hc
      exact ⟨rfl, rfl, rfl⟩
  · have hmem := (hrows.symm.trans (rows_of_unlikeIds hrun)).subset List.mem_cons_self
    rcases List.mem_cons.mp hmem with hrow | hmem
    · cases congrFun hrow "user_id"
    · cases congrFun (List.mem_singleton.mp hmem) "user_id"

end EntityGraph
