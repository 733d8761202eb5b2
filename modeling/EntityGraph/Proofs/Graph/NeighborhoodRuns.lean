import EntityGraph.Proofs.Graph.JoinTableUpdates
import EntityGraph.Proofs.Graph.Neighborhood

/-!
# An update of one node changes its neighborhood only

Each part of an update of a node keeps to the neighborhood of that node, so what a run leaves behind
does so too, whether it has a result, fails or loses its connection. The edges of many to many that
are added to one join table have to name its columns in one order: the INSERT of all of them has the
columns of the first, and a run in which the second edge names them the other way round inserts rows
that do not have the node where they should.
-/

set_option autoImplicit false

namespace EntityGraph

open Program

variable {E : Engine} {S : Schema} {db : Database} {u : NodeUpdate} {x : Value}
  {conn : Connection}

/-- What a run maintains of the database and of the one that a rollback goes back to. -/
abbrev Program.MaintainsAll {α : Type} (E : Engine) (S : Schema) (P : Database → Prop)
    (p : Program α) (Q : Database → Prop) : Prop :=
  p.Maintains (Call.Happens E S) (Session.All P) (Session.All Q)

namespace Partner

variable {P : Database → Prop}

/-- Looking for partners changes nothing. -/
theorem maintains_check {node : Node} {id? : Option Value} {add clear : List Edge} :
    (Partner.check conn node id? add clear).MaintainsAll E S P P := by
  refine maintains_forM fun e _ => ?_
  unfold checkEdge
  split
  case h_1 => exact maintains_done _ fun _ hs => hs
  case h_2 =>
    refine maintains_lift_bind (fun fk _ => maintains_forM fun q _ => ?_) fun _ hs => hs
    refine maintains_probe.bind (fun taken => ?_) fun _ hs => hs
    cases taken with
    | true => exact maintains_fail _ fun _ hs => hs
    | false => exact maintains_done _ fun _ hs => hs

end Partner

namespace NodeUpdate

/-- A database that keeps its keys has changed within the neighborhood of a node only. -/
def Within (E : Engine) (S : Schema) (u : NodeUpdate) (x : Value) (db db' : Database) : Prop :=
  u.StaysNear E x db db' ∧ db'.Obeys E S.keys

/-! ## The parts of an update -/

theorem maintains_writeOwnRow (hx : x.isNull = false) (hdb : db.Obeys E S.keys) :
    (u.writeOwnRow conn x).MaintainsAll E S (· = db) (u.Within E S x db) := by
  have hstart : ∀ db', db' = db → u.Within E S x db db' := by
    rintro _ rfl
    exact ⟨.refl u _, hdb⟩
  refine maintains_lift_bind (fun own hown => ?_) fun _ hs => hs.mono hstart
  split
  case isTrue => exact maintains_done _ fun _ hs => hs.mono hstart
  case isFalse =>
    refine (maintains_statement hstart fun r s s' hr hs => ?_).bind
      (fun _ => maintains_done _ fun _ hs => hs) fun _ hs => hs
    obtain ⟨⟨-, hcurrent⟩, -, hobeys, -⟩ := hr.answers
    obtain rfl : s.current = db := hs
    exact ⟨hcurrent ▸ staysNear_own hown hx, hobeys⟩

theorem maintains_readBack {P : Database → Prop} :
    (u.readBack conn x).MaintainsAll E S P P := by
  refine (maintains_read (c := .select _) fun _ _ h => h).bind (fun rows => ?_) fun _ hs => hs
  split
  case h_1 => exact maintains_fail _ fun _ hs => hs
  case h_2 =>
    refine maintains_lift_bind (fun types _ => ?_) fun _ hs => hs
    exact maintains_lift_bind (fun values _ => maintains_deliver) fun _ hs => hs

theorem maintains_clearJoins (hx : x.isNull = false) :
    (JoinTable.clear conn [x] u.edges.clear).MaintainsAll E S (u.Within E S x db)
      (u.Within E S x db) := by
  unfold JoinTable.clear
  split
  case isTrue => exact maintains_done _ fun _ hs => hs
  case isFalse =>
    refine maintains_forM fun g hg => maintains_lift_bind (fun w hw => ?_) fun _ hs => hs
    refine (maintains_statement (fun _ h => h) fun r s s' hr hs => ?_).discard
    obtain ⟨hcurrent, -, hobeys, -⟩ := hr.answers
    refine ⟨?_, hobeys⟩
    have hcurrent : s'.current = w.applied E s.current := hcurrent
    rw [hcurrent]
    exact hs.1.clearJoins hx hw fun e => ((mem_of_groupByName hg).2 e).mp

theorem maintains_addJoins
    (hcomplete : ∀ e ∈ u.edges.add, e.IsComplete)
    (hshare : ∀ e ∈ u.edges.add, ∀ f ∈ u.edges.add, e.isManyToMany = true →
      f.isManyToMany = true → e.table = f.table → e.columns = f.columns) :
    (JoinTable.add conn (u.edges.add.map fun e => ([x], e))).MaintainsAll E S (u.Within E S x db)
      (u.Within E S x db) := by
  unfold JoinTable.add
  dsimp only
  rw [mapM_liftM]
  refine maintains_lift_bind (fun inserts hinserts => ?_) fun _ hs => hs
  refine maintains_forM fun i hi => ?_
  obtain ⟨g, hg, hinsert⟩ := exists_of_forall₂ (mapM_eq_ok.mp hinserts).flip hi
  obtain ⟨hsome, hgroup⟩ := mem_of_groupByName hg
  have hlinks : ∀ link ∈ g.2, link.1 = [x] ∧ link.2 ∈ u.edges.add ∧
      link.2.isManyToMany = true ∧ link.2.table = g.1 := by
    intro link hlink
    obtain ⟨hlink, hmany, htable⟩ := (hgroup link).mp hlink
    obtain ⟨e, he, rfl⟩ := List.mem_map.mp hlink
    exact ⟨rfl, he, hmany, htable⟩
  obtain ⟨first, hmem⟩ := List.exists_mem_of_ne_nil _ hsome
  obtain ⟨-, he, hmany, htable⟩ := hlinks first hmem
  obtain ⟨c₁, c₂, hcolumns⟩ := (hcomplete _ he).exists_columns hmany
  split
  case isTrue => exact maintains_done _ fun _ hs => hs
  case isFalse =>
    refine (maintains_lift_bind (fun statement hcompile => ?_) fun _ hs => hs).discard
    refine maintains_statement (fun _ h => h) fun r s s' hr hs => ?_
    obtain ⟨⟨hcarried, -, hobeys, -⟩, reported, hstores, -⟩ := hr
    refine ⟨?_, hobeys⟩
    refine hs.1.addJoins hinsert hsome hcompile hstores hcarried hlinks
      ⟨c₁, c₂, fun link hlink => ?_⟩
    obtain ⟨-, he', hmany', htable'⟩ := hlinks link hlink
    rw [← hcolumns]
    exact hshare _ he' _ he hmany' hmany (htable'.trans htable.symm)

theorem maintains_clearKeys (hx : x.isNull = false) :
    (ForeignKey.clear conn [x] u.edges.clear).MaintainsAll E S (u.Within E S x db)
      (u.Within E S x db) := by
  unfold ForeignKey.clear
  split
  case isTrue => exact maintains_done _ fun _ hs => hs
  case isFalse =>
    refine maintains_forM fun e he => maintains_lift_bind (fun w hw => ?_) fun _ hs => hs
    obtain ⟨he, hforeign⟩ := List.mem_filter.mp he
    refine (maintains_statement (fun _ h => h) fun r s s' hr hs => ?_).discard
    obtain ⟨⟨-, hcurrent⟩, -, hobeys, -⟩ := hr.answers
    exact ⟨hcurrent ▸ hs.1.clearKeys hx hw he hforeign, hobeys⟩

theorem maintains_addKeys
    (hkeys : ∀ e ∈ u.edges.add, e.isForeignKeyEdge = true →
      (e.table, e.target.id.column) ∈ S.keys) :
    (ForeignKey.add conn [x] u.edges.add).MaintainsAll E S (u.Within E S x db)
      (u.Within E S x db) := by
  have hlink : ∀ e ∈ u.edges.add, e.isForeignKeyEdge = true →
      (ForeignKey.link conn x e).MaintainsAll E S (u.Within E S x db) (u.Within E S x db) := by
    intro e he hforeign
    refine maintains_lift_bind (fun fk hfk => ?_) fun _ hs => hs
    refine (maintains_statement (fun _ h => h) fun r s s' hr hs => ?_).bind (fun result => ?_)
      fun _ hs => hs
    · obtain ⟨⟨hnames, hcurrent⟩, -, hobeys, -⟩ := hr.answers
      refine ⟨?_, hobeys⟩
      rw [hcurrent]
      exact hs.1.link he hforeign (Edge.foreignKey_eq_ok.mp hfk) hnames
        (hs.2 _ (hkeys e he hforeign))
    · split
      case isTrue => exact maintains_fail _ fun _ hs => hs
      case isFalse => exact maintains_done _ fun _ hs => hs
  unfold ForeignKey.add
  split
  case h_1 => exact maintains_done _ fun _ hs => hs
  case h_2 id hids _ =>
    obtain rfl := List.singleton_inj.mp hids
    refine maintains_forM fun e he => ?_
    obtain ⟨he, hforeign⟩ := List.mem_filter.mp he
    exact hlink e he (Bool.and_eq_true_iff.mp hforeign).1
  case h_3 => exact maintains_fail _ fun _ hs => hs

theorem maintains_writeOne (hx : x.isNull = false) (hdb : db.Obeys E S.keys)
    (hcomplete : ∀ e ∈ u.edges.add, e.IsComplete)
    (hshare : ∀ e ∈ u.edges.add, ∀ f ∈ u.edges.add, e.isManyToMany = true →
      f.isManyToMany = true → e.table = f.table → e.columns = f.columns)
    (hkeys : ∀ e ∈ u.edges.add, e.isForeignKeyEdge = true →
      (e.table, e.target.id.column) ∈ S.keys) :
    (u.writeOne conn x).MaintainsAll E S (· = db) (u.Within E S x db) := by
  have hstart : ∀ db', db' = db → u.Within E S x db db' := by
    rintro _ rfl
    exact ⟨.refl u _, hdb⟩
  have hchange : (ExternalEdges.change conn [x] u.edges).MaintainsAll E S (u.Within E S x db)
      (u.Within E S x db) := by
    refine (maintains_clearJoins hx).bind (fun _ => ?_) fun _ hs => hs
    refine (maintains_addJoins hcomplete hshare).bind (fun _ => ?_) fun _ hs => hs
    exact (maintains_clearKeys hx).bind (fun _ => maintains_addKeys hkeys) fun _ hs => hs
  have hafter : (ExternalEdges.change conn [x] u.edges >>= fun _ =>
      if u.delivers = true then u.readBack conn x else Program.done ()).MaintainsAll E S
        (u.Within E S x db) (u.Within E S x db) := by
    refine hchange.bind (fun _ => ?_) fun _ hs => hs
    split
    case isTrue => exact maintains_readBack
    case isFalse => exact maintains_done _ fun _ hs => hs
  refine Partner.maintains_check.bind (fun _ => ?_) fun _ hs => hs.mono hstart
  refine (maintains_writeOwnRow hx hdb).bind (fun changed => ?_) fun _ hs => hs
  dsimp only
  split
  case isTrue =>
    refine maintains_probe.bind (fun present => ?_) fun _ hs => hs
    cases present with
    | false => exact maintains_fail _ fun _ hs => hs
    | true => exact hafter
  case isFalse => exact hafter

/-- What a run of an update of one node leaves behind, whatever its result, has changed within the
neighborhood of the node only: its own row, and that only if it meets the condition, the rows that
the edges of the update link to it, and the free rows of the targets that it adds. This takes that
the edges of many to many which are added to one join table name its columns in one order. -/
theorem changes_neighborhood_only {d : Dialect} {s s' : Session} {log : List Exchange}
    {result : Except Error Unit} (hx : u.node.id.bindValue = .ok x)
    (hshare : ∀ e ∈ u.edges.add, ∀ f ∈ u.edges.add, e.isManyToMany = true →
      f.isManyToMany = true → e.table = f.table → e.columns = f.columns)
    (hkeys : ∀ e ∈ u.edges.add, e.isForeignKeyEdge = true →
      (e.table, e.target.id.column) ∈ S.keys)
    (hs : s.current.Obeys E S.keys) (hsaved : s.saved = none)
    (hrun : (u.runOne d).Run log result) (hanswered : AnsweredBy (Call.Happens E S) s log s') :
    u.StaysNear E x s.current s'.current := by
  have hstart : ∀ db', db' = s.current → u.Within E S x s.current db' := by
    rintro _ rfl
    exact ⟨.refl u _, hs⟩
  have hmaintains : (u.runOne d).MaintainsAll E S (· = s.current) (u.Within E S x s.current) := by
    unfold runOne
    refine maintains_lift_bind (fun id hid => ?_) fun _ hs => hs.mono hstart
    obtain rfl : x = id := Except.ok.inj (hx.symm.trans hid)
    dsimp only
    split
    case isTrue => exact maintains_fail _ fun _ hs => hs.mono hstart
    case isFalse hnull =>
      refine maintains_lift_bind (fun _ hcheck => ?_) fun _ hs => hs.mono hstart
      refine maintains_connection ?_ hstart
      obtain ⟨_, hadd, -⟩ := bind_eq_ok.mp hcheck
      refine maintains_writeOne (by simpa using hnull) hs (fun e he => ?_) hshare hkeys
      exact Edge.isComplete_of_check (forM_eq_ok.mp hadd e he)
  exact (hmaintains log result s s' hrun hanswered ⟨rfl, by rw [hsaved]; rintro db ⟨⟩⟩).1.1

end NodeUpdate

/-! ## New followers -/

/-- The edge from a user to those who have the user as a friend, as it is declared from the other
side or with the columns named the other way round. -/
def followerEdge (turned : Bool) (users : List Value) : Edge :=
  let e := if turned then Edge.manyToMany "friends" "friend_id" "user_id"
    else { Edge.manyToMany "friends" "user_id" "friend_id" with inverse := true }
  { e with target := { e.target with nodes := users } }

/-- The first user gets followers. -/
def gainFollowers (edges : List Edge) : NodeUpdate :=
  { NodeUpdate.ofNode (.ofTable "users" { column := "id", type := .int, value := .int 1 }) with
    edges := { add := edges, clear := [] } }

/-- The run of such an update, in which some pairs are inserted. -/
def followersRun (pairs : List (Value × Value)) : List Exchange :=
  [⟨.begin, true, (.done () : Outcome Unit)⟩,
    ⟨.query true (.anyRow ((Selector.ofTable "users").filter (.eq "id" (.int 1)))), true,
      (.done ⟨["exists"], [[.int 1]]⟩ : Outcome Rows)⟩,
    ⟨.exec true (.insert { joinFriend with rows := pairs.map fun p => [p.1, p.2] }), true,
      (.done ⟨pairs.length, none⟩ : Outcome ExecResult)⟩,
    ⟨.check, true, .ok ()⟩, ⟨.commit, true, .ok ()⟩]

/-- The rows of the pairs, in the order in which they come to stand. -/
def followerRows (pairs : List (Value × Value)) : List Tuple :=
  (pairs.map fun p => friendRow p.1 p.2).reverse

/-- Pairs that are all different can be inserted where there are none. -/
theorem followersRun_answered {pairs : List (Value × Value)}
    (hapart : (pairs.map fun p => friendRow p.1 p.2).Pairwise fun r x =>
      ¬Agree keyEngine ["user_id", "friend_id"] r x) :
    AnsweredBy (Call.Happens keyEngine friendsSchema) ⟨friendsDatabase [], none⟩
      (followersRun pairs) ⟨friendsDatabase (followerRows pairs), none⟩ := by
  have hpresent : (Command.anyRow ((Selector.ofTable "users").filter (.eq "id" (.int 1)))).Returns
      keyEngine (friendsDatabase []) ⟨["exists"], [[.int 1]]⟩ :=
    returns_anyRow_filter.mpr (by decide)
  have hobeys : ∀ friends, (friendsDatabase friends).Obeys keyEngine friendsSchema.keys := by
    intro friends k hk
    obtain rfl := List.mem_singleton.mp hk
    exact (by decide : (friendsDatabase [] (nameParts "users")).HasKey keyEngine "id")
  have hname : nameParts "friends" = ["friends"] := by decide
  have hinserts : InsertStatement.Inserts keyEngine friendsSchema
      { joinFriend with rows := pairs.map fun p => [p.1, p.2] } (friendsDatabase [])
      (friendsDatabase (followerRows pairs)) (pairs.map fun p => friendRow p.1 p.2) := by
    refine ⟨?_, ?_, ?_⟩
    · show ∀ c ∈ ["user_id", "friend_id"], (friendsDatabase [] (nameParts "friends")).HasColumn c
      decide
    · show (friendsDatabase (followerRows pairs) (nameParts "friends")).columns =
        (friendsDatabase [] (nameParts "friends")).columns
      rw [hname]
      rfl
    · show InsertStatement.StoresRows keyEngine friendsSchema _ (pairs.map fun p => [p.1, p.2])
        (friendsDatabase [] (nameParts "friends")).rows
        (friendsDatabase (followerRows pairs) (nameParts "friends")).rows _
      rw [hname]
      show InsertStatement.StoresRows keyEngine friendsSchema _ _ [] (followerRows pairs) _
      rw [← List.append_nil (followerRows pairs)]
      refine InsertStatement.storesRows_of_apart ?_ ?_ ?_
      · intro c hc
        cases hc
      · rw [List.forall₂_map_left_iff, List.forall₂_map_right_iff, List.forall₂_same]
        intro p _
        refine ⟨?_, fun c hc => ?_⟩
        · simp [joinFriend, friendRow]
        · simp only [joinFriend, List.mem_cons, List.not_mem_nil, or_false, not_or] at hc
          simp [friendRow, hc.1, hc.2]
      · intro key hkey
        obtain rfl := List.mem_singleton.mp hkey
        rwa [List.append_nil]
  refine ⟨⟨_, some _⟩, Call.Records.happens ⟨rfl, trivial⟩ trivial, ?_⟩
  refine ⟨⟨_, some _⟩, Call.Records.happens ⟨⟨rfl, hpresent, hobeys _, rfl⟩, trivial⟩ trivial, ?_⟩
  refine ⟨⟨friendsDatabase (followerRows pairs), some (friendsDatabase [])⟩,
    Call.Records.happens ⟨⟨?_, trivial, hobeys _, rfl⟩, ?_⟩ trivial, ?_⟩
  · intro name hother
    have hother : name ≠ ["friends"] := hname ▸ hother
    simp [friendsDatabase, hother]
  · exact ⟨_, hinserts, fun h => by cases h⟩
  · exact ⟨_, Call.Records.happens ⟨rfl, trivial⟩ trivial, _,
      Call.Records.happens ⟨rfl, trivial⟩ trivial, rfl⟩

/-- If the columns are named in one order, the rows of all followers have the user where they
should. -/
theorem changes_neighborhood_only_followers :
    ((gainFollowers [followerEdge false [.int 2], followerEdge false [.int 3]]).runOne .sqlite).Run
        (followersRun [(.int 2, .int 1), (.int 3, .int 1)]) (.ok ()) ∧
      (gainFollowers [followerEdge false [.int 2], followerEdge false [.int 3]]).StaysNear keyEngine
        (.int 1) (friendsDatabase [])
        (friendsDatabase (followerRows [(.int 2, .int 1), (.int 3, .int 1)])) := by
  have hrun : ((gainFollowers [followerEdge false [.int 2], followerEdge false [.int 3]]).runOne
      .sqlite).Run (followersRun [(.int 2, .int 1), (.int 3, .int 1)]) (.ok ()) := by
    apply Run.call
    apply Run.call
    apply Run.call
    apply Run.call
    apply Run.call
    exact .done _
  refine ⟨hrun, ?_⟩
  exact NodeUpdate.changes_neighborhood_only (E := keyEngine) (S := friendsSchema)
    (s := ⟨friendsDatabase [], none⟩) rfl (by decide) (by decide) (by decide) rfl hrun
    (followersRun_answered (by decide))

/-- If the second edge names them the other way round, its row has the user as the follower. -/
theorem follower_in_wrong_column :
    ((gainFollowers [followerEdge false [.int 2], followerEdge true [.int 3]]).runOne .sqlite).Run
        (followersRun [(.int 2, .int 1), (.int 1, .int 3)]) (.ok ()) ∧
      AnsweredBy (Call.Happens keyEngine friendsSchema) ⟨friendsDatabase [], none⟩
        (followersRun [(.int 2, .int 1), (.int 1, .int 3)])
        ⟨friendsDatabase (followerRows [(.int 2, .int 1), (.int 1, .int 3)]), none⟩ ∧
      ¬(gainFollowers [followerEdge false [.int 2], followerEdge true [.int 3]]).StaysNear keyEngine
        (.int 1) (friendsDatabase [])
        (friendsDatabase (followerRows [(.int 2, .int 1), (.int 1, .int 3)])) := by
  refine ⟨?_, followersRun_answered (by decide), fun hnear => ?_⟩
  · apply Run.call
    apply Run.call
    apply Run.call
    apply Run.call
    apply Run.call
    exact .done _
  · obtain ⟨f, added, hperm, -, hadded⟩ := hnear.rows ["friends"]
    have hmem : friendRow (.int 1) (.int 3) ∈ added := hperm.mem_iff.mp List.mem_cons_self
    obtain ⟨e, he, -, -, own, other, hjoin, c, hc, hvalue⟩ := hadded _ hmem
    have hown : own = "friend_id" ∧ e.bidi = false := by
      rcases List.mem_cons.mp he with rfl | he
      · cases hjoin
        exact ⟨rfl, rfl⟩
      · obtain rfl := List.mem_singleton.mp he
        cases hjoin
        exact ⟨rfl, rfl⟩
    rw [hown.1, hown.2] at hc
    obtain rfl : c = "friend_id" := by simpa using hc
    rcases hvalue with hvalue | ⟨k, hk, hforeign, -⟩
    · simp [friendRow] at hvalue
    · have hnone : ∀ k ∈ (gainFollowers [followerEdge false [.int 2],
          followerEdge true [.int 3]]).edges.add ++ [], k.isForeignKeyEdge = false := by decide
      rw [hnone k hk] at hforeign
      cases hforeign

end EntityGraph
