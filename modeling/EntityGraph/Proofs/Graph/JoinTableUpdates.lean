import EntityGraph.Proofs.Graph.JoinTablePairs
import EntityGraph.Proofs.Graph.OneToOneUpdates

/-!
# Join tables after an update

After an update that has a result a join table has the pairs that it had before, without those that
the update clears, and all the pairs that it adds: what an update adds it never clears. Both the
update of one node and that of many are covered. If all edges of the update on the table serve both
directions, a symmetric join table stays symmetric.
-/

set_option autoImplicit false

namespace EntityGraph

open Program

variable {E : Engine} {S : Schema} {keys : List (String × String)} {s s' : Session}
  {conn : Connection} {ids : List Value} {table c₁ c₂ : String} {p : Value × Value}

namespace JoinTable

/-- Clearing edges of many to many takes the pairs away that they clear. -/
theorem leads_clear_pairs {edges : List Edge} (hids : ids ≠ [])
    (hcolumns : ∀ e ∈ edges, e.isManyToMany = true → e.table = table → e.columns = [c₁, c₂])
    (h₁ : (s.current (nameParts table)).HasColumn c₁)
    (h₂ : (s.current (nameParts table)).HasColumn c₂) (hs : s.current.Obeys E keys)
    (h : (JoinTable.clear conn ids edges).Leads E keys s () s') :
    (s'.current (nameParts table)).HasPair E c₁ c₂ p ↔
      (s.current (nameParts table)).HasPair E c₁ c₂ p ∧
        ¬∃ e ∈ edges, e.isManyToMany = true ∧ e.table = table ∧ e.Clears E (· ∈ ids) p := by
  have hcleared := leads_clear hids h (Eq.refl (s.current (nameParts table)).columns) hs
  obtain ⟨-, hrows, -⟩ := hcleared
  have hthrough : ∀ {r r'}, E.SamePair (pairOf c₁ c₂ r) p →
      (Command.rowThrough E s.current (nameParts table) (clearings ids edges) r = some r' ↔
        r' = r ∧ ¬∃ e ∈ edges, e.isManyToMany = true ∧ e.table = table ∧
          e.Clears E (· ∈ ids) p) := by
    intro r r' hr
    rw [rowThrough_clearings hcolumns h₁ h₂ (Engine.isNull_of_equal hr.1)
      (Engine.isNull_of_equal hr.2)]
    refine and_congr_right fun _ => not_congr ?_
    refine exists_congr fun e => and_congr_right fun _ => and_congr_right fun _ =>
      and_congr_right fun _ => ⟨fun hclears => hclears.congr hr.symm, fun hclears => ?_⟩
    exact hclears.congr hr
  unfold Table.HasPair
  rw [hrows]
  constructor
  · rintro ⟨r', hr', hp⟩
    obtain ⟨r, hr, hrow⟩ := List.mem_filterMap.mp hr'
    have hkeeps := Command.rowThrough_keeps (fun c hc =>
      ExternalEdges.unlinks_clearings c (List.mem_append_left _ hc)) hrow
    have hsame : pairOf c₁ c₂ r' = pairOf c₁ c₂ r := by
      refine Prod.ext ((hkeeps c₁).resolve_right ?_) ((hkeeps c₂).resolve_right ?_)
      · exact Bool.eq_false_iff.mp (Engine.isNull_of_equal hp.1)
      · exact Bool.eq_false_iff.mp (Engine.isNull_of_equal hp.2)
    rw [hsame] at hp
    exact ⟨⟨r, hr, hp⟩, ((hthrough hp).mp hrow).2⟩
  · rintro ⟨⟨r, hr, hp⟩, hspared⟩
    exact ⟨r, List.mem_filterMap.mpr ⟨r, hr, (hthrough hp).mpr ⟨rfl, hspared⟩⟩, hp⟩

end JoinTable

namespace ForeignKey

variable {name : List String} {edges : List Edge}

/-- Clearing foreign keys leaves tables that have none of them as they are. -/
theorem leads_clear_of_ne
    (hedges : ∀ e ∈ edges, e.isForeignKeyEdge = true → nameParts e.table ≠ name)
    (h : (ForeignKey.clear conn ids edges).Leads E keys s () s') :
    s'.current name = s.current name := by
  unfold ForeignKey.clear at h
  split at h
  case isTrue =>
    obtain ⟨-, rfl⟩ := leads_done.mp h
    rfl
  case isFalse =>
    refine leads_forM_invariant (fun db => db name = s.current name) (fun e he t t' ht hkeep => ?_)
      h rfl
    obtain ⟨he, hforeign⟩ := List.mem_filter.mp he
    obtain ⟨u, _, hlift, hdiscard⟩ := leads_bind.mp ht
    obtain ⟨hclearing, rfl⟩ := leads_ofExcept.mp hlift
    obtain ⟨r, hexec⟩ := leads_discard.mp hdiscard
    obtain ⟨fk, -, rfl⟩ := clearing_eq_ok.mp hclearing
    rw [(leads_update hexec).2.1, Update.applied_of_ne, hkeep]
    exact (hedges e he hforeign).symm

/-- Linking targets leaves tables that have none of them as they are. -/
theorem leads_add_of_ne
    (hedges : ∀ e ∈ edges, e.isForeignKeyEdge = true → nameParts e.table ≠ name)
    (h : (ForeignKey.add conn ids edges).Leads E keys s () s') :
    s'.current name = s.current name := by
  rcases leads_add h with ⟨-, rfl⟩ | ⟨id, -, hlinks⟩
  · rfl
  · refine leads_forM_invariant (fun db => db name = s.current name) (fun e he t t' ht hkeep => ?_)
      hlinks rfl
    obtain ⟨he, hforeign⟩ := List.mem_filter.mp he
    have hforeign := (Bool.and_eq_true_iff.mp hforeign).1
    obtain ⟨fk, -, -, hcurrent, -⟩ := leads_link ht
    rw [hcurrent, Update.applied_of_ne, hkeep]
    exact (hedges e he hforeign).symm

end ForeignKey

namespace NodeUpdate

variable {u : NodeUpdate} {d : Dialect} {nodes : Value → Prop}

/-- The update writes a table as a join table with these columns only. -/
structure WritesPairs (u : NodeUpdate) (table c₁ c₂ : String) : Prop where
  columns : ∀ e ∈ u.edges.add ++ u.edges.clear, e.isManyToMany = true → e.table = table →
    e.columns = [c₁, c₂]
  ownTable : u.node.table ≠ table
  foreignKeys : ∀ e ∈ u.edges.add ++ u.edges.clear, e.isForeignKeyEdge = true → e.table ≠ table

/-- What an update of some nodes makes of the pairs of a join table. -/
structure ChangesPairs (E : Engine) (u : NodeUpdate) (table c₁ c₂ : String) (nodes : Value → Prop)
    (before after : Table) : Prop where
  /-- It takes away the pairs that it clears, and adds those that it links. -/
  hasPair : ∀ p, after.HasPair E c₁ c₂ p ↔
    (before.HasPair E c₁ c₂ p ∧ ¬∃ e ∈ u.edges.clear, e.isManyToMany = true ∧ e.table = table ∧
      e.Clears E nodes p) ∨
    ∃ e ∈ u.edges.add, e.isManyToMany = true ∧ e.table = table ∧ e.Links E nodes p
  /-- If its edges serve both directions, a symmetric table stays symmetric. -/
  symmetric : (∀ e ∈ u.edges.add ++ u.edges.clear, e.isManyToMany = true → e.table = table →
      e.bidi = true) →
    (∀ p, before.HasPair E c₁ c₂ p → before.HasPair E c₁ c₂ p.swap) →
    ∀ p, after.HasPair E c₁ c₂ p → after.HasPair E c₁ c₂ p.swap

theorem ChangesPairs.of_hasPair {before after : Table}
    (h : ∀ p, after.HasPair E c₁ c₂ p ↔
      (before.HasPair E c₁ c₂ p ∧ ¬∃ e ∈ u.edges.clear, e.isManyToMany = true ∧ e.table = table ∧
        e.Clears E nodes p) ∨
      ∃ e ∈ u.edges.add, e.isManyToMany = true ∧ e.table = table ∧ e.Links E nodes p) :
    u.ChangesPairs E table c₁ c₂ nodes before after := by
  refine ⟨h, fun hbidi hsymmetric p hp => (h p.swap).mpr ?_⟩
  rcases (h p).mp hp with ⟨hbefore, hspared⟩ | ⟨e, he, hmany, htable, hlinks⟩
  · refine .inl ⟨hsymmetric p hbefore, ?_⟩
    rintro ⟨e, he, hmany, htable, hclears⟩
    have hswap := hclears.swap (hbidi e (List.mem_append_right _ he) hmany htable)
    exact hspared ⟨e, he, hmany, htable, hswap⟩
  · have hswap := hlinks.swap (hbidi e (List.mem_append_left _ he) hmany htable)
    exact .inr ⟨e, he, hmany, htable, hswap⟩

/-- An update without edges on a join table leaves it as it is. -/
theorem ChangesPairs.of_none {before : Table}
    (h : ∀ e ∈ u.edges.add ++ u.edges.clear, e.isManyToMany = false) :
    u.ChangesPairs E table c₁ c₂ nodes before before := by
  refine .of_hasPair fun p => ?_
  have hnone : ∀ e ∈ u.edges.add ++ u.edges.clear, ∀ P : Prop,
      ¬(e.isManyToMany = true ∧ P) := by
    rintro e he P ⟨hmany, -⟩
    rw [h e he] at hmany
    cases hmany
  constructor
  · intro hp
    exact .inl ⟨hp, fun ⟨e, he, hclears⟩ => hnone e (List.mem_append_right _ he) _ hclears⟩
  · rintro (⟨hp, -⟩ | ⟨e, he, hlinks⟩)
    · exact hp
    · exact absurd hlinks (hnone e (List.mem_append_left _ he) _)

/-- What changing the edges of some nodes makes of the pairs of a join table. -/
theorem WritesPairs.changesPairs (h : u.WritesPairs table c₁ c₂) (hids : ids ≠ [])
    (hS : S.IsJoinTable table c₁ c₂) (h₁ : (s.current (nameParts table)).HasColumn c₁)
    (h₂ : (s.current (nameParts table)).HasColumn c₂) (hs : s.current.Obeys E S.keys)
    (hchange : (ExternalEdges.change conn ids u.edges).Reaches (Call.Records E S) s () s') :
    u.ChangesPairs E table c₁ c₂ (· ∈ ids) (s.current (nameParts table))
      (s'.current (nameParts table)) := by
  have hforeign : ∀ e ∈ u.edges.add ++ u.edges.clear, e.isForeignKeyEdge = true →
      nameParts e.table ≠ nameParts table :=
    fun e he hforeign hname => h.foreignKeys e he hforeign (nameParts_injective hname)
  obtain ⟨_, dropped, hdrop, hrest⟩ := reaches_bind.mp hchange
  obtain ⟨_, joined, hjoin, hforeignKeys⟩ := reaches_bind.mp hrest
  obtain ⟨_, cleared, hclear, hadd⟩ := reaches_bind.mp hforeignKeys
  have hcleared := ForeignKey.leads_clear_of_ne
    (fun e he => hforeign e (List.mem_append_right _ he))
    (hclear.leads fun _ _ _ _ => Call.Records.answers)
  have hlinked := ForeignKey.leads_add_of_ne (fun e he => hforeign e (List.mem_append_left _ he))
    (hadd.leads fun _ _ _ _ => Call.Records.answers)
  have hcolumns : ∀ link ∈ u.edges.add.map fun e => (ids, e), link.2.isManyToMany = true →
      link.2.table = table → link.2.columns = [c₁, c₂] := by
    intro link hlink
    obtain ⟨e, he, rfl⟩ := List.mem_map.mp hlink
    exact h.columns e (List.mem_append_left _ he)
  refine .of_hasPair fun p => ?_
  rw [hlinked, hcleared, JoinTable.reaches_add hcolumns hS hjoin]
  refine or_congr ?_ ?_
  · exact JoinTable.leads_clear_pairs hids (fun e he => h.columns e (List.mem_append_right _ he))
      h₁ h₂ hs (hdrop.leads fun _ _ _ _ => Call.Records.answers)
  · simp

/-- After an update that has a result, of one node or of all that meet a condition, a join table
that the update writes with edges of many to many only has the pairs that it had before without
those that the update clears, and the pairs that the update adds. If all these edges serve both
directions, the table is still symmetric if it was so before. -/
theorem joinTable_after_update (h : u.WritesPairs table c₁ c₂) (hS : S.IsJoinTable table c₁ c₂)
    (h₁ : (s.current (nameParts table)).HasColumn c₁)
    (h₂ : (s.current (nameParts table)).HasColumn c₂)
    (hid : (u.node.table, u.node.id.column) ∈ S.keys) (hs : s.current.Obeys E S.keys) :
    (∀ id s', u.node.id.bindValue = .ok id → (u.runOne d).Reaches (Call.Records E S) s () s' →
      u.ChangesPairs E table c₁ c₂ (· = id) (s.current (nameParts table))
        (s'.current (nameParts table))) ∧
    ∀ n s', (u.runMany d).Reaches (Call.Records E S) s n s' →
      u.ChangesPairs E table c₁ c₂ (fun id => ∃ r, u.Finds E s.current r id)
        (s.current (nameParts table)) (s'.current (nameParts table)) := by
  have hanswers : ∀ c r s s', Call.Records E S c r s s' → c.Answers E S.keys r s s' :=
    fun _ _ _ _ => Call.Records.answers
  have hown : ∀ {own : Update}, u.ownUpdate = .ok own → nameParts table ≠ nameParts own.table := by
    intro own hok hname
    obtain ⟨_, _, hassignments⟩ := ownUpdate_ok hok
    rw [hassignments.table] at hname
    exact h.ownTable (nameParts_injective hname.symm)
  constructor
  · intro id s' hbind hrun
    obtain ⟨id', start, hlift, hrest⟩ := reaches_bind.mp hrun
    obtain ⟨hid', hstart⟩ := reaches_ofExcept.mp hlift
    obtain rfl : id = id' := Except.ok.inj (hbind.symm.trans hid')
    rw [hstart] at hrest
    split at hrest
    case isTrue => exact absurd hrest reaches_fail
    case isFalse =>
      obtain ⟨_, started, hlift', htransaction⟩ := reaches_bind.mp hrest
      obtain ⟨-, hstarted⟩ := reaches_ofExcept.mp hlift'
      rw [hstarted] at htransaction
      obtain ⟨opened, mid, checked, hbegin, hbody, hcheck, hcommit⟩ :=
        reaches_transaction.mp htransaction
      obtain rfl := hbegin.answers
      obtain rfl := hcheck.answers
      obtain rfl := hcommit.answers
      obtain ⟨-, own, written, changed, hok, hwritten, hobeys, hchange, hmid⟩ :=
        reaches_writeOne hanswers hbody hs
      have hsame : written.current (nameParts table) = s.current (nameParts table) := by
        rw [hwritten]
        refine Update.applied_of_ne ?_
        rw [(u.touching_fields (E := E) u.predicate own id).1]
        exact hown hok
      have hids : (· ∈ [id]) = fun i => i = id := by simp
      rw [← hids, ← hsame]
      dsimp only
      rw [hmid]
      exact h.changesPairs (List.cons_ne_nil id []) hS (hsame ▸ h₁) (hsame ▸ h₂) hobeys hchange
  · intro n s' hrun
    obtain ⟨_, start, hlift, hrest⟩ := reaches_bind.mp hrun
    obtain ⟨-, hstart⟩ := reaches_ofExcept.mp hlift
    rw [hstart] at hrest
    split at hrest
    case isTrue =>
      obtain ⟨opened, mid, checked, hbegin, hbody, hcheck, hcommit⟩ :=
        reaches_transaction.mp hrest
      obtain rfl := hbegin.answers
      obtain rfl := hcheck.answers
      obtain rfl := hcommit.answers
      obtain ⟨ids, hids, hcases⟩ := reaches_writeMany (s := { s with saved := some s.current })
        hanswers (hs _ hid).toHasColumn hbody
      have hids : (· ∈ ids) = fun id => ∃ r, u.Finds E s.current r id :=
        funext fun id => propext (hids id)
      rw [← hids]
      rcases hcases with ⟨rfl, hmid⟩ | ⟨hne, -, own, written, changed, hok, hwritten, hobeys,
        hchange, hmid⟩
      · dsimp only
        rw [hmid]
        refine .of_hasPair fun p => ?_
        simp [Edge.Clears, Edge.Links]
      · have hsame : written.current (nameParts table) = s.current (nameParts table) := by
          have hne := hown hok
          rw [hwritten]
          exact Update.applied_of_ne hne
        dsimp only
        rw [← hsame, hmid]
        exact h.changesPairs hne hS (hsame ▸ h₁) (hsame ▸ h₂) hobeys hchange
    case isFalse hneeds =>
      obtain ⟨own, hok, hcurrent⟩ := leads_writeRows (hrest.leads hanswers)
      have hsame : s'.current (nameParts table) = s.current (nameParts table) := by
        have hne := hown hok
        rw [hcurrent]
        refine Update.applied_of_ne ?_
        cases u.predicate <;> exact hne
      rw [hsame]
      refine .of_none fun e he => ?_
      -- edges of many to many are stored outside the nodes' rows
      rw [Bool.eq_false_iff]
      intro hmany
      refine hneeds (Bool.or_eq_true_iff.mpr (.inl (List.any_eq_true.mpr ⟨e, he, ?_⟩)))
      unfold Edge.writesExternal
      rw [eq_of_beq hmany]

end NodeUpdate

/-! ## A new friend -/

/-- The row of a pair of friends. -/
def friendRow (user friend : Value) : Tuple := fun c =>
  if c = "user_id" then user else if c = "friend_id" then friend else .null

/-- Three users with some pairs of friends. -/
def friendsDatabase (friends : List Tuple) : Database := fun name =>
  let user (id : Value) : Tuple := fun c => if c = "id" then id else .null
  if name = ["users"] then ⟨["id"], [user (.int 1), user (.int 2), user (.int 3)]⟩
  else if name = ["friends"] then ⟨["user_id", "friend_id"], friends⟩
  else ⟨[], []⟩

/-- Users have IDs, and no two friends are friends twice. -/
def friendsSchema : Schema where
  keys := [("users", "id")]
  uniques table :=
    if table = "users" then [["id"]]
    else if table = "friends" then [["user_id", "friend_id"]]
    else []
  identity table := if table = "users" then some "id" else none
  reportsIds := false
  key_mem_uniques := by decide
  identity_mem_keys := by
    intro table c h
    split at h
    case isTrue htable =>
      obtain rfl := Option.some.inj h
      rw [htable]
      exact List.mem_singleton.mpr rfl
    case isFalse => cases h

/-- The edge from a user to friends. -/
def friendEdge (friends : List Value) : Edge :=
  let e := Edge.manyToMany "friends" "user_id" "friend_id"
  { e with bidi := true, target := { e.target with nodes := friends } }

/-- The first user leaves all friends and gets the third user as one. -/
def befriend : NodeUpdate :=
  { NodeUpdate.ofNode (.ofTable "users" { column := "id", type := .int, value := .int 1 }) with
    edges := { add := [friendEdge [.int 3]], clear := [friendEdge []] } }

/-- The DELETE of the user's friends. -/
def leaveFriends : Delete :=
  (Delete.ofTable "friends").filter
    (.disj [.oneOf "user_id" [.int 1], .oneOf "friend_id" [.int 1]])

/-- The INSERT of the new friend. -/
def joinFriend : InsertStatement :=
  { table := "friends", columns := ["user_id", "friend_id"],
    rows := [[.int 1, .int 3], [.int 3, .int 1]], conflict := some (.doNothing []), returning := [] }

/-- The friends before the update. -/
def oldFriends : List Tuple := [friendRow (.int 1) (.int 2), friendRow (.int 2) (.int 1)]

/-- The friends after it. -/
def newFriends : List Tuple := [friendRow (.int 3) (.int 1), friendRow (.int 1) (.int 3)]

/-- The run of the update. -/
def befriendRun : List Exchange :=
  [⟨.begin, true, (.done () : Outcome Unit)⟩,
    ⟨.query true (.anyRow ((Selector.ofTable "users").filter (.eq "id" (.int 1)))), true,
      (.done ⟨["exists"], [[.int 1]]⟩ : Outcome Rows)⟩,
    ⟨.exec true (.delete leaveFriends), true, (.done ⟨2, none⟩ : Outcome ExecResult)⟩,
    ⟨.exec true (.insert joinFriend), true, (.done ⟨2, none⟩ : Outcome ExecResult)⟩,
    ⟨.check, true, .ok ()⟩, ⟨.commit, true, .ok ()⟩]

theorem friendsDatabase_update (friends friends' : List Tuple) :
    Function.update (friendsDatabase friends) ["friends"]
      { friendsDatabase friends ["friends"] with rows := friends' } = friendsDatabase friends' := by
  funext name
  unfold Function.update friendsDatabase
  by_cases hname : name = ["friends"]
  · subst hname
    simp
  · simp [hname]

/-- An INSERT of a pair of friends, in both directions. -/
theorem friends_inserted {db db' : Database} {i : InsertStatement} {a b : Value}
    (hab : keyEngine.equal a b = false) (hi : i = { joinFriend with rows := [[a, b], [b, a]] })
    (hbefore : db (nameParts "friends") = ⟨["user_id", "friend_id"], []⟩)
    (hafter : db' (nameParts "friends") =
      ⟨["user_id", "friend_id"], [friendRow b a, friendRow a b]⟩) :
    i.Inserts keyEngine friendsSchema db db' [friendRow a b, friendRow b a] := by
  have hproposes : ∀ rows v w, i.Proposes keyEngine friendsSchema rows [v, w]
      (friendRow v w) := by
    intro rows v w
    rw [hi]
    refine ⟨?_, fun c hc _ => ?_, fun c _ hc => ?_⟩
    · simp [joinFriend, friendRow]
    · simp only [joinFriend, List.mem_cons, List.not_mem_nil, or_false, not_or] at hc
      simp [friendRow, hc.1, hc.2]
    · cases hc
  have htable : i.table = "friends" := by rw [hi]; rfl
  have hproposals : i.proposals = [[a, b], [b, a]] := by rw [hi]; rfl
  refine ⟨?_, ?_, ?_⟩
  · rw [htable, hbefore, hi]
    show ∀ c ∈ ["user_id", "friend_id"], Table.HasColumn _ c
    decide
  · rw [htable, hbefore, hafter]
  · rw [htable, hbefore, hafter, hproposals]
    refine .cons (hproposes _ _ _) (.added ?_ (List.Perm.refl _)) ?_
    · intro key _ r hr
      cases hr
    · refine .cons (hproposes _ _ _) (.added ?_ (List.Perm.refl _)) .nil
      intro key hkey r hr hagree
      rw [htable] at hkey
      obtain rfl := List.mem_singleton.mp hkey
      obtain rfl := List.mem_singleton.mp hr
      have hequal : keyEngine.equal a b = true := hagree "user_id" List.mem_cons_self
      rw [hab] at hequal
      cases hequal

/-- The INSERT makes friends of users who have none. -/
theorem joinFriend_inserts : joinFriend.Inserts keyEngine friendsSchema (friendsDatabase [])
    (friendsDatabase newFriends) [friendRow (.int 1) (.int 3), friendRow (.int 3) (.int 1)] := by
  have hname : nameParts "friends" = ["friends"] := by decide
  refine friends_inserted (by decide) rfl ?_ ?_
  · rw [hname]
    rfl
  · rw [hname]
    rfl

/-- The run is that of a database. -/
theorem befriend_reaches : (befriend.runOne .sqlite).Reaches
    (Call.Records keyEngine friendsSchema) ⟨friendsDatabase oldFriends, none⟩ ()
    ⟨friendsDatabase newFriends, none⟩ := by
  refine ⟨befriendRun, ?_, ?_⟩
  · apply Run.call
    apply Run.call
    apply Run.call
    apply Run.call
    apply Run.call
    apply Run.call
    exact .done _
  · have hpresent : (Command.anyRow ((Selector.ofTable "users").filter (.eq "id" (.int 1)))).Returns
        keyEngine (friendsDatabase oldFriends) ⟨["exists"], [[.int 1]]⟩ :=
      returns_anyRow_filter.mpr (by decide)
    have hobeys : ∀ friends, (friendsDatabase friends).Obeys keyEngine friendsSchema.keys := by
      intro friends k hk
      obtain rfl := List.mem_singleton.mp hk
      exact (by decide : (friendsDatabase [] (nameParts "users")).HasKey keyEngine "id")
    have hname : nameParts "friends" = ["friends"] := by decide
    have hleft : friendsDatabase [] =
        leaveFriends.applied keyEngine (friendsDatabase oldFriends) := by
      have hnone : (oldFriends.filter fun r =>
          !(friendsDatabase oldFriends).meets keyEngine "friends" leaveFriends.predicate r) = [] :=
        List.eq_nil_of_length_eq_zero (by decide)
      rw [← friendsDatabase_update oldFriends [], ← hnone, ← hname]
      rfl
    refine ⟨_, ⟨rfl, trivial⟩, ?_⟩
    refine ⟨⟨_, some (friendsDatabase oldFriends)⟩, ⟨⟨rfl, hpresent, hobeys _, rfl⟩, trivial⟩, ?_⟩
    refine ⟨⟨friendsDatabase [], some _⟩, ⟨⟨hleft, trivial, hobeys _, rfl⟩, trivial⟩, ?_⟩
    refine ⟨⟨friendsDatabase newFriends, some _⟩, ⟨⟨?_, trivial, hobeys _, rfl⟩, ?_⟩, ?_⟩
    · intro name hother
      have hother : name ≠ ["friends"] := hname ▸ hother
      simp [friendsDatabase, hother]
    · exact ⟨_, joinFriend_inserts, fun h => by cases h⟩
    · exact ⟨_, ⟨rfl, trivial⟩, _, ⟨rfl, trivial⟩, rfl⟩

/-- The first user is a friend of the third afterwards, no longer of the second, and friends are
still so of each other. -/
theorem joinTable_after_update_befriend :
    (befriend.runOne .sqlite).Reaches (Call.Records keyEngine friendsSchema)
        ⟨friendsDatabase oldFriends, none⟩ () ⟨friendsDatabase newFriends, none⟩ ∧
      (friendsDatabase newFriends ["friends"]).HasPair keyEngine "user_id" "friend_id"
        (.int 1, .int 3) ∧
      ¬(friendsDatabase newFriends ["friends"]).HasPair keyEngine "user_id" "friend_id"
        (.int 1, .int 2) ∧
      ∀ p, (friendsDatabase newFriends ["friends"]).HasPair keyEngine "user_id" "friend_id" p →
        (friendsDatabase newFriends ["friends"]).HasPair keyEngine "user_id" "friend_id"
          p.swap := by
  have hwrites : befriend.WritesPairs "friends" "user_id" "friend_id" :=
    ⟨by decide, by decide, by decide⟩
  have hjoin : friendsSchema.IsJoinTable "friends" "user_id" "friend_id" := by
    intro key hkey
    obtain rfl := List.mem_singleton.mp hkey
    exact .inl (by decide)
  have hchanges := (NodeUpdate.joinTable_after_update (E := keyEngine) (d := .sqlite)
    (s := ⟨friendsDatabase oldFriends, none⟩) hwrites hjoin (by decide) (by decide) (by decide)
    (by decide)).1 (.int 1) _ rfl befriend_reaches
  have hname : nameParts "friends" = ["friends"] := by decide
  rw [hname] at hchanges
  refine ⟨befriend_reaches, (hchanges.hasPair _).mpr (.inr ?_), fun hp => ?_, ?_⟩
  · refine ⟨friendEdge [.int 3], List.mem_singleton.mpr rfl, rfl, rfl, .int 1, rfl, .int 3,
      List.mem_singleton.mpr rfl, .inl ?_⟩
    exact ⟨by decide, by decide⟩
  · rcases (hchanges.hasPair _).mp hp with ⟨-, hspared⟩ | ⟨e, he, -, -, hlinks⟩
    · refine hspared ⟨friendEdge [], List.mem_singleton.mpr rfl, rfl, rfl, .inr ⟨rfl, ?_⟩⟩
      exact ⟨.int 1, rfl, .inl (by decide)⟩
    · obtain rfl := List.mem_singleton.mp he
      obtain ⟨i, rfl, t, ht, hpair⟩ := hlinks
      obtain rfl := List.mem_singleton.mp ht
      rcases hpair with hpair | ⟨-, hpair⟩
      · exact absurd hpair.2 (by decide)
      · exact absurd hpair.2 (by decide)
  · refine hchanges.symmetric (by decide) ?_
    rintro p ⟨r, hr, hp⟩
    rcases List.mem_cons.mp hr with rfl | hr
    · exact ⟨friendRow (.int 2) (.int 1), List.mem_cons_of_mem _ List.mem_cons_self, hp.swap⟩
    · obtain rfl := List.mem_singleton.mp hr
      exact ⟨friendRow (.int 1) (.int 2), List.mem_cons_self, hp.swap⟩

end EntityGraph
