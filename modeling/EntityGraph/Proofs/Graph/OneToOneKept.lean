import EntityGraph.Proofs.Graph.EdgesReadBack
import EntityGraph.Proofs.Graph.OneToOneBatches

/-!
# Creations keep relations of one to one

`one_to_one_kept` says for creations and batches, however the nodes of a batch are inserted, that the
foreign key of a relation of one to one still has no value twice afterwards. A batch of which two
nodes claim the same target is never committed, whatever the driver replies.
-/

set_option autoImplicit false

namespace EntityGraph

open Program

variable {E : Engine} {S : Schema} {d : Dialect} {f : Reference} {type : FieldType}

/-! ## Targets of a relation -/

namespace Edge

/-- The edge is one of the one to one relation of a foreign key. -/
def IsOver (f : Reference) (e : Edge) : Prop :=
  e.isOneToOne = true ∧ e.table = f.table ∧ e.columns = [f.column]

/-- In a run of a batch two edges lead to the same target: the same stored node, the same node of
the batch, or a node of the batch that gets the ID of the stored one. -/
inductive SharesTarget (E : Engine) (log : List Exchange) (e e' : Edge) : Prop
  | given {t t' : Value} (mem : t ∈ e.target.nodes) (mem' : t' ∈ e'.target.nodes)
    (same : E.equal t t' = true)
  | referred {k : Nat} (mem : k ∈ e.target.pending) (mem' : k ∈ e'.target.pending)
  | told {t : Value} {k : Nat} (mem : t ∈ e.target.nodes) (mem' : k ∈ e'.target.pending)
    (same : ∀ x ∈ log, ∀ id, x.call = .revise k (.id id) → E.equal t id = true)

end Edge

/-- The targets of a relation of one to one are given as values of one type, which is also the ID
type of the nodes of the batch that are its targets. -/
structure BatchCreation.HasTargetsOf (type : FieldType) (b : BatchCreation) (f : Reference) :
    Prop where
  given : ∀ c ∈ b.nodes, ∀ e ∈ c.edges, e.IsOver f → ∀ t ∈ e.target.nodes, t.ownType? = some type
  referred : ∀ c ∈ b.nodes, ∀ e ∈ c.edges, e.IsOver f → ∀ k ∈ e.target.pending,
    ∀ c', b.nodes[k]? = some c' → c'.node.id.type = type

/-- An ID that a node can have is absent or a value of its ID type. -/
theorem Node.CanHave.ownType {node : Node} {id : Value} (h : node.CanHave id)
    (htype : node.id.type.IsExact) : id.isNull = true ∨ id.ownType? = some node.id.type := by
  rcases h with ⟨v, hbind⟩ | ⟨v, hread⟩
  · have htype' : (node.withId v).id.type = node.id.type := rfl
    unfold Field.bindValue at hbind
    rw [htype'] at hbind
    split at hbind
    case isTrue => cases hbind
    case isFalse haccepts =>
      have haccepts : node.id.type.accepts (node.withId v).id.value = true := by
        simpa using haccepts
      have hown := htype.accepts _ haccepts
      cases hjson : node.id.type with
      | json =>
        -- a column of documents takes values of other types
        have hnumber := htype.accepts (.int 0) (by rw [hjson]; rfl)
        rw [hjson] at hnumber
        simp [Value.isNull, Value.ownType?] at hnumber
      | _ =>
        rw [hjson] at hbind
        obtain rfl := Except.ok.inj hbind
        rwa [hjson] at hown
  · exact htype.coerce v id (readColumn_eq_ok.mp hread)

namespace BatchCreation

variable {b : BatchCreation} {c c' : NodeCreation} {e e' : Edge} {log : List Exchange}
  {idOf : Nat → Value}

/-- Edges that share a target claim it from each other once IDs stand in the place of references. -/
theorem equals_of_shares (hE : E.ByKey) (htype : type.IsExact) (htargets : b.HasTargetsOf type f)
    (hc : c ∈ b.nodes) (hc' : c' ∈ b.nodes) (he : e ∈ c.edges) (he' : e' ∈ c'.edges)
    (hover : e.IsOver f) (hover' : e'.IsOver f)
    (htold : ∀ c ∈ b.nodes, ∀ k ∈ c.dependencies, (idOf k).isNull = false ∧
      b.IsTold log k (idOf k)) (h : e.SharesTarget E log e') :
    ∃ t ∈ (e.withIds idOf).target.nodes, ∃ t' ∈ (e'.withIds idOf).target.nodes,
      t.equals t' = true ∧ t'.equals t = true := by
  have hown : ∀ c ∈ b.nodes, ∀ e ∈ c.edges, e.IsOver f → ∀ k ∈ e.target.pending,
      (idOf k).ownType? = some type ∧ (idOf k).isNull = false := by
    intro c hc e he hover k hk
    obtain ⟨hpresent, htold⟩ := htold c hc k (List.mem_flatMap.mpr ⟨e, he, hk⟩)
    obtain ⟨node, hnode, hhave⟩ := htold.canHave
    have hid := htargets.referred c hc e he hover k hk node hnode
    rcases hhave.ownType (hid ▸ htype) with hnull | hown
    · rw [hpresent] at hnull
      cases hnull
    · exact ⟨hid ▸ hown, hpresent⟩
  have hboth : ∀ {t t' : Value}, t.ownType? = some type → t'.ownType? = some type →
      E.equal t t' = true → t.equals t' = true ∧ t'.equals t = true := by
    intro t t' ht ht' hsame
    obtain ⟨key, hkey, hkey'⟩ := (hE t t').mp hsame
    exact ⟨htype.equals t t' ht ht' key hkey hkey', htype.equals t' t ht' ht key hkey' hkey⟩
  have hreferred : ∀ {e : Edge} {k : Nat}, k ∈ e.target.pending →
      idOf k ∈ (e.withIds idOf).target.nodes :=
    fun hk => List.mem_append_right _ (List.mem_map_of_mem hk)
  cases h with
  | given mem mem' same =>
    exact ⟨_, List.mem_append_left _ mem, _, List.mem_append_left _ mem',
      hboth (htargets.given c hc e he hover _ mem) (htargets.given c' hc' e' he' hover' _ mem') same⟩
  | @referred k mem mem' =>
    obtain ⟨hid, hpresent⟩ := hown c hc e he hover k mem
    exact ⟨_, hreferred mem, _, hreferred mem', hboth hid hid (hE.equal_self hpresent)⟩
  | @told t k mem mem' same =>
    obtain ⟨hid, -⟩ := hown c' hc' e' he' hover' k mem'
    obtain ⟨x, hx, hcall⟩ :=
      (htold c' hc' k (List.mem_flatMap.mpr ⟨e', he', mem'⟩)).2.written
    exact ⟨_, List.mem_append_left _ mem, _, hreferred mem',
      hboth (htargets.given c hc e he hover _ mem) hid (same x hx _ hcall)⟩

end BatchCreation

/-- Creations keep relations of one to one. Whenever a node has been created, or the nodes of a batch
have been, by one statement or one after another, the foreign key has no value twice if it had none
twice before. A batch of which two nodes claim the same target is not committed. -/
theorem one_to_one_kept (hE : E.ByKey) (hf : f.IsDeclared S) (htype : type.IsExact) :
    (∀ (c : NodeCreation) (s s' : Session) (x : Value), c.LinksOnce f → c.Respects S d f →
      c.HasTargets E f s.current → s.current.Obeys E S.keys → f.IsPaired E s.current →
        (c.run d).Reaches (Call.Records E S) s x s' → c.ReadsIds s'.current →
          f.IsPaired E s'.current) ∧
    (∀ (b : BatchCreation) (s s' : Session) (ids : List Value), b.Respects S d f →
      b.HasTargetsOf type f → (∀ c ∈ b.nodes, c.HasTargets E f s.current) →
        s.current.Obeys E S.keys → f.IsPaired E s.current →
          (b.run d).Reaches (Call.Enters E S) s ids s' →
            (∀ c ∈ b.nodes, c.ReadsIds s'.current) → f.IsPaired E s'.current) ∧
    ∀ (b : BatchCreation) (log : List Exchange) (result : Except Error (List Value)),
      b.HasTargetsOf type f → (b.run d).Run log result →
        ∀ (i j : Nat) (c c' : NodeCreation) (e e' : Edge), i ≠ j → b.nodes[i]? = some c →
          b.nodes[j]? = some c' → e ∈ c.edges → e' ∈ c'.edges → e.IsOver f → e'.IsOver f →
            e.SharesTarget E log e' → ∀ x ∈ log, x.call ≠ .commit := by
  refine ⟨?_, ?_, ?_⟩
  · intro c s s' x hlinks hrespects htargets hs hpaired hrun hreads
    obtain ⟨conn, supplied, columns, own, start, inserted, joined, mid, hstart, hunclaimed, w, hend⟩ :=
      NodeCreation.reaches_run hrespects.policy (hs _ hrespects.key).toHasColumn hrespects.tellsId
        hrun
    rw [← hstart] at htargets hpaired hunclaimed
    unfold NodeCreation.ReadsIds at hreads
    rw [hend] at hreads ⊢
    exact w.paired hf hlinks hrespects htargets hunclaimed (w.equal_id hE hrespects.key hreads)
      hpaired
  · intro b s s' ids hrespects htyped htargets hs hpaired hrun hreads
    refine BatchCreation.paired_of_run hE hf htype hrespects ?_ htargets hs hpaired hrun hreads
    intro c hc e he t ht
    exact htyped.given c hc e (NodeCreation.mem_edgesIn.mp he).1
      ((hrespects.nodes c hc).1.relation e he) t ht
  · intro b log result htyped hrun i j c c' e e' hij hc hc' he he' hover hover' hshares x hx hcommit
    obtain ⟨idOf, hapart, htold⟩ := BatchCreation.claims_of_commit hrun ⟨x, hx, hcommit⟩
    obtain ⟨t, ht, t', ht', hequals, hequals'⟩ := BatchCreation.equals_of_shares hE htype htyped
      (List.mem_of_getElem? hc) (List.mem_of_getElem? hc') he he' hover hover' htold hshares
    have hmem : e.withIds idOf ∈ (b.resolved idOf c).edges := List.mem_map_of_mem he
    have hmem' : e'.withIds idOf ∈ (b.resolved idOf c').edges := List.mem_map_of_mem he'
    have htable : e.table = e'.table := hover.2.1.trans hover'.2.1.symm
    have hcolumns : e.columns = e'.columns := hover.2.2.trans hover'.2.2.symm
    rcases hapart i j hij c c' hc hc' with hclaims | hclaims
    · have hnot := hclaims _ hmem _ hmem' hover.1 hover'.1 htable hcolumns t ht t' ht'
      rw [hequals'] at hnot
      cases hnot
    · have hnot := hclaims _ hmem' _ hmem hover'.1 hover.1 htable.symm hcolumns.symm t' ht' t ht
      rw [hequals] at hnot
      cases hnot

/-! ## Users and their spouses -/

/-- The foreign key that refers to the spouse of a user. -/
def spouseReference : Reference := ⟨"users", "spouse_id", "users", "id"⟩

/-- The creation of a user who has a spouse. -/
def withSpouse (v : Value) : NodeCreation :=
  { NodeCreation.ofNode userNode with edges := [spouseEdge [v]] }

/-- The creation of users, each of whom has a spouse. -/
def withSpouses (spouses : List Value) : BatchCreation :=
  { nodes := spouses.map withSpouse, policy := none }

/-- The INSERT of two such users. -/
def insertCouple : InsertStatement := { insertMember with rows := [[.int 1], [.int 2]] }

/-- The question whether a user is the spouse of another; the user is not. -/
def askSpouse (v : Value) : Exchange :=
  ⟨.query true (.anyRow ((Selector.ofTable "users").filter (.eq "spouse_id" v))), true,
    (.done ⟨["exists"], [[.int 0]]⟩ : Outcome Rows)⟩

/-- The run of a batch of two users whose spouses are the first two. -/
def coupleRun : List Exchange :=
  [⟨.begin, true, (.done () : Outcome Unit)⟩, askSpouse (.int 1), askSpouse (.int 2),
    ⟨.query true (.insert insertCouple), true,
      (.done ⟨["id"], [[.int 3], [.int 4]]⟩ : Outcome Rows)⟩,
    ⟨.revise 0 (.id (.int 3)), true, ()⟩, ⟨.revise 1 (.id (.int 4)), true, ()⟩,
    ⟨.check, true, .ok ()⟩, ⟨.commit, true, .ok ()⟩]

/-- The run of a batch of two users who are to have the same spouse. -/
def rivalsRun : List Exchange :=
  [⟨.begin, true, (.done () : Outcome Unit)⟩, askSpouse (.int 1),
    ⟨.rollback, true, (.ok () : Except Failure Unit)⟩]

/-- The users once two have been added. -/
def couples : List Tuple :=
  userRow (.int 4) .null (.int 2) :: userRow (.int 3) .null (.int 1) :: strangers

theorem insertCouple_inserts : insertCouple.Inserts keyEngine friendsSchema
    (familyDatabase strangers []) (familyDatabase couples [])
      [userRow (.int 3) .null (.int 1), userRow (.int 4) .null (.int 2)] := by
  have htable : insertCouple.table = "users" := rfl
  refine ⟨by decide, ?_, ?_⟩
  · rw [htable, familyDatabase_users, familyDatabase_users]
  · rw [htable, familyDatabase_users, familyDatabase_users]
    have hsecond : insertCouple.StoresRows keyEngine friendsSchema [[.int 2]]
        (userRow (.int 3) .null (.int 1) :: strangers) couples
        [userRow (.int 4) .null (.int 2)] :=
      .cons (insertMember_proposes _ (by decide))
        (.added (users_apart (by decide)) (List.Perm.refl _)) .nil
    exact .cons (insertMember_proposes _ (by decide))
      (.added (users_apart (by decide)) (List.Perm.refl _)) hsecond

/-- The run is that of a database. -/
theorem withSpouses_reaches : ((withSpouses [.int 1, .int 2]).run .sqlite).Reaches
    (Call.Enters keyEngine friendsSchema) ⟨familyDatabase strangers [], none⟩ [.int 3, .int 4]
    ⟨familyDatabase couples [], none⟩ := by
  refine ⟨coupleRun, ?_, ?_⟩
  · apply Run.call
    apply Run.call
    apply Run.call
    apply Run.call
    apply Run.call
    apply Run.call
    apply Run.call
    apply Run.call
    exact .done _
  · have husers : nameParts "users" = ["users"] := by decide
    have hfree : ∀ v : Value, v = .int 1 ∨ v = .int 2 → (Command.anyRow
        ((Selector.ofTable "users").filter (.eq "spouse_id" v))).Returns
          keyEngine (familyDatabase strangers []) ⟨["exists"], [[.int 0]]⟩ := by
      rintro v (rfl | rfl)
      · exact returns_anyRow_filter.mpr (by decide)
      · exact returns_anyRow_filter.mpr (by decide)
    have hbefore : (familyDatabase strangers []).Obeys keyEngine friendsSchema.keys :=
      familyDatabase_obeys _ (by decide)
    have hafter : (familyDatabase couples []).Obeys keyEngine friendsSchema.keys :=
      familyDatabase_obeys _ (by decide)
    refine ⟨_, ⟨⟨rfl, trivial⟩, trivial⟩, ?_⟩
    refine ⟨⟨familyDatabase strangers [], some _⟩,
      ⟨⟨⟨rfl, hfree _ (.inl rfl), hbefore, rfl⟩, trivial⟩, trivial⟩, ?_⟩
    refine ⟨⟨familyDatabase strangers [], some _⟩,
      ⟨⟨⟨rfl, hfree _ (.inr rfl), hbefore, rfl⟩, trivial⟩, trivial⟩, ?_⟩
    refine ⟨⟨familyDatabase couples [], some _⟩,
      ⟨⟨⟨?_, trivial, hafter, rfl⟩, _, insertCouple_inserts, rfl⟩, trivial⟩, ?_⟩
    · intro name hother
      have hother : name ≠ ["users"] := husers ▸ hother
      simp [familyDatabase, hother]
    refine ⟨_, ⟨⟨rfl, trivial⟩, trivial⟩, _, ⟨⟨rfl, trivial⟩, trivial⟩, ?_⟩
    exact ⟨_, ⟨⟨rfl, trivial⟩, trivial⟩, _, ⟨⟨rfl, trivial⟩, trivial⟩, rfl⟩

theorem rivals_run : ((withSpouses [.int 1, .int 1]).run .sqlite).Run rivalsRun
    (.error (LinkConflict.claimedTwice (.int 1) userNode.label "spouse_id").toError) := by
  apply Run.call
  apply Run.call
  apply Run.call
  exact .fail _

theorem edgesIn_withSpouse (v : Value) :
    (withSpouse v).edgesIn spouseReference = [spouseEdge [v]] := by
  have hstored : (spouseEdge [v]).isStoredIn userNode "users" "spouse_id" = true := by
    have hcolumn : columnName "spouse_id" = "spouse_id" := by decide
    have hcolumns : (spouseEdge [v]).columns.map columnName = ["spouse_id"] := by
      show [columnName "spouse_id"] = ["spouse_id"]
      rw [hcolumn]
    unfold Edge.isStoredIn
    rw [hcolumns]
    rfl
  unfold NodeCreation.edgesIn
  exact List.filter_cons_of_pos hstored

theorem withSpouse_linksOnce (v : Value) : (withSpouse v).LinksOnce spouseReference where
  fields _ _ hy := by cases hy
  id _ := by
    show "id" ≠ "spouse_id"
    decide
  joins e he hmany := by
    obtain rfl := List.mem_singleton.mp he
    cases hmany
  once := by
    rw [edgesIn_withSpouse]
    exact Nat.le_refl 1
  relation e he := by
    rw [edgesIn_withSpouse] at he
    obtain rfl := List.mem_singleton.mp he
    exact ⟨rfl, rfl, rfl⟩

theorem withSpouse_respects (v : Value) :
    (withSpouse v).Respects friendsSchema .sqlite spouseReference where
  policy := rfl
  key := List.mem_singleton.mpr rfl
  tellsId h := by cases h
  goal e he hforeign := by
    rw [edgesIn_withSpouse] at he
    obtain rfl := List.mem_singleton.mp he
    cases hforeign
  targetKey e he hforeign := by
    rw [edgesIn_withSpouse] at he
    obtain rfl := List.mem_singleton.mp he
    cases hforeign

theorem withSpouses_respects (spouses : List Value) :
    (withSpouses spouses).Respects friendsSchema .sqlite spouseReference where
  policy := rfl
  sameId c hc c' hc' := by
    obtain ⟨v, -, rfl⟩ := List.mem_map.mp hc
    obtain ⟨w, -, rfl⟩ := List.mem_map.mp hc'
    rfl
  nodes c hc := by
    obtain ⟨v, -, rfl⟩ := List.mem_map.mp hc
    exact ⟨withSpouse_linksOnce v, withSpouse_respects v⟩
  referred c hc e he _ hpending := by
    obtain ⟨v, -, rfl⟩ := List.mem_map.mp hc
    rw [edgesIn_withSpouse] at he
    obtain rfl := List.mem_singleton.mp he
    exact absurd rfl hpending

theorem withSpouses_hasTargetsOf {spouses : List Value}
    (h : ∀ v ∈ spouses, v.ownType? = some .int) :
    (withSpouses spouses).HasTargetsOf .int spouseReference where
  given c hc e he _ t ht := by
    obtain ⟨v, hv, rfl⟩ := List.mem_map.mp hc
    obtain rfl := List.mem_singleton.mp he
    rw [List.mem_singleton.mp ht]
    exact h v hv
  referred c hc e he _ k hk := by
    obtain ⟨v, -, rfl⟩ := List.mem_map.mp hc
    obtain rfl := List.mem_singleton.mp he
    cases hk

/-- Users who are not related have no spouses. -/
theorem strangers_paired : spouseReference.IsPaired keyEngine (familyDatabase strangers []) := by
  have hname : spouseReference.table = "users" := rfl
  refine ⟨?_, ?_, ?_⟩
  · decide
  · have hnone : ∀ r ∈ strangers, (r "spouse_id").isNull = true := by decide
    intro r hr hpresent
    rw [hname, familyDatabase_users] at hr
    rw [show spouseReference.column = "spouse_id" from rfl, hnone r hr] at hpresent
    cases hpresent
  · decide

theorem strangers_reached {v : Value} (h : v = .int 1 ∨ v = .int 2) :
    spouseReference.Reaches keyEngine (familyDatabase strangers []) v := by
  have hgoal : spouseReference.goal = "users" := rfl
  unfold Reference.Reaches
  rw [hgoal, familyDatabase_users]
  rcases h with rfl | rfl
  · exact ⟨_, List.mem_cons_self, by decide⟩
  · exact ⟨_, List.mem_cons_of_mem _ List.mem_cons_self, by decide⟩

/-- Numbers are read as they are stored. -/
theorem users_readAs (users friends : List Tuple)
    (h : ∀ r ∈ users, (r "id").ownType? = some .int) :
    (familyDatabase users friends (nameParts "users")).ReadsAs "id" .int := by
  intro r hr w hw
  rw [familyDatabase_users] at hr
  have htype := h r hr
  cases hid : r "id" with
  | int i =>
    rw [hid] at hw
    rw [← Except.ok.inj hw]
  | _ =>
    rw [hid] at htype
    cases htype

/-- A third user gets a spouse, or a third and a fourth at once; two who are to have the same are
not created. -/
theorem one_to_one_kept_spouses :
    spouseReference.IsPaired keyEngine (familyDatabase strangers []) ∧
      ((newMember.run .sqlite).Reaches (Call.Records keyEngine friendsSchema)
          ⟨familyDatabase strangers [], none⟩ (.int 3) ⟨newMemberAfter, none⟩ ∧
        spouseReference.IsPaired keyEngine newMemberAfter) ∧
      (((withSpouses [.int 1, .int 2]).run .sqlite).Reaches (Call.Enters keyEngine friendsSchema)
          ⟨familyDatabase strangers [], none⟩ [.int 3, .int 4] ⟨familyDatabase couples [], none⟩ ∧
        spouseReference.IsPaired keyEngine (familyDatabase couples [])) ∧
      ((withSpouses [.int 1, .int 1]).run .sqlite).Run rivalsRun
          (.error (LinkConflict.claimedTwice (.int 1) userNode.label "spouse_id").toError) ∧
        ∀ x ∈ rivalsRun, x.call ≠ .commit := by
  have hbefore : (familyDatabase strangers []).Obeys keyEngine friendsSchema.keys :=
    familyDatabase_obeys _ (by decide)
  obtain ⟨hcreate, hbatch, hrivals⟩ := one_to_one_kept (d := .sqlite) (f := spouseReference)
    (S := friendsSchema) keyEngine_byKey ⟨by decide, by decide⟩
    (FieldType.isExact_of_ofIds (show FieldType.int ∈ FieldType.ofIds by decide))
  refine ⟨strangers_paired, ⟨newMember_reaches, ?_⟩, ⟨withSpouses_reaches, ?_⟩, rivals_run, ?_⟩
  · have hedges : newMember.edgesIn spouseReference = [spouseEdge [.int 1]] := rfl
    have hreads : newMember.ReadsIds newMemberAfter :=
      users_readAs _ memberFriends (by decide)
    refine hcreate newMember ⟨_, none⟩ ⟨_, none⟩ (.int 3) ?_ ?_ ?_ hbefore strangers_paired
      newMember_reaches hreads
    · exact ⟨by decide, by decide, by decide, by decide, by decide⟩
    · exact ⟨rfl, by decide, (fun h => by cases h), by decide, by decide⟩
    · intro e he _ t ht
      rw [hedges] at he
      obtain rfl := List.mem_singleton.mp he
      exact strangers_reached (.inl (List.mem_singleton.mp ht))
  · refine hbatch _ ⟨familyDatabase strangers [], none⟩ ⟨familyDatabase couples [], none⟩ _
      (withSpouses_respects _) (withSpouses_hasTargetsOf (by decide)) ?_ hbefore strangers_paired
      withSpouses_reaches ?_
    · intro c hc e he _ t ht
      obtain ⟨v, hv, rfl⟩ := List.mem_map.mp hc
      rw [edgesIn_withSpouse] at he
      obtain rfl := List.mem_singleton.mp he
      obtain rfl := List.mem_singleton.mp ht
      exact strangers_reached (by simpa using hv)
    · intro c hc
      obtain ⟨v, -, rfl⟩ := List.mem_map.mp hc
      exact users_readAs couples [] (by decide)
  · exact hrivals _ _ _ (withSpouses_hasTargetsOf (by decide)) rivals_run 0 1 _ _ _ _ (by decide)
      rfl rfl List.mem_cons_self List.mem_cons_self ⟨rfl, rfl, rfl⟩ ⟨rfl, rfl, rfl⟩
      (.given List.mem_cons_self List.mem_cons_self (by decide))

end EntityGraph
