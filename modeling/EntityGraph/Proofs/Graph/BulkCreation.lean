import EntityGraph.Proofs.Graph.SuppliedRows

/-!
# Nodes that are written together

A batch whose nodes have IDs and do not refer to each other is written by few statements: one INSERT
for the own rows, one for each join table, and then the links. If there is a database that the nodes
have grown from the one before, then each of these statements can be carried out, since the tables
that it leaves on the way keep their keys as those of the grown database do; and the batch leaves a
database that has grown by the same nodes.
-/

set_option autoImplicit false

namespace EntityGraph

open Program

variable {E : Engine} {S : Schema} {s s' : Session} {conn : Connection} {d : Dialect}
  {db db' db'' : Database} {L : Layout} {nodes : List CreatedNode} {b : BatchCreation}

/-! ## Intermediate tables -/

namespace Grows

/-- The links of nodes that are laid out can be postponed. -/
theorem links_postponed (hnodes : ∀ n ∈ nodes, n.creation.IsLaidOut E S d L db) :
    ∀ l ∈ nodes.flatMap CreatedNode.links,
      l.2.HasTargets E S db ∧ ¬L.IsJoin (nameParts l.2.table) := by
  intro l hl
  obtain ⟨n, hn, hl⟩ := List.mem_flatMap.mp hl
  obtain ⟨e, he, rfl⟩ := List.mem_map.mp hl
  obtain ⟨he, hforeign⟩ := List.mem_filter.mp he
  obtain ⟨htargets, hjoin⟩ := (hnodes n hn).targets e he (Bool.and_eq_true_iff.mp hforeign).1
  exact ⟨htargets, fun hname => hjoin (Layout.isJoin_iff.mp hname)⟩

/-- If a database grows by some nodes, then their own rows and the first of their links leave a table
that keeps its keys. -/
theorem isSound_before (h : Grows E S L nodes db db') (hdb : db.IsSound E S)
    (hnodes : ∀ n ∈ nodes, n.creation.IsLaidOut E S d L db) {links rest : List (Value × Edge)}
    (hsplit : nodes.flatMap CreatedNode.links = links ++ rest)
    (hbefore : db.Grown E L.IsJoin L.table (nodes.map CreatedNode.tuple) links db'') {t : String}
    (ht : t ∉ L.joinTables) : (db'' (nameParts t)).IsSound E S t := by
  have hgrown := h.grown
  have hpostponed := links_postponed hnodes
  rw [hsplit] at hgrown hpostponed
  exact hgrown.isSound_of_append hpostponed hdb h.isSound hbefore fun hname =>
    ht (Layout.isJoin_iff.mp hname)

/-- The rows of the nodes alone do not break a key. -/
theorem isSound_inserted (h : Grows E S L nodes db db') (hL : L.IsSound S) (hdb : db.IsSound E S)
    (hnodes : ∀ n ∈ nodes, n.creation.IsLaidOut E S d L db) {t : Table}
    (hcolumns : t.columns = (db (nameParts L.table)).columns)
    (hrows : t.rows.Perm (nodes.map CreatedNode.tuple ++ (db (nameParts L.table)).rows)) :
    t.IsSound E S L.table := by
  have htable := Function.update_self (nameParts L.table) t db
  have hgrown : db.Grown E L.IsJoin L.table (nodes.map CreatedNode.tuple) []
      (Function.update db (nameParts L.table) t) := by
    refine Database.Grown.inserted (.refl db) (fun name hname => Function.update_of_ne hname _ _)
      ?_ ?_
    · rw [htable]
      exact hcolumns
    · rw [htable]
      exact hrows
  rw [← htable]
  exact h.isSound_before hdb hnodes rfl hgrown hL.apart

end Grows

/-- A value that is there is bound as one that is there. -/
theorem Field.isNull_of_bindValue {f : Field} {v : Value} (h : f.bindValue = .ok v)
    (hf : f.value.isNull = false) : v.isNull = false := by
  unfold bindValue at h
  split at h
  case isTrue => cases h
  case isFalse =>
    split at h
    case h_1 hnull =>
      rw [hnull] at hf
      cases hf
    case h_2 =>
      obtain rfl := Except.ok.inj h
      rfl
    case h_3 =>
      obtain rfl := Except.ok.inj h
      exact hf

theorem Edge.checkDirect_eq_ok {e : Edge} :
    e.checkDirect = .ok () ↔ e.target.pending = [] ∧ e.checkAdd = .ok () := by
  unfold checkDirect
  split
  case isTrue hnone => simp [List.isEmpty_iff.mp hnone]
  case isFalse hsome =>
    constructor
    · rintro ⟨⟩
    · rintro ⟨hnone, -⟩
      exact absurd (List.isEmpty_iff.mpr hnone) hsome

/-! ## Edges of several nodes -/

namespace BatchCreation

theorem ensures_reviseIds {i : Nat} {ids : List Value} {Q : Unit → Session → Prop} (h : Q () s) :
    (reviseIds i ids).Ensures (Call.Performs E S) s Q := by
  induction ids generalizing i with
  | nil => exact h
  | cons id ids ih => exact ensures_bind.mpr (ensures_revise ih)

theorem haveShapes_joins (hnodes : ∀ n ∈ nodes, n.creation.IsLaidOut E S d L db) :
    JoinTable.HaveShapes d L.shapes (nodes.flatMap CreatedNode.joins) := by
  induction nodes with
  | nil => exact fun _ hne => absurd rfl hne
  | cons n nodes ih =>
    obtain ⟨hn, hnodes⟩ := List.forall_mem_cons.mp hnodes
    exact (hn.shapes n.id).append (ih hnodes)

theorem mem_joinTables (hnodes : ∀ n ∈ nodes, n.creation.IsLaidOut E S d L db) {t : String}
    (ht : JoinTable.linksOn t (nodes.flatMap CreatedNode.joins) ≠ []) : t ∈ L.joinTables := by
  obtain ⟨link, hlink⟩ := List.exists_mem_of_ne_nil _ ht
  obtain ⟨hmem, hmany, rfl⟩ := JoinTable.mem_linksOn.mp hlink
  obtain ⟨n, hn, hmem⟩ := List.mem_flatMap.mp hmem
  obtain ⟨e, he, rfl⟩ := List.mem_map.mp hmem
  exact (hnodes n hn).joins e he hmany

/-- The rows of join tables are inserted, if they have been inserted node by node. -/
theorem ensures_add_joins (hL : L.IsSound S) (h : Grows E S L nodes db db')
    (hnodes : ∀ n ∈ nodes, n.creation.IsLaidOut E S conn.dialect L db)
    (hsame : ∀ t ∈ L.joinTables, s.current (nameParts t) = db (nameParts t))
    (hs : s.current.IsSound E S) :
    (JoinTable.add conn (nodes.flatMap CreatedNode.joins)).Ensures (Call.Performs E S) s fun _ s' =>
      JoinTable.AddsLinks E S L.shapes (nodes.flatMap CreatedNode.joins) s s' := by
  refine JoinTable.ensures_add_links (haveShapes_joins hnodes) hs (fun t => ?_) fun t ht t' hadds => ?_
  · by_cases ht : t ∈ L.joinTables
    · rw [hsame t ht]
      exact ⟨_, h.joined t ht⟩
    · have hnone : JoinTable.linksOn t (nodes.flatMap CreatedNode.joins) = [] :=
        not_not.mp fun hne => ht (mem_joinTables hnodes hne)
      rw [hnone]
      exact ⟨_, JoinTable.adds_nil⟩
  · have ht := mem_joinTables hnodes ht
    rw [hsame t ht] at hadds
    have hjoined := h.joined t ht
    exact (h.isSound t).of_perm (hjoined.1.trans hadds.1.symm)
      (hadds.perm (hL.inert t ht) (hL.unfilled t ht) hjoined)

/-- The targets of several nodes are linked, if they have been linked node by node. -/
theorem ensures_add_foreign (h : Grows E S L nodes db db') (hdb : db.IsSound E S)
    (hnodes : ∀ n ∈ nodes, n.creation.IsLaidOut E S conn.dialect L db)
    (hids : ∀ n ∈ nodes, n.id.isNull = false)
    (hgrown : db.Grown E L.IsJoin L.table (nodes.map CreatedNode.tuple) [] s.current)
    (hs : s.current.IsSound E S) :
    (nodes.forM fun n => ForeignKey.add conn [n.id] n.creation.edges).Ensures (Call.Performs E S) s
      fun _ s' => db.Grown E L.IsJoin L.table (nodes.map CreatedNode.tuple)
          (nodes.flatMap CreatedNode.links) s'.current ∧
        (∀ name, L.IsJoin name → s'.current name = s.current name) ∧ s'.current.IsSound E S := by
  refine ensures_forM (fun (before : List CreatedNode) (t : Session) =>
    db.Grown E L.IsJoin L.table (nodes.map CreatedNode.tuple) (before.flatMap CreatedNode.links)
      t.current ∧ (∀ name, L.IsJoin name → t.current name = s.current name) ∧
        t.current.IsSound E S) ?_ ⟨hgrown, fun _ _ => rfl, hs⟩
  rintro before n after hsplit t ⟨hgrown, hsame, ht⟩
  have hn : n ∈ nodes := by
    rw [hsplit]
    simp
  have hlinks : nodes.flatMap CreatedNode.links = before.flatMap CreatedNode.links ++
      n.links ++ after.flatMap CreatedNode.links := by
    rw [hsplit, List.flatMap_append, List.flatMap_cons, List.append_assoc]
  have hpostponed := Grows.links_postponed hnodes
  have hcan := h.linked
  rw [hlinks] at hcan
  have hadd : ForeignKey.add conn [n.id] n.creation.edges =
      n.foreign.forM (ForeignKey.link conn n.id) := ForeignKey.add_eq
  rw [hadd, List.flatMap_append, List.flatMap_singleton]
  refine (hgrown.ensures_links (fun e he => ?_) ht hcan.of_append (hids n hn)
    fun done rest db'' hdone hdb'' hothers name => ?_).mono ?_
  · apply hpostponed (n.id, e)
    rw [hlinks]
    exact List.mem_append_left _ (List.mem_append_right _ (List.mem_map_of_mem he))
  · by_cases hname : name ∈ L.joinTables
    · rw [hothers _ (Layout.isJoin_iff.mpr hname)]
      exact ht name
    · have hrest : nodes.flatMap CreatedNode.links =
          (before.flatMap CreatedNode.links ++ done.map fun e => (n.id, e)) ++
            ((rest.map fun e => (n.id, e)) ++ after.flatMap CreatedNode.links) := by
        rw [hlinks, CreatedNode.links, hdone, List.map_append]
        simp
      exact h.isSound_before hdb hnodes hrest hdb'' hname
  · rintro _ t' ⟨hgrown', hothers, ht'⟩
    exact ⟨hgrown', fun name hname => (hothers name hname).trans (hsame name hname), ht'⟩

/-- The edges of several nodes are written, if they have been written node by node. -/
theorem ensures_addEdges (hL : L.IsSound S) (h : Grows E S L nodes db db') (hdb : db.IsSound E S)
    (hnodes : ∀ n ∈ nodes, n.creation.IsLaidOut E S conn.dialect L db)
    (hids : ∀ n ∈ nodes, n.id.isNull = false)
    (hgrown : db.Grown E L.IsJoin L.table (nodes.map CreatedNode.tuple) [] s.current)
    (hsame : ∀ t ∈ L.joinTables, s.current (nameParts t) = db (nameParts t))
    (hs : s.current.IsSound E S) :
    (addEdges conn (nodes.map CreatedNode.creation) (nodes.map CreatedNode.id)).Ensures
      (Call.Performs E S) s fun _ s' => Grows E S L nodes db s'.current := by
  have hcreated : ((nodes.map CreatedNode.creation).zip (nodes.map CreatedNode.id)).filter
      (fun p => !p.2.isNull) = nodes.map fun n => (n.creation, n.id) := by
    rw [List.zip_map']
    refine List.filter_eq_self.mpr fun p hp => ?_
    obtain ⟨n, hn, rfl⟩ := List.mem_map.mp hp
    rw [hids n hn]
    rfl
  have hjoins : (nodes.map fun n => (n.creation, n.id)).flatMap
      (fun p => p.1.edges.map fun e => ([p.2], e)) = nodes.flatMap CreatedNode.joins :=
    List.flatMap_map _ _ _
  have hloop : (nodes.map fun n => (n.creation, n.id)).forM
      (fun p => ForeignKey.add conn [p.2] p.1.edges) =
        nodes.forM fun n => ForeignKey.add conn [n.id] n.creation.edges := by simp
  have hadd : addEdges conn (nodes.map CreatedNode.creation) (nodes.map CreatedNode.id) =
      (JoinTable.add conn (nodes.flatMap CreatedNode.joins) >>= fun _ =>
        nodes.forM fun n => ForeignKey.add conn [n.id] n.creation.edges) := by
    rw [← hjoins, ← hloop, ← hcreated]
    rfl
  rw [hadd]
  refine ensures_bind.mpr ((ensures_add_joins hL h hnodes hsame hs).mono fun _ joined hlinks => ?_)
  have hapart : ∀ name, ¬L.IsJoin name → joined.current name = s.current name := by
    intro name hname
    refine hlinks.others name fun link hlink hmany hparts => hname ?_
    rw [← hparts]
    refine Layout.isJoin_iff.mpr (mem_joinTables hnodes ?_)
    exact List.ne_nil_of_mem (JoinTable.mem_linksOn.mpr ⟨hlink, hmany, rfl⟩)
  refine (ensures_add_foreign h hdb hnodes hids (hgrown.joined hlinks.columns_eq hapart)
    hlinks.isSound).mono ?_
  rintro _ s' ⟨hgrown', hkept, hs'⟩
  refine ⟨hgrown', fun t ht => ?_, h.linked, hs'⟩
  rw [hkept _ (Layout.isJoin_iff.mpr ht), ← hsame t ht]
  exact hlinks.adds t

/-- Nodes that fit are created together, if they have been created one by one. -/
theorem ensures_createBulk (hL : L.IsSound S) (hpolicy : b.policy = none)
    (hb : b.nodes = nodes.map CreatedNode.creation) (hne : nodes ≠ [])
    (hnodes : ∀ n ∈ nodes, n.creation.IsLaidOut E S conn.dialect L s.current)
    (hfits : ∀ n ∈ nodes, n.Fits E s.current)
    (hapart : (nodes.flatMap fun n => n.creation.edges).Pairwise Edge.ClaimsApart)
    (h : Grows E S L nodes s.current db') (hs : s.current.IsSound E S) :
    (createBulk conn b).Ensures (Call.Performs E S) s fun ids s' =>
      ids = nodes.map CreatedNode.id ∧ Grows E S L nodes s.current s'.current := by
  have hids : ∀ n ∈ nodes, n.id.isNull = false := by
    intro n hn
    exact Field.isNull_of_bindValue (hfits n hn).bound (hnodes n hn).supplied
  have hapart : ([] ++ nodes.flatMap fun n : CreatedNode => n.creation.edges).Pairwise
      Edge.ClaimsApart := hapart
  unfold createBulk
  rw [hb]
  refine ensures_bind.mpr ((ensures_ownRows hs hfits (fun n hn => (hnodes n hn).supplied)
    (by simp) hapart).mono ?_)
  rintro rows _ ⟨hrows, rfl⟩
  have hsupplied : rows.filterMap OwnRow.id = nodes.map CreatedNode.id := by
    rw [hrows, supplied_rows]
  have hlength : (rows.filterMap OwnRow.id).length = rows.length := by
    rw [hsupplied, hrows, List.length_map, List.length_map]
  have hsome : rows.filterMap OwnRow.id ≠ [] := by
    rw [hsupplied]
    simpa using hne
  split
  case h_1 hnil => exact absurd (List.map_eq_nil_iff.mp hnil) hne
  case h_2 first others hcons =>
    have hfirst : ∃ n ∈ nodes, n.creation = first :=
      List.mem_map.mp (hcons ▸ List.mem_cons_self : first ∈ nodes.map CreatedNode.creation)
    obtain ⟨n, hn, rfl⟩ := hfirst
    have hcolumns : columnsOf L.idColumn (rows.filterMap OwnRow.id) rows ≠ [] :=
      List.ne_nil_of_mem (mem_columnsOf.mpr (.inl ⟨hsome, rfl⟩))
    dsimp only
    rw [(hnodes n hn).idColumn, hpolicy, (hnodes n hn).policy, if_neg (by simp [hlength]),
      if_neg (by simpa using hcolumns)]
    refine ensures_bind.mpr ((ensures_insertRows hL hne (hnodes n hn).table
      (fun n hn => ⟨(hnodes n hn).table, (hnodes n hn).idColumn⟩) hs hfits
      (fun t hcolumns hrows => h.isSound_inserted hL hs hnodes hcolumns hrows) hrows).mono ?_)
    rintro _ inserted ⟨rfl, hgrown, hothers, hinserted⟩
    refine ensures_bind.mpr (ensures_reviseIds ?_)
    refine ensures_bind.mpr ((ensures_addEdges hL h hs hnodes hids hgrown (fun t ht => ?_)
      hinserted).mono fun _ s' hgrows => ⟨rfl, hgrows⟩)
    apply hothers
    intro hname
    rw [nameParts_injective hname] at ht
    exact hL.apart ht

/-- A batch of nodes that fit has a result, if they have been created one by one. -/
theorem ensures_run (hL : L.IsSound S) (hpolicy : b.policy = none)
    (hb : b.nodes = nodes.map CreatedNode.creation)
    (hnodes : ∀ n ∈ nodes, n.creation.IsLaidOut E S d L s.current)
    (hfits : ∀ n ∈ nodes, n.Fits E s.current)
    (hapart : (nodes.flatMap fun n => n.creation.edges).Pairwise Edge.ClaimsApart)
    (h : Grows E S L nodes s.current db') (hs : s.current.IsSound E S) :
    (b.run d).Ensures (Call.Performs E S) s fun ids s' =>
      ids = nodes.map CreatedNode.id ∧ Grows E S L nodes s.current s'.current := by
  have hmem : ∀ c ∈ b.nodes, ∃ n ∈ nodes, n.creation = c := by
    intro c hc
    rw [hb] at hc
    exact List.mem_map.mp hc
  unfold run
  split
  case h_1 hnil =>
    rw [hb, List.map_eq_nil_iff] at hnil
    subst hnil
    exact ⟨rfl, .refl hs⟩
  case h_2 first others hcons =>
    have hfirst : first ∈ b.nodes := by
      rw [hcons]
      exact List.mem_cons_self
    have htable : ∀ c ∈ b.nodes, c.node.table = L.table := by
      intro c hc
      obtain ⟨n, hn, rfl⟩ := hmem c hc
      exact (hnodes n hn).table
    have hchecked : ∀ c ∈ b.nodes, ∀ e ∈ c.edges, e.checkDirect = .ok () := by
      intro c hc
      obtain ⟨n, hn, rfl⟩ := hmem c hc
      exact (hfits n hn).checked
    have hfind : (b.nodes.find? fun c => c.node.table != first.node.table) = none := by
      rw [List.find?_eq_none]
      intro c hc
      simp [htable c hc, htable first hfirst]
    have hadds : (b.nodes.flatMap NodeCreation.edges).forM Edge.checkAdd = .ok () := by
      refine forM_eq_ok.mpr fun e he => ?_
      obtain ⟨c, hc, he⟩ := List.mem_flatMap.mp he
      exact (Edge.checkDirect_eq_ok.mp (hchecked c hc e he)).2
    have hdirect : (b.nodes.any fun c => !c.dependencies.isEmpty) = false := by
      rw [List.any_eq_false]
      intro c hc
      have hnone : c.dependencies = [] := List.flatMap_eq_nil_iff.mpr fun e he =>
        (Edge.checkDirect_eq_ok.mp (hchecked c hc e he)).1
      simp [hnone]
    dsimp only
    rw [hfind, hdirect, if_neg Bool.false_ne_true]
    refine ensures_bind.mpr (ensures_ofExcept hadds ?_)
    refine ensures_connection fun inside start hstart => ?_
    have hne : nodes ≠ [] := by
      rintro rfl
      rw [hb] at hcons
      cases hcons
    rw [← hstart] at hnodes hfits h hs ⊢
    refine (ensures_createBulk hL hpolicy hb hne hnodes hfits hapart h hs).mono ?_
    rintro _ mid ⟨rfl, hgrows⟩ s' hs'
    rw [hs']
    exact ⟨rfl, hgrows⟩

end BatchCreation

end EntityGraph
