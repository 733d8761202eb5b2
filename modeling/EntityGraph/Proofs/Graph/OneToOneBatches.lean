import EntityGraph.Proofs.Graph.BulkInserts
import EntityGraph.Proofs.Graph.OneToOneCreations
import EntityGraph.Proofs.Graph.PartnerClaims
import EntityGraph.Proofs.Relational.KeyTypes

/-!
# Partners of one to one edges after a batch

Nodes that take turns are creations one after another, with their references replaced by the IDs of
nodes that are stored by then. Nodes that are inserted together do not see each other: their own rows
are told apart by the claims of the batch, and the rows to which they are linked by their IDs.
-/

set_option autoImplicit false

namespace EntityGraph

open Program

variable {E : Engine} {S : Schema} {s s' inserted joined : Session} {conn : Connection} {d : Dialect}
  {f : Reference} {b : BatchCreation} {c : NodeCreation} {e : Edge} {idOf : Nat → Value}

namespace BatchCreation

/-- The database and a batch without a conflict policy agree about a foreign key, which each node
writes by one edge at most. Nodes of one type have the same ID column, and a foreign key by which
they refer to each other refers to it. -/
structure Respects (S : Schema) (d : Dialect) (b : BatchCreation) (f : Reference) : Prop where
  policy : b.policy = none
  sameId : ∀ c ∈ b.nodes, ∀ c' ∈ b.nodes, c.node.id.column = c'.node.id.column
  nodes : ∀ c ∈ b.nodes, c.LinksOnce f ∧ c.Respects S d f
  referred : ∀ c ∈ b.nodes, ∀ e ∈ c.edgesIn f, e.writesOwnColumn = true → e.target.pending ≠ [] →
    c.node.table = f.goal ∧ c.node.id.column = f.key

/-! ## References replaced by IDs -/

section Resolved

theorem edgesIn_resolved : (b.resolved idOf c).edgesIn f = (c.edgesIn f).map (Edge.withIds idOf) := by
  unfold NodeCreation.edgesIn resolved
  rw [List.filter_map]
  rfl

theorem linksOnce_resolved (h : c.LinksOnce f) : (b.resolved idOf c).LinksOnce f where
  fields := h.fields
  id := h.id
  joins := by
    intro e' he' hmany
    obtain ⟨e, he, rfl⟩ := List.mem_map.mp he'
    exact h.joins e he hmany
  once := by
    rw [edgesIn_resolved, List.length_map]
    exact h.once
  relation := by
    intro e' he'
    rw [edgesIn_resolved] at he'
    obtain ⟨e, he, rfl⟩ := List.mem_map.mp he'
    exact h.relation e he

theorem respects_resolved (hpolicy : b.policy = none) (h : c.Respects S d f) :
    (b.resolved idOf c).Respects S d f where
  policy := by
    show b.policy.or c.policy = none
    rw [hpolicy, h.policy]
    rfl
  key := h.key
  tellsId := by
    intro hreturning hleaves
    obtain ⟨hreports, hidentity, hfields, hedges⟩ := h.tellsId hreturning hleaves
    refine ⟨hreports, hidentity, hfields, fun e' he' hown => ?_⟩
    obtain ⟨e, he, rfl⟩ := List.mem_map.mp he'
    exact hedges e he hown
  goal := by
    intro e' he' hforeign
    rw [edgesIn_resolved] at he'
    obtain ⟨e, he, rfl⟩ := List.mem_map.mp he'
    exact h.goal e he hforeign
  targetKey := by
    intro e' he' hforeign
    rw [edgesIn_resolved] at he'
    obtain ⟨e, he, rfl⟩ := List.mem_map.mp he'
    exact h.targetKey e he hforeign

/-- An edge of a batch is complete once IDs stand in the place of its references. -/
theorem isComplete_withIds (h : e.checkAdd = .ok ()) : (e.withIds idOf).IsComplete := by
  obtain ⟨hcolumns, hsome, hsingle⟩ := Edge.counts_of_check h
  have hlength : (e.withIds idOf).target.nodes.length =
      e.target.nodes.length + e.target.pending.length := by
    simp [Edge.withIds]
  refine ⟨hcolumns, ?_, fun hone => ?_⟩
  · rw [← List.length_pos_iff, hlength]
    exact hsome
  · rw [← List.length_eq_one_iff, hlength]
    exact hsingle hone

theorem hasTargets_resolved {db : Database} (h : c.HasTargets E f db)
    (hreferred : ∀ e ∈ c.edgesIn f, e.writesOwnColumn = true → ∀ i ∈ e.target.pending,
      f.Reaches E db (idOf i)) : (b.resolved idOf c).HasTargets E f db := by
  intro e' he' hown t ht
  rw [edgesIn_resolved] at he'
  obtain ⟨e, he, rfl⟩ := List.mem_map.mp he'
  rcases List.mem_append.mp ht with ht | ht
  · exact h e he hown t ht
  · obtain ⟨i, hi, rfl⟩ := List.mem_map.mp ht
    exact hreferred e he hown i hi

end Resolved

/-! ## Nodes that take turns -/

/-- A node is created in turn as it would be on its own, with IDs in the place of its references. -/
theorem reaches_createLink {chain chain' : Chain} {i : Nat} (hc : b.nodes[i]? = some c)
    (hpolicy : b.policy = none)
    (h : (createLink conn b chain i).Reaches (Call.Records E S) s chain' s') :
    (∀ d ∈ c.dependencies, (chain.ids[d]?.getD .null).isNull = false) ∧ ∃ id,
      (NodeCreation.write conn i (b.resolved (fun d => chain.ids[d]?.getD .null) c)).Reaches
        (Call.Records E S) s id s' ∧ chain'.ids = chain.ids.set i id := by
  rw [createLink_eq hc] at h
  obtain ⟨_, revised, hrevise, hrest⟩ := reaches_request.mp h
  have hrevised : revised = s := hrevise.answers
  rw [hrevised] at hrest
  split at hrest
  case isFalse => exact absurd hrest reaches_fail
  case isTrue hcomplete =>
    obtain ⟨hedges, hids⟩ := Edge.resolveAll_complete hcomplete
    obtain ⟨claims, claimed, hclaim, hpolicies⟩ := reaches_bind.mp hrest
    obtain ⟨-, hclaimed⟩ := reaches_ofExcept.mp hclaim
    rw [hclaimed, hpolicy] at hpolicies
    obtain ⟨_, kept, hkept, hcreate⟩ := reaches_bind.mp hpolicies
    obtain ⟨-, hsame⟩ := reaches_done.mp hkept
    rw [hsame] at hcreate
    obtain ⟨id, written, hwrite, hdone⟩ := reaches_bind.mp hcreate
    obtain ⟨rfl, rfl⟩ := reaches_done.mp hdone
    refine ⟨fun d hd => ?_, id, ?_, rfl⟩
    · obtain ⟨e, he, hd⟩ := List.mem_flatMap.mp hd
      exact hids e he d hd
    · rw [hedges] at hwrite
      unfold resolved
      rw [hpolicy]
      exact hwrite

/-- The IDs that are known are those of stored nodes of a type. -/
def Chain.IsStored (E : Engine) (table k : String) (chain : Chain) (db : Database) : Prop :=
  ∀ id ∈ chain.ids, id.isNull = false → (db (nameParts table)).Holds E k id

/-- Nodes take turns. -/
theorem reaches_chain {table k : String} {order : List Nat} {chain chain' : Chain} (hE : E.ByKey)
    (hf : f.IsDeclared S) (hb : b.Respects S conn.dialect f)
    (hnodes : ∀ c ∈ b.nodes, c.node.table = table ∧ c.node.id.column = k)
    (hchecked : ∀ c ∈ b.nodes, ∀ e ∈ c.edges, e.checkAdd = .ok ())
    (hrange : ∀ i ∈ order, i < b.nodes.length) (hs : s.current.Obeys E S.keys)
    (h : (order.foldlM (createLink conn b) chain).Reaches (Call.Records E S) s chain' s') :
    s'.current.Obeys E S.keys ∧ s.current.Extends S.keys s'.current ∧
      ((∀ c ∈ b.nodes, c.ReadsIds s'.current) → (∀ c ∈ b.nodes, c.HasTargets E f s.current) →
        chain.IsStored E table k s.current → f.IsPaired E s.current → f.IsPaired E s'.current) := by
  induction order generalizing s chain with
  | nil =>
    obtain ⟨-, rfl⟩ := reaches_done.mp h
    exact ⟨hs, .refl _, fun _ _ _ hpaired => hpaired⟩
  | cons i order ih =>
    have hi := hrange i List.mem_cons_self
    have hc : b.nodes[i] ∈ b.nodes := List.getElem_mem hi
    rw [List.foldlM_cons] at h
    obtain ⟨next, mid, hlink, hothers⟩ := reaches_bind.mp h
    obtain ⟨hids, id, hwrite, hset⟩ :=
      reaches_createLink (List.getElem?_eq_getElem hi) hb.policy hlink
    obtain ⟨htable, hk⟩ := hnodes _ hc
    obtain ⟨hlinks, hrespects⟩ := hb.nodes _ hc
    have hkey := hrespects.key
    have hcomplete : ∀ e ∈ (b.resolved (fun d => chain.ids[d]?.getD .null) b.nodes[i]).edges,
        e.IsComplete := by
      intro e' he'
      obtain ⟨e, he, rfl⟩ := List.mem_map.mp he'
      exact isComplete_withIds (hchecked _ hc e he)
    obtain ⟨hmid, hextends, hwritten⟩ := NodeCreation.reaches_write_keeps hE hf
      (linksOnce_resolved hlinks) (respects_resolved hb.policy hrespects) hcomplete hs hwrite
    obtain ⟨hs', hextends', hall⟩ := ih (fun j hj => hrange j (List.mem_cons_of_mem _ hj)) hmid
      hothers
    refine ⟨hs', hextends.trans hextends', fun hreads htargets hstored hpaired => ?_⟩
    obtain ⟨hnew, hpairs⟩ := hwritten (hextends'.readsAs hkey (hreads _ hc))
    refine hall hreads (fun c hc => (htargets c hc).mono hf hextends) ?_ ?_
    · intro v hv hpresent
      rw [hset] at hv
      rcases List.mem_or_eq_of_mem_set hv with hv | rfl
      · rw [← htable, ← hk]
        exact hextends.holds hkey (htable ▸ hk ▸ hstored v hv hpresent)
      · rw [← htable, ← hk]
        exact hnew
    · refine hpairs (hasTargets_resolved (htargets _ hc) fun e he hown j hj => ?_) hpaired
      have hpending : e.target.pending ≠ [] := List.ne_nil_of_mem hj
      obtain ⟨hgoal, hgoalKey⟩ := hb.referred _ hc e he hown hpending
      have hpresent := hids j (List.mem_flatMap.mpr ⟨e, (NodeCreation.mem_edgesIn.mp he).1, hj⟩)
      have hmem : chain.ids[j]?.getD .null ∈ chain.ids := by
        cases hfound : chain.ids[j]? with
        | none =>
          rw [hfound] at hpresent
          cases hpresent
        | some v => exact List.mem_of_getElem? hfound
      unfold Reference.Reaches
      rw [← hgoal, ← hgoalKey, htable, hk]
      exact hstored _ hmem hpresent

/-! ## Nodes that are inserted together -/

section Places

variable {α β : Type} {l : List α} {l' : List β}

/-- Members that stand apart in a list make those that are related to them stand apart. -/
theorem pairwise_of_forall₂ {P : α → α → Prop} {Q : β → β → Prop} {R : α → β → Prop}
    (h : List.Forall₂ R l l') (hP : l.Pairwise P)
    (hQ : ∀ a a' b b', P a a' → R a b → R a' b' → Q b b') : l'.Pairwise Q := by
  induction h with
  | nil => exact .nil
  | @cons a b l l' hab hrest ih =>
    obtain ⟨hfirst, hothers⟩ := List.pairwise_cons.mp hP
    refine List.pairwise_cons.mpr ⟨fun b' hb' => ?_, ih hothers⟩
    obtain ⟨a', ha', hab'⟩ := exists_of_forall₂ hrest.flip hb'
    exact hQ a a' b b' (hfirst a' ha') hab hab'

end Places

/-- Finding the own rows of nodes leaves the database as it is. No row has a target of theirs. -/
theorem reaches_ownRows {nodes : List NodeCreation} {i : Nat} {claims : List PartnerClaim}
    {rows : List OwnRow} (h : (ownRows conn i claims nodes).Leads E S.keys s rows s') :
    s' = s ∧ ∀ c ∈ nodes, ∀ e ∈ c.edges, e.isOneToOne = true →
      Partner.Unclaimed E s.current c.node none e := by
  induction nodes generalizing i claims rows s with
  | nil => exact ⟨(leads_done.mp h).2, by simp⟩
  | cons c rest ih =>
    obtain ⟨claimed, start, hclaim, hrest⟩ := leads_bind.mp h
    obtain ⟨-, hstart⟩ := leads_ofExcept.mp hclaim
    obtain ⟨_, probed, hcheck, hrest⟩ := leads_bind.mp hrest
    rw [hstart] at hcheck
    obtain ⟨hprobed, hunclaimed⟩ := Partner.leads_check hcheck
    obtain ⟨id, drawn, hsupply, hrest⟩ := leads_bind.mp hrest
    have hdrawn := NodeCreation.leads_supplyId hsupply
    obtain ⟨columns, found, hcolumns, hrest⟩ := leads_bind.mp hrest
    obtain ⟨-, hfound⟩ := leads_ofExcept.mp hcolumns
    obtain ⟨others, last, hothers, hdone⟩ := leads_bind.mp hrest
    obtain ⟨-, rfl⟩ := leads_done.mp hdone
    rw [hfound, hdrawn, hprobed] at hothers
    obtain ⟨hsame, hall⟩ := ih hothers
    exact ⟨hsame, List.forall_mem_cons.mpr ⟨fun e he hone => hunclaimed e he hone rfl, hall⟩⟩

theorem reaches_reviseIds {i : Nat} {ids : List Value}
    (h : (reviseIds i ids).Leads E S.keys s () s') : s' = s := by
  induction ids generalizing i s with
  | nil => exact (leads_done.mp h).2
  | cons id ids ih =>
    obtain ⟨_, mid, hrevise, hrest⟩ := leads_request.mp h
    exact (ih hrest).trans hrevise

/-- The nodes of a batch whose IDs have been found, with these. -/
def created (b : BatchCreation) (ids : List Value) : List (NodeCreation × Value) :=
  (b.nodes.zip ids).filter fun p => !p.2.isNull

/-- What inserting nodes together does, step by step: their own rows are found, while no row has a
target of theirs, and added; then the join tables are written, and then the foreign keys in other
rows. -/
structure InsertsTogether (E : Engine) (S : Schema) (conn : Connection) (b : BatchCreation)
    (node : Node) (rows : List OwnRow) (added : List Tuple) (ids : List Value)
    (s inserted joined s' : Session) : Prop where
  ownRows : List.Forall₂ OwnRow.IsOf b.nodes rows
  apart : b.nodes.Pairwise NodeCreation.ClaimsApart
  unclaimed : ∀ c ∈ b.nodes, ∀ e ∈ c.edges, e.isOneToOne = true →
    Partner.Unclaimed E s.current c.node none e
  adds : AddsOwnRows S node.table node.id.column rows s.current inserted.current added
  found : IdsOf node added ids
  obeys : inserted.current.Obeys E S.keys
  joins : (JoinTable.add conn ((b.created ids).flatMap fun p => p.1.edges.map fun e =>
    ([p.2], e))).Reaches (Call.Records E S) inserted () joined
  links : ((b.created ids).forM fun p => ForeignKey.add conn [p.2] p.1.edges).Leads E S.keys joined
    () s'

/-- Rows without IDs are those of nodes that leave their IDs to the database. It tells them. -/
theorem tells_of_leaves {node : Node} {rows : List OwnRow} (hne : b.nodes ≠ [])
    (hrows : List.Forall₂ OwnRow.IsOf b.nodes rows)
    (hnodes : ∀ c ∈ b.nodes, c.node.table = node.table ∧ c.node.id.column = node.id.column)
    (htells : ∀ c ∈ b.nodes, c.TellsId S d) (hnone : rows.filterMap OwnRow.id = [])
    (hreturning : d.supportsReturning = false) :
    S.reportsIds = true ∧ S.identity node.table = some node.id.column ∧
      node.id.column ∉ columnsOf node.id.column (rows.filterMap OwnRow.id) rows := by
  have hleaves : ∀ c ∈ b.nodes, c.LeavesId := by
    intro c hc
    obtain ⟨r, hr, hof⟩ := exists_of_forall₂ hrows hc
    apply hof.leavesId
    exact List.filterMap_eq_nil_iff.mp hnone r hr
  obtain ⟨c, hc⟩ := List.exists_mem_of_ne_nil _ hne
  obtain ⟨hreports, hidentity, -⟩ := htells c hc hreturning (hleaves c hc)
  obtain ⟨htable, hid⟩ := hnodes c hc
  rw [htable, hid] at hidentity
  refine ⟨hreports, hidentity, ?_⟩
  rw [mem_columnsOf, not_or]
  refine ⟨fun h => h.1 hnone, ?_⟩
  rintro ⟨r, hr, v, hv⟩
  obtain ⟨c, hc, hof⟩ := exists_of_forall₂ hrows.flip hr
  obtain ⟨-, -, hfields, hedges⟩ := htells c hc hreturning (hleaves c hc)
  rw [← (hnodes c hc).2] at hv
  rcases Node.mem_ownColumns hof.columns hv with ⟨y, hy, -, hcolumn⟩ | ⟨e, he, hown, hlinked⟩
  · exact hfields y hy hcolumn.symm
  · exact hedges e he hown hlinked.1

/-- Nodes that are created together are inserted one after another, or by one statement. -/
theorem reaches_createBulk {node : Node} {ids : List Value} (hpolicy : b.policy = none)
    (hnodes : ∀ c ∈ b.nodes, c.node.table = node.table ∧ c.node.id.column = node.id.column)
    (hfirst : ∀ c, b.nodes.head? = some c → c.node = node ∧ c.policy = none)
    (htells : ∀ c ∈ b.nodes, c.TellsId S conn.dialect)
    (hid : b.nodes ≠ [] → (s.current (nameParts node.table)).HasColumn node.id.column)
    (h : (createBulk conn b).Reaches (Call.Enters E S) s ids s') :
    (createEach conn 0 b.nodes).Reaches (Call.Enters E S) s ids s' ∨
      ∃ rows added inserted joined,
        b.InsertsTogether E S conn node rows added ids s inserted joined s' := by
  have hleads : ∀ {α : Type} {p : Program α} {t t' : Session} {a : α},
      p.Reaches (Call.Enters E S) t a t' → p.Leads E S.keys t a t' :=
    fun h => h.leads fun _ _ _ _ h => h.records.answers
  unfold createBulk at h
  obtain ⟨rows, start, hrows, hrest⟩ := reaches_bind.mp h
  obtain ⟨hstart, hunclaimed⟩ := reaches_ownRows (hleads hrows)
  obtain ⟨log, hlog, -⟩ := hrows
  have hof := ownRows_are_of hlog
  have hapart := (ownRows_apart hlog).2
  rw [hstart] at hrest
  split at hrest
  case h_1 hnil =>
    left
    rw [hnil]
    exact hrest
  case h_2 first others hcons =>
    obtain ⟨hnode, hnone⟩ := hfirst first (by rw [hcons]; rfl)
    have hne : b.nodes ≠ [] := by
      rw [hcons]
      exact List.cons_ne_nil _ _
    dsimp only at hrest
    rw [hnode, hpolicy, hnone, Option.or_none] at hrest
    split at hrest
    case isTrue => exact absurd hrest reaches_fail
    case isFalse hmixed =>
      have hall : rows.filterMap OwnRow.id ≠ [] →
          (rows.filterMap OwnRow.id).length = rows.length := by
        intro hsome
        by_contra hlength
        exact hmixed ⟨by simpa using hsome, hlength⟩
      split at hrest
      case isTrue => exact .inl hrest
      case isFalse hcolumns =>
        right
        obtain ⟨found, inserted, hinsert, hrest⟩ := reaches_bind.mp hrest
        obtain ⟨hobeys, added, hadds, hfound⟩ := reaches_insertRows (by simpa using hcolumns) hall
          (hid hne) (tells_of_leaves hne hof hnodes htells) hinsert
        obtain ⟨_, revised, hrevise, hrest⟩ := reaches_bind.mp hrest
        have hrevised := reaches_reviseIds (hleads hrevise)
        obtain ⟨_, linked, hedges, hdone⟩ := reaches_bind.mp hrest
        obtain ⟨rfl, rfl⟩ := reaches_done.mp hdone
        rw [hrevised] at hedges
        obtain ⟨_, joined, hjoin, hlinks⟩ := reaches_bind.mp hedges
        exact ⟨rows, added, inserted, joined,
          { ownRows := hof
            apart := hapart
            unclaimed := hunclaimed
            adds := hadds
            found := hfound
            obeys := hobeys
            joins := hjoin.mono fun _ _ _ _ h => h.records
            links := hleads hlinks }⟩

/-- Links of several nodes leave the keys of all rows as they are. -/
theorem leads_links_extend {pairs : List (NodeCreation × Value)}
    (h : (pairs.forM fun p => ForeignKey.add conn [p.2] p.1.edges).Leads E S.keys s () s')
    (hs : s.current.Obeys E S.keys) :
    s.current.Extends S.keys s'.current ∧ s'.current.Obeys E S.keys := by
  refine leads_forM_invariant (fun db => s.current.Extends S.keys db ∧ db.Obeys E S.keys)
    (fun p _ t t' ht hkeep => ?_) h ⟨.refl _, hs⟩
  obtain ⟨hextends, hobeys⟩ :=
    ForeignKey.leads_links_extends (ForeignKey.leads_links_of_add ht) hkeep.2
  exact ⟨hkeep.1.trans hextends, hobeys⟩

/-- The targets of several nodes are linked. No row refers to the nodes before, and their IDs are
all different. -/
theorem leads_links_of_nodes {pairs : List (NodeCreation × Value)} (hf : f.IsDeclared S)
    (hnodes : ∀ p ∈ pairs, p.1.LinksOnce f ∧ p.1.Respects S conn.dialect f ∧
      ∀ e ∈ p.1.edges, e.IsComplete)
    (hnew : ∀ p ∈ pairs, ∀ e ∈ p.1.edgesIn f, e.isForeignKeyEdge = true →
      ¬f.Holds E s.current p.2 ∧ f.Reaches E s.current p.2)
    (hapart : pairs.Pairwise fun p q => E.equal p.2 q.2 = false)
    (h : (pairs.forM fun p => ForeignKey.add conn [p.2] p.1.edges).Leads E S.keys s () s')
    (hs : s.current.Obeys E S.keys) (hpaired : f.IsPaired E s.current) :
    f.IsPaired E s'.current := by
  induction pairs generalizing s with
  | nil =>
    obtain rfl := leads_forM_nil.mp h
    exact hpaired
  | cons p pairs ih =>
    obtain ⟨mid, hfirst, hothers⟩ := leads_forM_cons.mp h
    obtain ⟨⟨hlinks, hrespects, hcomplete⟩, hnodes⟩ := List.forall_mem_cons.mp hnodes
    obtain ⟨hnow, hlater⟩ := List.forall_mem_cons.mp hnew
    obtain ⟨hdifferent, hapart⟩ := List.pairwise_cons.mp hapart
    have hadd := ForeignKey.leads_links_of_add hfirst
    obtain ⟨hextends, hmid⟩ := ForeignKey.leads_links_extends hadd hs
    obtain ⟨hpaired, hvalues⟩ := ForeignKey.leads_links_paired hpaired hf hs hlinks.links_once
      (fun e he hthere => by
        obtain ⟨he, hforeign⟩ := List.mem_filter.mp he
        have hforeign := (Bool.and_eq_true_iff.mp hforeign).1
        have hstored : e ∈ p.1.edgesIn f :=
          NodeCreation.mem_edgesIn.mpr ⟨he, Edge.isStoredIn_of_foreignKey hforeign hthere⟩
        obtain ⟨hone, -, hcolumns⟩ := hlinks.relation e hstored
        exact ⟨hcolumns, hrespects.targetKey e hstored hforeign,
          (hcomplete e he).single (.inl hone), hnow e hstored hforeign⟩) hadd
    refine ih hnodes (fun q hq e he hforeign => ?_) hapart hothers hmid hpaired
    obtain ⟨hnot, hreaches⟩ := hlater q hq e he hforeign
    refine ⟨fun hv => ?_, hextends.holds hf.key hreaches⟩
    rcases hvalues _ hv with hheld | hequal
    · exact hnot hheld
    · rw [hdifferent q hq] at hequal
      cases hequal

namespace InsertsTogether

variable {node : Node} {rows : List OwnRow} {added : List Tuple} {ids : List Value}
  {type : FieldType}

theorem inserted_extends (w : b.InsertsTogether E S conn node rows added ids s inserted joined s') :
    s.current.Extends S.keys inserted.current := by
  refine .of_subset fun name r hr => ?_
  by_cases hname : name = nameParts node.table
  · subst hname
    exact w.adds.perm.mem_iff.mpr (List.mem_append_right added hr)
  · rwa [w.adds.others name hname]

theorem mem_inserted (w : b.InsertsTogether E S conn node rows added ids s inserted joined s')
    {x : Tuple} (hx : x ∈ added) : x ∈ (inserted.current (nameParts node.table)).rows :=
  w.adds.perm.mem_iff.mpr (List.mem_append_left _ hx)

theorem joined_extends (w : b.InsertsTogether E S conn node rows added ids s inserted joined s') :
    inserted.current.Extends S.keys joined.current :=
  .of_subset (JoinTable.reaches_add_subset w.joins)

theorem joined_obeys (w : b.InsertsTogether E S conn node rows added ids s inserted joined s') :
    joined.current.Obeys E S.keys :=
  (JoinTable.reaches_add_keeps w.obeys w.joins).1

theorem linked_extends (w : b.InsertsTogether E S conn node rows added ids s inserted joined s') :
    joined.current.Extends S.keys s'.current ∧ s'.current.Obeys E S.keys :=
  leads_links_extend w.links w.joined_obeys

theorem extends_after (w : b.InsertsTogether E S conn node rows added ids s inserted joined s') :
    inserted.current.Extends S.keys s'.current :=
  w.joined_extends.trans w.linked_extends.1

/-- The IDs of the nodes are the same to the database as those of their rows. -/
theorem equal_ids (hE : E.ByKey) (hkey : (node.table, node.id.column) ∈ S.keys)
    (w : b.InsertsTogether E S conn node rows added ids s inserted joined s')
    (hreads : (s'.current (nameParts node.table)).ReadsAs node.id.column node.id.type) :
    List.Forall₂ (fun x id => x ∈ added ∧ E.equal (x node.id.column) id = true) added ids := by
  obtain ⟨hlength, hfound⟩ := List.forall₂_iff_zip.mp w.found
  refine List.forall₂_iff_zip.mpr ⟨hlength, fun {x id} hpair => ?_⟩
  have hx := (List.of_mem_zip hpair).1
  exact ⟨hx, Node.equal_of_readId hE (w.obeys _ hkey) (w.mem_inserted hx)
    (w.extends_after.readsAs hkey hreads) (hfound hpair)⟩

/-- The rows are told apart by their IDs, and from those that were there before. -/
theorem keys_apart (hkey : (node.table, node.id.column) ∈ S.keys)
    (w : b.InsertsTogether E S conn node rows added ids s inserted joined s') :
    (added.Pairwise fun x y => E.equal (x node.id.column) (y node.id.column) = false) ∧
      ∀ x ∈ added, ∀ r ∈ (s.current (nameParts node.table)).rows,
        E.equal (x node.id.column) (r node.id.column) = false := by
  have hsymm : ∀ {x y : Tuple}, E.equal (x node.id.column) (y node.id.column) = false →
      E.equal (y node.id.column) (x node.id.column) = false := by
    intro x y hxy
    rwa [Engine.equal_comm]
  have hunique := (w.adds.perm.pairwise_iff hsymm).mp (w.obeys _ hkey).unique
  obtain ⟨hadded, -, hbefore⟩ := List.pairwise_append.mp hunique
  exact ⟨hadded, hbefore⟩

/-- A new row refers to the target of an edge of its node, or to nothing. -/
theorem refers (hf : f.IsDeclared S) (hlinks : ∀ c ∈ b.nodes, c.LinksOnce f)
    (hnodes : ∀ c ∈ b.nodes, c.node.table = node.table ∧ c.node.id.column = node.id.column)
    (htable : node.table = f.table) (hplain : columnName f.column = f.column)
    (w : b.InsertsTogether E S conn node rows added ids s inserted joined s') :
    List.Forall₂ (fun c x => c ∈ b.nodes ∧ c.Refers f x) b.nodes added := by
  have hof : List.Forall₂ (fun r c => c ∈ b.nodes ∧ OwnRow.IsOf c r) rows b.nodes := by
    obtain ⟨hlength, hrows⟩ := List.forall₂_iff_zip.mp w.ownRows.flip
    refine List.forall₂_iff_zip.mpr ⟨hlength, fun {r c} hpair => ?_⟩
    exact ⟨(List.of_mem_zip hpair).2, hrows hpair⟩
  refine forall₂_of_common hof w.adds.values fun r c x ⟨hc, hr⟩ hvalues => ⟨hc, ?_⟩
  obtain ⟨hnode, hid⟩ := hnodes c hc
  have hne : f.column ≠ node.id.column := by
    rw [← hid]
    exact ((hlinks c hc).id (hnode.trans htable)).symm
  have hvalue := hvalues f.column (.inr (htable ▸ hf.unfilled))
  rcases OwnRow.valueIn_cases (r := r) hne with hset | hnone
  · exact (hlinks c hc).refers_of_column (hnode.trans htable) hr.columns hset rfl hplain hvalue
  · left
    rw [hvalue, hnone]
    rfl

/-- Two new rows do not refer to the same target, since their nodes have claimed apart. -/
theorem refers_apart (hE : E.ByKey) (htype : type.IsExact)
    (htyped : ∀ c ∈ b.nodes, ∀ e ∈ c.edgesIn f, ∀ t ∈ e.target.nodes, t.ownType? = some type)
    (hrefers : List.Forall₂ (fun c x => c ∈ b.nodes ∧ c.Refers f x) b.nodes added)
    (w : b.InsertsTogether E S conn node rows added ids s inserted joined s') :
    added.Pairwise fun x y => E.equal (x f.column) (y f.column) = false := by
  refine pairwise_of_forall₂ hrefers w.apart fun c c' x y hclaims ⟨hc, hx⟩ ⟨hc', hy⟩ => ?_
  rw [Bool.eq_false_iff]
  intro hequal
  rcases hx with hnull | ⟨e, he, hone, -, htable, hcolumns, ht⟩
  · rw [Engine.isNull_of_equal hequal] at hnull
    cases hnull
  rcases hy with hnull | ⟨e', he', hone', -, htable', hcolumns', ht'⟩
  · rw [Engine.isNull_of_equal_right hequal] at hnull
    cases hnull
  have hdifferent := hclaims e (NodeCreation.mem_edgesIn.mp he).1 e'
    (NodeCreation.mem_edgesIn.mp he').1 hone hone' (htable.trans htable'.symm)
    (hcolumns.trans hcolumns'.symm) _ ht _ ht'
  obtain ⟨key, hkey, hkey'⟩ := (hE _ _).mp hequal
  rw [htype.equals _ _ (htyped c' hc' e' he' _ ht') (htyped c hc e he _ ht) key hkey' hkey] at hdifferent
  cases hdifferent

theorem mem_created {p : NodeCreation × Value} (hp : p ∈ b.created ids) : p.1 ∈ b.nodes :=
  (List.of_mem_zip (List.mem_filter.mp hp).1).1

/-- Join tables are other tables than that of the foreign key. -/
theorem joined_eq (hlinks : ∀ c ∈ b.nodes, c.LinksOnce f)
    (w : b.InsertsTogether E S conn node rows added ids s inserted joined s') :
    joined.current (nameParts f.table) = inserted.current (nameParts f.table) := by
  refine (JoinTable.leads_add (fun link hlink => ?_)
    (w.joins.leads fun _ _ _ _ => Call.Records.answers) w.obeys).1
  obtain ⟨p, hp, hlink⟩ := List.mem_flatMap.mp hlink
  obtain ⟨e, he, rfl⟩ := List.mem_map.mp hlink
  intro hmany hname
  exact (hlinks p.1 (mem_created hp)).joins e he hmany (nameParts_injective hname)

/-- The own rows have been added: no target of theirs was there before. -/
theorem inserted_paired (hE : E.ByKey) (hf : f.IsDeclared S) (htype : type.IsExact)
    (htyped : ∀ c ∈ b.nodes, ∀ e ∈ c.edgesIn f, ∀ t ∈ e.target.nodes, t.ownType? = some type)
    (hlinks : ∀ c ∈ b.nodes, c.LinksOnce f)
    (hcomplete : ∀ c ∈ b.nodes, ∀ e ∈ c.edges, e.IsComplete)
    (hnodes : ∀ c ∈ b.nodes, c.node.table = node.table ∧ c.node.id.column = node.id.column)
    (htargets : ∀ c ∈ b.nodes, c.HasTargets E f s.current) (h : f.IsPaired E s.current)
    (w : b.InsertsTogether E S conn node rows added ids s inserted joined s') :
    f.IsPaired E inserted.current ∧
      ∀ v, f.Holds E inserted.current v → f.Reaches E s.current v := by
  by_cases htable : node.table = f.table
  · have hplain := columnName_plain h.column.plain
    have hrefers := w.refers hf hlinks hnodes htable hplain
    have hreaches : ∀ x ∈ added, (x f.column).isNull = false →
        f.Reaches E s.current (x f.column) := by
      intro x hx hpresent
      obtain ⟨c, -, hc, hrefersTo⟩ := exists_of_forall₂ hrefers.flip hx
      exact hrefersTo.reaches (htargets c hc) hpresent
    constructor
    · refine h.of_added hf w.inserted_extends ?_ (htable ▸ w.adds.perm) ?_ ?_ hreaches
      · rw [← htable]
        exact w.adds.sameColumns
      · intro x hx
        obtain ⟨c, -, hc, hrefersTo⟩ := exists_of_forall₂ hrefers.flip hx
        exact hrefersTo.not_holds (fun e he hone => (hcomplete c hc e he).single (.inl hone))
          (w.unclaimed c hc) h.column
      · exact w.refers_apart hE htype htyped hrefers
    · rintro v ⟨r, hr, hequal⟩
      rw [← htable] at hr
      rcases List.mem_append.mp (w.adds.perm.mem_iff.mp hr) with hr | hr
      · exact (hreaches r hr (Engine.isNull_of_equal hequal)).congr hequal
      · exact h.reaches ⟨r, htable ▸ hr, hequal⟩
  · have hsame := w.adds.others (nameParts f.table) fun hname =>
      htable (nameParts_injective hname).symm
    refine ⟨h.of_table_eq hf hsame w.inserted_extends, fun v hv => h.reaches ?_⟩
    unfold Reference.Holds at hv ⊢
    rwa [hsame] at hv

/-- Nodes that are inserted together keep a foreign key one of one to one. -/
theorem paired (hE : E.ByKey) (hf : f.IsDeclared S) (htype : type.IsExact)
    (htyped : ∀ c ∈ b.nodes, ∀ e ∈ c.edgesIn f, ∀ t ∈ e.target.nodes, t.ownType? = some type)
    (hkeeps : ∀ c ∈ b.nodes, c.LinksOnce f ∧ c.Respects S conn.dialect f)
    (hcomplete : ∀ c ∈ b.nodes, ∀ e ∈ c.edges, e.IsComplete)
    (hnodes : ∀ c ∈ b.nodes, c.node.table = node.table ∧ c.node.id.column = node.id.column)
    (hkey : (node.table, node.id.column) ∈ S.keys)
    (htargets : ∀ c ∈ b.nodes, c.HasTargets E f s.current) (h : f.IsPaired E s.current)
    (hreads : (s'.current (nameParts node.table)).ReadsAs node.id.column node.id.type)
    (w : b.InsertsTogether E S conn node rows added ids s inserted joined s') :
    f.IsPaired E s'.current := by
  have hlinks := fun c hc => (hkeeps c hc).1
  obtain ⟨hinserted, hvalues⟩ :=
    w.inserted_paired hE hf htype htyped hlinks hcomplete hnodes htargets h
  have hjoined := w.joined_eq hlinks
  have hequal := w.equal_ids hE hkey hreads
  obtain ⟨hapart, hbefore⟩ := w.keys_apart hkey
  refine leads_links_of_nodes hf (fun p hp => ⟨hlinks _ (mem_created hp),
    (hkeeps _ (mem_created hp)).2, hcomplete _ (mem_created hp)⟩) ?_ ?_ w.links w.joined_obeys
      (hinserted.of_table_eq hf hjoined w.joined_extends)
  · intro p hp e he hforeign
    obtain ⟨hgoal, hgoalKey⟩ := (hkeeps _ (mem_created hp)).2.goal e he hforeign
    obtain ⟨hnode, hid⟩ := hnodes _ (mem_created hp)
    obtain ⟨x, hx, -, hsame⟩ := exists_of_forall₂ hequal.flip
      (List.of_mem_zip (List.mem_filter.mp hp).1).2
    constructor
    · intro hheld
      unfold Reference.Holds at hheld
      rw [hjoined] at hheld
      obtain ⟨q, hq, hqid⟩ := hvalues _ hheld
      rw [← hgoal, hnode] at hq
      rw [← hgoalKey, hid] at hqid
      have hfresh := hbefore x hx q hq
      rw [Engine.equal_trans hsame (Engine.equal_symm hqid)] at hfresh
      cases hfresh
    · unfold Reference.Reaches
      rw [← hgoal, ← hgoalKey, hnode, hid]
      exact w.joined_extends.holds hkey ⟨x, w.mem_inserted hx, hsame⟩
  · have hids : ids.Pairwise fun v w => E.equal v w = false := by
      refine pairwise_of_forall₂ hequal hapart fun x y v w hxy ⟨_, hv⟩ ⟨_, hw⟩ => ?_
      rw [← hxy, ← Engine.equal_congr_left hv, Engine.equal_congr_right hw]
    have hlength : ids.length ≤ b.nodes.length := by
      rw [← hequal.length_eq, ← w.adds.values.length_eq, w.ownRows.length_eq]
    refine List.Pairwise.filter _ ?_
    rw [← List.map_snd_zip hlength, List.pairwise_map] at hids
    exact hids

end InsertsTogether

/-- A batch that has a result has gone through a chain of creations if some node refers to another,
or else through a bulk, unless it has no nodes. -/
theorem reaches_run {R : Answering Session} {ids : List Value}
    (hR : ∀ c r s s', R c r s s' → c.Answers E S.keys r s s') (h : (b.run d).Reaches R s ids s') :
    (b.nodes = [] ∧ s' = s) ∨ ∃ first, b.nodes.head? = some first ∧
      (∀ c ∈ b.nodes, c.node.table = first.node.table) ∧
      (∀ c ∈ b.nodes, ∀ e ∈ c.edges, e.checkAdd = .ok ()) ∧
      ∃ inside start mid, start.current = s.current ∧ s'.current = mid.current ∧
        ((¬∀ c ∈ b.nodes, c.dependencies = []) ∧
            (∃ order, order.Perm (List.range b.nodes.length) ∧
              (createChain ⟨d, inside⟩ b order).Reaches R start ids mid) ∨
          (∀ c ∈ b.nodes, c.dependencies = []) ∧
            (createBulk ⟨d, inside⟩ b).Reaches R start ids mid) := by
  rw [Mutation.batch_run_eq] at h
  obtain ⟨p, planned, hplan, hrun⟩ := reaches_bind.mp h
  obtain ⟨hp, hplanned⟩ := reaches_ofExcept.mp hplan
  rw [hplanned] at hrun
  have hconnection := fun transactional body
    (h : (Connection.run d transactional body).Reaches R s ids s') => reaches_connection hR h
  cases Mutation.batch_planned hp with
  | nothing hnone => exact .inl ⟨hnone, (reaches_done.mp hrun).2⟩
  | chain hchecked hrefers horder =>
    obtain ⟨inside, start, mid, hstart, hbody, hend⟩ := hconnection _ _ hrun
    refine .inr ⟨_, hchecked.head, hchecked.tables, hchecked.edges, inside, start, mid, hstart,
      hend, .inl ⟨fun hnone => ?_, _, perm_of_order horder, hbody⟩⟩
    obtain ⟨c, hc, hrefers⟩ := hrefers
    exact hrefers (hnone c hc)
  | bulk hchecked hdirect =>
    obtain ⟨inside, start, mid, hstart, hbody, hend⟩ := hconnection _ _ hrun
    exact .inr ⟨_, hchecked.head, hchecked.tables, hchecked.edges, inside, start, mid, hstart,
      hend, .inr ⟨hdirect, hbody⟩⟩

/-- A batch that has a result keeps a foreign key one of one to one. -/
theorem paired_of_run {type : FieldType} {ids : List Value} (hE : E.ByKey) (hf : f.IsDeclared S)
    (htype : type.IsExact) (hb : b.Respects S d f)
    (htyped : ∀ c ∈ b.nodes, ∀ e ∈ c.edgesIn f, ∀ t ∈ e.target.nodes, t.ownType? = some type)
    (htargets : ∀ c ∈ b.nodes, c.HasTargets E f s.current) (hs : s.current.Obeys E S.keys)
    (h : f.IsPaired E s.current) (hrun : (b.run d).Reaches (Call.Enters E S) s ids s')
    (hreads : ∀ c ∈ b.nodes, c.ReadsIds s'.current) : f.IsPaired E s'.current := by
  rcases reaches_run (fun _ _ _ _ h => h.records.answers) hrun with ⟨-, rfl⟩ |
    ⟨first, hfirst, htable, hchecked, inside, start, mid, hstart, hend, hbody⟩
  · exact h
  have hmem : first ∈ b.nodes := List.mem_of_head? hfirst
  have hnodes : ∀ c ∈ b.nodes, c.node.table = first.node.table ∧
      c.node.id.column = first.node.id.column := fun c hc => ⟨htable c hc, hb.sameId c hc _ hmem⟩
  have hkey := (hb.nodes first hmem).2.key
  rw [← hstart] at hs htargets h
  rw [hend] at hreads ⊢
  rcases hbody with ⟨-, order, horder, hchain⟩ | ⟨hdirect, hbulk⟩
  · obtain ⟨chain, last, hfold, hdone⟩ := reaches_bind.mp hchain
    obtain ⟨-, rfl⟩ := reaches_done.mp hdone
    have hnone : Chain.IsStored E first.node.table first.node.id.column
        ⟨b.nodes.map fun _ => .null, []⟩ start.current := by
      intro id hid hpresent
      obtain ⟨c, -, rfl⟩ := List.mem_map.mp hid
      cases hpresent
    exact (reaches_chain hE hf hb hnodes hchecked
      (fun i hi => List.mem_range.mp (horder.mem_iff.mp hi)) hs
      (hfold.mono fun _ _ _ _ h => h.records)).2.2 hreads htargets hnone h
  · have hcomplete : ∀ c ∈ b.nodes, ∀ e ∈ c.edges, e.IsComplete := by
      intro c hc e he
      have hpending := List.flatMap_eq_nil_iff.mp (hdirect c hc) e he
      have hsame : e.withIds (fun _ => .null) = e := withIds_of_none hpending
      rw [← hsame]
      exact isComplete_withIds (hchecked c hc e he)
    have hhead : ∀ c, b.nodes.head? = some c → c.node = first.node ∧ c.policy = none := by
      intro c hc
      obtain rfl := Option.some.inj (hfirst.symm.trans hc)
      exact ⟨rfl, (hb.nodes first hmem).2.policy⟩
    rcases reaches_createBulk hb.policy hnodes hhead (fun c hc => (hb.nodes c hc).2.tellsId)
      (fun _ => (hs _ hkey).toHasColumn) hbulk with
      heach | ⟨rows, added, inserted, joined, w⟩
    · exact (reaches_createEach hE hf (fun c hc => ⟨(hb.nodes c hc).1, (hb.nodes c hc).2,
        hcomplete c hc⟩) hs (heach.mono fun _ _ _ _ h => h.records)).2.2 hreads htargets h
    · exact w.paired hE hf htype htyped hb.nodes hcomplete hnodes hkey htargets h
        (hreads first hmem)

end BatchCreation

end EntityGraph
