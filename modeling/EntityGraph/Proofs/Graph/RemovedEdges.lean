import EntityGraph.Proofs.Graph.ClearedLinks

/-!
# Edges that an update removes

An update can remove the edges of a relation to some targets that it lists. Where the relation is
stored in a join table or in the targets' rows, the links to these targets are lost and no others.
Where it is stored in the nodes' own rows, the foreign key is cleared whatever it refers to, so that
a link to another target is lost as well.
-/

set_option autoImplicit false

namespace EntityGraph

open Program

variable {E : Engine} {keys : List (String × String)} {s s' : Session} {conn : Connection}
  {d : Dialect} {ids : List Value} {x : Value}

namespace NodeUpdate

variable {u : NodeUpdate} {own w : Update} {e : Edge} {db : Database}

namespace OnlyRemoves

/-! ## Whole updates -/

/-- An update that finds its nodes by their IDs has written their rows and changed their edges. -/
theorem removes_of_change {written : Session} (h : u.OnlyRemoves keys e db)
    (hown : u.ownUpdate = .ok own) (htable : w.table = u.node.table)
    (hassigned : w.assigned E = own.assigned E)
    (hreached : ∀ r ∈ (db (nameParts u.node.table)).rows,
      db.meets E u.node.table w.predicate r = true ↔
        ∃ i, i ∈ ids ∧ E.equal (r u.node.id.column) i = true)
    (hids : ids ≠ []) (hwritten : written.current = w.applied E db)
    (hobeys : written.current.Obeys E keys)
    (hchange : (ExternalEdges.change conn ids u.edges).Leads E keys written () s') :
    u.Removes E e (· ∈ ids) db s'.current := by
  refine h.removes_of_clears (hwritten ▸ h.clearsOwn hown htable hassigned hreached) ?_
  refine h.clearsListed_of_change hids (fun name => ?_) hobeys hchange
  rw [hwritten, Update.applied_columns]

/-- The UPDATE of the row of a node that is there reaches the row with its ID. -/
theorem touching_reaches (h : u.OnlyRemoves keys e db) (hdb : db.Obeys E keys)
    (hown : u.ownUpdate = .ok own)
    (hsome : (u.touching u.predicate own x).reached E db ≠ []) {r : Tuple}
    (hr : r ∈ (db (nameParts u.node.table)).rows) :
    db.meets E u.node.table (u.touching u.predicate own x).predicate r = true ↔
      ∃ i, i ∈ [x] ∧ E.equal (r u.node.id.column) i = true := by
  obtain ⟨_, _, hassigns⟩ := ownUpdate_ok hown
  have htable := (u.touching_fields (E := E) u.predicate own x).1.trans hassigns.table
  have hkey := hdb _ h.key
  have hpicks : ∀ {q : Tuple}, db.meets E u.node.table (u.touching u.predicate own x).predicate q =
      true → E.picks (q u.node.id.column) x = true := fun hmeets =>
    Touches.picks hkey.toHasColumn ⟨rfl, hmeets⟩
  constructor
  · intro hmeets
    exact ⟨x, List.mem_singleton.mpr rfl, Engine.equal_of_picks (hkey.present r hr) (hpicks hmeets)⟩
  · rintro ⟨i, hi, hequal⟩
    obtain rfl := List.mem_singleton.mp hi
    obtain ⟨q, hq⟩ := List.exists_mem_of_ne_nil _ hsome
    obtain ⟨hq, hmeets⟩ := List.mem_filter.mp hq
    rw [htable] at hq hmeets
    obtain rfl := hkey.eq_of_picks hr hq (Engine.picks_of_equal hequal) (hpicks hmeets)
    exact hmeets

/-- An update of one node removes edges. -/
theorem removes_of_one (h : u.OnlyRemoves keys e s.current) (hs : s.current.Obeys E keys)
    (hrun : (u.writeOne conn x).Leads E keys s () s') :
    u.Removes E e (· ∈ [x]) s.current s'.current := by
  obtain ⟨-, own, written, changed, hown, hwritten, hobeys, hchange, hs'⟩ := leads_writeOne hrun hs
  have hsome := reached_of_writeOne (fun _ _ _ _ hc => hc) hown hs (leads_iff_reaches.mp hrun)
  obtain ⟨_, _, hassigns⟩ := ownUpdate_ok hown
  obtain ⟨htable, -, hassigned⟩ := u.touching_fields (E := E) u.predicate own x
  rw [hs']
  exact h.removes_of_change hown (htable.trans hassigns.table) hassigned
    (fun r hr => h.touching_reaches hs hown hsome hr) (List.cons_ne_nil x []) hwritten hobeys
    hchange

/-- An update of the nodes that it finds removes edges. -/
theorem removes_of_many (h : u.OnlyRemoves keys e s.current) (hs : s.current.Obeys E keys) {n : Nat}
    (hrun : (u.writeMany conn).Leads E keys s n s') :
    u.Removes E e (fun id => ∃ r, u.Finds E s.current r id) s.current s'.current := by
  have hkey := hs _ h.key
  obtain ⟨ids, hfinds, hcases⟩ := leads_writeMany hkey.toHasColumn hrun
  have hnodes : (fun id => ∃ r, u.Finds E s.current r id) = (· ∈ ids) :=
    funext fun id => propext (hfinds id).symm
  rw [hnodes]
  rcases hcases with ⟨rfl, -⟩ |
    ⟨hids, -, own, written, changed, hown, hwritten, hobeys, hchange, hs'⟩
  · exact .of_links fun table node other _ x v hx => absurd hx List.not_mem_nil
  · obtain ⟨_, _, hassigns⟩ := ownUpdate_ok hown
    rw [hs']
    refine h.removes_of_change (w := own.filter (.oneOf u.node.id.column ids)) hown hassigns.table
      rfl (fun r hr => ?_) hids hwritten hobeys hchange
    have hpredicate : (own.filter (.oneOf u.node.id.column ids)).predicate =
        some (.oneOf u.node.id.column ids) := by
      unfold Update.filter
      rw [hassigns.predicate]
      rfl
    have hid := columnName_plain hkey.plain
    rw [hpredicate, meets_oneOf hkey.knows (by rw [hid]; exact hkey.present r hr), hid,
      List.any_eq_true]

/-- An update that writes own rows only removes edges that are stored there. -/
theorem removes_of_rows (h : u.OnlyRemoves keys e s.current) (hs : s.current.Obeys E keys)
    (hreads : ∀ r ∈ (s.current (nameParts u.node.table)).rows, ∃ id,
      u.node.readId (r u.node.id.column) = .ok id ∧ E.equal (r u.node.id.column) id = true)
    (hneeds : u.needsIds = false) {n : Nat} (hrun : (u.writeRows conn).Leads E keys s n s') :
    u.Removes E e (fun id => ∃ r, u.Finds E s.current r id) s.current s'.current := by
  obtain ⟨own, hown, hcurrent⟩ := leads_writeRows hrun
  obtain ⟨_, _, hassigns⟩ := ownUpdate_ok hown
  have hkey := hs _ h.key
  have hfields : (own.filterOpt u.predicate).table = u.node.table ∧
      (own.filterOpt u.predicate).assigned E = own.assigned E ∧
        (own.filterOpt u.predicate).predicate = u.predicate := by
    unfold Update.filterOpt Update.filter
    rw [hassigns.predicate, hassigns.table]
    cases u.predicate with
    | none => exact ⟨hassigns.table, rfl, hassigns.predicate⟩
    | some p => exact ⟨rfl, rfl, rfl⟩
  obtain ⟨htable, hassigned, hpredicate⟩ := hfields
  have hexternal : e.writesExternal = false := by
    rw [Bool.eq_false_iff]
    intro hexternal
    rw [needsIds, Bool.or_eq_false_iff, List.any_eq_false] at hneeds
    exact hneeds.1 e (List.mem_append_right _ h.mem) hexternal
  have hinternal := Edge.internal hexternal
  have hclears : u.ClearsListed E e (fun id => ∃ r, u.Finds E s.current r id) s'.current
      s'.current := .of_own hinternal.1 hinternal.2
  refine h.removes_of_clears ?_ hclears
  rw [hcurrent]
  refine h.clearsOwn hown htable hassigned fun r hr => ?_
  rw [hpredicate]
  constructor
  · intro hmeets
    obtain ⟨id, hread, hequal⟩ := hreads r hr
    exact ⟨id, ⟨r, hr, hmeets, hread⟩, hequal⟩
  · rintro ⟨id, ⟨q, hq, hmeets, hread⟩, hequal⟩
    obtain ⟨id', hread', hequal'⟩ := hreads q hq
    obtain rfl : id = id' := Except.ok.inj (hread.symm.trans hread')
    obtain rfl := hkey.eq_of_picks hr hq (Engine.picks_of_equal hequal)
      (Engine.picks_of_equal hequal')
    exact hmeets

end OnlyRemoves

/-- What an update removes from a relation of which it only removes edges to listed targets: the
listed links of its nodes, and all links that are stored in their own rows, whatever targets are
listed. Other links of the relation are kept. This is so for one node and for all that meet a
condition, if IDs are read as they are stored. -/
theorem removed_edges (h : u.OnlyRemoves keys e s.current) (hs : s.current.Obeys E keys) :
    (∀ x s', u.node.id.bindValue = .ok x → (u.runOne d).Leads E keys s () s' →
      u.Removes E e (· = x) s.current s'.current) ∧
    ((∀ r ∈ (s.current (nameParts u.node.table)).rows, ∃ id,
      u.node.readId (r u.node.id.column) = .ok id ∧ E.equal (r u.node.id.column) id = true) →
      ∀ n s', (u.runMany d).Leads E keys s n s' →
        u.Removes E e (fun id => ∃ r, u.Finds E s.current r id) s.current s'.current) := by
  constructor
  · intro x s' hx hrun
    obtain ⟨-, -, inside, start, mid, hstart, hbody, hs'⟩ :=
      reaches_runOne (fun _ _ _ _ hc => hc) hx (leads_iff_reaches.mp hrun)
    rw [← hstart] at h hs ⊢
    have hnode : (fun i : Value => i = x) = (· ∈ [x]) := by simp
    rw [hs', hnode]
    exact h.removes_of_one hs (leads_iff_reaches.mpr hbody)
  · intro hreads n s' hrun
    obtain ⟨-, inside, start, mid, hstart, hbody, hs'⟩ :=
      reaches_runMany (fun _ _ _ _ hc => hc) (leads_iff_reaches.mp hrun)
    rw [← hstart] at h hs hreads ⊢
    rw [hs']
    rcases hbody with ⟨-, hbody⟩ | ⟨hneeds, hbody⟩
    · exact h.removes_of_many hs (leads_iff_reaches.mpr hbody)
    · exact h.removes_of_rows hs hreads hneeds (leads_iff_reaches.mpr hbody)

end NodeUpdate

/-! ## A lost parent -/

/-- The third user is no longer a child of these parents. -/
def leaveParents (parents : List Value) : NodeUpdate :=
  { NodeUpdate.ofNode (.ofTable "users" { column := "id", type := .int, value := .int 3 }) with
    edges := { add := [], clear := [parentEdge parents] } }

/-- The UPDATE of the user's own row, which names no parent. -/
def loseParent : Update :=
  ((Update.ofTable "users").setNull "parent_id").filter (.eq "id" (.int 3))

/-- The run of such an update. -/
def leaveRun : List Exchange :=
  [⟨.begin, true, (.done () : Outcome Unit)⟩,
    ⟨.exec true (.update loseParent), true, (.done ⟨1, none⟩ : Outcome ExecResult)⟩,
    ⟨.check, true, .ok ()⟩, ⟨.commit, true, .ok ()⟩]

/-- The database after the run. -/
def orphaned : Database := loseParent.applied keyEngine family3

theorem leaveParents_leads (parents : List Value) :
    ((leaveParents parents).runOne .sqlite).Leads keyEngine friendsSchema.keys ⟨family3, none⟩ ()
      ⟨orphaned, none⟩ := by
  refine ⟨leaveRun, ?_, ?_⟩
  · apply Run.call
    apply Run.call
    apply Run.call
    apply Run.call
    exact .done _
  · have hone : 1 ≤ (loseParent.reached keyEngine family3).length := by decide
    refine ⟨_, rfl, ⟨orphaned, some family3⟩, ⟨⟨by decide, rfl⟩, hone, by decide, rfl⟩, ?_⟩
    exact ⟨_, rfl, _, rfl, rfl⟩

/-- Parents are stored in the own rows of users. -/
theorem parentEdge_storedAt {parents : List Value} {table own other : String}
    (h : (parentEdge parents).StoredAt (leaveParents parents).node table own other) :
    table = "users" ∧ own = "id" ∧ other = "parent_id" := by
  cases h with
  | ownRow _ hfk => exact ⟨rfl, rfl, (List.singleton_inj.mp hfk).symm⟩
  | targetRow hforeign => cases hforeign
  | joined hmany => cases hmany
  | exchanged hmany => cases hmany

theorem leaveParents_onlyRemoves {parents : List Value} (hparents : parents ≠ []) :
    (leaveParents parents).OnlyRemoves friendsSchema.keys (parentEdge parents) family3 := by
  have hsingle : ∀ f ∈ (leaveParents parents).edges.clear, f = parentEdge parents :=
    fun f hf => List.mem_singleton.mp hf
  refine ⟨List.mem_singleton.mpr rfl, ?_, ?_, ?_, ?_, ?_, List.mem_singleton.mpr rfl, ?_⟩
  · rintro f hf -
    obtain rfl := hsingle f hf
    exact ⟨hparents, rfl, rfl⟩
  · intro f hf
    obtain rfl := hsingle f hf
    exact .inl (Edge.sameRelation_self _)
  · intro f hf
    cases hf
  · intro c hc
    exact ⟨fun f hf => absurd hf List.not_mem_nil, fun name hname => absurd hname List.not_mem_nil⟩
  · intro hbidi
    cases hbidi
  · rintro table c ⟨own, other, hstored, hc⟩
    obtain ⟨rfl, rfl, rfl⟩ := parentEdge_storedAt hstored
    rcases hc with rfl | rfl <;> decide

/-- The third user's parent is lost if listed, and nothing else is. -/
theorem removed_edges_parent :
    ((leaveParents [.int 2]).runOne .sqlite).Leads keyEngine friendsSchema.keys ⟨family3, none⟩ ()
        ⟨orphaned, none⟩ ∧
      (leaveParents [.int 2]).RemovesListed keyEngine (parentEdge [.int 2]) (· = .int 3) family3
        orphaned := by
  have hrun := leaveParents_leads [.int 2]
  refine ⟨hrun, ?_⟩
  have hremoves := (NodeUpdate.removed_edges (s := ⟨family3, none⟩) (d := .sqlite)
    (leaveParents_onlyRemoves (List.cons_ne_nil _ _)) (by decide)).1 (.int 3) _ rfl hrun
  refine hremoves.listed.mpr ?_
  rintro table own other hstored x v rfl hbefore -
  obtain ⟨rfl, rfl, rfl⟩ := parentEdge_storedAt hstored
  have hrows : ∀ r ∈ (family3 (nameParts "users")).rows, keyEngine.equal (r "id") (.int 3) = true →
      keyEngine.equal (r "parent_id") (.int 2) = true := by decide
  obtain ⟨r, hr, hid, hparent⟩ := hbefore
  have hlisted : keyEngine.equal v (.int 2) = true :=
    Engine.equal_trans (Engine.equal_symm hparent) (hrows r hr hid)
  refine ⟨parentEdge [.int 2], List.mem_singleton.mpr rfl, by decide, Edge.links_pair.mpr (.inl ?_)⟩
  exact ⟨.int 3, rfl, .int 2, List.mem_singleton.mpr rfl, by decide, hlisted⟩

/-- The parent is lost as well if another user is listed, who is no parent. -/
theorem unlisted_parent_lost :
    ((leaveParents [.int 99]).runOne .sqlite).Leads keyEngine friendsSchema.keys ⟨family3, none⟩ ()
        ⟨orphaned, none⟩ ∧
      (leaveParents [.int 99]).OnlyRemoves friendsSchema.keys (parentEdge [.int 99]) family3 ∧
      ¬(leaveParents [.int 99]).RemovesListed keyEngine (parentEdge [.int 99]) (· = .int 3) family3
        orphaned := by
  refine ⟨leaveParents_leads _, leaveParents_onlyRemoves (List.cons_ne_nil _ _), fun hlisted => ?_⟩
  have hstored : (parentEdge [.int 99]).StoredAt (leaveParents [.int 99]).node "users" "id"
      "parent_id" := .ownRow rfl rfl
  have hbefore : ∃ r ∈ (family3 (nameParts "users")).rows,
      keyEngine.equal (r "id") (.int 3) = true ∧
        keyEngine.equal (r "parent_id") (.int 2) = true := by decide
  have hafter : ∀ r ∈ (orphaned (nameParts "users")).rows,
      ¬(keyEngine.equal (r "id") (.int 3) = true ∧
        keyEngine.equal (r "parent_id") (.int 2) = true) := by decide
  have hspared : ¬(leaveParents [.int 99]).Lists keyEngine (parentEdge [.int 99]) (· = .int 3)
      (.int 3) (.int 2) := by
    rintro ⟨f, hf, -, hlinks⟩
    obtain rfl := List.mem_singleton.mp hf
    rcases Edge.links_pair.mp hlinks with ⟨i, -, t, ht, -, hsame⟩ | ⟨hbidi, -⟩
    · obtain rfl := List.mem_singleton.mp ht
      exact absurd hsame (by decide)
    · cases hbidi
  obtain ⟨r, hr, hpair⟩ := (hlisted _ _ _ hstored (.int 3) (.int 2) rfl).mpr ⟨hbefore, hspared⟩
  exact hafter r hr hpair

end EntityGraph
