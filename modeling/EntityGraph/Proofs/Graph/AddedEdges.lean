import EntityGraph.Proofs.Graph.EdgesReadBack
import EntityGraph.Proofs.Graph.Neighborhood
import EntityGraph.Proofs.Graph.ReferenceLinks

/-!
# Edges that survive the update that adds them

An update of one node clears edges as well as it adds some. Wherever an added edge is stored, it is
a pair of values in two columns of a row: an ID and a foreign key, or the two columns of a join
table. Of the statements that follow the one which writes the pair only the UPDATEs that clear
foreign keys can take it away, and those run after the node's own row and the join tables have been
written. So an added edge is there in the end unless such an UPDATE reaches it.
-/

set_option autoImplicit false

namespace EntityGraph

open Program

variable {E : Engine} {S : Schema} {keys : List (String × String)} {s s' : Session}
  {conn : Connection} {table c₁ c₂ : String} {p : Value × Value} {x t : Value}

/-! ## Pairs that are there -/

theorem Table.HasPair.of_subset {t t' : Table} (h : t.HasPair E c₁ c₂ p)
    (hrows : t.rows ⊆ t'.rows) : t'.HasPair E c₁ c₂ p := by
  obtain ⟨r, hr, hp⟩ := h
  exact ⟨r, hrows hr, hp⟩

namespace Edge

/-- Where an edge from a node to a target has been added, it is there: each place in which it is
stored has the pair of both. -/
structure IsPresent (E : Engine) (node : Node) (x t : Value) (e : Edge) (db : Database) : Prop where
  /-- The node's own row refers to the target. -/
  own : e.writesOwnColumn = true → ∃ fk, e.columns = [fk] ∧
    (db (nameParts node.table)).HasPair E node.id.column fk (x, t)
  /-- The target's row refers to the node. -/
  foreign : e.isForeignKeyEdge = true → ∃ fk, e.columns = [fk] ∧
    (db (nameParts e.table)).HasPair E e.target.id.column fk (t, x)
  /-- The join table has their pair, and the exchanged one if the edge serves both directions. -/
  joined : e.isManyToMany = true → ∃ c₁ c₂, e.columns = [c₁, c₂] ∧
    (db (nameParts e.table)).HasPair E c₁ c₂ (e.pair x t) ∧
      (e.bidi = true → (db (nameParts e.table)).HasPair E c₁ c₂ (e.pair x t).swap)

/-- Clearing an edge of a node takes a pair in two columns of a table away: one of the columns is
the foreign key, and it has the node. If the edge has targets and the first column has their IDs,
the pair is that of a target. -/
def Takes (E : Engine) (f : Edge) (x : Value) (table c₁ c₂ : String) (p : Value × Value) : Prop :=
  f.isForeignKeyEdge = true ∧ f.table = table ∧ ∃ fk, f.columns = [fk] ∧
    (columnName fk = c₁ ∧ E.equal p.1 x = true ∨ columnName fk = c₂ ∧ E.equal p.2 x = true) ∧
      (f.target.nodes ≠ [] → columnName f.target.id.column = c₁ →
        ∃ t ∈ f.target.nodes, E.equal p.1 t = true)

end Edge

theorem columns_oneOf (column : String) (vs : List Value) :
    (Predicate.oneOf column vs).columns = [column] := by
  unfold Predicate.oneOf
  split <;> rfl

namespace ForeignKey

variable {edges es : List Edge} {e : Edge}

/-- Clearing the edges to some targets names their ID column. -/
theorem mem_columns_clearedRows {ids : List Value} {fk : String} (h : e.target.nodes ≠ []) :
    e.target.id.column ∈ (clearedRows ids e fk).columns := by
  have hnodes : e.target.nodes.isEmpty = false := by simpa [List.isEmpty_iff] using h
  have hand : ∀ q : Predicate, ∀ column vs, ((Predicate.oneOf column vs).and q).columns =
      [column] ++ (q.columns ++ []) := by
    intro q column vs
    rw [← columns_oneOf column vs]
    unfold Predicate.oneOf
    split <;> rfl
  rw [clearedRows, hnodes, if_neg Bool.false_ne_true, Predicate.bothOneOf, hand]
  exact List.mem_cons_self

/-- Clearing an edge takes the pair of a row away if it reaches the row and its foreign key is a
column of the pair. -/
theorem takes_of_meets {db : Database} {fk : String} {r : Tuple}
    (hforeign : e.isForeignKeyEdge = true) (hfk : e.columns = [fk]) (hx : x.isNull = false)
    (hknows : e.target.nodes ≠ [] → db.knows e.table e.target.id.column = true)
    (hsame : E.SamePair (pairOf c₁ c₂ r) p) (hcolumn : columnName fk = c₁ ∨ columnName fk = c₂)
    (hmeets : db.meets E e.table (some (clearedRows [x] e fk)) r = true) :
    e.Takes E x e.table c₁ c₂ p := by
  have hparts : E.equal (r (columnName fk)) x = true ∧ (e.target.nodes ≠ [] →
      db.meets E e.table (some (.oneOf e.target.id.column e.target.nodes)) r = true) := by
    unfold clearedRows at hmeets
    split at hmeets
    case isTrue hnone =>
      exact ⟨equal_of_meets_oneOf hx hmeets, fun hsome => absurd (List.isEmpty_iff.mp hnone) hsome⟩
    case isFalse =>
      rw [Predicate.bothOneOf, meets_and, Bool.and_eq_true] at hmeets
      exact ⟨equal_of_meets_oneOf hx hmeets.2, fun _ => hmeets.1⟩
  refine ⟨hforeign, rfl, fk, hfk, ?_, fun hnodes hid => ?_⟩
  · rcases hcolumn with hc | hc
    · refine .inl ⟨hc, Engine.equal_trans (Engine.equal_symm hsame.1) ?_⟩
      rw [← hc]
      exact hparts.1
    · refine .inr ⟨hc, Engine.equal_trans (Engine.equal_symm hsame.2) ?_⟩
      rw [← hc]
      exact hparts.1
  · have hone := hparts.2 hnodes
    rw [meets_oneOf (hknows hnodes) (by rw [hid]; exact Engine.isNull_of_equal hsame.1), hid,
      List.any_eq_true] at hone
    obtain ⟨t, ht, hequal⟩ := hone
    exact ⟨t, ht, Engine.equal_trans (Engine.equal_symm hsame.1) hequal⟩

/-- Linking targets takes no pair away. -/
theorem leads_links_hasPair (h : (es.forM (link conn x)).Leads E keys s () s')
    (hp : (s.current (nameParts table)).HasPair E c₁ c₂ p) :
    (s'.current (nameParts table)).HasPair E c₁ c₂ p := by
  refine leads_forM_invariant (fun db => (db (nameParts table)).HasPair E c₁ c₂ p)
    (fun e _ t t' ht hkeep => ?_) h hp
  obtain ⟨fk, -, hnames, hcurrent, -⟩ := leads_link ht
  obtain ⟨r, hr, hsame⟩ := hkeep
  rw [hcurrent]
  refine ⟨_, Update.mem_applied hr, ?_⟩
  unfold pairOf at hsame ⊢
  rwa [linking_rowIn_keeps hnames r (.inr (Engine.isNull_of_equal hsame.1)),
    linking_rowIn_keeps hnames r (.inr (Engine.isNull_of_equal hsame.2))]

theorem leads_add_hasPair {ids : List Value}
    (h : (ForeignKey.add conn ids edges).Leads E keys s () s')
    (hp : (s.current (nameParts table)).HasPair E c₁ c₂ p) :
    (s'.current (nameParts table)).HasPair E c₁ c₂ p := by
  rcases leads_add h with ⟨-, rfl⟩ | ⟨_, -, hlinks⟩
  · exact hp
  · exact leads_links_hasPair hlinks hp

/-- Clearing foreign keys leaves a pair that they do not take away. -/
theorem leads_clear_hasPair (h : (ForeignKey.clear conn [x] edges).Leads E keys s () s')
    (hx : x.isNull = false) (hspared : ∀ f ∈ edges, ¬f.Takes E x table c₁ c₂ p)
    (hp : (s.current (nameParts table)).HasPair E c₁ c₂ p) :
    (s'.current (nameParts table)).HasPair E c₁ c₂ p := by
  unfold ForeignKey.clear at h
  split at h
  case isTrue hempty => cases hempty
  case isFalse =>
    refine leads_forM_invariant (fun db => (db (nameParts table)).HasPair E c₁ c₂ p)
      (fun f hf t t' ht hkeep => ?_) h hp
    obtain ⟨hf, hforeign⟩ := List.mem_filter.mp hf
    obtain ⟨w, mid, hlift, hdiscard⟩ := leads_bind.mp ht
    obtain ⟨hw, rfl⟩ := leads_ofExcept.mp hlift
    obtain ⟨n, hexec⟩ := leads_discard.mp hdiscard
    obtain ⟨hnames, hcurrent, -, -⟩ := leads_update hexec
    obtain ⟨fk, hfk, hclearing⟩ := clearing_eq_ok.mp hw
    obtain ⟨r, hr, hsame⟩ := hkeep
    rw [hcurrent]
    refine ⟨_, Update.mem_applied hr, ?_⟩
    rw [clearing_rowIn hw hfk]
    split
    case isFalse => exact hsame
    case isTrue hreached =>
      obtain ⟨rfl, hmeets⟩ := hreached
      rw [hclearing] at hnames
      -- the row would lose a column of the pair only if the edge took the pair away
      have hne : columnName fk ≠ c₁ ∧ columnName fk ≠ c₂ := by
        rw [← not_or]
        intro hcolumn
        refine hspared f hf
          (takes_of_meets hforeign hfk hx (fun hnodes => ?_) hsame hcolumn hmeets)
        exact hnames _ (List.mem_append_right _ (mem_columns_clearedRows hnodes))
      unfold pairOf at hsame ⊢
      rwa [Function.update_of_ne (Ne.symm hne.1), Function.update_of_ne (Ne.symm hne.2)]

/-- A target that has been linked has the node in its row. -/
theorem hasPair_of_links (h : (es.forM (link conn x)).Leads E keys s () s')
    (hs : s.current.Obeys E keys) (hx : E.equal x x = true) (hkeyed : ∀ f ∈ es, f.IsKeyed keys)
    (he : e ∈ es) (ht : t ∈ e.target.nodes) : ∃ fk, e.columns = [fk] ∧
      (s'.current (nameParts e.table)).HasPair E e.target.id.column fk (t, x) := by
  induction es generalizing s with
  | nil => cases he
  | cons f es ih =>
    obtain ⟨hf, hrest⟩ := List.forall_mem_cons.mp hkeyed
    obtain ⟨mid, hlink, hlinks⟩ := leads_forM_cons.mp h
    obtain ⟨fk, hfk, hnames, hcurrent, hcount, hobeys⟩ := leads_link hlink
    rcases List.mem_cons.mp he with rfl | he
    · refine ⟨fk, hfk, leads_links_hasPair hlinks ?_⟩
      have hkey := hs _ hf.key
      obtain ⟨r, hr, hid, hfree, hrow⟩ :=
        exists_linked (hf.plain fk hfk) hkey hnames hcount ht
      have hne : e.target.id.column ≠ fk := by
        intro heq
        rw [heq] at hid
        rw [Engine.isNull_of_equal hid] at hfree
        cases hfree
      refine ⟨Function.update r fk x, ?_, ?_, ?_⟩
      · rw [hcurrent, ← hrow]
        exact Update.mem_applied_own hr
      · show E.equal (Function.update r fk x e.target.id.column) t = true
        rwa [Function.update_of_ne hne]
      · show E.equal (Function.update r fk x fk) x = true
        rwa [Function.update_self]
    · exact ih hlinks hobeys hrest he

end ForeignKey

/-- Clearing edges of many to many leaves tables that are no join tables of them as they are. -/
theorem JoinTable.leads_clear_of_ne {name : List String} {ids : List Value} {edges : List Edge}
    (hedges : ∀ e ∈ edges, e.isManyToMany = true → nameParts e.table ≠ name)
    (h : (JoinTable.clear conn ids edges).Leads E keys s () s') :
    s'.current name = s.current name := by
  unfold JoinTable.clear at h
  split at h
  case isTrue =>
    obtain ⟨-, rfl⟩ := leads_done.mp h
    rfl
  case isFalse =>
    refine leads_forM_invariant (fun db => db name = s.current name) (fun g hg t t' ht hkeep => ?_)
      h rfl
    obtain ⟨w, _, hlift, hdiscard⟩ := leads_bind.mp ht
    obtain ⟨hw, rfl⟩ := leads_ofExcept.mp hlift
    obtain ⟨r, hexec⟩ := leads_discard.mp hdiscard
    obtain ⟨hcarried, -⟩ := leads_exec.mp hexec
    have hcurrent : t'.current = w.applied E _ := hcarried
    obtain ⟨pss, -, rfl⟩ := clearing_eq_ok.mp hw
    obtain ⟨hsome, hgroup⟩ := mem_of_groupByName hg
    obtain ⟨e, he⟩ := List.exists_mem_of_ne_nil _ hsome
    obtain ⟨he, hmany, hname⟩ := (hgroup e).mp he
    rw [hcurrent, Delete.applied_of_ne, hkeep]
    exact fun hsame => hedges e he hmany (hname ▸ hsame.symm)

/-- An UPDATE that assigns to each row that it reaches what is there already leaves the database as
it is. -/
theorem Update.applied_of_unchanged {w : Update} {db : Database}
    (h : ∀ r ∈ w.reached E db, w.assigned E r = r) : w.applied E db = db := by
  have hrow : ∀ r ∈ (db (nameParts w.table)).rows, w.rowAfter E db r = r := by
    intro r hr
    unfold Update.rowAfter
    split
    case isTrue hmeets => exact h r (List.mem_filter.mpr ⟨hr, hmeets⟩)
    case isFalse => rfl
  unfold Update.applied
  rw [List.map_congr_left (g := id) hrow, List.map_id]
  exact Function.update_eq_self _ _

namespace NodeUpdate

variable {u : NodeUpdate} {own : Update} {e : Edge} {R : Answering Session}

/-- What an update and the keys of the database are asked so that each added edge has a place. -/
structure Addable (E : Engine) (S : Schema) (u : NodeUpdate) : Prop where
  key : (u.node.table, u.node.id.column) ∈ S.keys
  targetKey : ∀ e ∈ u.edges.add, e.isForeignKeyEdge = true →
    (e.table, e.target.id.column) ∈ S.keys
  /-- The columns of edges are named without their table. -/
  plain : ∀ e ∈ u.edges.add, ∀ c ∈ e.columns, nameParts c = [c]
  /-- The database finds the targets, as it finds all IDs of stored rows. -/
  targets : ∀ e ∈ u.edges.add, ∀ t ∈ e.target.nodes, E.equal t t = true
  /-- The fields write neither the ID nor the foreign key of an added edge. -/
  fields : ∀ f ∈ u.fields.set ++ u.fields.add, columnName f.column ≠ u.node.id.column ∧
    ∀ e ∈ u.edges.add, e.writesOwnColumn = true → columnName f.column ∉ e.columns
  /-- The ID is no foreign key of an added edge. -/
  ownColumns : ∀ e ∈ u.edges.add, e.writesOwnColumn = true → e.columns ≠ [u.node.id.column]
  /-- Edges that are added to one join table share its columns. -/
  share : ∀ e ∈ u.edges.add, ∀ f ∈ u.edges.add, e.isManyToMany = true → f.isManyToMany = true →
    e.table = f.table → e.columns = f.columns
  joinTable : ∀ e ∈ u.edges.add, e.isManyToMany = true → ∀ c₁ c₂, e.columns = [c₁, c₂] →
    S.IsJoinTable e.table c₁ c₂
  /-- The table of the nodes is no join table of a cleared edge. -/
  clearedJoins : ∀ e ∈ u.edges.clear, e.isManyToMany = true → e.table ≠ u.node.table

/-- No edge that the update clears takes an added edge away, neither from the node's own row nor
from a join table. -/
structure Spares (E : Engine) (u : NodeUpdate) (x : Value) (e : Edge) (t : Value) : Prop where
  own : e.writesOwnColumn = true → ∀ fk, e.columns = [fk] → ∀ f ∈ u.edges.clear,
    ¬f.Takes E x u.node.table u.node.id.column fk (x, t)
  joined : e.isManyToMany = true → ∀ c₁ c₂, e.columns = [c₁, c₂] → ∀ f ∈ u.edges.clear,
    ¬f.Takes E x e.table c₁ c₂ (e.pair x t) ∧
      (e.bidi = true → ¬f.Takes E x e.table c₁ c₂ (e.pair x t).swap)

/-! ## The node's own row -/

/-- The number of rows that the update of the own row reports is not more than those that it
reaches. -/
theorem leads_writeOwnRow_count {n : Nat} (hown : u.ownUpdate = .ok own)
    (h : (u.writeOwnRow conn x).Leads E keys s n s') :
    n ≤ ((u.touching u.predicate own x).reached E s.current).length := by
  obtain ⟨own', mid, hlift, hrest⟩ := leads_bind.mp h
  obtain ⟨hown', rfl⟩ := leads_ofExcept.mp hlift
  obtain rfl : own = own' := Except.ok.inj (hown.symm.trans hown')
  split at hrest
  case isTrue =>
    obtain ⟨rfl, -⟩ := leads_done.mp hrest
    exact Nat.zero_le _
  case isFalse =>
    obtain ⟨result, written, hexec, hdone⟩ := leads_bind.mp hrest
    obtain ⟨rfl, -⟩ := leads_done.mp hdone
    exact (leads_update hexec).2.2.1

/-- The row of the node with an ID, if it meets the condition of the update. -/
def presence (u : NodeUpdate) (id : Value) : Selector :=
  ((Selector.ofTable u.node.table).filter (.eq u.node.id.column id)).filterOpt u.predicate

/-- The row of the node is looked for by the condition under which the UPDATE reaches it. -/
theorem isEmpty_presence {db : Database} (hown : u.ownUpdate = .ok own) :
    ((u.presence x).outRows E db []).isEmpty = true ↔
      (u.touching u.predicate own x).reached E db = [] := by
  obtain ⟨_, _, hassigns⟩ := ownUpdate_ok hown
  have htable := (u.touching_fields (E := E) u.predicate own x).1.trans hassigns.table
  have hselector : u.presence x = ⟨[], .table u.node.table none, [],
      (u.touching u.predicate own x).predicate, [], none, none, false, false⟩ := by
    unfold presence touching Update.filterOpt Update.filter
    rw [hassigns.predicate]
    cases u.predicate <;> rfl
  rw [hselector, isEmpty_outRows_table, Bool.not_eq_true', List.any_eq_false, Update.reached,
    htable, List.filter_eq_nil_iff]

/-- After an update of one node that has a result the row of the node has been there. -/
theorem reached_of_writeOne (hR : ∀ c r s s', R c r s s' → c.Answers E keys r s s')
    (hown : u.ownUpdate = .ok own) (hs : s.current.Obeys E keys)
    (h : (u.writeOne conn x).Reaches R s () s') :
    (u.touching u.predicate own x).reached E s.current ≠ [] := by
  intro hnone
  obtain ⟨_, mid, hcheck, hrest⟩ := reaches_bind.mp h
  obtain ⟨rfl, -⟩ := Partner.leads_check (hcheck.leads hR)
  obtain ⟨n, written, hwrite, hrest'⟩ := reaches_bind.mp hrest
  obtain ⟨own', hown', hwritten, -⟩ := leads_writeOwnRow (hwrite.leads hR) hs
  obtain rfl : own = own' := Except.ok.inj (hown.symm.trans hown')
  have hcount := leads_writeOwnRow_count hown (hwrite.leads hR)
  rw [hnone] at hcount
  obtain rfl : n = 0 := Nat.le_zero.mp hcount
  dsimp only at hrest'
  rw [if_pos rfl] at hrest'
  obtain ⟨present, probed, hprobe, hend⟩ := reaches_bind.mp hrest'
  obtain ⟨hpresent, -⟩ := leads_probe (hprobe.leads hR)
  cases present with
  | false => exact absurd hend reaches_fail
  | true =>
    -- no row has been reached, so the probe asks the database as it was before
    rw [hwritten, Update.applied_of_unchanged fun r hr => absurd (hnone ▸ hr) List.not_mem_nil]
      at hpresent
    have hempty := (isEmpty_presence hown).mpr hnone
    rw [presence] at hempty
    rw [hempty] at hpresent
    cases hpresent

/-- The row that has been reached has the node's ID and the targets of the edges that are added
there. -/
theorem Addable.hasPair_of_own (h : u.Addable E S) {db : Database} {fk : String}
    (hdb : db.Obeys E S.keys) (hown : u.ownUpdate = .ok own)
    (hafter : ((u.touching u.predicate own x).applied E db).Obeys E S.keys)
    (hreached : (u.touching u.predicate own x).reached E db ≠ []) (he : e ∈ u.edges.add)
    (hwrites : e.writesOwnColumn = true) (hfk : e.columns = [fk]) (ht : e.target.nodes = [t]) :
    ((u.touching u.predicate own x).applied E db (nameParts u.node.table)).HasPair E
      u.node.id.column fk (x, t) := by
  obtain ⟨sets, adds, hassigns⟩ := ownUpdate_ok hown
  obtain ⟨htable, -⟩ := u.touching_fields (E := E) u.predicate own x
  replace htable := htable.trans hassigns.table
  have hids := hdb _ h.key
  obtain ⟨r, hr⟩ := List.exists_mem_of_ne_nil _ hreached
  obtain ⟨hr, hmeets⟩ := List.mem_filter.mp hr
  rw [htable] at hr hmeets
  have htouches : u.Touches E db u.predicate own x u.node.table r := ⟨rfl, hmeets⟩
  have hmem : own.assigned E r ∈
      ((u.touching u.predicate own x).applied E db (nameParts u.node.table)).rows := by
    rw [Update.applied_rows]
    exact List.mem_map.mpr ⟨r, hr, rowIn_of_touches hassigns.table htouches⟩
  -- a column that the update sets is that of a field or that of an edge
  have hsource : ∀ a ∈ sets, (∃ f ∈ u.fields.set, columnName a.1 = columnName f.column) ∨
      ∃ g ∈ u.edges.add, g.writesOwnColumn = true ∧ g.IsLinkedAs a ∧ columnName a.1 = a.1 := by
    intro a ha
    rcases Node.mem_ownColumns hassigns.columns ha with ⟨f, hf, -, hcolumn⟩ |
      ⟨g, hg, hown', hlinked⟩
    · exact .inl ⟨f, hf, by rw [hcolumn]⟩
    · exact .inr ⟨g, hg, hown', hlinked, columnName_plain (h.plain g hg _ (by simp [hlinked.1]))⟩
  have hincrements : ∀ a ∈ adds, ∃ f ∈ u.fields.set ++ u.fields.add, a.1 = f.column := by
    intro a ha
    obtain ⟨f, hf, hcolumn⟩ := hassigns.increments a ha
    exact ⟨f, List.mem_append_right _ hf, hcolumn⟩
  refine ⟨own.assigned E r, hmem, ?_, ?_⟩
  · show E.equal (own.assigned E r u.node.id.column) x = true
    have hnone : ∀ a ∈ sets, columnName a.1 ≠ u.node.id.column := by
      intro a ha hc
      rcases hsource a ha with ⟨f, hf, hcolumn⟩ | ⟨g, hg, hown', hlinked, hname⟩
      · exact (h.fields f (List.mem_append_left _ hf)).1 (hcolumn.symm.trans hc)
      · exact h.ownColumns g hg hown' (by rw [hlinked.1, ← hname, hc])
    have hadds : ∀ a ∈ adds, columnName a.1 ≠ u.node.id.column := by
      intro a ha
      obtain ⟨f, hf, hcolumn⟩ := hincrements a ha
      exact hcolumn ▸ (h.fields f hf).1
    rcases hassigns.assigned (v := .null) (fun a ha hc => absurd hc (hnone a ha)) hadds r with
      ⟨-, a, ha, hc⟩ | ⟨hkept | hlost, -⟩
    · exact absurd hc (hnone a ha)
    · rw [hkept]
      exact Engine.equal_of_picks (hids.present r hr) (htouches.picks hids.toHasColumn)
    · rw [(hafter _ h.key).present _ hmem] at hlost
      cases hlost
  · show E.equal (own.assigned E r fk) t = true
    have hvalue : ∀ a ∈ sets, columnName a.1 = fk → a.2 = t := by
      intro a ha hc
      rcases hsource a ha with ⟨f, hf, hcolumn⟩ | ⟨g, hg, hown', hlinked, hname⟩
      · refine absurd ?_ ((h.fields f (List.mem_append_left _ hf)).2 e he hwrites)
        rw [hfk, ← hcolumn, hc]
        exact List.mem_singleton.mpr rfl
      · have hsame : g.columns = e.columns := by rw [hlinked.1, hfk, ← hname, hc]
        obtain rfl := Node.eq_of_ownColumns hassigns.columns hg he hown' hwrites hsame
        obtain ⟨rest, htarget⟩ := hlinked.2
        rw [ht] at htarget
        exact (List.cons.inj htarget).1.symm
    obtain ⟨a, ha, hlinked⟩ := Node.exists_ownColumn hassigns.columns he hwrites
    have hname : columnName a.1 = fk := by
      have hsame : a.1 = fk := by simpa using hlinked.1.symm.trans hfk
      rw [hsame, columnName_plain (h.plain e he fk (by simp [hfk]))]
    have hadds : ∀ a ∈ adds, columnName a.1 ≠ fk := by
      rintro a ha rfl
      obtain ⟨f, hf, hcolumn⟩ := hincrements a ha
      refine (h.fields f hf).2 e he hwrites ?_
      rw [hfk, ← hcolumn]
      exact List.mem_singleton.mpr rfl
    rcases hassigns.assigned hvalue hadds r with ⟨hset, -⟩ | ⟨-, hnone⟩
    · rw [hset]
      exact h.targets e he t (by simp [ht])
    · exact absurd hname (hnone a ha)

/-! ## All places -/

/-- The row that has been reached is found by the node's ID. -/
theorem Addable.equal_self (h : u.Addable E S) {db : Database} (hdb : db.Obeys E S.keys)
    (hown : u.ownUpdate = .ok own)
    (hreached : (u.touching u.predicate own x).reached E db ≠ []) : E.equal x x = true := by
  obtain ⟨_, _, hassigns⟩ := ownUpdate_ok hown
  have htable := (u.touching_fields (E := E) u.predicate own x).1.trans hassigns.table
  have hids := hdb _ h.key
  obtain ⟨r, hr⟩ := List.exists_mem_of_ne_nil _ hreached
  obtain ⟨hr, hmeets⟩ := List.mem_filter.mp hr
  rw [htable] at hr hmeets
  have htouches : u.Touches E db u.predicate own x u.node.table r := ⟨rfl, hmeets⟩
  have hid := Engine.equal_of_picks (hids.present r hr) (htouches.picks hids.toHasColumn)
  exact Engine.equal_trans (Engine.equal_symm hid) hid

/-- An edge that an update of one node adds is there after the update has its result, whatever edges
the update clears, unless one of these takes it away: the added edge is stored in the column that is
cleared, and has the node there. Foreign keys in the rows of targets are never taken away. -/
theorem added_edges_present {d : Dialect} (h : u.Addable E S) (hs : s.current.Obeys E S.keys)
    (hx : u.node.id.bindValue = .ok x) (hrun : (u.runOne d).Reaches (Call.Records E S) s () s')
    (he : e ∈ u.edges.add) (ht : t ∈ e.target.nodes) (hspared : u.Spares E x e t) :
    e.IsPresent E u.node x t s'.current := by
  have hanswers : ∀ c r s s', Call.Records E S c r s s' → c.Answers E S.keys r s s' :=
    fun _ _ _ _ => Call.Records.answers
  obtain ⟨hnull, hcheck, inside, start, mid, hstart, hbody, hs'⟩ := reaches_runOne hanswers hx hrun
  obtain ⟨_, hadd, -⟩ := bind_eq_ok.mp hcheck
  have hcomplete := Edge.isComplete_of_check (forM_eq_ok.mp hadd e he)
  have hself := h.targets e he t ht
  rw [← hstart] at hs
  obtain ⟨-, own, written, changed, hown, hwritten, hobeys, hchange, hmid⟩ :=
    reaches_writeOne hanswers hbody hs
  have hreached := reached_of_writeOne hanswers hown hs hbody
  rw [hs', hmid]
  obtain ⟨_, dropped, hdrop, hrest⟩ := reaches_bind.mp hchange
  obtain ⟨_, joined, hjoin, hforeignKeys⟩ := reaches_bind.mp hrest
  obtain ⟨_, cleared, hclear, hlink⟩ := reaches_bind.mp hforeignKeys
  obtain ⟨-, -, hdropped⟩ := JoinTable.leads_clear (List.cons_ne_nil x []) (hdrop.leads hanswers)
    (rfl : (written.current []).columns = (written.current []).columns) hobeys
  have hjoined := (JoinTable.reaches_add_keeps hdropped hjoin).1
  obtain ⟨-, -, hcleared⟩ := ForeignKey.leads_clear (List.cons_ne_nil x []) (hclear.leads hanswers)
    (rfl : (joined.current []).columns = (joined.current []).columns) hjoined
  -- what is there once the join tables have been written is there in the end
  have hkept : ∀ {table c₁ c₂ p}, (∀ f ∈ u.edges.clear, ¬f.Takes E x table c₁ c₂ p) →
      (joined.current (nameParts table)).HasPair E c₁ c₂ p →
      (changed.current (nameParts table)).HasPair E c₁ c₂ p := by
    intro table c₁ c₂ p htakes hp
    exact ForeignKey.leads_add_hasPair (hlink.leads hanswers)
      (ForeignKey.leads_clear_hasPair (hclear.leads hanswers) hnull htakes hp)
  have hxx := h.equal_self hs hown hreached
  refine ⟨fun hwrites => ?own, fun hforeign => ?foreign, fun hmany => ?joined⟩
  case own =>
    obtain ⟨fk, hfk⟩ := hcomplete.exists_foreignKey (Edge.isManyToMany_of_own hwrites)
    refine ⟨fk, hfk, hkept (hspared.own hwrites fk hfk) ?_⟩
    obtain ⟨t', ht'⟩ := hcomplete.single (.inr hwrites)
    obtain rfl : t = t' := by simpa [ht'] using ht
    have hpair := h.hasPair_of_own hs hown (hwritten ▸ hobeys) hreached he hwrites hfk ht'
    rw [← hwritten] at hpair
    have hsame := JoinTable.leads_clear_of_ne (fun f hf hmany hname =>
      h.clearedJoins f hf hmany (nameParts_injective hname)) (hdrop.leads hanswers)
    rw [← hsame] at hpair
    exact hpair.of_subset (JoinTable.reaches_add_subset hjoin _)
  case foreign =>
    have hmem : e ∈ u.edges.add.filter fun e => e.isForeignKeyEdge && !e.target.nodes.isEmpty := by
      refine List.mem_filter.mpr ⟨he, ?_⟩
      rw [hforeign, Bool.true_and, List.isEmpty_eq_false_iff.mpr hcomplete.nodes]
      rfl
    rcases ForeignKey.leads_add (hlink.leads hanswers) with ⟨hnone, -⟩ | ⟨_, hids, hlinks⟩
    · rw [hnone] at hmem
      cases hmem
    · obtain rfl := List.singleton_inj.mp hids
      refine ForeignKey.hasPair_of_links hlinks hcleared hxx (fun f hf => ?_) hmem ht
      obtain ⟨hf, hforeign'⟩ := List.mem_filter.mp hf
      refine ⟨h.targetKey f hf (Bool.and_eq_true_iff.mp hforeign').1, fun fk hfk => ?_, ?_⟩
      · exact h.plain f hf fk (by simp [hfk])
      · exact fun t ht => Engine.isNull_of_equal (h.targets f hf t ht)
  case joined =>
    obtain ⟨c₁, c₂, hcolumns⟩ := hcomplete.exists_columns hmany
    have hadded : ∀ p, e.Links E (· ∈ [x]) p →
        (joined.current (nameParts e.table)).HasPair E c₁ c₂ p := by
      intro p hlinks
      refine (JoinTable.reaches_add (fun link hlink hmany' htable => ?_)
        (h.joinTable e he hmany c₁ c₂ hcolumns) hjoin).mpr (.inr ?_)
      · obtain ⟨f, hf, rfl⟩ := List.mem_map.mp hlink
        rw [← hcolumns]
        exact h.share f hf e he hmany' hmany htable
      · exact ⟨_, List.mem_map_of_mem he, hmany, rfl, hlinks⟩
    have hpair : E.SamePair (e.pair x t) (e.pair x t) := by
      rw [Edge.samePair_pair, Edge.ownEnd_pair, Edge.ownEnd_swap_pair]
      exact ⟨hxx, hself⟩
    have hspares := hspared.joined hmany c₁ c₂ hcolumns
    have hx := List.mem_singleton.mpr (Eq.refl x)
    refine ⟨c₁, c₂, hcolumns, hkept (fun f hf => (hspares f hf).1) (hadded _ ?_), fun hbidi => ?_⟩
    · exact ⟨x, hx, t, ht, .inl hpair⟩
    · refine hkept (fun f hf => (hspares f hf).2 hbidi) (hadded _ ?_)
      exact ⟨x, hx, t, ht, .inr ⟨hbidi, hpair⟩⟩

end NodeUpdate

/-! ## A new parent -/

/-- The edge from a user to parents. -/
def parentEdge (parents : List Value) : Edge :=
  let e := Edge.manyToOne "users" "parent_id"
  { e with target := { e.target with nodes := parents } }

/-- A user gets a parent, and all children of the user are cleared. -/
def adopt (user parent : Int64) : NodeUpdate :=
  { NodeUpdate.ofNode (.ofTable "users" { column := "id", type := .int, value := .int user }) with
    edges := { add := [parentEdge [.int parent]], clear := [.oneToMany "users" "parent_id"] } }

/-- The UPDATE of the user's own row. -/
def setParent (user parent : Int64) : Update :=
  ((Update.ofTable "users").set "parent_id" (.int parent)).filter (.eq "id" (.int user))

/-- The UPDATE that clears the children. -/
def clearChildren (user : Int64) : Update :=
  ((Update.ofTable "users").setNull "parent_id").filter (.oneOf "parent_id" [.int user])

/-- The run of such an update. -/
def adoptRun (user parent : Int64) : List Exchange :=
  [⟨.begin, true, (.done () : Outcome Unit)⟩,
    ⟨.exec true (.update (setParent user parent)), true, (.done ⟨1, none⟩ : Outcome ExecResult)⟩,
    ⟨.exec true (.update (clearChildren user)), true, (.done ⟨1, none⟩ : Outcome ExecResult)⟩,
    ⟨.check, true, .ok ()⟩, ⟨.commit, true, .ok ()⟩]

/-- The third user is a child of the second. -/
def family3 : Database :=
  familyDatabase [userRow (.int 1) .null .null, userRow (.int 2) .null .null,
    userRow (.int 3) (.int 2) .null] []

/-- The database between the two statements. -/
def adopted (user parent : Int64) : Database := (setParent user parent).applied keyEngine family3

/-- The database after the run. -/
def adoptAfter (user parent : Int64) : Database :=
  (clearChildren user).applied keyEngine (adopted user parent)

theorem adopt_reaches {user parent : Int64}
    (hset : ∀ name ∈ (setParent user parent).names, family3.knows "users" name = true)
    (hone : 1 ≤ ((setParent user parent).reached keyEngine family3).length)
    (hobeys : (adopted user parent).Obeys keyEngine friendsSchema.keys)
    (hclear : ∀ name ∈ (clearChildren user).names,
      (adopted user parent).knows "users" name = true)
    (hchild : 1 ≤ ((clearChildren user).reached keyEngine (adopted user parent)).length)
    (hafter : (adoptAfter user parent).Obeys keyEngine friendsSchema.keys) :
    ((adopt user parent).runOne .sqlite).Reaches (Call.Records keyEngine friendsSchema)
      ⟨family3, none⟩ () ⟨adoptAfter user parent, none⟩ := by
  refine ⟨adoptRun user parent, ?_, ?_⟩
  · apply Run.call
    apply Run.call
    apply Run.call
    apply Run.call
    apply Run.call
    exact .done _
  · refine ⟨_, ⟨rfl, trivial⟩, ⟨adopted user parent, some family3⟩, ?_, ?_⟩
    · exact ⟨⟨⟨hset, rfl⟩, hone, hobeys, rfl⟩, trivial⟩
    · refine ⟨⟨adoptAfter user parent, some family3⟩, ?_, ?_⟩
      · exact ⟨⟨⟨hclear, rfl⟩, hchild, hafter, rfl⟩, trivial⟩
      · exact ⟨_, ⟨rfl, trivial⟩, _, ⟨rfl, trivial⟩, rfl⟩

/-- The second user becomes a child of the first and loses the third as a child. The new parent is
stored in the column that is cleared, but in a row that does not refer to the second user. -/
theorem added_edges_present_adopt :
    ((adopt 2 1).runOne .sqlite).Reaches (Call.Records keyEngine friendsSchema) ⟨family3, none⟩ ()
        ⟨adoptAfter 2 1, none⟩ ∧
      (parentEdge [.int 1]).IsPresent keyEngine (adopt 2 1).node (.int 2) (.int 1)
        (adoptAfter 2 1) := by
  have hrun : ((adopt 2 1).runOne .sqlite).Reaches (Call.Records keyEngine friendsSchema)
      ⟨family3, none⟩ () ⟨adoptAfter 2 1, none⟩ :=
    adopt_reaches (by decide) (by decide) (by decide) (by decide) (by decide) (by decide)
  have hnone : ∀ e ∈ (adopt 2 1).edges.add, e.isManyToMany = false := by decide
  have haddable : (adopt 2 1).Addable keyEngine friendsSchema := by
    refine ⟨by decide, by decide, by decide, by decide, by decide, by decide, by decide, ?_,
      by decide⟩
    intro e he hmany
    rw [hnone e he] at hmany
    cases hmany
  refine ⟨hrun, ?_⟩
  refine NodeUpdate.added_edges_present (s := ⟨family3, none⟩) haddable (by decide) rfl hrun
    (List.mem_singleton.mpr rfl) (List.mem_singleton.mpr rfl) ⟨?_, fun hmany => ?_⟩
  · rintro - fk hfk f hf ⟨-, -, fk', hfk', hcolumn, -⟩
    obtain rfl := List.mem_singleton.mp hf
    obtain rfl := List.singleton_inj.mp hfk
    obtain rfl := List.singleton_inj.mp hfk'
    rcases hcolumn with ⟨hid, -⟩ | ⟨-, hsame⟩
    · exact absurd hid (by decide)
    · exact absurd hsame (by decide)
  · rw [hnone _ (List.mem_singleton.mpr rfl)] at hmany
    cases hmany

/-- If the first user becomes a child of the first, the reference is written first and cleared
afterwards. -/
theorem own_parent_cleared :
    ((adopt 1 1).runOne .sqlite).Reaches (Call.Records keyEngine friendsSchema) ⟨family3, none⟩ ()
        ⟨adoptAfter 1 1, none⟩ ∧
      ¬(parentEdge [.int 1]).IsPresent keyEngine (adopt 1 1).node (.int 1) (.int 1)
        (adoptAfter 1 1) := by
  refine ⟨adopt_reaches (by decide) (by decide) (by decide) (by decide) (by decide) (by decide),
    fun hpresent => ?_⟩
  obtain ⟨fk, hfk, r, hr, -, hparent⟩ := hpresent.own rfl
  obtain rfl := List.singleton_inj.mp hfk
  have hnone : ∀ r ∈ (adoptAfter 1 1 (nameParts "users")).rows,
      keyEngine.equal (r "parent_id") (.int 1) = false := by decide
  exact absurd hparent (by simpa [pairOf] using hnone r hr)

end EntityGraph
