import EntityGraph.Proofs.Graph.OneToOne

/-!
# Updates keep partners unique

The foreign key of a relation of one to one has no value twice after an update that has a result,
provided that it had none twice before, if and only if the edge that is added without a probe
replaces the partners of its ends. Both the update of one node and that of many are covered.
-/

set_option autoImplicit false

namespace EntityGraph

open Program

variable {E : Engine} {keys : List (String × String)}

/-! ## Links -/

namespace ForeignKey

variable {s s' : Session} {conn : Connection} {id target : Value} {table c : String} {e : Edge}

/-- What linking the targets of edges, one of which is stored in a column, makes of the column. -/
theorem leads_links_one {before after : List Edge}
    (hothers : ∀ f ∈ before ++ after, f.table = table → ∀ fk, f.columns = [fk] → c ≠ columnName fk)
    (htable : e.table = table) (hcolumns : e.columns = [c]) (htarget : e.target.nodes = [target])
    (hc : columnName c = c) (hkey : (s.current (nameParts table)).HasKey E e.target.id.column)
    (h : ((before ++ e :: after).forM (link conn id)).Leads E keys s () s')
    (hs : s.current.Obeys E keys) :
    ∃ g : Tuple → Tuple,
      (s'.current (nameParts table)).rows = (s.current (nameParts table)).rows.map g ∧
      (∀ r ∈ (s.current (nameParts table)).rows, g r c =
        if E.picks (r e.target.id.column) target && (r c).isNull then id else r c) ∧
      ∃ q ∈ (s.current (nameParts table)).rows,
        (E.picks (q e.target.id.column) target && (q c).isNull) = true := by
  subst htable
  obtain ⟨mid, hbefore, hrest⟩ := leads_forM_append h
  obtain ⟨linked, hlink, hafter⟩ := leads_forM_cons.mp hrest
  obtain ⟨⟨-, g, hg, hkeeps⟩, hobeys⟩ := leads_links_keep
    (fun f hf => hothers f (List.mem_append_left _ hf)) hbefore hs
  obtain ⟨fk, hfk, hnames, hcurrent, hcount, hobeys'⟩ := leads_link hlink
  obtain rfl : c = fk := by simpa using hcolumns.symm.trans hfk
  obtain ⟨⟨-, g', hg', hkeeps'⟩, -⟩ := leads_links_keep
    (fun f hf => hothers f (List.mem_append_right _ hf)) hafter hobeys'
  have hid := columnName_plain hkey.plain
  -- the links before it change neither the key nor the column
  have hsame : ∀ r ∈ (s.current (nameParts e.table)).rows,
      (E.picks (g r e.target.id.column) target && (g r c).isNull) =
        (E.picks (r e.target.id.column) target && (r c).isNull) := by
    intro r hr
    rw [(hkeeps r).1, (hkeeps r).2 _ (hkey.present r hr)]
  refine ⟨g' ∘ (linking id c e).rowIn E mid.current (nameParts e.table) ∘ g, ?_, ?_, ?_⟩
  · rw [hg', hcurrent, Update.applied_rows, hg, List.map_map, List.map_map]
    rfl
  · intro r hr
    rw [Function.comp_apply, (hkeeps' _).1, Function.comp_apply, linking_rowIn htarget hnames,
      hid, hc, hsame r hr]
    split
    case isTrue => exact Function.update_self c id (g r)
    case isFalse => exact (hkeeps r).1
  · have hreached : 0 < ((linking id c e).reached E mid.current).length := by
      rw [htarget] at hcount
      exact hcount
    obtain ⟨x, hx⟩ := List.exists_mem_of_length_pos hreached
    obtain ⟨hx, hmeets⟩ := List.mem_filter.mp hx
    have hx : x ∈ (mid.current (nameParts e.table)).rows := hx
    rw [hg] at hx
    obtain ⟨q, hq, rfl⟩ := List.mem_map.mp hx
    have hmeets : mid.current.meets E e.table (linking id c e).predicate (g q) = true := hmeets
    rw [linking_meets htarget hnames, hid, hc, hsame q hq] at hmeets
    exact ⟨q, hq, hmeets⟩

end ForeignKey

namespace NodeUpdate

variable {u : NodeUpdate} {table c : String} {s s' : Session} {conn : Connection} {id : Value}

/-- The IDs of a node and of the targets that are linked to it in a table are keys. -/
structure Keyed (keys : List (String × String)) (u : NodeUpdate) (table c : String) : Prop where
  node : (u.node.table, u.node.id.column) ∈ keys
  targets : ∀ e ∈ u.edges.add, e.isStoredIn u.node table c = true → e.isForeignKeyEdge = true →
    (table, e.target.id.column) ∈ keys

theorem Keyed.node_hasKey (h : u.Keyed keys table c) {db : Database} (hdb : db.Obeys E keys) :
    (db (nameParts u.node.table)).HasKey E u.node.id.column :=
  hdb (u.node.table, u.node.id.column) h.node

theorem Keyed.target_hasKey (h : u.Keyed keys table c) {db : Database} (hdb : db.Obeys E keys)
    {e : Edge} (he : e ∈ u.edges.add) (hstored : e.isStoredIn u.node table c = true)
    (hforeign : e.isForeignKeyEdge = true) :
    (db (nameParts table)).HasKey E e.target.id.column :=
  hdb (table, e.target.id.column) (h.targets e he hstored hforeign)

/-- An edge that passes the checks of an update has a target. -/
theorem exists_target_of_check (h : u.check = .ok ()) {e : Edge} (he : e ∈ u.edges.add)
    (hone : e.isOneToOne = true) : ∃ target, e.target.nodes = [target] := by
  obtain ⟨_, hadd, -⟩ := bind_eq_ok.mp h
  exact (Edge.isComplete_of_check (forM_eq_ok.mp hadd e he)).single (.inl hone)

namespace LinksOnce

theorem not_stored_of_append (h : u.LinksOnce table c) {e : Edge} {before after : List Edge}
    (hsplit : u.edges.add.filter (fun e => e.isForeignKeyEdge && !e.target.nodes.isEmpty) =
      before ++ e :: after) (hstored : e.isStoredIn u.node table c = true) :
    ∀ f ∈ before ++ after, f.isStoredIn u.node table c = false := by
  have honce : ((before ++ e :: after).filter (Edge.isStoredIn u.node table c)).length ≤ 1 := by
    rw [← hsplit]
    exact Nat.le_trans (List.filter_sublist.filter _).length_le h.once
  intro f hf
  rw [Bool.eq_false_iff]
  intro hf'
  have hpos := List.length_pos_of_mem (List.mem_filter.mpr ⟨hf, hf'⟩)
  rw [List.filter_append, List.length_append] at hpos
  rw [List.filter_append, List.filter_cons_of_pos hstored, List.length_append,
    List.length_cons] at honce
  omega

/-- What linking the targets of an update makes of the column: a target's row gets the node if there
is an edge that is stored there, and otherwise nothing changes. -/
theorem leads_add (h : u.LinksOnce table c) (hkeyed : u.Keyed keys table c)
    (hc : columnName c = c)
    (htargets : ∀ e ∈ u.edges.add, e.isStoredIn u.node table c = true →
      ∃ target, e.target.nodes = [target])
    (hadd : (ForeignKey.add conn [id] u.edges.add).Leads E keys s () s')
    (hs : s.current.Obeys E keys) :
    ∃ g : Tuple → Tuple,
      (s'.current (nameParts table)).rows = (s.current (nameParts table)).rows.map g ∧
      ((∀ e ∈ u.edges.add, e.isStoredIn u.node table c = true → e.isForeignKeyEdge = false) ∧
          (∀ r, g r c = r c) ∨
        ∃ e ∈ u.edges.add, ∃ target, e.isStoredIn u.node table c = true ∧
          e.isForeignKeyEdge = true ∧ e.target.nodes = [target] ∧
          (∀ r ∈ (s.current (nameParts table)).rows, g r c =
            if E.picks (r e.target.id.column) target && (r c).isNull then id else r c) ∧
          ∃ q ∈ (s.current (nameParts table)).rows,
            (E.picks (q e.target.id.column) target && (q c).isNull) = true) := by
  have hne : ∀ f : Edge, f.isForeignKeyEdge = true → f.isStoredIn u.node table c = false →
      f.table = table → ∀ fk, f.columns = [fk] → c ≠ columnName fk := by
    rintro f hf hstored htable fk hcolumns rfl
    simp [Edge.isStoredIn, hcolumns, hf, htable] at hstored
  by_cases hforeign : ∃ e ∈ u.edges.add, e.isStoredIn u.node table c = true ∧
      e.isForeignKeyEdge = true
  · obtain ⟨e, he, hstored, hfk⟩ := hforeign
    obtain ⟨target, htarget⟩ := htargets e he hstored
    have hmem : e ∈ u.edges.add.filter fun e => e.isForeignKeyEdge && !e.target.nodes.isEmpty := by
      refine List.mem_filter.mpr ⟨he, ?_⟩
      rw [hfk, htarget]
      rfl
    rcases ForeignKey.leads_add hadd with ⟨hnil, -⟩ | ⟨id', hid, hlinks⟩
    · rw [hnil] at hmem
      cases hmem
    · obtain rfl : id = id' := by simpa using hid
      obtain ⟨before, after, hsplit⟩ := List.append_of_mem hmem
      have hothers := h.not_stored_of_append hsplit hstored
      have hall : ∀ f ∈ before ++ after, f.isForeignKeyEdge = true := by
        intro f hf
        have hf : f ∈ before ++ e :: after := by
          rcases List.mem_append.mp hf with hf | hf
          · exact List.mem_append_left _ hf
          · exact List.mem_append_right _ (List.mem_cons_of_mem e hf)
        rw [← hsplit] at hf
        exact (Bool.and_eq_true_iff.mp (List.mem_filter.mp hf).2).1
      rw [hsplit] at hlinks
      obtain ⟨hone, htable, hcolumns⟩ := h.relation e he hstored
      have hkey := hkeyed.target_hasKey hs he hstored hfk
      obtain ⟨g, hg, hvalue, hlinked⟩ := ForeignKey.leads_links_one
        (fun f hf => hne f (hall f hf) (hothers f hf)) htable hcolumns htarget hc hkey hlinks hs
      exact ⟨g, hg, .inr ⟨e, he, target, hstored, hfk, htarget, hvalue, hlinked⟩⟩
  · have hnone : ∀ e ∈ u.edges.add, e.isStoredIn u.node table c = true →
        e.isForeignKeyEdge = false := by
      intro e he hstored
      rw [Bool.eq_false_iff]
      intro hfk
      exact hforeign ⟨e, he, hstored, hfk⟩
    rcases ForeignKey.leads_add hadd with ⟨-, rfl⟩ | ⟨id', -, hlinks⟩
    · exact ⟨fun r => r, (List.map_id' _).symm, .inl ⟨hnone, fun r => rfl⟩⟩
    · obtain ⟨⟨-, g, hg, hkeeps⟩, -⟩ := ForeignKey.leads_links_keep (c := c)
        (fun f hf => by
          obtain ⟨hf, hlinks⟩ := List.mem_filter.mp hf
          have hfk := (Bool.and_eq_true_iff.mp hlinks).1
          refine hne f hfk ?_
          rw [Bool.eq_false_iff]
          intro hstored
          rw [hnone f hf hstored] at hfk
          cases hfk) hlinks hs
      exact ⟨g, hg, .inl ⟨hnone, fun r => (hkeeps r).1⟩⟩

/-! ## Whole updates -/

/-- An update of a single node whose edges have passed the probes. -/
theorem unique_iff_replaces (h : u.LinksOnce table c) (hkeyed : u.Keyed keys table c)
    {p : Option Predicate} {own : Update} {db : Database} {written : Session}
    (hcolumn : (db (nameParts table)).HasColumn c) (hdb : db.Obeys E keys)
    (hunique : (db (nameParts table)).Unique E c)
    (htargets : ∀ e ∈ u.edges.add, e.isStoredIn u.node table c = true →
      ∃ target, e.target.nodes = [target])
    (hpartners : ∀ e ∈ u.edges.add, e.isOneToOne = true →
      (u.edges.clear.any fun f => f.sameRelation e) = false →
        Partner.Unclaimed E db u.node (some id) e)
    (hown : u.ownUpdate = .ok own)
    (hwritten : written.current = (u.touching p own id).applied E db)
    (hobeys : written.current.Obeys E keys)
    (hchange : (ExternalEdges.change conn [id] u.edges).Leads E keys written () s') :
    (s'.current (nameParts table)).Unique E c ↔ u.Replaces E db p id table c := by
  obtain ⟨sets, adds, hassigns⟩ := ownUpdate_ok hown
  have hcolumns : (written.current (nameParts table)).columns = (db (nameParts table)).columns := by
    rw [hwritten, Update.applied_columns]
  obtain ⟨cleared, hrows, hobeys', hadd⟩ := ExternalEdges.leads_change (List.cons_ne_nil id [])
    h.joins hchange hcolumns hobeys
  have hrows : (cleared.current (nameParts table)).rows =
      (db (nameParts table)).rows.filterMap (u.unlinked E db p id table) := by
    rw [hrows, hwritten, Update.applied_rows, List.filterMap_map, funext (unlinked_eq hown)]
    rfl
  have hid : u.node.table = table → (db (nameParts table)).HasKey E u.node.id.column := by
    rintro rfl
    exact hkeyed.node_hasKey hdb
  obtain ⟨g, hg, hlinks⟩ := h.leads_add hkeyed (columnName_plain hcolumn.plain) htargets hadd
    hobeys'
  have hkeeps : ∀ r ∈ (cleared.current (nameParts table)).rows, (r c).isNull = false →
      g r c = r c := by
    intro r hr hpresent
    rcases hlinks with ⟨-, hsame⟩ | ⟨e, -, target, -, -, -, hvalue, -⟩
    · exact hsame r
    · rw [hvalue r hr, hpresent, Bool.and_false]
      rfl
  unfold Table.Unique
  rw [hg]
  constructor
  · intro hfinal e he hstored _ target _
    refine frees_of_linked_pairwise hrows hkeeps (fun hfk => ?_) hfinal
    rcases hlinks with ⟨hnone, -⟩ | ⟨e', he', target', hstored', -, -, hvalue, q, hq, hlinked⟩
    · rw [hnone e he hstored] at hfk
      cases hfk
    · refine ⟨q, hq, (Bool.and_eq_true_iff.mp hlinked).2, ?_⟩
      rw [hvalue q hq, if_pos hlinked]
  · intro hreplaces
    have hfrees : ∀ e ∈ u.edges.add, e.isStoredIn u.node table c = true →
        ∃ target, e.target.nodes = [target] ∧ u.Frees E db p id table c e target := by
      intro e he hstored
      obtain ⟨target, htarget⟩ := htargets e he hstored
      obtain ⟨hone, htable, hcolumns⟩ := h.relation e he hstored
      refine ⟨target, htarget, ?_⟩
      cases hclear : u.edges.clear.any fun f => f.sameRelation e with
      | true => exact hreplaces e he hstored hclear target (by simp [htarget])
      | false =>
        exact frees_of_unclaimed hcolumn (hkeyed.node_hasKey hdb).toHasColumn
          (fun hfk => (hkeyed.target_hasKey hdb he hstored hfk).toHasColumn) htable hcolumns htarget
          (hpartners e he hone hclear)
    have hbefore := h.unlinked_pairwise hown hassigns hid hunique hfrees
    have hcleared : (cleared.current (nameParts table)).Unique E c := by
      unfold Table.Unique
      rw [hrows, List.pairwise_filterMap]
      exact hbefore
    rcases hlinks with ⟨-, hsame⟩ | ⟨e, he, target, hstored, hfk, htarget, hvalue, -⟩
    · rw [List.pairwise_map]
      refine hcleared.imp fun hapart => ?_
      rwa [hsame, hsame]
    · obtain ⟨target', htarget', hfree⟩ := hfrees e he hstored
      obtain rfl : target = target' := by simpa using htarget.symm.trans htarget'
      have hkey := hkeyed.target_hasKey hdb he hstored hfk
      have hkey' := hkeyed.target_hasKey hobeys' he hstored hfk
      exact h.linked_pairwise hown hassigns he hstored htarget hfk hfree hid hkey hrows hkey'
        hcleared hvalue

/-- The UPDATE of the nodes' own rows keeps the values apart if it links none of them. -/
theorem unique_of_own_rows (h : u.LinksOnce table c) {own w : Update} {db : Database}
    (hnone : ∀ e ∈ u.edges.add, e.isStoredIn u.node table c = false)
    (hunique : (db (nameParts table)).Unique E c) (hown : u.ownUpdate = .ok own)
    (htable : w.table = own.table) (hassigned : w.assigned E = own.assigned E) :
    (w.applied E db (nameParts table)).Unique E c := by
  obtain ⟨sets, adds, hassigns⟩ := ownUpdate_ok hown
  unfold Table.Unique
  rw [Update.applied_rows, ← List.filterMap_eq_map]
  refine pairwise_of_keeps hunique fun r _ r' hr' => ?_
  obtain rfl := Option.some.inj hr'
  unfold Update.rowIn Update.rowAfter
  split
  case isFalse => exact .inl rfl
  case isTrue hname =>
    split
    case isFalse => exact .inl rfl
    case isTrue =>
      have hnode : u.node.table = table := by
        rw [← hassigns.table, ← htable]
        exact nameParts_injective hname
      rw [hassigned]
      refine h.assigned_none hnode hassigns (fun e he hstored => ?_) r
      rw [hnone e he] at hstored
      cases hstored

/-- Changes of edges keep the values apart if no edge is stored there. -/
theorem unique_of_edges (h : u.LinksOnce table c) (hkeyed : u.Keyed keys table c)
    (hc : columnName c = c) {ids : List Value} (hids : ids ≠ [])
    (hnone : ∀ e ∈ u.edges.add, e.isStoredIn u.node table c = false)
    (hunique : (s.current (nameParts table)).Unique E c) (hs : s.current.Obeys E keys)
    (hchange : (ExternalEdges.change conn ids u.edges).Leads E keys s () s') :
    (s'.current (nameParts table)).Unique E c := by
  obtain ⟨cleared, hrows, hobeys, hadd⟩ := ExternalEdges.leads_change hids h.joins hchange rfl hs
  have hcleared : (cleared.current (nameParts table)).Unique E c := by
    unfold Table.Unique
    rw [hrows]
    refine pairwise_of_keeps hunique fun r _ r' hr' => ?_
    exact Command.rowThrough_keeps ExternalEdges.unlinks_clearings hr' c
  rcases ForeignKey.leads_add hadd with ⟨-, rfl⟩ | ⟨id, rfl, -⟩
  · exact hcleared
  · obtain ⟨g, hg, hlinks⟩ := h.leads_add hkeyed hc (fun e he hstored => by
      rw [hnone e he] at hstored
      cases hstored) hadd hobeys
    rcases hlinks with ⟨-, hsame⟩ | ⟨e, he, target, hstored, -⟩
    · unfold Table.Unique
      rw [hg, List.pairwise_map]
      refine hcleared.imp fun hapart => ?_
      rwa [hsame, hsame]
    · rw [hnone e he] at hstored
      cases hstored

theorem replaces_of_none {p : Option Predicate} {db : Database}
    (hnone : ∀ e ∈ u.edges.add, e.isStoredIn u.node table c = false) :
    u.Replaces E db p id table c := by
  intro e he hstored
  rw [hnone e he] at hstored
  cases hstored

/-- An update of the nodes that meet a condition, in which edges are written. At most one of the
nodes can get an edge. -/
theorem writeMany_unique_iff (h : u.LinksOnce table c) (hkeyed : u.Keyed keys table c) {n : Nat}
    (hcolumn : (s.current (nameParts table)).HasColumn c) (hs : s.current.Obeys E keys)
    (hunique : (s.current (nameParts table)).Unique E c)
    (htargets : ∀ e ∈ u.edges.add, e.isStoredIn u.node table c = true →
      ∃ target, e.target.nodes = [target])
    (hrun : (u.writeMany conn).Leads E keys s n s') :
    (s'.current (nameParts table)).Unique E c ↔
      ∀ r id, u.Finds E s.current r id → u.Replaces E s.current none id table c := by
  obtain ⟨ids, hfinds, hnothing | hfound⟩ :=
    leads_writeMany (hkeyed.node_hasKey hs).toHasColumn hrun
  · obtain ⟨rfl, hsame⟩ := hnothing
    rw [hsame]
    refine iff_of_true hunique fun r id hr => ?_
    cases (hfinds id).mpr ⟨r, hr⟩
  · obtain ⟨hids, hpartners, own, written, changed, hown, hwritten, hobeys, hchange, hs'⟩ := hfound
    rw [hs']
    by_cases hstored : ∃ e ∈ u.edges.add, e.isStoredIn u.node table c = true
    · obtain ⟨e, he, hstored⟩ := hstored
      obtain ⟨hfew, -⟩ := hpartners e he (h.relation e he hstored).1
      obtain ⟨id, rfl⟩ : ∃ id, ids = [id] := by
        refine List.length_eq_one_iff.mp (Nat.le_antisymm hfew ?_)
        exact List.length_pos_iff.mpr hids
      have hiff := h.unique_iff_replaces (p := none) hkeyed hcolumn hs hunique htargets
        (fun e he hone => (hpartners e he hone).2) hown hwritten hobeys hchange
      rw [hiff]
      constructor
      · intro hreplaces r id' hr
        obtain rfl := List.mem_singleton.mp ((hfinds id').mpr ⟨r, hr⟩)
        exact hreplaces
      · intro hall
        obtain ⟨r, hr⟩ := (hfinds id).mp (List.mem_singleton.mpr rfl)
        exact hall r id hr
    · have hnone : ∀ e ∈ u.edges.add, e.isStoredIn u.node table c = false := by
        intro e he
        rw [Bool.eq_false_iff]
        intro hstored'
        exact hstored ⟨e, he, hstored'⟩
      refine iff_of_true ?_ fun r id _ => replaces_of_none hnone
      refine h.unique_of_edges hkeyed (columnName_plain hcolumn.plain) hids hnone ?_ hobeys hchange
      rw [hwritten]
      exact h.unique_of_own_rows hnone hunique hown rfl rfl

end LinksOnce

/-- A relation of one to one whose foreign key has no value twice still has none twice after an
update of one node or of many that has a result if and only if the edge that the update adds
without a probe, because it clears the relation too, replaces the partners of both its ends. -/
theorem oneToOne_unique_iff_replaces {d : Dialect} {u : NodeUpdate} {table c : String} {s : Session}
    (h : u.LinksOnce table c) (hkeyed : u.Keyed keys table c)
    (hcolumn : (s.current (nameParts table)).HasColumn c) (hs : s.current.Obeys E keys)
    (hunique : (s.current (nameParts table)).Unique E c) :
    (∀ id s', u.node.id.bindValue = .ok id → (u.runOne d).Leads E keys s () s' →
      ((s'.current (nameParts table)).Unique E c ↔
        u.Replaces E s.current u.predicate id table c)) ∧
    ∀ n s', (u.runMany d).Leads E keys s n s' →
      ((s'.current (nameParts table)).Unique E c ↔
        ∀ r id, u.Finds E s.current r id → u.Replaces E s.current none id table c) := by
  have htargets : u.check = .ok () → ∀ e ∈ u.edges.add, e.isStoredIn u.node table c = true →
      ∃ target, e.target.nodes = [target] := by
    intro hcheck e he hstored
    exact exists_target_of_check hcheck he (h.relation e he hstored).1
  constructor
  · intro id s' hbind hrun
    obtain ⟨id', start, hlift, hrest⟩ := leads_bind.mp hrun
    obtain ⟨hid, hstart⟩ := leads_ofExcept.mp hlift
    obtain rfl : id = id' := Except.ok.inj (hbind.symm.trans hid)
    rw [hstart] at hrest
    split at hrest
    case isTrue => exact absurd hrest leads_fail
    case isFalse =>
      obtain ⟨_, checked, hlift', htransaction⟩ := leads_bind.mp hrest
      obtain ⟨hcheck, hchecked⟩ := leads_ofExcept.mp hlift'
      rw [hchecked] at htransaction
      obtain ⟨mid, hbody, rfl⟩ := leads_transaction.mp htransaction
      obtain ⟨hpartners, own, written, changed, hown, hwritten, hobeys, hchange, hmid⟩ :=
        leads_writeOne hbody hs
      rw [hmid]
      exact h.unique_iff_replaces hkeyed hcolumn hs hunique (htargets hcheck) hpartners hown
        hwritten hobeys hchange
  · intro n s' hrun
    obtain ⟨_, start, hlift, hrest⟩ := leads_bind.mp hrun
    obtain ⟨hcheck, hstart⟩ := leads_ofExcept.mp hlift
    rw [hstart] at hrest
    split at hrest
    case isTrue =>
      obtain ⟨mid, hbody, rfl⟩ := leads_transaction.mp hrest
      have hiff := h.writeMany_unique_iff (s := { s with saved := some s.current }) hkeyed hcolumn
        hs hunique (htargets hcheck) hbody
      exact hiff
    case isFalse hneeds =>
      -- without the IDs of the nodes no edge of one to one is added
      have hnone : ∀ e ∈ u.edges.add, e.isStoredIn u.node table c = false := by
        intro e he
        rw [Bool.eq_false_iff]
        intro hstored
        refine hneeds (Bool.or_eq_true_iff.mpr (.inr ?_))
        exact List.any_eq_true.mpr ⟨e, he, (h.relation e he hstored).1⟩
      obtain ⟨own, hown, hcurrent⟩ := leads_writeRows hrest
      refine iff_of_true ?_ fun r id _ => LinksOnce.replaces_of_none hnone
      rw [hcurrent]
      refine h.unique_of_own_rows hnone hunique hown ?_ ?_
      · cases u.predicate <;> rfl
      · cases u.predicate <;> rfl

end NodeUpdate

/-! ## A second card -/

/-- A database that takes values for the same if they have the same key. -/
def keyEngine : Engine where
  same v w := v.key?.isSome && v.key? == w.key?
  less v w :=
    match v.asInt?, w.asInt? with
    | some i, some j => i < j
    | _, _ => false
  before v w := v.isNull && !w.isNull
  matching _ pattern v := v.key? == pattern.key?
  plus v w :=
    match v.asInt?, w.asInt? with
    | some i, some j => .int (i + j)
    | _, _ => .null
  inTurn := false
  same_comm v w := by
    rw [Bool.eq_iff_iff, Bool.and_eq_true_iff, Bool.and_eq_true_iff, beq_iff_eq, beq_iff_eq]
    constructor
    · rintro ⟨hsome, hkey⟩
      exact ⟨hkey ▸ hsome, hkey.symm⟩
    · rintro ⟨hsome, hkey⟩
      exact ⟨hkey ▸ hsome, hkey.symm⟩
  same_trans u v w huv hvw := by
    rw [Bool.and_eq_true_iff, beq_iff_eq] at huv hvw ⊢
    exact ⟨huv.1, huv.2.trans hvw.2⟩
  same_int i j := by
    rw [Bool.eq_iff_iff]
    simp [Value.key?]

/-- A user and two cards, the first of which is the user's. -/
def cardsDatabase : Database := fun name =>
  let row (id user : Value) : Tuple := fun c =>
    if c = "id" then id else if c = "user_id" then user else .null
  if name = ["users"] then ⟨["id"], [row (.int 1) .null]⟩
  else if name = ["cards"] then
    ⟨["id", "user_id"], [row (.int 1) (.int 1), row (.int 2) .null]⟩
  else ⟨[], []⟩

def cardKeys : List (String × String) := [("users", "id"), ("cards", "id")]

/-- The edge from a user to cards. -/
def cardEdge (cards : List Value) : Edge :=
  let e := Edge.oneToOne "cards" "user_id"
  { e with target := { e.target with nodes := cards } }

/-- The user gets the second card, and edges are cleared: those to some cards, or all. -/
def giveCard (cleared : List Value) : NodeUpdate :=
  { NodeUpdate.ofNode (.ofTable "users" { column := "id", type := .int, value := .int 1 }) with
    edges := { add := [cardEdge [.int 2]], clear := [cardEdge cleared] } }

/-- The UPDATE that clears edges of the user. -/
def clearCards (cleared : List Value) : Update :=
  ((Update.ofTable "cards").setNull "user_id").filter
    (ForeignKey.clearedRows [.int 1] (cardEdge cleared) "user_id")

/-- The UPDATE that gives the user the second card. -/
def linkCard : Update := ForeignKey.linking (.int 1) "user_id" (cardEdge [.int 2])

/-- The run of such an update, in which edges to `n` cards are cleared. -/
def giveCardRun (cleared : List Value) (n : Nat) : List Exchange :=
  [⟨.begin, true, (.done () : Outcome Unit)⟩,
    ⟨.query true (.anyRow ((Selector.ofTable "users").filter (.eq "id" (.int 1)))), true,
      (.done ⟨["exists"], [[.int 1]]⟩ : Outcome Rows)⟩,
    ⟨.exec true (.update (clearCards cleared)), true, (.done ⟨n, none⟩ : Outcome ExecResult)⟩,
    ⟨.exec true (.update linkCard), true, (.done ⟨1, none⟩ : Outcome ExecResult)⟩,
    ⟨.check, true, .ok ()⟩, ⟨.commit, true, .ok ()⟩]

/-- The database after the run. -/
def cardsAfter (cleared : List Value) : Database :=
  linkCard.applied keyEngine ((clearCards cleared).applied keyEngine cardsDatabase)

theorem giveCard_leads {cleared : List Value} {n : Nat}
    (hcleared : ∀ name ∈ (clearCards cleared).names, cardsDatabase.knows "cards" name = true)
    (hn : n ≤ ((clearCards cleared).reached keyEngine cardsDatabase).length)
    (hobeys : ((clearCards cleared).applied keyEngine cardsDatabase).Obeys keyEngine cardKeys)
    (hlinked : ∀ name ∈ linkCard.names,
      ((clearCards cleared).applied keyEngine cardsDatabase).knows "cards" name = true)
    (hone : 1 ≤ (linkCard.reached keyEngine
      ((clearCards cleared).applied keyEngine cardsDatabase)).length)
    (hafter : (cardsAfter cleared).Obeys keyEngine cardKeys) :
    ((giveCard cleared).runOne .sqlite).Leads keyEngine cardKeys ⟨cardsDatabase, none⟩ ()
      ⟨cardsAfter cleared, none⟩ := by
  refine ⟨giveCardRun cleared n, ?_, ?_⟩
  · apply Run.call
    apply Run.call
    apply Run.call
    apply Run.call
    apply Run.call
    apply Run.call
    exact .done _
  · have hpresent : (Command.anyRow ((Selector.ofTable "users").filter (.eq "id" (.int 1)))).Returns
        keyEngine cardsDatabase ⟨["exists"], [[.int 1]]⟩ :=
      returns_anyRow_filter.mpr (by decide)
    have hbefore : cardsDatabase.Obeys keyEngine cardKeys := by decide
    refine ⟨_, rfl, ⟨cardsDatabase, some cardsDatabase⟩, ⟨rfl, hpresent, hbefore, rfl⟩, ?_⟩
    refine ⟨⟨_, some cardsDatabase⟩, ⟨⟨hcleared, rfl⟩, hn, hobeys, rfl⟩, ?_⟩
    refine ⟨⟨_, some cardsDatabase⟩, ⟨⟨hlinked, rfl⟩, hone, hafter, rfl⟩, ?_⟩
    exact ⟨_, rfl, _, rfl, rfl⟩

/-- If all edges of the user are cleared, the second card replaces the first. -/
theorem oneToOne_unique_iff_replaces_giveCard :
    ((giveCard []).runOne .sqlite).Leads keyEngine cardKeys ⟨cardsDatabase, none⟩ ()
        ⟨cardsAfter [], none⟩ ∧
      (cardsAfter [] (nameParts "cards")).Unique keyEngine "user_id" := by
  have hrun : ((giveCard []).runOne .sqlite).Leads keyEngine cardKeys ⟨cardsDatabase, none⟩ ()
      ⟨cardsAfter [], none⟩ :=
    giveCard_leads (n := 1) (by decide) (by decide) (by decide) (by decide) (by decide)
      (by decide)
  have hlinks : (giveCard []).LinksOnce "cards" "user_id" :=
    ⟨by decide, by decide, by decide, by decide, by decide⟩
  have hkeyed : (giveCard []).Keyed cardKeys "cards" "user_id" := ⟨by decide, by decide⟩
  have hcolumn : (cardsDatabase (nameParts "cards")).HasColumn "user_id" := by decide
  refine ⟨hrun, ?_⟩
  refine ((NodeUpdate.oneToOne_unique_iff_replaces (s := ⟨cardsDatabase, none⟩) hlinks hkeyed
    hcolumn (by decide) (by decide)).1 (.int 1) _ rfl hrun).mpr ?_
  intro e he _ _ target _
  obtain rfl := List.mem_singleton.mp he
  exact NodeUpdate.frees_of_clear hcolumn (by decide) (by decide) rfl rfl
    (List.mem_singleton.mpr rfl) (by decide) rfl

/-- If only the edge to another card is cleared, the user has two cards. -/
theorem second_card_without_probe :
    (cardsDatabase (nameParts "cards")).Unique keyEngine "user_id" ∧
      ((giveCard [.int 99]).runOne .sqlite).Leads keyEngine cardKeys ⟨cardsDatabase, none⟩ ()
        ⟨cardsAfter [.int 99], none⟩ ∧
      ¬(cardsAfter [.int 99] (nameParts "cards")).Unique keyEngine "user_id" := by
  refine ⟨by decide, ?_, by decide⟩
  exact giveCard_leads (n := 0) (by decide) (by decide) (by decide) (by decide) (by decide)
    (by decide)

end EntityGraph
