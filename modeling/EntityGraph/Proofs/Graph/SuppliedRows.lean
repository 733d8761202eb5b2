import EntityGraph.Proofs.Graph.PartnerClaims
import EntityGraph.Proofs.Graph.SuppliedCreations

/-!
# Own rows that are inserted together

Nodes that fit a database one by one and whose claims are apart have their own rows found without a
failure, and one INSERT for them all can be carried out if the rows of the nodes have been stored
before one after the other.
-/

set_option autoImplicit false

namespace EntityGraph

open Program

variable {E : Engine} {S : Schema} {s s' : Session} {conn : Connection} {d : Dialect}
  {db db' : Database}

/-! ## Claims that are apart -/

/-- The later of two edges of one to one claims no target that the earlier has claimed by the same
foreign key. -/
def Edge.ClaimsApart (e e' : Edge) : Prop :=
  e.isOneToOne = true → e'.isOneToOne = true → e.table = e'.table → e.columns = e'.columns →
    ∀ t ∈ e.target.nodes, ∀ t' ∈ e'.target.nodes, t'.equals t = false

instance {e e' : Edge} : Decidable (e.ClaimsApart e') :=
  inferInstanceAs (Decidable (e.isOneToOne = true → e'.isOneToOne = true → e.table = e'.table →
    e.columns = e'.columns → ∀ t ∈ e.target.nodes, ∀ t' ∈ e'.target.nodes, t'.equals t = false))

namespace PartnerClaim

variable {node : Node} {claims : List PartnerClaim} {p : PartnerClaim} {e : Edge}

theorem add_of_apart (h : ∀ q ∈ claims, p.equals q = false) :
    add node claims p = .ok (claims ++ [p]) := by
  unfold add
  apply if_neg
  rw [Bool.not_eq_true, List.any_eq_false]
  intro q hq
  rw [h q hq]
  exact Bool.false_ne_true

/-- The claims of edges are made, if the edges are apart from each other and from those that have
made claims before. -/
theorem exists_addAll {before edges : List Edge}
    (hclaims : ∀ q ∈ claims, ∃ e ∈ before, e.isOneToOne = true ∧ q.IsOf e)
    (hedges : ∀ e ∈ edges, e.IsComplete) (hapart : (before ++ edges).Pairwise Edge.ClaimsApart) :
    ∃ claims', addAll node claims edges = .ok claims' ∧
      ∀ q ∈ claims', ∃ e ∈ before ++ edges, e.isOneToOne = true ∧ q.IsOf e := by
  unfold addAll
  induction edges generalizing before claims with
  | nil => exact ⟨claims, rfl, by simpa using hclaims⟩
  | cons e edges ih =>
    obtain ⟨he, hrest⟩ := List.forall_mem_cons.mp hedges
    have hapart' : (before ++ [e] ++ edges).Pairwise Edge.ClaimsApart := by simpa using hapart
    have hbefore : ∀ q ∈ claims, ∃ f ∈ before ++ [e], f.isOneToOne = true ∧ q.IsOf f := by
      intro q hq
      obtain ⟨f, hf, hof⟩ := hclaims q hq
      exact ⟨f, List.mem_append_left _ hf, hof⟩
    rw [List.append_cons]
    cases hone : e.isOneToOne with
    | false =>
      rw [List.filter_cons_of_neg (by simp [hone])]
      exact ih hbefore hrest hapart'
    | true =>
      rw [List.filter_cons_of_pos hone, List.foldlM_cons]
      obtain ⟨t, ht⟩ := he.single (.inl hone)
      obtain ⟨fk, hfk⟩ := he.exists_foreignKey (by
        rw [Edge.isManyToMany, eq_of_beq hone]
        rfl)
      have hmade : ofEdge e = .ok [⟨e.table, fk, t⟩] := by
        refine bind_eq_ok.mpr ⟨fk, Edge.foreignKey_eq_ok.mpr hfk, ?_⟩
        rw [ht]
        rfl
      have hnew : ∀ q ∈ claims, (⟨e.table, fk, t⟩ : PartnerClaim).equals q = false := by
        intro q hq
        obtain ⟨f, hf, hfone, htable, hcolumns, htarget⟩ := hclaims q hq
        have hcross := (List.pairwise_append.mp hapart).2.2 f hf e List.mem_cons_self hfone hone
        rw [Bool.eq_false_iff]
        intro hequals
        simp only [equals, Bool.and_eq_true, beq_iff_eq] at hequals
        obtain ⟨⟨hsame, hcolumn⟩, hequal⟩ := hequals
        rw [hcross (htable.symm.trans hsame.symm) (by rw [hcolumns, hfk, hcolumn]) _ htarget t
          (by simp [ht])] at hequal
        cases hequal
      have hstep : (do (← ofEdge e).foldlM (add node) claims : Except Error _) =
          .ok (claims ++ [⟨e.table, fk, t⟩]) := by
        refine bind_eq_ok.mpr ⟨_, hmade, ?_⟩
        exact bind_eq_ok.mpr ⟨_, add_of_apart hnew, rfl⟩
      rw [hstep]
      refine ih (fun q hq => ?_) hrest hapart'
      rcases List.mem_append.mp hq with hq | hq
      · exact hbefore q hq
      · rw [List.mem_singleton.mp hq]
        exact ⟨e, by simp, hone, rfl, hfk, by simp [ht]⟩

end PartnerClaim

/-! ## Probes that find nobody -/

namespace Partner

variable {node : Node} {id? : Option Value} {e : Edge} {edges : List Edge}

theorem ensures_checkEdge (hs : s.current.IsSound E S) (he : ∃ fk, e.columns = [fk])
    (hfree : Unclaimed E s.current node id? e) :
    (checkEdge conn node id? e).Ensures (Call.Performs E S) s fun _ s' => s' = s := by
  unfold checkEdge
  split
  case h_1 => exact rfl
  case h_2 target rest htarget =>
    obtain ⟨fk, hfk⟩ := he
    refine ensures_bind.mpr (ensures_ofExcept (Edge.foreignKey_eq_ok.mpr hfk) ?_)
    refine ensures_forM (fun _ t => t = s) ?_ rfl
    rintro before q after hsplit _ rfl
    refine ensures_bind.mpr (ensures_probe hs ?_)
    have hq := hfree target rest fk htarget hfk q (by rw [hsplit]; simp)
    rw [hq]
    exact rfl

/-- If no target is claimed, no edge is refused. -/
theorem ensures_check (hs : s.current.IsSound E S)
    (hedges : ∀ e ∈ edges, e.isOneToOne = true → ∃ fk, e.columns = [fk])
    (hfree : ∀ e ∈ edges, e.isOneToOne = true → Unclaimed E s.current node id? e) :
    (check conn node id? edges []).Ensures (Call.Performs E S) s fun _ s' => s' = s := by
  unfold check
  refine ensures_forM (fun _ t => t = s) ?_ rfl
  rintro before e after hsplit _ rfl
  have hmem : e ∈ edges.filter fun e => e.isOneToOne && !([] : List Edge).any fun c =>
      c.sameRelation e := by
    rw [hsplit]
    simp
  obtain ⟨he, hone⟩ := List.mem_filter.mp hmem
  have hone : e.isOneToOne = true := (Bool.and_eq_true_iff.mp hone).1
  exact ensures_checkEdge hs (hedges e he hone) (hfree e he hone)

end Partner

/-! ## Own rows -/

theorem NodeCreation.ensures_supplyId {R : Answering Session} {position : Nat} {node : Node}
    {id : Value} {Q : Option Value → Session → Prop} (hid : node.id.value.isNull = false)
    (hbound : node.id.bindValue = .ok id) (h : Q (some id) s) :
    (supplyId position node).Ensures R s Q := by
  unfold supplyId
  rw [if_pos (by simp [hid])]
  exact ensures_bind.mpr (ensures_ofExcept hbound h)

namespace BatchCreation

/-- The own rows of nodes that fit are found. -/
theorem ensures_ownRows {nodes : List CreatedNode} {i : Nat} {claims : List PartnerClaim}
    {before : List Edge} (hs : s.current.IsSound E S) (hfits : ∀ n ∈ nodes, n.Fits E s.current)
    (hids : ∀ n ∈ nodes, n.creation.node.id.value.isNull = false)
    (hclaims : ∀ q ∈ claims, ∃ e ∈ before, e.isOneToOne = true ∧ q.IsOf e)
    (hapart : (before ++ nodes.flatMap fun n => n.creation.edges).Pairwise Edge.ClaimsApart) :
    (ownRows conn i claims (nodes.map CreatedNode.creation)).Ensures (Call.Performs E S) s
      fun rows s' => rows = nodes.map CreatedNode.row ∧ s' = s := by
  induction nodes generalizing i claims before with
  | nil => exact ⟨rfl, rfl⟩
  | cons n nodes ih =>
    obtain ⟨hn, hrest⟩ := List.forall_mem_cons.mp hfits
    obtain ⟨hid, hids⟩ := List.forall_mem_cons.mp hids
    rw [List.flatMap_cons, ← List.append_assoc] at hapart
    have hcomplete : ∀ e ∈ n.creation.edges, e.IsComplete :=
      fun e he => Edge.isComplete_of_check (hn.checked e he)
    obtain ⟨claimed, hclaimed, hmade⟩ := PartnerClaim.exists_addAll hclaims
      hcomplete (List.pairwise_append.mp hapart).1
    rw [List.map_cons, ownRows]
    refine ensures_bind.mpr (ensures_ofExcept hclaimed ?_)
    refine ensures_bind.mpr ((Partner.ensures_check hs ?_ hn.unclaimed).mono ?_)
    · intro e he hone
      refine (hcomplete e he).exists_foreignKey ?_
      rw [Edge.isManyToMany, eq_of_beq hone]
      rfl
    rintro _ _ rfl
    refine ensures_bind.mpr (NodeCreation.ensures_supplyId hid hn.bound ?_)
    refine ensures_bind.mpr (ensures_ofExcept hn.columns ?_)
    refine ensures_bind.mpr ((ih hrest hids hmade hapart).mono ?_)
    rintro _ _ ⟨rfl, rfl⟩
    exact ⟨rfl, rfl⟩

/-! ## The INSERT of the rows -/

section Columns

variable {rows : List OwnRow} {row : List (String × Value)} {names : List String}
  {table idColumn : String}

theorem length_valuesOf : (OwnRow.valuesOf names row).length = names.length := by
  induction names generalizing row with
  | nil => rfl
  | cons name names ih =>
    rw [OwnRow.valuesOf, OwnRow.take, List.length_cons, List.length_cons, ih]

/-- A name that is there once stands with what the row has for it. -/
theorem eq_of_mem_zip_valuesOf (hnames : names.Nodup) {p : String × Value}
    (hp : p ∈ names.zip (OwnRow.valuesOf names row)) : p.2 = (row.lookup p.1).getD .null := by
  induction names generalizing row with
  | nil => cases hp
  | cons name names ih =>
    obtain ⟨hnew, hnames⟩ := List.nodup_cons.mp hnames
    rw [OwnRow.valuesOf, OwnRow.take, List.zip_cons_cons] at hp
    rcases List.mem_cons.mp hp with rfl | hp
    · rfl
    · have hne : p.1 ≠ name := by
        intro hname
        rw [← hname] at hnew
        exact hnew (List.of_mem_zip hp).1
      rw [ih hnames hp, lookup_filter_ne hne]

/-- The columns of rows that have IDs, which no row sets another time. -/
theorem nodup_columnsOf {supplied : List Value}
    (h : ∀ r ∈ rows, ∀ v, (idColumn, v) ∈ r.columns → False) :
    (columnsOf idColumn supplied rows).Nodup := by
  unfold columnsOf
  rw [List.nodup_append]
  refine ⟨?_, nodup_sortedNames _, ?_⟩
  · split
    case isTrue => exact List.nodup_nil
    case isFalse => exact List.nodup_singleton _
  · intro c hc c' hc' hsame
    subst hsame
    split at hc
    case isTrue => cases hc
    case isFalse =>
      rw [List.mem_singleton.mp hc, mem_sortedNames, List.mem_flatMap] at hc'
      obtain ⟨r, hr, hmem⟩ := hc'
      obtain ⟨p, hp, hname⟩ := List.mem_map.mp hmem
      exact h r hr p.2 (by rw [← hname]; exact hp)

end Columns

section Together

variable {L : Layout} {nodes : List CreatedNode} {node : Node} {rows : List OwnRow}
  {table idColumn : String} {added : List Tuple}

/-- The IDs of the rows are those of the nodes. -/
theorem supplied_rows :
    (nodes.map CreatedNode.row).filterMap OwnRow.id = nodes.map CreatedNode.id := by
  rw [List.filterMap_map, ← List.filterMap_eq_map]
  rfl

/-- Where no column is left to the database, the added rows are determined. -/
theorem AddsOwnRows.added_eq (h : AddsOwnRows S table idColumn rows db db' added)
    (hfilled : ∀ c, S.identity table = some c →
      c ∈ columnsOf idColumn (rows.filterMap OwnRow.id) rows) :
    added = rows.map (OwnRow.valueIn idColumn) := by
  have hvalues : List.Forall₂ (fun r x => OwnRow.valueIn idColumn r = x) rows added := by
    refine h.values.imp fun r x hx => funext fun c => ?_
    by_cases hc : S.identity table = some c
    · exact (hx c (.inl (hfilled c hc))).symm
    · exact (hx c (.inr hc)).symm
  rw [← List.forall₂_map_left_iff (f := OwnRow.valueIn idColumn) (R := Eq), List.forall₂_eq_eq_eq]
    at hvalues
  exact hvalues.symm

/-- The INSERT of own rows can be sent. -/
theorem exists_statement (hne : columnsOf idColumn (rows.filterMap OwnRow.id) rows ≠ []) :
    ∃ statement, (insertOf table idColumn rows []).compile d = .ok statement ∧
      statement.table = table ∧
      statement.columns = columnsOf idColumn (rows.filterMap OwnRow.id) rows ∧
      statement.proposals = rows.map fun r =>
        OwnRow.valuesOf (columnsOf idColumn (rows.filterMap OwnRow.id) rows) (r.withId idColumn) := by
  refine ⟨Sql.compiledAs d (insertOf table idColumn rows []) none, ?_, rfl, rfl, ?_⟩
  · refine Sql.compile_eq_ok.mpr ⟨Sql.checkRows_eq_ok.mpr fun v hv => ?_, none, rfl, rfl⟩
    obtain ⟨r, -, rfl⟩ := List.mem_map.mp hv
    exact length_valuesOf
  · unfold InsertStatement.proposals
    exact if_neg (by simpa [Sql.compiledAs, insertOf] using hne)

/-- The row of a node has the values that the INSERT of all own rows writes for it. -/
theorem isRow_valuesOf {statement : InsertStatement} {r : OwnRow} (hr : r ∈ rows)
    (hcolumns : statement.columns = columnsOf idColumn (rows.filterMap OwnRow.id) rows)
    (hnodup : statement.columns.Nodup) :
    statement.IsRow
      (OwnRow.valuesOf (columnsOf idColumn (rows.filterMap OwnRow.id) rows) (r.withId idColumn))
      (r.valueIn idColumn) := by
  refine ⟨fun p hp => ?_, fun c hc => ?_⟩
  · rw [hcolumns] at hp hnodup
    exact (eq_of_mem_zip_valuesOf hnodup hp).symm
  · rw [hcolumns] at hc
    exact valueIn_of_not_mem hr hc

/-- Own rows that do not break a key can be inserted. -/
theorem exists_inserts {statement : InsertStatement} (hs : db.IsSound E S)
    (htable : statement.table = table)
    (hcolumns : statement.columns = columnsOf idColumn (rows.filterMap OwnRow.id) rows)
    (hproposals : statement.proposals = rows.map fun r =>
      OwnRow.valuesOf (columnsOf idColumn (rows.filterMap OwnRow.id) rows) (r.withId idColumn))
    (hnodup : statement.columns.Nodup) (hfilled : statement.WritesIdentity S)
    (hknown : ∀ c ∈ statement.columns, (db (nameParts table)).HasColumn c)
    (hsound : ∀ t : Table, t.columns = (db (nameParts table)).columns →
      t.rows.Perm (rows.map (OwnRow.valueIn idColumn) ++ (db (nameParts table)).rows) →
        t.IsSound E S table) :
    ∃ db' reported, statement.Inserts E S db db' reported ∧
      (∀ name, name ≠ nameParts statement.table → db' name = db name) ∧ db'.IsSound E S := by
  subst htable
  let added := rows.map (OwnRow.valueIn idColumn)
  let before := db (nameParts statement.table)
  have hvalues : List.Forall₂ statement.IsRow statement.proposals added := by
    rw [hproposals, List.forall₂_map_left_iff, List.forall₂_map_right_iff, List.forall₂_same]
    exact fun r hr => isRow_valuesOf hr hcolumns hnodup
  have hafter : Database.IsSound E S (Function.update db (nameParts statement.table)
      ⟨before.columns, added.reverse ++ before.rows⟩) := by
    intro other
    by_cases hother : nameParts other = nameParts statement.table
    · obtain rfl := nameParts_injective hother
      rw [Function.update_self]
      exact hsound _ rfl (added.reverse_perm.append_right before.rows)
    · rw [Function.update_of_ne hother]
      exact hs other
  refine ⟨_, added, ?_, fun name hname => Function.update_of_ne hname _ _, hafter⟩
  exact InsertStatement.inserts_of_isSound hknown hfilled hvalues (Function.update_self ..) hafter

/-- Nodes that fit are inserted together, if their rows do not break a key. -/
theorem ensures_insertRows (hL : L.IsSound S) (hne : nodes ≠ []) (htable : node.table = L.table)
    (hnodes : ∀ n ∈ nodes, n.creation.node.table = L.table ∧
      n.creation.node.id.column = L.idColumn)
    (hs : s.current.IsSound E S) (hfits : ∀ n ∈ nodes, n.Fits E s.current)
    (hsound : ∀ t : Table, t.columns = (s.current (nameParts L.table)).columns →
      t.rows.Perm (nodes.map CreatedNode.tuple ++ (s.current (nameParts L.table)).rows) →
        t.IsSound E S L.table)
    (hrows : rows = nodes.map CreatedNode.row) :
    (insertRows conn node none (rows.filterMap OwnRow.id)
      { columns := columnsOf L.idColumn (rows.filterMap OwnRow.id) rows
        rows := rows.map fun r => OwnRow.valuesOf
          (columnsOf L.idColumn (rows.filterMap OwnRow.id) rows) (r.withId L.idColumn)
        generated := (rows.filterMap OwnRow.id).isEmpty }).Ensures (Call.Performs E S) s
      fun ids s' => ids = nodes.map CreatedNode.id ∧
        s.current.Grown E L.IsJoin L.table (nodes.map CreatedNode.tuple) [] s'.current ∧
          (∀ name, name ≠ nameParts L.table → s'.current name = s.current name) ∧
            s'.current.IsSound E S := by
  have hids : rows.filterMap OwnRow.id = nodes.map CreatedNode.id := by
    rw [hrows, supplied_rows]
  have hsupplied : rows.filterMap OwnRow.id ≠ [] := by
    rw [hids]
    simpa using hne
  have hid : L.idColumn ∈ columnsOf L.idColumn (rows.filterMap OwnRow.id) rows :=
    mem_columnsOf.mpr (.inl ⟨hsupplied, rfl⟩)
  have hfilled : ∀ c, S.identity L.table = some c →
      c ∈ columnsOf L.idColumn (rows.filterMap OwnRow.id) rows := by
    intro c hc
    rw [hL.filled c hc]
    exact hid
  have htuples : rows.map (OwnRow.valueIn L.idColumn) = nodes.map CreatedNode.tuple := by
    rw [hrows, List.map_map]
    refine List.map_congr_left fun n hn => ?_
    show n.row.valueIn L.idColumn = n.row.valueIn n.creation.node.id.column
    rw [(hnodes n hn).2]
  have hmem : ∀ r ∈ rows, ∃ n ∈ nodes, r.columns = n.columns := by
    intro r hr
    rw [hrows] at hr
    obtain ⟨n, hn, rfl⟩ := List.mem_map.mp hr
    exact ⟨n, hn, rfl⟩
  have hnodup : (columnsOf L.idColumn (rows.filterMap OwnRow.id) rows).Nodup := by
    refine nodup_columnsOf fun r hr v hv => ?_
    obtain ⟨n, hn, hcolumns⟩ := hmem r hr
    have hnew := (List.nodup_cons.mp (hfits n hn).nodup).1
    rw [(hnodes n hn).2] at hnew
    exact hnew (List.mem_map.mpr ⟨_, hcolumns ▸ hv, rfl⟩)
  have hknown : ∀ c ∈ columnsOf L.idColumn (rows.filterMap OwnRow.id) rows,
      (s.current (nameParts L.table)).HasColumn c := by
    have hfit : ∀ n ∈ nodes, ∀ c ∈ L.idColumn :: n.columns.map (·.1),
        (s.current (nameParts L.table)).HasColumn c := by
      intro n hn c hc
      rw [← (hnodes n hn).2] at hc
      rw [← (hnodes n hn).1]
      exact (hfits n hn).known c hc
    intro c hc
    rcases mem_columnsOf.mp hc with ⟨-, rfl⟩ | ⟨r, hr, v, hv⟩
    · obtain ⟨n, hn⟩ := List.exists_mem_of_ne_nil _ hne
      exact hfit n hn _ List.mem_cons_self
    · obtain ⟨n, hn, hcolumns⟩ := hmem r hr
      exact hfit n hn c (List.mem_cons_of_mem _ (List.mem_map.mpr ⟨_, hcolumns ▸ hv, rfl⟩))
  obtain ⟨statement, hcompile, hstable, hscolumns, hproposals⟩ : ∃ statement,
      (insertOf L.table L.idColumn rows []).compile conn.dialect = .ok statement ∧ _ :=
    exists_statement (List.ne_nil_of_mem hid)
  unfold insertRows
  dsimp only
  rw [foldl_addRow_eq, if_neg (by simpa using hsupplied), htable]
  refine ensures_bind.mpr (ensures_insert hcompile (hscolumns ▸ hnodup) ?_ ?_)
  · refine exists_inserts hs hstable hscolumns hproposals (hscolumns ▸ hnodup) ?_ ?_ ?_
    · intro c hc
      rw [hstable] at hc
      rw [hscolumns]
      exact hfilled c hc
    · rw [hscolumns]
      exact hknown
    · rw [htuples]
      exact hsound
  · intro s' reported hinserts hothers hs'
    have hadds := addsOwnRows_of_inserts [] (List.ne_nil_of_mem hid) hcompile
      (fun name hname => hothers name hname) hinserts
    have hadded := hadds.added_eq hfilled
    rw [htuples] at hadded
    subst hadded
    exact ⟨hids, Database.Grown.inserted (.refl _) hadds.others hadds.sameColumns hadds.perm,
      hadds.others, hs'⟩

end Together

end BatchCreation

end EntityGraph
