import EntityGraph.Proofs.Graph.JoinTablePairs
import EntityGraph.Proofs.Relational.StoredRows

/-!
# Rows of join tables that are put together

Edges that share a join table and name the same columns in the same order are written by INSERTs of
one shape. `JoinTable.Adds` says what storing their rows makes of the table. It composes along the
list of the edges, so that one INSERT for all of them does what several would do; and it determines
the rows that the table has afterwards, but for their order.
-/

set_option autoImplicit false

namespace EntityGraph

open Program

variable {E : Engine} {S : Schema} {s s' : Session} {conn : Connection} {d : Dialect}
  {table : String} {e f : Edge} {shape : InsertStatement} {t mid t' t₁ t₂ : Table}
  {links links' : List (List Value × Edge)}

/-- The edges name the same columns of a join table, in the same order. -/
def Edge.SameJoin (e f : Edge) : Prop :=
  e.columns = f.columns ∧ e.target.fields.map Field.column = f.target.fields.map Field.column

namespace JoinTable

/-! ## Shapes -/

theorem insertFor_congr (h : e.SameJoin f) : insertFor table e = insertFor table f := by
  have hempty : e.target.fields.isEmpty = f.target.fields.isEmpty := by
    rw [← List.isEmpty_map (f := Field.column), h.2, List.isEmpty_map]
  rw [insertFor_eq, insertFor_eq, h.1, h.2, hempty]

/-- The INSERT into a join table that has the shape of an edge. -/
structure IsShape (d : Dialect) (table : String) (e : Edge) (shape : InsertStatement) : Prop where
  compiled : (insertFor table e).compile d = .ok shape
  table : shape.table = table
  columns : shape.columns = e.columns ++ e.target.fields.map Field.column
  inert : ∀ clause, shape.conflict = some clause → clause.IsInert

theorem IsShape.congr (h : IsShape d table e shape) (hsame : e.SameJoin f) :
    IsShape d table f shape where
  compiled := insertFor_congr hsame ▸ h.compiled
  table := h.table
  columns := by
    rw [← hsame.1, ← hsame.2]
    exact h.columns
  inert := h.inert

theorem exists_shape (he : e.columns ≠ []) : ∃ shape, IsShape d table e shape := by
  obtain ⟨shape, hshape⟩ : ∃ shape, (insertFor table e).compile d = .ok shape := by
    obtain ⟨c, cs, hcolumns⟩ := List.exists_cons_of_ne_nil he
    have hclause : ∃ conflict, Sql.compiledClause d (insertFor table e) = .ok conflict := by
      rw [insertFor_eq, hcolumns]
      cases e.target.fields.isEmpty with
      | false => exact ⟨none, rfl⟩
      | true => cases d <;> exact ⟨_, rfl⟩
    obtain ⟨conflict, hconflict⟩ := hclause
    refine ⟨_, Sql.compile_eq_ok.mpr ⟨Sql.checkRows_eq_ok.mpr ?_, conflict, hconflict, rfl⟩⟩
    rw [insertFor_eq]
    simp [Insert.into]
  have hinsert := insertFor_eq table e
  refine ⟨shape, hshape, ?_, ?_, fun clause hclause => ?_⟩
  · rw [compile_table hshape, hinsert]
    rfl
  · obtain ⟨-, _, -, rfl⟩ := Sql.compile_eq_ok.mp hshape
    rw [hinsert]
    rfl
  · refine (inert_of_compile hshape ?_ ?_ hclause).2
    · rw [hinsert]
      dsimp only
      split <;> simp
    · rw [hinsert]
      rfl

/-- An INSERT with rows has the shape of the INSERT without. -/
theorem compile_rows_iff {i : Insert} {statement : InsertStatement}
    (h : i.compile d = .ok shape) (rows : List (List Value)) :
    ({ i with rows } : Insert).compile d = .ok statement ↔
      statement = { shape with rows } ∧ ∀ row ∈ rows, row.length = shape.columns.length := by
  obtain ⟨-, conflict, hconflict, rfl⟩ := Sql.compile_eq_ok.mp h
  have hclause : Sql.compiledClause d { i with rows } = Sql.compiledClause d i := by
    unfold Sql.compiledClause
    cases d <;> cases i.policy <;> rfl
  rw [Sql.compile_eq_ok, Sql.checkRows_eq_ok, hclause, hconflict]
  constructor
  · rintro ⟨hrows, _, ⟨⟩, rfl⟩
    exact ⟨rfl, hrows⟩
  · rintro ⟨rfl, hrows⟩
    exact ⟨hrows, conflict, rfl, rfl⟩

/-! ## Rows of several edges -/

/-- The rows of edges have been stored in a join table, by INSERTs of one shape. -/
def Adds (E : Engine) (S : Schema) (shape : InsertStatement) (links : List (List Value × Edge))
    (t t' : Table) : Prop :=
  t'.columns = t.columns ∧ ∃ rowss reported,
    List.Forall₂ (fun link rows => edgeRows link.1 link.2 = .ok rows) links rowss ∧
      shape.StoresRows E S rowss.flatten t.rows t'.rows reported ∧
        ∀ row ∈ rowss.flatten, row.length = shape.columns.length ∧ shape.columns.Nodup ∧
          ∀ c ∈ shape.columns, t.HasColumn c

theorem adds_nil : Adds E S shape [] t t :=
  ⟨rfl, [], [], .nil, .nil, by simp⟩

theorem Adds.append (h : Adds E S shape links t mid) (h' : Adds E S shape links' mid t') :
    Adds E S shape (links ++ links') t t' := by
  obtain ⟨hcolumns, rowss, reported, hrowss, hstored, hfit⟩ := h
  obtain ⟨hcolumns', rowss', reported', hrowss', hstored', hfit'⟩ := h'
  refine ⟨hcolumns'.trans hcolumns, rowss ++ rowss', reported ++ reported',
    List.rel_append hrowss hrowss', ?_, fun row hrow => ?_⟩
  · rw [List.flatten_append]
    exact hstored.append hstored'
  · rw [List.flatten_append] at hrow
    rcases List.mem_append.mp hrow with hrow | hrow
    · exact hfit row hrow
    · obtain ⟨hlength, hnodup, hknown⟩ := hfit' row hrow
      refine ⟨hlength, hnodup, fun c hc => ?_⟩
      have hcolumn := hknown c hc
      exact ⟨hcolumn.plain, hcolumn.notStar, hcolumns ▸ hcolumn.mem⟩

/-- The rows that are stored are the same on every database, but for their order. -/
theorem Adds.perm (hinert : ∀ clause, shape.conflict = some clause → clause.IsInert)
    (hfilled : shape.WritesIdentity S) (h : Adds E S shape links t t₁)
    (h' : Adds E S shape links t t₂) : t₁.rows.Perm t₂.rows := by
  obtain ⟨-, rowss, reported, hrowss, hstored, hfit⟩ := h
  obtain ⟨-, rowss', reported', hrowss', hstored', -⟩ := h'
  have hsame : rowss = rowss' :=
    Except.ok.inj ((mapM_eq_ok.mpr hrowss).symm.trans (mapM_eq_ok.mpr hrowss'))
  subst hsame
  exact hstored.perm hinert hfilled (fun row hrow => (hfit row hrow).1) (List.Perm.refl _) hstored'

/-- Rows that have been there are still there. -/
theorem Adds.subset (hinert : ∀ clause, shape.conflict = some clause → clause.IsInert)
    (h : Adds E S shape links t t') : t.rows ⊆ t'.rows := by
  obtain ⟨-, _, _, -, hstored, -⟩ := h
  exact hstored.subset hinert

/-! ## One join table -/

/-- The INSERT of some edges has this shape, which is that of the first. -/
def HasShape (d : Dialect) (table : String) (shape : InsertStatement)
    (links : List (List Value × Edge)) : Prop :=
  ∃ first rest, links = first :: rest ∧ first.2.columns ≠ [] ∧ IsShape d table first.2 shape

theorem HasShape.shape_table (h : HasShape d table shape links) : shape.table = table := by
  obtain ⟨_, _, -, -, hfirst⟩ := h
  exact hfirst.table

theorem HasShape.columns_ne_nil (h : HasShape d table shape links) : shape.columns ≠ [] := by
  obtain ⟨_, _, -, hcolumns, hfirst⟩ := h
  rw [hfirst.columns]
  simp [hcolumns]

theorem HasShape.append (h : HasShape d table shape links) :
    HasShape d table shape (links ++ links') := by
  obtain ⟨first, rest, rfl, hfirst⟩ := h
  exact ⟨first, rest ++ links', rfl, hfirst⟩

/-- The INSERT of some edges has the shape of the first and the rows of all. -/
theorem insertOf_shape (hshape : HasShape d table shape links)
    {rowss : List (List (List Value))}
    (hrowss : List.Forall₂ (fun link rows => edgeRows link.1 link.2 = .ok rows) links rowss) :
    ∃ i, insertOf table links = .ok i ∧ i.rows = rowss.flatten ∧
      ∀ statement, i.compile d = .ok statement ↔ statement = { shape with rows := rowss.flatten } ∧
        ∀ row ∈ rowss.flatten, row.length = shape.columns.length := by
  obtain ⟨first, rest, rfl, -, hfirst⟩ := hshape
  refine ⟨{ insertFor table first.2 with rows := rowss.flatten }, ?_, rfl, fun statement => ?_⟩
  · exact bind_eq_ok.mpr ⟨rowss, mapM_eq_ok.mpr hrowss, rfl⟩
  · exact compile_rows_iff hfirst.compiled _

theorem sameShape_rows (rows : List (List Value)) :
    ({ shape with rows } : InsertStatement).SameShape shape :=
  ⟨rfl, rfl, rfl⟩

/-- The rows of an INSERT with columns are those that it proposes. -/
theorem proposals_rows {rows : List (List Value)} (h : shape.columns ≠ []) :
    ({ shape with rows } : InsertStatement).proposals = rows := by
  unfold InsertStatement.proposals
  exact if_neg (by simpa using h)

/-- The insert of edges of one join table has added their rows. -/
theorem reaches_insert_adds {i : Insert} (hi : insertOf table links = .ok i)
    (hshape : HasShape conn.dialect table shape links) (hs : s.current.IsSound E S)
    (h : (if i.rows.isEmpty then pure () else discard (conn.execInsert i) :
      Program Unit).Reaches (Call.Performs E S) s () s') :
    Adds E S shape links (s.current (nameParts table)) (s'.current (nameParts table)) ∧
      (∀ name, name ≠ nameParts table → s'.current name = s.current name) ∧
        s'.current.IsSound E S := by
  obtain rfl := hshape.shape_table
  obtain ⟨rowss, hrowss, -⟩ := bind_eq_ok.mp hi
  have hrowss := mapM_eq_ok.mp hrowss
  obtain ⟨i', hi', hrows, hcompiles⟩ := insertOf_shape hshape hrowss
  obtain rfl : i' = i := Except.ok.inj (hi'.symm.trans hi)
  split at h
  case isTrue hempty =>
    obtain ⟨-, rfl⟩ := reaches_done.mp h
    rw [hrows, List.isEmpty_iff] at hempty
    refine ⟨⟨rfl, rowss, [], hrowss, ?_, by simp [hempty]⟩, fun _ _ => rfl, hs⟩
    rw [hempty]
    exact .nil
  case isFalse =>
    obtain ⟨r, hexec⟩ := reaches_discard.mp h
    obtain ⟨statement, hcompile, -, ⟨⟨hcarried, -⟩, reported, hinserts, -⟩, hnodup, -, hsound⟩ :=
      reaches_execInsert.mp hexec
    obtain ⟨rfl, hfit⟩ := (hcompiles statement).mp hcompile
    obtain ⟨hknown, hsame, hstored⟩ := hinserts
    rw [proposals_rows hshape.columns_ne_nil] at hstored
    refine ⟨⟨hsame, rowss, reported, hrowss, hstored.congr (sameShape_rows _), fun row hrow =>
      ⟨hfit row hrow, hnodup, hknown⟩⟩, hcarried, hsound⟩

/-- The insert of edges of one join table adds their rows, if they can be added. -/
theorem ensures_insert_adds {i : Insert} (hi : insertOf table links = .ok i)
    (hshape : HasShape conn.dialect table shape links) (hs : s.current.IsSound E S)
    (hadds : Adds E S shape links (s.current (nameParts table)) t')
    (hsound : ∀ t, Adds E S shape links (s.current (nameParts table)) t → t.IsSound E S table) :
    (if i.rows.isEmpty then pure () else discard (conn.execInsert i) :
      Program Unit).Ensures (Call.Performs E S) s fun _ s' =>
        Adds E S shape links (s.current (nameParts table)) (s'.current (nameParts table)) ∧
          (∀ name, name ≠ nameParts table → s'.current name = s.current name) ∧
            s'.current.IsSound E S := by
  obtain rfl := hshape.shape_table
  have hadded := hadds
  obtain ⟨hsame, rowss, reported, hrowss, hstored, hfit⟩ := hadds
  obtain ⟨i', hi', hrows, hcompiles⟩ := insertOf_shape hshape hrowss
  obtain rfl : i' = i := Except.ok.inj (hi'.symm.trans hi)
  split
  case isTrue hempty =>
    rw [hrows, List.isEmpty_iff] at hempty
    refine ⟨⟨rfl, rowss, [], hrowss, ?_, by simp [hempty]⟩, fun _ _ => rfl, hs⟩
    rw [hempty]
    exact .nil
  case isFalse hsome =>
    obtain ⟨row, hrow⟩ := List.exists_mem_of_ne_nil rowss.flatten (by simpa [hrows] using hsome)
    obtain ⟨-, hnodup, hknown⟩ := hfit row hrow
    have hlengths : ∀ row ∈ rowss.flatten, row.length = shape.columns.length :=
      fun row hrow => (hfit row hrow).1
    refine ensures_insert ((hcompiles _).mpr ⟨rfl, hlengths⟩) hnodup ?_ ?_
    · have htable := Function.update_self (nameParts shape.table) t' s.current
      refine ⟨Function.update s.current (nameParts shape.table) t', reported, ⟨hknown, ?_, ?_⟩,
        fun name hname => Function.update_of_ne hname _ _, fun other => ?_⟩
      · exact (congrArg Table.columns htable).trans hsame
      · rw [proposals_rows hshape.columns_ne_nil]
        have hplaced : ({ shape with rows := rowss.flatten } : InsertStatement).StoresRows E S
            rowss.flatten (s.current (nameParts shape.table)).rows t'.rows reported :=
          InsertStatement.StoresRows.congr (i := shape) ⟨rfl, rfl, rfl⟩ hstored
        rw [← htable] at hplaced
        exact hplaced
      · by_cases hother : nameParts other = nameParts shape.table
        · obtain rfl := nameParts_injective hother
          rw [htable]
          exact hsound t' hadded
        · rw [Function.update_of_ne hother]
          exact hs other
    · rintro s' reported' ⟨-, hsame', hstored'⟩ hothers hs'
      rw [proposals_rows hshape.columns_ne_nil] at hstored'
      exact ⟨⟨hsame', rowss, reported', hrowss, hstored'.congr (sameShape_rows _), hfit⟩, hothers,
        hs'⟩

/-! ## All join tables -/

/-- The links of edges of many to many that have this join table. -/
def linksOn (table : String) (links : List (List Value × Edge)) : List (List Value × Edge) :=
  (links.filter fun link => link.2.isManyToMany).filter fun link => link.2.table == table

theorem mem_linksOn {link : List Value × Edge} : link ∈ linksOn table links ↔
    link ∈ links ∧ link.2.isManyToMany = true ∧ link.2.table = table := by
  unfold linksOn
  rw [List.mem_filter, List.mem_filter, and_assoc, beq_iff_eq]

theorem linksOn_append :
    linksOn table (links ++ links') = linksOn table links ++ linksOn table links' := by
  simp [linksOn]

/-- Of the tables of some join tables' links, one after the other, each has got its rows; other tables
have not changed. -/
structure AddsAll (E : Engine) (S : Schema) (shapes : String → InsertStatement)
    (groups : List (String × List (List Value × Edge))) (s s' : Session) : Prop where
  adds : ∀ g ∈ groups,
    Adds E S (shapes g.1) g.2 (s.current (nameParts g.1)) (s'.current (nameParts g.1))
  others : ∀ name, (∀ g ∈ groups, nameParts g.1 ≠ name) → s'.current name = s.current name
  isSound : s'.current.IsSound E S

section Groups

variable {shapes : String → InsertStatement} {groups : List (String × List (List Value × Edge))}
  {g : String × List (List Value × Edge)} {inserts : List Insert} {m : Session}

theorem AddsAll.cons (hnew : ∀ g' ∈ groups, g'.1 ≠ g.1)
    (hadds : Adds E S (shapes g.1) g.2 (s.current (nameParts g.1)) (m.current (nameParts g.1)))
    (hothers : ∀ name, name ≠ nameParts g.1 → m.current name = s.current name)
    (h : AddsAll E S shapes groups m s') : AddsAll E S shapes (g :: groups) s s' where
  adds := by
    intro g' hg'
    rcases List.mem_cons.mp hg' with rfl | hg'
    · rw [h.others _ fun g'' hg'' hname => hnew g'' hg'' (nameParts_injective hname)]
      exact hadds
    · have hne : nameParts g'.1 ≠ nameParts g.1 :=
        fun hname => hnew g' hg' (nameParts_injective hname)
      rw [← hothers _ hne]
      exact h.adds g' hg'
  others := by
    intro name hname
    obtain ⟨hg, hgroups⟩ := List.forall_mem_cons.mp hname
    rw [h.others name hgroups, hothers name (Ne.symm hg)]
  isSound := h.isSound

theorem reaches_inserts_adds
    (hinserts : List.Forall₂ (fun g i => insertOf g.1 g.2 = .ok i) groups inserts)
    (hnodup : (groups.map (·.1)).Nodup) (hshapes : ∀ g ∈ groups, HasShape conn.dialect g.1 (shapes g.1) g.2)
    (hs : s.current.IsSound E S)
    (h : (inserts.forM fun i => (if i.rows.isEmpty then pure () else discard (conn.execInsert i) :
      Program Unit)).Reaches (Call.Performs E S) s () s') :
    AddsAll E S shapes groups s s' := by
  induction hinserts generalizing s with
  | nil =>
    obtain rfl := reaches_forM_nil.mp h
    exact ⟨by simp, fun _ _ => rfl, hs⟩
  | @cons g i groups inserts hi _ ih =>
    obtain ⟨hshape, hrest⟩ := List.forall_mem_cons.mp hshapes
    obtain ⟨hnew, hnodup⟩ := List.nodup_cons.mp hnodup
    obtain ⟨mid, hinsert, hloop⟩ := reaches_forM_cons.mp h
    obtain ⟨hadds, hothers, hmid⟩ := reaches_insert_adds hi hshape hs hinsert
    exact .cons (fun g' hg' hname => hnew (List.mem_map.mpr ⟨g', hg', hname⟩)) hadds hothers
      (ih hnodup hrest hmid hloop)

theorem ensures_inserts_adds
    (hinserts : List.Forall₂ (fun g i => insertOf g.1 g.2 = .ok i) groups inserts)
    (hnodup : (groups.map (·.1)).Nodup) (hshapes : ∀ g ∈ groups, HasShape conn.dialect g.1 (shapes g.1) g.2)
    (hs : s.current.IsSound E S)
    (hadds : ∀ g ∈ groups, ∃ t, Adds E S (shapes g.1) g.2 (s.current (nameParts g.1)) t)
    (hsound : ∀ g ∈ groups, ∀ t, Adds E S (shapes g.1) g.2 (s.current (nameParts g.1)) t →
      t.IsSound E S g.1) :
    (inserts.forM fun i => (if i.rows.isEmpty then pure () else discard (conn.execInsert i) :
      Program Unit)).Ensures (Call.Performs E S) s fun _ s' => AddsAll E S shapes groups s s' := by
  induction hinserts generalizing s with
  | nil => exact ⟨by simp, fun _ _ => rfl, hs⟩
  | @cons g i groups inserts hi _ ih =>
    obtain ⟨hshape, hrest⟩ := List.forall_mem_cons.mp hshapes
    obtain ⟨hnew, hnodup⟩ := List.nodup_cons.mp hnodup
    obtain ⟨⟨t, ht⟩, hlater⟩ := List.forall_mem_cons.mp hadds
    obtain ⟨hfirst, hsounds⟩ := List.forall_mem_cons.mp hsound
    have hapart : ∀ g' ∈ groups, g'.1 ≠ g.1 :=
      fun g' hg' hname => hnew (List.mem_map.mpr ⟨g', hg', hname⟩)
    refine (ensures_bind (f := fun _ => inserts.forM fun i => if i.rows.isEmpty then pure () else
      discard (conn.execInsert i))).mpr ?_
    refine (ensures_insert_adds hi hshape hs ht hfirst).mono ?_
    rintro _ mid ⟨hadded, hothers, hmid⟩
    have hsame : ∀ g' ∈ groups, mid.current (nameParts g'.1) = s.current (nameParts g'.1) :=
      fun g' hg' => hothers _ fun hname => hapart g' hg' (nameParts_injective hname)
    refine (ih hnodup hrest hmid (fun g' hg' => ?_) fun g' hg' => ?_).mono fun _ s' hall =>
      .cons hapart hadded hothers hall
    · rw [hsame g' hg']
      exact hlater g' hg'
    · rw [hsame g' hg']
      exact hsounds g' hg'

end Groups

/-- The groups of the links of edges of many to many, by their join tables. -/
def groupsOf (links : List (List Value × Edge)) : List (String × List (List Value × Edge)) :=
  groupByName (fun link => link.2.table) (links.filter fun link => link.2.isManyToMany)

theorem mem_groupsOf {g : String × List (List Value × Edge)} :
    g ∈ groupsOf links ↔ g.2 = linksOn g.1 links ∧ g.2 ≠ [] := by
  unfold groupsOf
  rw [mem_groupByName, and_comm]
  refine and_congr_right fun hg => ?_
  rw [hg]
  constructor
  · rintro ⟨link, hlink, hname⟩
    exact List.ne_nil_of_mem (List.mem_filter.mpr ⟨hlink, by simpa using hname⟩)
  · intro hne
    obtain ⟨link, hlink⟩ := List.exists_mem_of_ne_nil _ hne
    obtain ⟨hlink, hname⟩ := List.mem_filter.mp hlink
    exact ⟨link, hlink, by simpa using hname⟩

/-- Each table has got the rows of the links that have it as their join table. -/
structure AddsLinks (E : Engine) (S : Schema) (shapes : String → InsertStatement)
    (links : List (List Value × Edge)) (s s' : Session) : Prop where
  adds : ∀ table, Adds E S (shapes table) (linksOn table links) (s.current (nameParts table))
    (s'.current (nameParts table))
  others : ∀ name, (∀ link ∈ links, link.2.isManyToMany = true → nameParts link.2.table ≠ name) →
    s'.current name = s.current name
  isSound : s'.current.IsSound E S

theorem AddsAll.addsLinks {shapes : String → InsertStatement}
    (h : AddsAll E S shapes (groupsOf links) s s') : AddsLinks E S shapes links s s' where
  adds := by
    intro table
    by_cases hnone : linksOn table links = []
    · have hsame : s'.current (nameParts table) = s.current (nameParts table) := by
        refine h.others _ fun g hg hname => (mem_groupsOf.mp hg).2 ?_
        rw [(mem_groupsOf.mp hg).1, nameParts_injective hname, hnone]
      rw [hnone, hsame]
      exact adds_nil
    · exact h.adds (table, linksOn table links) (mem_groupsOf.mpr ⟨rfl, hnone⟩)
  others := by
    intro name hname
    refine h.others name fun g hg => ?_
    obtain ⟨hlinks, hne⟩ := mem_groupsOf.mp hg
    obtain ⟨link, hlink⟩ := List.exists_mem_of_ne_nil _ hne
    rw [hlinks] at hlink
    obtain ⟨hlink, hmany, htable⟩ := mem_linksOn.mp hlink
    rw [← htable]
    exact hname link hlink hmany
  isSound := h.isSound

/-- The INSERT into each join table of some links has its shape. -/
def HaveShapes (d : Dialect) (shapes : String → InsertStatement)
    (links : List (List Value × Edge)) : Prop :=
  ∀ table, linksOn table links ≠ [] → HasShape d table (shapes table) (linksOn table links)

theorem HaveShapes.append {shapes : String → InsertStatement} (h : HaveShapes d shapes links)
    (h' : HaveShapes d shapes links') : HaveShapes d shapes (links ++ links') := by
  intro table hne
  rw [linksOn_append] at hne ⊢
  by_cases hnone : linksOn table links = []
  · rw [hnone, List.nil_append] at hne ⊢
    exact h' table hne
  · exact (h table hnone).append

theorem HaveShapes.of_groups {shapes : String → InsertStatement} (h : HaveShapes d shapes links) :
    ∀ g ∈ groupsOf links, HasShape d g.1 (shapes g.1) g.2 := by
  intro g hg
  obtain ⟨hlinks, hne⟩ := mem_groupsOf.mp hg
  rw [hlinks] at hne ⊢
  exact h g.1 hne

/-- Writing edges of many to many has added their rows to their join tables. -/
theorem reaches_add_links {shapes : String → InsertStatement}
    (hshapes : HaveShapes conn.dialect shapes links) (hs : s.current.IsSound E S)
    (h : (JoinTable.add conn links).Reaches (Call.Performs E S) s () s') :
    AddsLinks E S shapes links s s' := by
  unfold JoinTable.add at h
  obtain ⟨inserts, mid, hmapM, hforM⟩ := reaches_bind.mp h
  obtain ⟨hinserts, hmid⟩ := leads_mapM_ofExcept (hmapM.leads fun _ _ _ _ h => h.answers)
  rw [hmid] at hforM
  exact (reaches_inserts_adds hinserts (nodup_groupByName _ _) hshapes.of_groups hs hforM).addsLinks

/-- Writing edges of many to many adds their rows to their join tables, if they can be added. -/
theorem ensures_add_links {shapes : String → InsertStatement}
    (hshapes : HaveShapes conn.dialect shapes links) (hs : s.current.IsSound E S)
    (hadds : ∀ table, ∃ t, Adds E S (shapes table) (linksOn table links)
      (s.current (nameParts table)) t)
    (hsound : ∀ table, linksOn table links ≠ [] → ∀ t, Adds E S (shapes table)
      (linksOn table links) (s.current (nameParts table)) t → t.IsSound E S table) :
    (JoinTable.add conn links).Ensures (Call.Performs E S) s fun _ s' =>
      AddsLinks E S shapes links s s' := by
  have hinserts : ∃ inserts,
      List.Forall₂ (fun g i => insertOf g.1 g.2 = .ok i) (groupsOf links) inserts := by
    refine exists_forall₂ fun g hg => ?_
    obtain ⟨hlinks, hne⟩ := mem_groupsOf.mp hg
    obtain ⟨t, -, rowss, -, hrowss, -⟩ := hadds g.1
    rw [← hlinks] at hrowss
    obtain ⟨i, hi, -⟩ := insertOf_shape (hshapes.of_groups g hg) hrowss
    exact ⟨i, hi⟩
  obtain ⟨inserts, hinserts⟩ := hinserts
  unfold JoinTable.add
  refine ensures_bind.mpr (ensures_mapM_ofExcept hinserts ?_)
  refine (ensures_inserts_adds hinserts (nodup_groupByName _ _) hshapes.of_groups hs ?_ ?_).mono
    fun _ s' hall => hall.addsLinks
  · intro g hg
    rw [(mem_groupsOf.mp hg).1]
    exact hadds g.1
  · intro g hg
    obtain ⟨hlinks, hne⟩ := mem_groupsOf.mp hg
    rw [hlinks] at hne ⊢
    exact hsound g.1 hne

end JoinTable

end EntityGraph
