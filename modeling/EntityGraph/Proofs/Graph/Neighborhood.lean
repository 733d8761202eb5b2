import EntityGraph.Proofs.Graph.JoinTablePairs
import EntityGraph.Proofs.Relational.Performed
import EntityGraph.Proofs.Relational.StoredRows

/-!
# The neighborhood of a node

An update of one node may change the node's own row, the rows of join tables that have the node, the
rows that refer to the node by a foreign key, and the free rows of its targets. `NodeUpdate.Near`
says so of a row that is there before the update, `NodeUpdate.Joins` of one that is inserted. Each
statement of an update keeps to these rows.
-/

set_option autoImplicit false

namespace EntityGraph

open Program

variable {E : Engine} {S : Schema} {db mid : Database} {table : String} {r r' : Tuple} {x : Value}

/-! ## Conditions that name a node -/

theorem equal_of_meets_eq {column : String} (hx : x.isNull = false)
    (h : db.meets E table (some (.eq column x)) r = true) :
    E.equal (r (columnName column)) x = true := by
  cases hknown : db.knows table column with
  | true =>
    rwa [meets_eq hknown, Engine.picks_of_value hx] at h
  | false =>
    rw [Database.meets, conditionTruth, truth_eq_isYes, lookup_unknown hknown,
      Engine.picks_of_value hx] at h
    cases Engine.isNull_of_equal h

theorem equal_of_meets_oneOf {column : String} (hx : x.isNull = false)
    (h : db.meets E table (some (.oneOf column [x])) r = true) :
    E.equal (r (columnName column)) x = true :=
  equal_of_meets_eq hx h

theorem equal_of_meets_bothOneOf {column other : String} {vs : List Value} (hx : x.isNull = false)
    (h : db.meets E table (some (.bothOneOf column [x] other vs)) r = true) :
    E.equal (r (columnName column)) x = true := by
  rw [Predicate.bothOneOf, meets_and, Bool.and_eq_true] at h
  exact equal_of_meets_oneOf hx h.1

/-- A row that is deleted with an edge of a node has the node at its own end, or at either end if
the edge serves both directions. -/
theorem JoinTable.ends_of_meets {e : Edge} {ps : List Predicate} {p : Predicate}
    (hps : clearedRows [x] e = .ok ps) (hx : x.isNull = false) (hp : p ∈ ps)
    (h : db.meets E table (some p) r = true) : ∃ own other, e.joinColumns = .ok (own, other) ∧
      (E.equal (r (columnName own)) x = true ∨
        e.bidi = true ∧ E.equal (r (columnName other)) x = true) := by
  obtain ⟨⟨own, other⟩, hjoin, hpredicates⟩ := bind_eq_ok.mp hps
  refine ⟨own, other, hjoin, ?_⟩
  dsimp only at hpredicates
  split at hpredicates
  case isTrue =>
    obtain rfl := Except.ok.inj hpredicates
    rcases List.mem_cons.mp hp with rfl | hp
    · exact .inl (equal_of_meets_oneOf hx h)
    · split at hp
      case isTrue hbidi =>
        obtain rfl := List.mem_singleton.mp hp
        exact .inr ⟨hbidi, equal_of_meets_oneOf hx h⟩
      case isFalse => cases hp
  case isFalse =>
    obtain rfl := Except.ok.inj hpredicates
    rcases List.mem_cons.mp hp with rfl | hp
    · exact .inl (equal_of_meets_bothOneOf hx h)
    · split at hp
      case isTrue hbidi =>
        obtain rfl := List.mem_singleton.mp hp
        exact .inr ⟨hbidi, equal_of_meets_bothOneOf hx h⟩
      case isFalse => cases hp

/-- The rows of a table after an INSERT that leaves stored rows as they are. -/
theorem InsertStatement.StoresRows.exists_added {i : InsertStatement} {values : List (List Value)}
    {rows rows' reported : List Tuple}
    (hinert : ∀ clause, i.conflict = some clause → clause.IsInert)
    (h : i.StoresRows E S values rows rows' reported) :
    ∃ added, rows'.Perm (rows ++ added) ∧
      ∀ r ∈ added, ∃ v ∈ values, ∃ before, i.Proposes E S before v r := by
  induction h with
  | nil => exact ⟨[], by simp, by simp⟩
  | @cons v rest before mid after r _ _ proposes stores _ ih =>
    obtain ⟨added, hperm, hadded⟩ := ih
    have hrest : ∀ q ∈ added, ∃ w ∈ v :: rest, ∃ before, i.Proposes E S before w q := by
      intro q hq
      obtain ⟨w, hw, hproposes⟩ := hadded q hq
      exact ⟨w, List.mem_cons_of_mem v hw, hproposes⟩
    rcases stores.added_or_kept hinert with ⟨-, hadd⟩ | ⟨rfl, -⟩
    · refine ⟨r :: added, hperm.trans ((hadd.append_right added).trans ?_), ?_⟩
      · exact List.perm_middle.symm
      · exact List.forall_mem_cons.mpr ⟨⟨v, List.mem_cons_self, before, proposes⟩, hrest⟩
    · exact ⟨added, hperm, hrest⟩

namespace NodeUpdate

variable {u : NodeUpdate} {name : List String}

/-- The rows of a database that an update of a node may change or delete. -/
inductive Near (E : Engine) (u : NodeUpdate) (x : Value) (db : Database) :
    List String → Tuple → Prop
  /-- The node's own row, if it meets the condition. -/
  | own {r : Tuple} (id : E.equal (r (columnName u.node.id.column)) x = true)
      (meets : db.meets E u.node.table u.predicate r = true) :
      Near E u x db (nameParts u.node.table) r
  /-- A row of a join table with the node at its own end, or at either end if the edge serves both
  directions. -/
  | joined {e : Edge} {own other : String} {r : Tuple} (mem : e ∈ u.edges.add ++ u.edges.clear)
      (many : e.isManyToMany = true) (columns : e.joinColumns = .ok (own, other))
      (ends : E.equal (r (columnName own)) x = true ∨
        e.bidi = true ∧ E.equal (r (columnName other)) x = true) :
      Near E u x db (nameParts e.table) r
  /-- A row that refers to the node over an edge that is cleared. -/
  | referring {e : Edge} {fk : String} {r : Tuple} (mem : e ∈ u.edges.clear)
      (foreign : e.isForeignKeyEdge = true) (columns : e.columns = [fk])
      (refers : E.equal (r (columnName fk)) x = true) : Near E u x db (nameParts e.table) r
  /-- The row of a target of an edge that is added, if it does not refer to any node. -/
  | free {e : Edge} {fk : String} {t : Value} {r : Tuple} (mem : e ∈ u.edges.add)
      (foreign : e.isForeignKeyEdge = true) (columns : e.columns = [fk])
      (target : t ∈ e.target.nodes)
      (id : E.equal (r (columnName e.target.id.column)) t = true)
      (free : (r (columnName fk)).isNull = true) : Near E u x db (nameParts e.table) r

/-- A column is the foreign key of an edge that the update adds or clears. -/
def WritesKey (u : NodeUpdate) (name : List String) (c : String) : Prop :=
  ∃ e ∈ u.edges.add ++ u.edges.clear, e.isForeignKeyEdge = true ∧ nameParts e.table = name ∧
    ∃ fk, e.columns = [fk] ∧ columnName fk = c

/-- The rows that an update of a node may insert: rows of a join table with the node at its own end,
or at either end if the edge serves both directions. What is inserted there may be written again if
it is a foreign key of another edge of the update. -/
def Joins (u : NodeUpdate) (x : Value) (name : List String) (r : Tuple) : Prop :=
  ∃ e ∈ u.edges.add, e.isManyToMany = true ∧ nameParts e.table = name ∧
    ∃ own other, e.joinColumns = .ok (own, other) ∧
      ∃ c, (c = own ∨ e.bidi = true ∧ c = other) ∧ (r c = x ∨ u.WritesKey name c)

/-- The rows of a table have changed within the neighborhood of a node only. -/
def KeepsNear (E : Engine) (u : NodeUpdate) (x : Value) (db db' : Database) (name : List String) :
    Prop :=
  ∃ (f : Tuple → Option Tuple) (added : List Tuple),
    (db' name).rows.Perm ((db name).rows.filterMap f ++ added) ∧
      (∀ r ∈ (db name).rows, f r ≠ some r → u.Near E x db name r) ∧
        ∀ r ∈ added, u.Joins x name r

/-- A database has changed within the neighborhood of a node only. -/
structure StaysNear (E : Engine) (u : NodeUpdate) (x : Value) (db db' : Database) : Prop where
  columns : ∀ name, (db' name).columns = (db name).columns
  rows : ∀ name, u.KeepsNear E x db db' name

theorem StaysNear.refl (u : NodeUpdate) (db : Database) : u.StaysNear E x db db := by
  refine ⟨fun _ => rfl, fun name => ⟨some, [], ?_, fun r _ h => absurd rfl h, by simp⟩⟩
  rw [List.filterMap_some, List.append_nil]

/-- A statement that changes rows one by one stays within the neighborhood if each row that it
changes is there, and it writes only foreign keys in inserted rows. -/
theorem StaysNear.of_rows (h : u.StaysNear E x db mid) (table : String)
    (g : Tuple → Option Tuple) {after : Database}
    (hothers : ∀ name, name ≠ nameParts table → after name = mid name)
    (hcolumns : (after (nameParts table)).columns = (mid (nameParts table)).columns)
    (hrows : (after (nameParts table)).rows = (mid (nameParts table)).rows.filterMap g)
    (hnear : ∀ r ∈ (mid (nameParts table)).rows, g r ≠ some r →
      u.Near E x db (nameParts table) r)
    (hkeeps : ∀ r r', g r = some r' → ∀ c, r' c = r c ∨ u.WritesKey (nameParts table) c) :
    u.StaysNear E x db after := by
  constructor
  · intro name
    by_cases hname : name = nameParts table
    · rw [hname, hcolumns, h.columns]
    · rw [hothers name hname, h.columns]
  · intro name
    by_cases hname : name = nameParts table
    · subst hname
      obtain ⟨f, added, hperm, hf, hadded⟩ := h.rows (nameParts table)
      refine ⟨fun r => (f r).bind g, added.filterMap g, ?_, fun r hr hchanged => ?_, ?_⟩
      · rw [hrows, ← List.filterMap_filterMap, ← List.filterMap_append]
        exact hperm.filterMap g
      · by_contra hfar
        -- a row outside the neighborhood is still what it was when the statement comes to it
        have hkept : f r = some r := by
          by_contra hne
          exact hfar (hf r hr hne)
        dsimp only at hchanged
        rw [hkept, Option.bind_some] at hchanged
        refine hfar (hnear r (hperm.mem_iff.mpr (List.mem_append_left _ ?_)) hchanged)
        exact List.mem_filterMap.mpr ⟨r, hr, hkept⟩
      · intro r' hr'
        obtain ⟨r, hr, hgr⟩ := List.mem_filterMap.mp hr'
        obtain ⟨e, he, hmany, htable, own, other, hjoin, c, hc, hvalue⟩ := hadded r hr
        refine ⟨e, he, hmany, htable, own, other, hjoin, c, hc, ?_⟩
        rcases hkeeps r r' hgr c with hsame | hwrites
        · rwa [hsame]
        · exact .inr hwrites
    · unfold KeepsNear
      rw [hothers name hname]
      exact h.rows name

/-- An UPDATE stays within the neighborhood if it reaches rows only that are there. -/
theorem StaysNear.update (h : u.StaysNear E x db mid) {w : Update}
    (hnear : ∀ r ∈ (mid (nameParts w.table)).rows, mid.meets E w.table w.predicate r = true →
      u.Near E x db (nameParts w.table) r)
    (hkeeps : ∀ r c, w.assigned E r c = r c ∨ u.WritesKey (nameParts w.table) c) :
    u.StaysNear E x db (w.applied E mid) := by
  refine h.of_rows w.table (fun r => some (w.rowAfter E mid r))
    (fun name hname => Update.applied_of_ne hname) (Update.applied_columns w) ?_
    (fun r hr hchanged => ?_) fun r r' hr c => ?_
  · rw [Update.applied_table]
    exact (congrFun List.filterMap_eq_map _).symm
  · unfold Update.rowAfter at hchanged
    split at hchanged
    case isTrue hmeets => exact hnear r hr hmeets
    case isFalse => exact absurd rfl hchanged
  · obtain rfl := Option.some.inj hr
    unfold Update.rowAfter
    split
    case isTrue => exact hkeeps r c
    case isFalse => exact .inl rfl

/-- A DELETE stays within the neighborhood if it reaches rows only that are there. -/
theorem StaysNear.delete (h : u.StaysNear E x db mid) {w : Delete}
    (hnear : ∀ r ∈ (mid (nameParts w.table)).rows, mid.meets E w.table w.predicate r = true →
      u.Near E x db (nameParts w.table) r) : u.StaysNear E x db (w.applied E mid) := by
  refine h.of_rows w.table (Option.guard fun r => !mid.meets E w.table w.predicate r)
    (fun name hname => Delete.applied_of_ne hname) ?_ ?_ (fun r hr hchanged => ?_)
    fun r r' hr c => ?_
  · simp [Delete.applied]
  · simp [Delete.applied, List.filterMap_eq_filter]
  · cases hmeets : mid.meets E w.table w.predicate r with
    | true => exact hnear r hr hmeets
    | false => exact absurd (by simp [Option.guard, hmeets]) hchanged
  · obtain ⟨rfl, -⟩ := Option.guard_eq_some_iff.mp hr
    exact .inl rfl

/-! ## The statements of an update -/

/-- The node's own row is changed first, when the database is as it was. -/
theorem staysNear_own {own : Update} (hown : u.ownUpdate = .ok own) (hx : x.isNull = false) :
    u.StaysNear E x db ((u.touching u.predicate own x).applied E db) := by
  obtain ⟨_, _, hassigns⟩ := ownUpdate_ok hown
  obtain ⟨htable, -, -⟩ := u.touching_fields (E := E) u.predicate own x
  replace htable := htable.trans hassigns.table
  refine ⟨fun name => Update.applied_columns _, fun name => ?_⟩
  refine ⟨fun r => some ((u.touching u.predicate own x).rowIn E db name r), [], ?_,
    fun r _ hchanged => ?_, by simp⟩
  · rw [Update.applied_rows, List.append_nil]
    exact .of_eq (congrFun List.filterMap_eq_map _).symm
  · have hreached : nameParts u.node.table = name ∧
        db.meets E u.node.table (u.touching u.predicate own x).predicate r = true := by
      by_contra hspared
      refine hchanged (congrArg some ?_)
      unfold Update.rowIn Update.rowAfter
      rw [htable]
      split
      case isTrue hname =>
        split
        case isTrue hmeets => exact absurd ⟨hname, hmeets⟩ hspared
        case isFalse => rfl
      case isFalse => rfl
    obtain ⟨rfl, hmeets⟩ := hreached
    unfold touching Update.filterOpt at hmeets
    cases hcondition : u.predicate with
    | none =>
      rw [hcondition] at hmeets
      dsimp only [Update.filter] at hmeets
      rw [hassigns.predicate] at hmeets
      refine .own (equal_of_meets_eq hx hmeets) ?_
      rw [hcondition]
      rfl
    | some p =>
      rw [hcondition] at hmeets
      dsimp only [Update.filter] at hmeets
      rw [meets_conjoin, hassigns.predicate, Bool.and_eq_true] at hmeets
      refine .own (equal_of_meets_eq hx hmeets.1) ?_
      rw [hcondition]
      exact hmeets.2

/-- Clearing edges of many to many deletes rows that have the node. -/
theorem StaysNear.clearJoins (h : u.StaysNear E x db mid) (hx : x.isNull = false)
    {edges : List Edge} {w : Delete} (hw : JoinTable.clearing table [x] edges = .ok w)
    (hedges : ∀ e ∈ edges, e ∈ u.edges.clear ∧ e.isManyToMany = true ∧ e.table = table) :
    u.StaysNear E x db (w.applied E mid) := by
  obtain ⟨pss, hpss, rfl⟩ := JoinTable.clearing_eq_ok.mp hw
  refine h.delete fun r _ hmeets => ?_
  dsimp only at hmeets ⊢
  rw [meets_disj, List.any_flatten, List.any_eq_true] at hmeets
  obtain ⟨ps, hps, hany⟩ := hmeets
  obtain ⟨e, he, hrows⟩ := exists_of_forall₂ hpss.flip hps
  obtain ⟨hmem, hmany, rfl⟩ := hedges e he
  obtain ⟨p, hp, hmeets⟩ := List.any_eq_true.mp hany
  obtain ⟨own, other, hjoin, hends⟩ := JoinTable.ends_of_meets hrows hx hp hmeets
  exact .joined (List.mem_append_right _ hmem) hmany hjoin hends

/-- An INSERT that leaves stored rows as they are stays within the neighborhood if each of its rows
is there. -/
theorem StaysNear.insert (h : u.StaysNear E x db mid) {after : Database} {i : InsertStatement}
    {reported : List Tuple} (hinserts : i.Inserts E S mid after reported)
    (hothers : ∀ name, name ≠ nameParts i.table → after name = mid name)
    (hinert : ∀ clause, i.conflict = some clause → clause.IsInert)
    (hrows : ∀ v ∈ i.proposals, ∀ r : Tuple, (∀ p ∈ i.columns.zip v, r p.1 = p.2) →
      u.Joins x (nameParts i.table) r) : u.StaysNear E x db after := by
  constructor
  · intro name
    by_cases hname : name = nameParts i.table
    · rw [hname, hinserts.sameColumns, h.columns]
    · rw [hothers name hname, h.columns]
  · intro name
    by_cases hname : name = nameParts i.table
    · subst hname
      obtain ⟨f, added, hperm, hf, hadded⟩ := h.rows (nameParts i.table)
      obtain ⟨more, hmore, hproposed⟩ := hinserts.stored.exists_added hinert
      refine ⟨f, added ++ more, ?_, hf, fun r hr => ?_⟩
      · rw [← List.append_assoc]
        exact hmore.trans (hperm.append_right more)
      · rcases List.mem_append.mp hr with hr | hr
        · exact hadded r hr
        · obtain ⟨v, hv, _, hproposes⟩ := hproposed r hr
          exact hrows v hv r hproposes.written
    · unfold KeepsNear
      rw [hothers name hname]
      exact h.rows name

/-- A row that has the values of an edge of the node in the columns of that edge has the node. -/
theorem joins_of_edgeRows {e : Edge} {rows : List (List Value)} {v : List Value}
    {c₁ c₂ : String} {extra : List String} (he : e ∈ u.edges.add) (hmany : e.isManyToMany = true)
    (hcolumns : e.columns = [c₁, c₂]) (hrows : JoinTable.edgeRows [x] e = .ok rows) (hv : v ∈ rows)
    (hwritten : ∀ p ∈ (c₁ :: c₂ :: extra).zip v, r p.1 = p.2) :
    u.Joins x (nameParts e.table) r := by
  obtain ⟨further, hfurther⟩ := JoinTable.mem_edgeRows hrows
  obtain ⟨i, hi, t, -, hpair⟩ := (hfurther v).mp hv
  obtain rfl := List.mem_singleton.mp hi
  have hends : ∃ own other, e.joinColumns = .ok (own, other) ∧
      ∃ c, (c = own ∨ e.bidi = true ∧ c = other) ∧ r c = i := by
    unfold Edge.pair at hpair
    unfold Edge.joinColumns
    rw [hcolumns]
    cases hinverse : e.inverse with
    | true =>
      rw [hinverse] at hpair
      rcases hpair with rfl | ⟨hbidi, rfl⟩
      · exact ⟨_, _, rfl, c₂, .inl rfl, hwritten (c₂, i) (by simp)⟩
      · exact ⟨_, _, rfl, c₁, .inr ⟨hbidi, rfl⟩, hwritten (c₁, i) (by simp)⟩
    | false =>
      rw [hinverse] at hpair
      rcases hpair with rfl | ⟨hbidi, rfl⟩
      · exact ⟨_, _, rfl, c₁, .inl rfl, hwritten (c₁, i) (by simp)⟩
      · exact ⟨_, _, rfl, c₂, .inr ⟨hbidi, rfl⟩, hwritten (c₂, i) (by simp)⟩
  obtain ⟨own, other, hjoin, c, hc, hvalue⟩ := hends
  exact ⟨e, he, hmany, rfl, own, other, hjoin, c, hc, .inl hvalue⟩

/-- Adding edges of many to many inserts rows that have the node, if the edges have the columns of
the first one, which gives the INSERT its shape. -/
theorem StaysNear.addJoins (h : u.StaysNear E x db mid) {after : Database} {d : Dialect}
    {links : List (List Value × Edge)} {i : Insert} {statement : InsertStatement}
    {reported : List Tuple} (hi : JoinTable.insertOf table links = .ok i) (hne : links ≠ [])
    (hcompile : i.compile d = .ok statement)
    (hinserts : statement.Inserts E S mid after reported)
    (hothers : ∀ name, name ≠ nameParts statement.table → after name = mid name)
    (hlinks : ∀ link ∈ links, link.1 = [x] ∧ link.2 ∈ u.edges.add ∧ link.2.isManyToMany = true ∧
      link.2.table = table)
    (hcolumns : ∃ c₁ c₂, ∀ link ∈ links, link.2.columns = [c₁, c₂]) :
    u.StaysNear E x db after := by
  obtain ⟨first, hfirst, rowss, hrowss, rfl⟩ := JoinTable.insertOf_eq_ok hi hne
  have hinert : ∀ clause, statement.conflict = some clause → clause.IsInert := by
    intro clause hclause
    exact (inert_of_compile hcompile (by dsimp only; split <;> simp) rfl hclause).2
  obtain ⟨-, conflict, -, rfl⟩ := Sql.compile_eq_ok.mp hcompile
  obtain ⟨c₁, c₂, hcolumns⟩ := hcolumns
  refine h.insert hinserts hothers hinert fun v hv r hwritten => ?_
  have hshape : first.2.columns ++ first.2.target.fields.map Field.column =
      c₁ :: c₂ :: first.2.target.fields.map Field.column := by
    rw [hcolumns first hfirst]
    rfl
  dsimp only [Sql.compiledAs, InsertStatement.proposals] at hv hwritten ⊢
  rw [hshape] at hv hwritten
  rw [if_neg (by simp)] at hv
  obtain ⟨rows, hrows, hv⟩ := List.mem_flatten.mp hv
  obtain ⟨⟨ids, e⟩, hlink, hedge⟩ := exists_of_forall₂ hrowss.flip hrows
  obtain ⟨rfl, he, hmany, rfl⟩ := hlinks _ hlink
  exact joins_of_edgeRows he hmany (hcolumns _ hlink) hedge hv hwritten

/-- Clearing foreign keys reaches rows that refer to the node. -/
theorem StaysNear.clearKeys (h : u.StaysNear E x db mid) (hx : x.isNull = false) {e : Edge}
    {w : Update} (hw : ForeignKey.clearing [x] e = .ok w) (he : e ∈ u.edges.clear)
    (hforeign : e.isForeignKeyEdge = true) : u.StaysNear E x db (w.applied E mid) := by
  obtain ⟨fk, hfk, rfl⟩ := ForeignKey.clearing_eq_ok.mp hw
  refine h.update (fun r _ hmeets => ?_) fun r c => ?_
  · refine .referring he hforeign hfk ?_
    dsimp only at hmeets
    unfold ForeignKey.clearedRows at hmeets
    split at hmeets
    case isTrue => exact equal_of_meets_oneOf hx hmeets
    case isFalse =>
      rw [Predicate.bothOneOf, meets_and, Bool.and_eq_true] at hmeets
      exact equal_of_meets_oneOf hx hmeets.2
  · by_cases hc : columnName fk = c
    · exact .inr ⟨e, List.mem_append_right _ he, hforeign, rfl, fk, hfk, hc⟩
    · exact .inl (Function.update_of_ne (Ne.symm hc) _ _)

/-- Linking targets reaches their rows, where they are free. -/
theorem StaysNear.link (h : u.StaysNear E x db mid) {e : Edge} {fk : String} (he : e ∈ u.edges.add)
    (hforeign : e.isForeignKeyEdge = true) (hfk : e.columns = [fk])
    (hnames : ∀ n ∈ (ForeignKey.linking x fk e).names, mid.knows e.table n = true)
    (hkey : (mid (nameParts e.table)).HasKey E e.target.id.column) :
    u.StaysNear E x db ((ForeignKey.linking x fk e).applied E mid) := by
  refine h.update (fun r hr hmeets => ?_) fun r c => ?_
  · have hknown : mid.knows e.table fk = true :=
      hnames fk (by simp [Update.names, ForeignKey.linking, Update.filter, Update.set,
        Update.ofTable])
    have hplain := columnName_plain hkey.plain
    have hpresent : (r (columnName e.target.id.column)).isNull = false := by
      rw [hplain]
      exact hkey.present r hr
    have hmeets : mid.meets E e.table (some (Predicate.conjoin
      (some (.oneOf e.target.id.column e.target.nodes)) (.isNull fk))) r = true := hmeets
    rw [meets_conjoin, Bool.and_eq_true, meets_oneOf hkey.knows hpresent, meets_isNull hknown,
      List.any_eq_true] at hmeets
    obtain ⟨⟨t, ht, hid⟩, hfree⟩ := hmeets
    exact .free he hforeign hfk ht hid hfree
  · by_cases hc : columnName fk = c
    · exact .inr ⟨e, List.mem_append_left _ he, hforeign, rfl, fk, hfk, hc⟩
    · exact .inl (Function.update_of_ne (Ne.symm hc) _ _)

end NodeUpdate

end EntityGraph
