import EntityGraph.Proofs.Graph.NeighborSteps
import EntityGraph.Proofs.Graph.OwnRow

/-!
# Reading over an edge

There are three ways to read the rows to which an edge leads: loading the neighbors of a parent,
following a step, and reading the pairs of a join table. Each of them has its own idea of where the
edge is stored. Here it is said once which rows they find for each kind of storage.
-/

set_option autoImplicit false

namespace EntityGraph

open Program

variable {E : Engine} {keys : List (String × String)} {d : Dialect}

/-! ## Readers -/

/-- The column by which a load over an edge finds the neighbors. -/
def Edge.goalColumn (e : Edge) (goal : Node) : String :=
  if e.isManyToMany || e.writesOwnColumn then goal.id.column else e.columns.head?.getD ""

/-- Every load over an edge for the key of a row that has a result has delivered those rows of the
neighbors' table that meet a condition. -/
def Edge.LoadsFrom (E : Engine) (keys : List (String × String)) (d : Dialect) (e : Edge)
    (start goal : Node) (db : Database) (row : Tuple) (p : Tuple → Bool) : Prop :=
  ∀ k scan t t' n, E.equal (row (e.keyColumn start)) k = true → t.1.current = db →
    (EdgeLoad.ofEdge e goal scan).ReadsKeys (db (nameParts goal.table)) (e.goalColumn goal) →
      ((EdgeLoad.ofEdge e goal scan).run d [k]).Reaches
        (Answering.keeping (Call.Answers E keys)) t n t' →
        (EdgeLoad.ofEdge e goal scan).Loads (e.goalColumn goal) t t' n p

/-- Every step over an edge from the ID of a row that has a result has read the IDs of those rows of
the neighbors' table that meet a condition. -/
def Edge.StepsFrom (E : Engine) (keys : List (String × String)) (d : Dialect) (e : Edge)
    (start goal : Node) (db : Database) (row : Tuple) (p : Tuple → Bool) : Prop :=
  ∀ k t t' ids, E.equal (row start.id.column) k = true → t.current = db →
    ((NodeQuery.ofStep goal (e.step start goal k)).ids d).Leads E keys t ids t' →
      NodeQuery.Selects goal t t' ids p

/-- Over an edge those rows are reached from a row that meet a condition, whether the neighbors are
loaded or a step is followed. -/
structure Edge.Reads (E : Engine) (keys : List (String × String)) (d : Dialect) (e : Edge)
    (start goal : Node) (db : Database) (row : Tuple) (p : Tuple → Bool) : Prop where
  /-- The row has a key to load the neighbors by. -/
  key : (row (e.keyColumn start)).isNull = false
  load : e.LoadsFrom E keys d start goal db row p
  step : e.StepsFrom E keys d start goal db row p

/-- Over an edge a row is among those that are reached from another, whether the neighbors are
loaded or a step is followed. -/
structure Edge.Finds (E : Engine) (keys : List (String × String)) (d : Dialect) (e : Edge)
    (start goal : Node) (db : Database) (row found : Tuple) : Prop where
  mem : found ∈ (db (nameParts goal.table)).rows
  /-- The row has a key to load the neighbors by. -/
  key : (row (e.keyColumn start)).isNull = false
  load : ∃ p, p found = true ∧ e.LoadsFrom E keys d start goal db row p
  step : ∃ p, p found = true ∧ e.StepsFrom E keys d start goal db row p

/-- A pair of values is among what has been delivered. -/
def DeliversPair (E : Engine) (ds : List Delivery) (v w : Value) : Prop :=
  ∃ a b, Delivery.link a b ∈ ds ∧ E.equal a v = true ∧ E.equal b w = true

/-- A query of the pairs of a join table that has a result has delivered those that have a value at
their own end and at the other end one that meets a condition. -/
def Edge.ReadsPairs (E : Engine) (keys : List (String × String)) (d : Dialect) (e : Edge)
    (db : Database) (v : Value) (p : Value → Bool) : Prop :=
  ∀ own other t t' n, e.joinColumns = .ok (own, other) → t.1.current = db →
    (db (nameParts e.table)).ReadsAs other e.target.id.type →
      (EdgeQuery.run d ⟨e, none⟩).Reaches (Answering.keeping (Call.Answers E keys)) t n t' →
        t'.1 = t.1 ∧ ∃ ds, t'.2 = t.2 ++ ds ∧ n = ds.length ∧
          ∀ w, DeliversPair E ds v w ↔ p w = true

/-- A node type can be read from a database. -/
structure Node.IsReadable (keys : List (String × String)) (db : Database) (goal : Node) :
    Prop where
  key : (goal.table, goal.id.column) ∈ keys
  columns : ∀ c ∈ goal.selectColumns, (db (nameParts goal.table)).HasColumn c
  /-- The table does not have the name under which linking rows are joined. -/
  name : ¬nameParts Step.linkAlias <:+ nameParts goal.table

theorem EdgeLoad.Loads.congr {l : EdgeLoad} {column : String} {t t' : Session × List Delivery}
    {n : Nat} {p q : Tuple → Bool} (h : l.Loads column t t' n p)
    (hp : ∀ r ∈ (t.1.current (nameParts l.target.table)).rows, p r = q r) :
    l.Loads column t t' n q := by
  obtain ⟨hsame, rows, ds, hrows, hds⟩ := h
  exact ⟨hsame, rows, ds, by rwa [← List.filter_congr hp], hds⟩

theorem NodeQuery.Selects.congr {goal : Node} {s s' : Session} {ids : List Value}
    {p q : Tuple → Bool} (h : Selects goal s s' ids p)
    (hp : ∀ r ∈ (s.current (nameParts goal.table)).rows, p r = q r) :
    Selects goal s s' ids q := by
  obtain ⟨hsame, rows, hrows, hread⟩ := h
  exact ⟨hsame, rows, by rwa [← List.filter_congr hp], hread⟩

theorem Edge.LoadsFrom.congr {e : Edge} {start goal : Node} {db : Database} {row : Tuple}
    {p q : Tuple → Bool} (h : e.LoadsFrom E keys d start goal db row p)
    (hp : ∀ r ∈ (db (nameParts goal.table)).rows, p r = q r) :
    e.LoadsFrom E keys d start goal db row q := by
  rintro k scan t t' n hk rfl hreads hrun
  exact (h k scan t t' n hk rfl hreads hrun).congr hp

theorem Edge.StepsFrom.congr {e : Edge} {start goal : Node} {db : Database} {row : Tuple}
    {p q : Tuple → Bool} (h : e.StepsFrom E keys d start goal db row p)
    (hp : ∀ r ∈ (db (nameParts goal.table)).rows, p r = q r) :
    e.StepsFrom E keys d start goal db row q := by
  rintro k t t' ids hk rfl hrun
  exact (h k t t' ids hk rfl hrun).congr hp

theorem EdgeLoad.mem_selectColumns_or_eq {l : EdgeLoad} {column c : String}
    (h : c ∈ l.columns column) : c ∈ l.target.selectColumns ∨ c = column := by
  unfold columns at h
  dsimp only at h
  split at h
  case isTrue => exact .inl h
  case isFalse => simpa using h

theorem Table.links_congr {t : Table} {own other : String} {v v' w w' : Value}
    (hv : E.equal v v' = true) (hw : E.equal w w' = true) :
    t.links E own other v w = t.links E own other v' w' := by
  unfold links
  congr 1
  funext l
  rw [Engine.equal_congr_right hv, Engine.equal_congr_left hw]

namespace Edge

variable {e : Edge} {start goal : Node} {db : Database} {row : Tuple} {p : Tuple → Bool}
  {fk own other : String}

/-! ## Where an edge is stored -/

theorem writesOwnColumn_of_not (h : e.isForeignKeyEdge = false) (hmany : e.isManyToMany = false) :
    e.writesOwnColumn = true := by
  unfold isForeignKeyEdge at h
  unfold isManyToMany at hmany
  unfold writesOwnColumn
  cases hrelation : e.relation with
  | manyToOne => rfl
  | oneToOne =>
    rw [hrelation, Bool.not_eq_false'] at h
    simp [h]
  | oneToMany =>
    rw [hrelation] at h
    cases h
  | manyToMany =>
    rw [hrelation] at hmany
    cases hmany

theorem isManyToMany_of_foreignKey (h : e.isForeignKeyEdge = true) : e.isManyToMany = false := by
  unfold isForeignKeyEdge at h
  unfold isManyToMany
  cases hrelation : e.relation with
  | oneToMany | oneToOne => rfl
  | manyToOne | manyToMany =>
    rw [hrelation] at h
    cases h

theorem writesOwnColumn_of_many (h : e.isManyToMany = true) : e.writesOwnColumn = false := by
  unfold writesOwnColumn
  rw [eq_of_beq h]

theorem isManyToMany_of_own (h : e.writesOwnColumn = true) : e.isManyToMany = false := by
  rw [Bool.eq_false_iff]
  intro hmany
  rw [writesOwnColumn_of_many hmany] at h
  cases h

theorem keyColumn_of_not_own (h : e.writesOwnColumn = false) :
    e.keyColumn start = start.id.column := by
  rw [keyColumn, h]
  rfl

theorem keyColumn_of_own (h : e.writesOwnColumn = true) (hfk : e.columns = [fk]) :
    e.keyColumn start = fk := by
  rw [keyColumn, h, hfk]
  rfl

/-! ## One reader for each kind of storage -/

/-- A load over a join table finds the rows that it links to the row. -/
theorem loadsFrom_of_joinTable (hE : E.ByKey) (hdb : db.Obeys E keys)
    (hgoal : goal.IsReadable keys db) (hmany : e.isManyToMany = true)
    (hjoin : e.joinColumns = .ok (own, other)) (hown : (db (nameParts e.table)).HasColumn own)
    (hother : (db (nameParts e.table)).HasColumn other) :
    e.LoadsFrom E keys d start goal db row fun r =>
      (db (nameParts e.table)).links E own other (row start.id.column) (r goal.id.column) := by
  rintro k scan t t' n hk rfl hreads hrun
  have hcolumn : e.goalColumn goal = goal.id.column := by
    rw [goalColumn, hmany]
    rfl
  rw [keyColumn_of_not_own (writesOwnColumn_of_many hmany)] at hk
  rw [hcolumn] at hreads ⊢
  refine (EdgeLoad.reaches_run_of_joinTable hE (Engine.isNull_of_equal_right hk) hmany hjoin hown
    hother (fun c hc => ?_) hreads hrun).congr fun r hr => ?_
  · rcases EdgeLoad.mem_selectColumns_or_eq hc with hc | rfl
    · exact hgoal.columns c hc
    · exact (hdb _ hgoal.key).toHasColumn
  · exact (Table.links_congr hk (hE.equal_self ((hdb _ hgoal.key).present r hr))).symm

/-- A step over a join table finds the same rows. -/
theorem stepsFrom_of_joinTable (hE : E.ByKey) (hdb : db.Obeys E keys)
    (hgoal : goal.IsReadable keys db) (hmany : e.isManyToMany = true)
    (hjoin : e.joinColumns = .ok (own, other)) (hown : (db (nameParts e.table)).HasColumn own)
    (hother : (db (nameParts e.table)).HasColumn other) :
    e.StepsFrom E keys d start goal db row fun r =>
      (db (nameParts e.table)).links E own other (row start.id.column) (r goal.id.column) := by
  rintro k t t' ids hk rfl hrun
  refine (NodeQuery.leads_step_of_joinTable hE (Engine.isNull_of_equal_right hk) hmany hjoin hown
    hother hgoal.name (hdb _ hgoal.key) hrun).congr fun r hr => ?_
  exact (Table.links_congr hk (hE.equal_self ((hdb _ hgoal.key).present r hr))).symm

theorem layout_step_of_foreignKey (h : e.isForeignKeyEdge = true) (k : Value) :
    (e.step start goal k).layout = .goalOwner := by
  unfold isForeignKeyEdge at h
  unfold Step.layout step
  cases hrelation : e.relation with
  | oneToMany => rfl
  | oneToOne =>
    rw [hrelation, Bool.not_eq_true'] at h
    dsimp only
    rw [h]
    rfl
  | manyToOne | manyToMany =>
    rw [hrelation] at h
    cases h

theorem layout_step_of_own (h : e.isForeignKeyEdge = false) (hmany : e.isManyToMany = false)
    (k : Value) : (e.step start goal k).layout = .startOwner := by
  unfold isForeignKeyEdge at h
  unfold isManyToMany at hmany
  unfold Step.layout step
  cases hrelation : e.relation with
  | manyToOne => rfl
  | oneToOne =>
    rw [hrelation, Bool.not_eq_false'] at h
    dsimp only
    rw [h]
    rfl
  | oneToMany =>
    rw [hrelation] at h
    cases h
  | manyToMany =>
    rw [hrelation] at hmany
    cases hmany

/-- A load by the foreign key that the row has finds the row to which it refers. -/
theorem loadsFrom_of_own (hE : E.ByKey) (hdb : db.Obeys E keys) (hgoal : goal.IsReadable keys db)
    (hmany : e.isManyToMany = false) (hown : e.writesOwnColumn = true) (hfk : e.columns = [fk]) :
    e.LoadsFrom E keys d start goal db row fun r => E.equal (r goal.id.column) (row fk) := by
  rintro k scan t t' n hk rfl hreads hrun
  have hcolumn : e.goalColumn goal = goal.id.column := by
    rw [goalColumn, hmany, hown]
    rfl
  rw [keyColumn_of_own hown hfk] at hk
  rw [hcolumn] at hreads ⊢
  refine (EdgeLoad.reaches_run_of_own hE (Engine.isNull_of_equal_right hk) hmany hown
    (fun c hc => ?_) hreads hrun).congr fun r _ => (Engine.equal_congr_right hk _).symm
  rcases EdgeLoad.mem_selectColumns_or_eq hc with hc | rfl
  · exact hgoal.columns c hc
  · exact (hdb _ hgoal.key).toHasColumn

/-- A load by the foreign key of other rows finds those that refer to the row. -/
theorem loadsFrom_of_foreignKey (hE : E.ByKey) (hgoal : goal.IsReadable keys db)
    (hmany : e.isManyToMany = false) (hown : e.writesOwnColumn = false) (hfk : e.columns = [fk])
    (hcolumn : (db (nameParts goal.table)).HasColumn fk) :
    e.LoadsFrom E keys d start goal db row fun r => E.equal (r fk) (row start.id.column) := by
  rintro k scan t t' n hk rfl hreads hrun
  have hgoalColumn : e.goalColumn goal = fk := by
    rw [goalColumn, hmany, hown, hfk]
    rfl
  rw [keyColumn_of_not_own hown] at hk
  rw [hgoalColumn] at hreads ⊢
  refine (EdgeLoad.reaches_run_of_foreignKey hE (Engine.isNull_of_equal_right hk) hmany hown hfk
    (fun c hc => ?_) hreads hrun).congr fun r _ => (Engine.equal_congr_right hk _).symm
  rcases EdgeLoad.mem_selectColumns_or_eq hc with hc | rfl
  · exact hgoal.columns c hc
  · exact hcolumn

/-- A step to the table that has the foreign key finds the rows that refer to the row. -/
theorem stepsFrom_of_foreignKey (hE : E.ByKey) (hdb : db.Obeys E keys)
    (hgoal : goal.IsReadable keys db) (hforeign : e.isForeignKeyEdge = true)
    (hfk : e.columns = [fk]) (hcolumn : (db (nameParts goal.table)).HasColumn fk) :
    e.StepsFrom E keys d start goal db row fun r => E.equal (r fk) (row start.id.column) := by
  rintro k t t' ids hk rfl hrun
  exact (NodeQuery.leads_step_of_goalOwner hE (Engine.isNull_of_equal_right hk)
    (layout_step_of_foreignKey hforeign k) hfk hcolumn (hdb _ hgoal.key) hrun).congr
      fun r _ => (Engine.equal_congr_right hk _).symm

/-- A step from the table that has the foreign key finds the row to which the row refers. -/
theorem stepsFrom_of_own (hE : E.ByKey) (hdb : db.Obeys E keys) (hgoal : goal.IsReadable keys db)
    (hforeign : e.isForeignKeyEdge = false) (hmany : e.isManyToMany = false)
    (hfk : e.columns = [fk]) (hcolumn : (db (nameParts e.table)).HasColumn fk)
    (hkey : (db (nameParts e.table)).HasKey E start.id.column)
    (hrow : row ∈ (db (nameParts e.table)).rows) :
    e.StepsFrom E keys d start goal db row fun r => E.equal (r goal.id.column) (row fk) := by
  rintro k t t' ids hk rfl hrun
  refine (NodeQuery.leads_step_of_startOwner hE (Engine.isNull_of_equal_right hk)
    (layout_step_of_own hforeign hmany k) hfk hcolumn hkey.toHasColumn hgoal.name
      (hdb _ hgoal.key) hrun).congr fun r _ => ?_
  rw [Bool.eq_iff_iff, Table.links, List.any_eq_true]
  constructor
  · rintro ⟨l, hl, hboth⟩
    obtain ⟨howner, hlinked⟩ := Bool.and_eq_true_iff.mp hboth
    obtain rfl := hkey.eq_of_picks hl hrow (Engine.picks_of_equal howner)
      (Engine.picks_of_equal hk)
    exact hlinked
  · intro hequal
    exact ⟨row, hrow, Bool.and_eq_true_iff.mpr ⟨hk, hequal⟩⟩

theorem mem_columns_of_join (h : e.joinColumns = .ok (own, other)) :
    own ∈ e.columns ∧ other ∈ e.columns := by
  unfold joinColumns at h
  split at h
  case h_2 => cases h
  case h_1 first second hcolumns =>
    rw [hcolumns]
    cases hinverse : e.inverse with
    | true =>
      rw [hinverse] at h
      cases h
      simp
    | false =>
      rw [hinverse] at h
      cases h
      simp

/-- A query of the pairs of a join table finds those that it links to a value. -/
theorem readsPairs_of_links (hE : E.ByKey)
    (hcolumns : ∀ c ∈ e.columns, (db (nameParts e.table)).HasColumn c)
    {v : Value} {p : Value → Bool} (hp : ∀ own other, e.joinColumns = .ok (own, other) →
      ∀ w, (db (nameParts e.table)).links E own other v w = p w) :
    e.ReadsPairs E keys d db v p := by
  rintro own other t t' n hjoin rfl hreads hrun
  obtain ⟨hown, hother⟩ := mem_columns_of_join hjoin
  obtain ⟨hsame, rows, ds, hrows, hds, hdelivered, hn⟩ :=
    EdgeQuery.reaches_run hjoin (hcolumns own hown) (hcolumns other hother) hrun
  refine ⟨hsame, ds, hdelivered, hn.trans hds.length_eq, fun w => ?_⟩
  have hread : ∀ l ∈ rows, ∀ target, (l other).coerce e.target.id.type = .ok target →
      (E.equal target w = true ↔ E.equal w (l other) = true) := by
    intro l hl target hcoerce
    have hkey := hreads l (hrows.mem_iff.mp hl) target hcoerce
    rw [Engine.equal_comm w, hE, hE, hkey]
  rw [← hp own other hjoin, Table.links, List.any_eq_true]
  constructor
  · rintro ⟨a, b, hab, hav, hbw⟩
    obtain ⟨l, hl, target, hcoerce, hlink⟩ := exists_of_forall₂ hds.flip hab
    obtain ⟨rfl, rfl⟩ := Delivery.link.inj hlink
    exact ⟨l, hrows.mem_iff.mp hl, Bool.and_eq_true_iff.mpr
      ⟨hav, (hread l hl b hcoerce).mp hbw⟩⟩
  · rintro ⟨l, hl, hboth⟩
    obtain ⟨hav, hwl⟩ := Bool.and_eq_true_iff.mp hboth
    have hl := hrows.mem_iff.mpr hl
    obtain ⟨delivery, hdelivery, target, hcoerce, rfl⟩ := exists_of_forall₂ hds hl
    exact ⟨l own, target, hdelivery, hav, (hread l hl target hcoerce).mpr hwl⟩

end Edge

end EntityGraph
