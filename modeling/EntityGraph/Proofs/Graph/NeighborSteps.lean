import EntityGraph.Graph.Query
import EntityGraph.Proofs.Graph.NeighborLoads

/-!
# Following a step, and reading a join table

The rows that a step selects are those that the edge links to the row where it starts, and a query
of a join table delivers all of its pairs.
-/

set_option autoImplicit false

namespace EntityGraph

open Program

variable {E : Engine} {keys : List (String × String)} {c : String}

/-! ## Steps -/

/-- A table with a key has each of its rows once. -/
theorem Table.HasKey.nodup {t : Table} (hE : E.ByKey) (h : t.HasKey E c) : t.rows.Nodup := by
  refine h.unique.imp_of_mem fun hr _ hapart => ?_
  rintro rfl
  rw [hE.equal_self (h.present _ hr)] at hapart
  cases hapart

/-- The step over an edge from one node. -/
def Edge.step (e : Edge) (start goal : Node) (k : Value) : Step :=
  { start := ⟨start.table, start.id.column, k⟩
    edge := ⟨e.relation, e.inverse, e.table, e.columns⟩
    goal := ⟨goal.table, goal.id.column⟩ }

namespace NodeQuery

variable {goal : Node} {step : Step} {s s' : Session} {ids : List Value} {d : Dialect}

/-- The IDs of the rows that a query over a step selects, each once. -/
theorem leads_ids {l : List Tuple} (hE : E.ByKey)
    (hkey : (s.current (nameParts goal.table)).HasKey E goal.id.column)
    (hl : ∀ r ∈ l, r ∈ (s.current (nameParts goal.table)).rows)
    (hselector : ((ofStep goal step).selector [goal.id.column] none).outRows E s.current [] =
      distinctRows E (l.map fun r => [(goal.id.column, r goal.id.column)]))
    (h : ((ofStep goal step).ids d).Leads E keys s ids s') :
    s' = s ∧ ∃ rows : List Tuple, rows.Nodup ∧ (∀ r, r ∈ rows ↔ r ∈ l) ∧
      List.Forall₂ (fun r id => goal.readId (r goal.id.column) = .ok id) rows ids := by
  obtain ⟨reported, mid, hquery, hlift⟩ := leads_bind.mp h
  obtain ⟨hread, hsame⟩ := leads_ofExcept.mp hlift
  obtain ⟨hcarried, hreturns, -, hsaved⟩ := leads_query.mp hquery
  have halike : ∀ r ∈ l, ∀ r' ∈ l, OutRow.alike E [(goal.id.column, r goal.id.column)]
      [(goal.id.column, r' goal.id.column)] = true ↔ r = r' := by
    intro r hr r' hr'
    have hpresent := hkey.present r (hl r hr)
    have hpresent' := hkey.present r' (hl r' hr')
    have hequal : OutRow.alike E [(goal.id.column, r goal.id.column)]
        [(goal.id.column, r' goal.id.column)] =
          E.equal (r goal.id.column) (r' goal.id.column) := by
      simp [OutRow.alike, Engine.alike, Engine.equal, hpresent, hpresent']
    rw [hequal]
    constructor
    · intro h
      exact hkey.eq_of_picks (hl r hr) (hl r' hr') (Engine.picks_of_equal h)
        (Engine.picks_of_equal (hE.equal_self hpresent'))
    · rintro rfl
      exact hE.equal_self hpresent
  obtain ⟨kept, hnodup, hmem, hdistinct⟩ := distinctRows_map halike
  have hperm : reported.rows.Perm (kept.map fun r => [r goal.id.column]) := by
    have hreturns : reported.rows.Perm
        ((((ofStep goal step).selector [goal.id.column] none).outRows E s.current []).map fun r =>
          r.map (·.2)) := hreturns
    rw [hselector, hdistinct, List.map_map] at hreturns
    exact hreturns
  obtain ⟨rows, hrows, hreported⟩ := exists_perm_map hperm
  refine ⟨hsame.trans (Session.eq_of_current hcarried hsaved), rows, hrows.nodup_iff.mpr hnodup,
    fun r => hrows.mem_iff.trans (hmem r), ?_⟩
  have hread := mapM_eq_ok.mp hread
  rw [hreported] at hread
  have hheads : (rows.map fun r => [r goal.id.column]).filterMap List.head? =
      rows.map fun r => r goal.id.column := by
    simp [List.filterMap_map, Function.comp_def]
  rw [hheads] at hread
  exact List.forall₂_map_left_iff.mp hread

/-- A query over a step can have as its result what it selects. -/
theorem leads_ids_of_outRows (hs : s.current.Obeys E keys)
    (hselector : ((ofStep goal step).selector [goal.id.column] none).outRows E s.current [] =
      ids.map fun v => [(goal.id.column, v)])
    (hread : ∀ v ∈ ids, goal.readId v = .ok v) :
    ((ofStep goal step).ids d).Leads E keys s ids s := by
  refine leads_bind.mpr ⟨⟨[goal.id.column], ids.map fun v => [v]⟩, s, ?_, ?_⟩
  · refine leads_query.mpr ⟨rfl, ?_, hs, rfl⟩
    show List.Perm _
      ((((ofStep goal step).selector [goal.id.column] none).outRows E s.current []).map fun r =>
        r.map (·.2))
    rw [hselector, List.map_map]
    exact List.Perm.refl _
  · refine leads_ofExcept.mpr ⟨mapM_eq_ok.mpr ?_, rfl⟩
    have hheads : (ids.map fun v => [v]).filterMap List.head? = ids := by
      simp [List.filterMap_map, Function.comp_def]
    rw [hheads]
    exact List.forall₂_same.mpr hread

/-- The query of a step has read the IDs of the neighbors that meet a condition, each once. -/
def Selects (goal : Node) (s s' : Session) (ids : List Value) (p : Tuple → Bool) : Prop :=
  s' = s ∧ ∃ rows, rows.Perm ((s.current (nameParts goal.table)).rows.filter p) ∧
    List.Forall₂ (fun r id => goal.readId (r goal.id.column) = .ok id) rows ids

theorem selects_of_mem {goal : Node} {p : Tuple → Bool} {rows : List Tuple} (hE : E.ByKey)
    (hkey : (s.current (nameParts goal.table)).HasKey E goal.id.column) (hsame : s' = s)
    (hnodup : rows.Nodup)
    (hrows : ∀ r, r ∈ rows ↔ r ∈ (s.current (nameParts goal.table)).rows ∧ p r = true)
    (hread : List.Forall₂ (fun r id => goal.readId (r goal.id.column) = .ok id) rows ids) :
    Selects goal s s' ids p := by
  refine ⟨hsame, rows, ?_, hread⟩
  rw [List.perm_ext_iff_of_nodup hnodup ((hkey.nodup hE).filter p)]
  intro r
  rw [hrows, List.mem_filter]

section Steps

variable {e : Edge} {start goal : Node} {k : Value}

theorem step_column {i : Nat} (h : e.columns[i]? = some c) :
    (e.step start goal k).column i = c := by
  show e.columns[i]?.getD "" = c
  rw [h]
  rfl

/-- The selection of the rows to which a step leads that have the foreign key. -/
theorem outRows_step_of_goalOwner {db : Database} (hk : k.isNull = false)
    (hlayout : (e.step start goal k).layout = .goalOwner) (hfk : e.columns = [c])
    (hcolumn : (db (nameParts goal.table)).HasColumn c)
    (hkey : (db (nameParts goal.table)).HasColumn goal.id.column) :
    ((ofStep goal (e.step start goal k)).selector [goal.id.column] none).outRows E db [] =
      distinctRows E (((db (nameParts goal.table)).rows.filter fun r =>
        E.equal (r c) k).map fun r => [(goal.id.column, r goal.id.column)]) := by
  have hneighbors : (e.step start goal k).neighbors =
      (Selector.ofTable goal.table).filter (.eq (Step.qualify goal.table c) k) := by
    rw [Step.neighbors, hlayout, step_column (by rw [hfk]; rfl)]
    rfl
  have hselector : (ofStep goal (e.step start goal k)).selector [goal.id.column] none =
      ⟨[goal.id.column].map (Selector.ofTable goal.table).qualify, .table goal.table none, [],
        some (.eq (Step.qualify goal.table c) k), [], none, none, true, false⟩ := by
    unfold selector base
    rw [show (ofStep goal (e.step start goal k)).source = some (e.step start goal k).neighbors
      from rfl, Option.getD_some, hneighbors]
    rfl
  have hmeets : ∀ r, db.meets E goal.table (some (.eq (Step.qualify goal.table c) k)) r =
      E.equal (r c) k := by
    intro r
    have hdenotes := hcolumn.denotes_qualified
    rw [meets_eq hdenotes.knows, hdenotes.column, Engine.picks_of_value hk]
  rw [hselector, outRows_distinct, outRows_columns (List.cons_ne_nil goal.id.column []),
    funext hmeets]
  · rfl
  · simpa using hkey.denotes_qualify

/-- A step to the table that has the foreign key selects the rows that refer to its start. -/
theorem leads_step_of_goalOwner (hE : E.ByKey) (hk : k.isNull = false)
    (hlayout : (e.step start goal k).layout = .goalOwner) (hfk : e.columns = [c])
    (hcolumn : (s.current (nameParts goal.table)).HasColumn c)
    (hkey : (s.current (nameParts goal.table)).HasKey E goal.id.column)
    (h : ((ofStep goal (e.step start goal k)).ids d).Leads E keys s ids s') :
    Selects goal s s' ids fun r => E.equal (r c) k := by
  have houtRows := outRows_step_of_goalOwner (E := E) hk hlayout hfk hcolumn hkey.toHasColumn
  obtain ⟨hsame, rows, hnodup, hmem, hread⟩ := leads_ids hE hkey
    (fun r hr => (List.mem_filter.mp hr).1) houtRows h
  exact selects_of_mem hE hkey hsame hnodup (fun r => (hmem r).trans List.mem_filter) hread

/-- The selection of the linking rows that the condition on one of their columns picks. -/
theorem outRows_picked {db : Database} {table own other ownName otherName : String}
    (hother : db.Denotes table otherName other) (hown : db.Denotes table ownName own) :
    (((Selector.ofTable table).withColumns [otherName]).filter (.eq ownName k)).outRows E db [] =
      ((db (nameParts table)).rows.filter fun o => E.picks (o own) k).map fun o =>
        [(other, o other)] := by
  have hmeets : ∀ o, db.meets E table (some (.eq ownName k)) o = E.picks (o own) k := by
    intro o
    rw [meets_eq hown.knows, hown.column]
  have hselector : ((Selector.ofTable table).withColumns [otherName]).filter (.eq ownName k) =
      ⟨[other].map fun _ => otherName, .table table none, [], some (.eq ownName k), [], none, none,
        false, false⟩ := rfl
  rw [hselector, outRows_columns (List.cons_ne_nil other []), funext hmeets]
  · rfl
  · simpa using hother

/-- The selection of the linking rows that belong to a value. -/
theorem outRows_links {db : Database} {table own other ownName otherName : String}
    (hk : k.isNull = false) (hother : db.Denotes table otherName other)
    (hown : db.Denotes table ownName own) :
    (((Selector.ofTable table).withColumns [otherName]).filter (.eq ownName k)).outRows E db [] =
      ((db (nameParts table)).rows.filter fun o => E.equal (o own) k).map fun o =>
        [(other, o other)] := by
  rw [outRows_picked hother hown]
  simp only [Engine.picks_of_value hk]

/-- The selection of the rows to which a step leads through linking rows. -/
theorem outRows_step_of_links {step : Step} {db : Database}
    {table own other ownName otherName : String} (hk : k.isNull = false)
    (hneighbors : step.neighbors = (Selector.ofTable goal.table).join
      (.select (((Selector.ofTable table).withColumns [otherName]).filter (.eq ownName k))
        Step.linkAlias) (Step.qualify goal.table goal.id.column)
      (Step.qualify Step.linkAlias other))
    (hother : db.Denotes table otherName other) (hplain : nameParts other = [other])
    (hown : db.Denotes table ownName own)
    (halias : ¬nameParts Step.linkAlias <:+ nameParts goal.table)
    (hkey : (db (nameParts goal.table)).HasColumn goal.id.column) :
    ((ofStep goal step).selector [goal.id.column] none).outRows E db [] =
      distinctRows E (((db (nameParts goal.table)).rows.flatMap fun r =>
        (((db (nameParts table)).rows.filter fun o => E.equal (o own) k).filter fun o =>
          E.equal (r goal.id.column) (o other)).map fun _ => r).map fun r =>
            [(goal.id.column, r goal.id.column)]) := by
  have hselector : (ofStep goal step).selector [goal.id.column] none =
      ⟨[(Selector.ofTable goal.table).qualify goal.id.column], .table goal.table none,
        [⟨.select (((Selector.ofTable table).withColumns [otherName]).filter (.eq ownName k))
          Step.linkAlias, Step.qualify goal.table goal.id.column,
          Step.qualify Step.linkAlias other⟩], none, [], none, none, true, false⟩ := by
    unfold selector base
    rw [show (ofStep goal step).source = some step.neighbors from rfl, Option.getD_some,
      hneighbors]
    rfl
  rw [qualify_of_plain hkey.plain] at hselector
  rw [hselector, outRows_distinct,
    outRows_linked (outRows_links hk hother hown) hkey halias hplain]

/-- A step through linking rows selects the rows that one of them links to its start. -/
theorem leads_step_of_links {step : Step} {table own other ownName otherName : String}
    (hE : E.ByKey) (hk : k.isNull = false)
    (hneighbors : step.neighbors = (Selector.ofTable goal.table).join
      (.select (((Selector.ofTable table).withColumns [otherName]).filter (.eq ownName k))
        Step.linkAlias) (Step.qualify goal.table goal.id.column)
      (Step.qualify Step.linkAlias other))
    (hother : s.current.Denotes table otherName other) (hplain : nameParts other = [other])
    (hown : s.current.Denotes table ownName own)
    (halias : ¬nameParts Step.linkAlias <:+ nameParts goal.table)
    (hkey : (s.current (nameParts goal.table)).HasKey E goal.id.column)
    (h : ((ofStep goal step).ids d).Leads E keys s ids s') :
    Selects goal s s' ids fun r =>
      (s.current (nameParts table)).links E own other k (r goal.id.column) := by
  have houtRows := outRows_step_of_links (E := E) hk hneighbors hother hplain hown halias
    hkey.toHasColumn
  obtain ⟨hsame, rows, hnodup, hmem, hread⟩ := leads_ids hE hkey (fun r hr => by
    obtain ⟨r', hr', hmem⟩ := List.mem_flatMap.mp hr
    obtain ⟨-, -, rfl⟩ := List.mem_map.mp hmem
    exact hr') houtRows h
  refine selects_of_mem hE hkey hsame hnodup (fun r => (hmem r).trans ?_) hread
  rw [List.mem_flatMap, Table.links, List.any_eq_true]
  constructor
  · rintro ⟨r', hr', hmem⟩
    obtain ⟨o, ho, rfl⟩ := List.mem_map.mp hmem
    obtain ⟨ho, hlinked⟩ := List.mem_filter.mp ho
    obtain ⟨ho, howner⟩ := List.mem_filter.mp ho
    exact ⟨hr', o, ho, Bool.and_eq_true_iff.mpr ⟨howner, hlinked⟩⟩
  · rintro ⟨hr, o, ho, hboth⟩
    obtain ⟨howner, hlinked⟩ := Bool.and_eq_true_iff.mp hboth
    exact ⟨r, hr, List.mem_map.mpr
      ⟨o, List.mem_filter.mpr ⟨List.mem_filter.mpr ⟨ho, howner⟩, hlinked⟩, rfl⟩⟩

/-- A step over a join table selects the rows that it links to the start. -/
theorem leads_step_of_joinTable (hE : E.ByKey) (hk : k.isNull = false)
    (hmany : e.isManyToMany = true) {own other : String} (hjoin : e.joinColumns = .ok (own, other))
    (hown : (s.current (nameParts e.table)).HasColumn own)
    (hother : (s.current (nameParts e.table)).HasColumn other)
    (halias : ¬nameParts Step.linkAlias <:+ nameParts goal.table)
    (hkey : (s.current (nameParts goal.table)).HasKey E goal.id.column)
    (h : ((ofStep goal (e.step start goal k)).ids d).Leads E keys s ids s') :
    Selects goal s s' ids fun r =>
      (s.current (nameParts e.table)).links E own other k (r goal.id.column) := by
  have hlayout : (e.step start goal k).layout = .joinTable := by
    have hrelation : e.relation = .manyToMany := by simpa [Edge.isManyToMany] using hmany
    unfold Step.layout Edge.step
    rw [hrelation]
  have hends : (e.step start goal k).startColumn = own ∧
      (e.step start goal k).goalColumn = other := by
    unfold Edge.joinColumns at hjoin
    split at hjoin
    case h_2 => cases hjoin
    case h_1 first second hcolumns =>
      have hfirst : (e.step start goal k).column 0 = first := step_column (by rw [hcolumns]; rfl)
      have hsecond : (e.step start goal k).column 1 = second := step_column (by rw [hcolumns]; rfl)
      have hside : (e.step start goal k).edge.inverse = e.inverse := rfl
      rw [Step.startColumn, Step.goalColumn, hfirst, hsecond, hside]
      cases hinverse : e.inverse with
      | true =>
        rw [hinverse] at hjoin
        cases hjoin
        exact ⟨rfl, rfl⟩
      | false =>
        rw [hinverse] at hjoin
        cases hjoin
        exact ⟨rfl, rfl⟩
  refine leads_step_of_links hE hk ?_ hother.denotes_qualified hother.plain hown.denotes_qualified
    halias hkey h
  rw [Step.neighbors, hlayout, hends.1, hends.2]
  rfl

/-- A step from the table that has the foreign key goes through the row where it starts. -/
theorem neighbors_of_startOwner (hlayout : (e.step start goal k).layout = .startOwner)
    (hfk : e.columns = [c]) :
    (e.step start goal k).neighbors = (Selector.ofTable goal.table).join
      (.select (((Selector.ofTable e.table).withColumns [c]).filter (.eq start.id.column k))
        Step.linkAlias) (Step.qualify goal.table goal.id.column)
      (Step.qualify Step.linkAlias c) := by
  rw [Step.neighbors, hlayout, step_column (by rw [hfk]; rfl)]
  rfl

/-- A step from the table that has the foreign key selects the row that the start refers to. -/
theorem leads_step_of_startOwner (hE : E.ByKey) (hk : k.isNull = false)
    (hlayout : (e.step start goal k).layout = .startOwner) (hfk : e.columns = [c])
    (hcolumn : (s.current (nameParts e.table)).HasColumn c)
    (hid : (s.current (nameParts e.table)).HasColumn start.id.column)
    (halias : ¬nameParts Step.linkAlias <:+ nameParts goal.table)
    (hkey : (s.current (nameParts goal.table)).HasKey E goal.id.column)
    (h : ((ofStep goal (e.step start goal k)).ids d).Leads E keys s ids s') :
    Selects goal s s' ids fun r =>
      (s.current (nameParts e.table)).links E start.id.column c k (r goal.id.column) :=
  leads_step_of_links hE hk (neighbors_of_startOwner hlayout hfk) hcolumn.denotes hcolumn.plain
    hid.denotes halias hkey h

end Steps

end NodeQuery

/-! ## Pairs of a join table -/

namespace EdgeQuery

variable {e : Edge} {d : Dialect} {n : Nat} {t t' : Session × List Delivery} {own other : String}

/-- A row of a join table is delivered as a pair, with the type of the target's ID restored. -/
def Delivers (e : Edge) (own other : String) (l : Tuple) (delivery : Delivery) : Prop :=
  ∃ target, (l other).coerce e.target.id.type = .ok target ∧ delivery = .link (l own) target

theorem reaches_deliverRows {rows : List Tuple}
    (h : ((rows.map fun l => [own, other].map l).forM (deliverRow ⟨e, none⟩ other)).Reaches
      (Answering.keeping (Call.Answers E keys)) t () t') :
    t'.1 = t.1 ∧ ∃ ds, List.Forall₂ (Delivers e own other) rows ds ∧ t'.2 = t.2 ++ ds := by
  induction rows generalizing t with
  | nil =>
    obtain rfl := reaches_forM_nil.mp h
    exact ⟨rfl, [], .nil, by simp⟩
  | cons l rows ih =>
    obtain ⟨mid, hl, hrest⟩ := reaches_forM_cons.mp h
    obtain ⟨target, _, hread, hdeliver⟩ := reaches_bind.mp hl
    obtain ⟨hcoerce, rfl⟩ := reaches_ofExcept.mp hread
    obtain ⟨hsame, hdelivered⟩ := reaches_deliver.mp hdeliver
    obtain ⟨hsame', ds, hds, hdelivered'⟩ := ih hrest
    refine ⟨hsame'.trans hsame, _, .cons ⟨target, readColumn_eq_ok.mp hcoerce, rfl⟩ hds, ?_⟩
    rw [hdelivered', hdelivered, List.append_assoc]
    rfl

/-- A query of the pairs of a join table delivers them all. -/
theorem reaches_run (hjoin : e.joinColumns = .ok (own, other))
    (hown : (t.1.current (nameParts e.table)).HasColumn own)
    (hother : (t.1.current (nameParts e.table)).HasColumn other)
    (h : (run d ⟨e, none⟩).Reaches (Answering.keeping (Call.Answers E keys)) t n t') :
    t'.1 = t.1 ∧ ∃ rows ds, rows.Perm (t.1.current (nameParts e.table)).rows ∧
      List.Forall₂ (Delivers e own other) rows ds ∧ t'.2 = t.2 ++ ds ∧ n = rows.length := by
  unfold run at h
  dsimp only at h
  split at h
  case isTrue => exact absurd h reaches_fail
  case isFalse =>
    rw [Connection.run, if_neg (by simp)] at h
    obtain ⟨columns, start, hlift, hrest⟩ := reaches_bind.mp h
    obtain ⟨hcolumn, rfl⟩ := reaches_ofExcept.mp hlift
    obtain rfl : (own, other) = columns := Except.ok.inj (hjoin.symm.trans hcolumn)
    obtain ⟨reported, mid, hquery, hdeliver⟩ := reaches_bind.mp hrest
    have hends : ∀ c ∈ [own, other], start.1.current.Denotes e.table (id c) c := by
      simp only [List.forall_mem_cons, List.not_mem_nil, false_implies, implies_true, and_true]
      exact ⟨hown.denotes, hother.denotes⟩
    obtain ⟨rfl, found, hfound, hrows⟩ := reaches_select_columns (List.cons_ne_nil own [other])
      hends hquery
    obtain ⟨_, after, hforM, hdone⟩ := reaches_bind.mp hdeliver
    obtain ⟨rfl, rfl⟩ := reaches_done.mp hdone
    rw [hrows] at hforM
    obtain ⟨hsame, ds, hds, hdelivered⟩ := reaches_deliverRows hforM
    refine ⟨hsame, found, ds, ?_, hds, hdelivered, by rw [hrows, List.length_map]⟩
    have hall : ∀ l, mid.1.current.meets E e.table none l = true := fun _ => rfl
    have hfound : found.Perm ((mid.1.current (nameParts e.table)).rows.filter
      (mid.1.current.meets E e.table none)) := hfound
    rwa [List.filter_eq_self.mpr fun l _ => hall l] at hfound

end EdgeQuery

end EntityGraph
