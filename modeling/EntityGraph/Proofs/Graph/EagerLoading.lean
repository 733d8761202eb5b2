import Mathlib.Data.List.Fold
import EntityGraph.Graph.Query
import EntityGraph.Proofs.Graph.EdgesReadBack
import EntityGraph.Proofs.Graph.KeyPositions

/-!
# Eager loading is a join by key

A load of neighbors is given the keys of its parents, one for each parent, and asks for the
neighbors of all of them at once. `EdgeLoad.JoinsByKey` says what it does for arbitrary replies: which
keys it asks for, which of the rows that come back it delivers, and to which parents. A query of
nodes hands each of its loads the keys of the rows that it has read, in their order.
-/

set_option autoImplicit false

namespace EntityGraph

open Program

/-- A relation of the members of a list may be weakened for its members. -/
theorem forall₂_imp_of_mem {α β : Type} {R S : α → β → Prop} {l : List α} {out : List β}
    (hRS : ∀ a b, a ∈ l → R a b → S a b) (h : List.Forall₂ R l out) : List.Forall₂ S l out := by
  induction h with
  | nil => exact .nil
  | cons hab _ ih =>
    exact .cons (hRS _ _ List.mem_cons_self hab)
      (ih fun a b ha => hRS a b (List.mem_cons_of_mem _ ha))

/-- Rows of a reply have been read. Types are asked for only if there are rows. -/
def ReadAs (types : Except Error (List FieldType)) (columns : List String)
    (rows found : List (List Value)) : Prop :=
  rows = [] ∧ found = [] ∨ ∃ ts, types = .ok ts ∧
    List.Forall₂ (fun row values => readRow columns ts row = .ok values) rows found

namespace EdgeLoad

variable {l : EdgeLoad} {d : Dialect} {column : String} {parents : Keyed}
  {positions : Value → List Nat} {keys : List Value} {log before after : List Exchange} {n : Nat}

/-- What is delivered of a neighbor that has been read: the row with the positions of its parents,
nothing if it has none. -/
def delivery? (l : EdgeLoad) (column : String) (positions : Value → List Nat) (row : List Value) :
    Option Delivery :=
  let parents := positions (row[(l.columns column).idxOf column]?.getD .null)
  if parents = [] then none else some (.neighbor l.name parents (l.columns column) row)

/-- A load asks for the neighbors whose column has one of some values, and delivers those that have
parents, in the order of the reply. -/
def Joins (l : EdgeLoad) (column : String) (values : List Value) (positions : Value → List Nat)
    (log : List Exchange) (n : Nat) : Prop :=
  ∃ live rows found deliveries,
    log = ⟨.query false (.select (l.selector column values)), live,
      (.done rows : Outcome Rows)⟩ :: deliveries ∧
    ReadAs (l.scan (l.columns column)) (l.columns column) rows.rows found ∧
    deliveries.map Exchange.call =
      (found.filterMap (l.delivery? column positions)).map Call.deliver ∧
    n = (found.filterMap (l.delivery? column positions)).length

/-- What a load does, given the keys of its parents. -/
structure JoinsByKey (l : EdgeLoad) (keys : List Value) (log : List Exchange) (n : Nat) :
    Prop where
  /-- Without a key nothing is asked. -/
  nothing : Value.firstOfKeys keys = [] → log = [] ∧ n = 0
  /-- The parents refer to the neighbors. -/
  own : Value.firstOfKeys keys ≠ [] → l.edge.isManyToMany = false →
    l.edge.writesOwnColumn = true →
      l.Joins l.target.id.column (Value.firstOfKeys keys) (positionsOf keys) log n
  /-- The neighbors refer to the parents. -/
  foreign : Value.firstOfKeys keys ≠ [] → l.edge.isManyToMany = false →
    l.edge.writesOwnColumn = false → ∃ fk, l.edge.foreignKey = .ok fk ∧
      l.Joins fk (Value.firstOfKeys keys) (positionsOf keys) log n
  /-- A join table lies between. The order of its rows is that in which the neighbors are asked for;
  it does not matter for the parents that they are delivered to. -/
  joined : Value.firstOfKeys keys ≠ [] → l.edge.isManyToMany = true →
    ∃ own other live joins rest, l.edge.joinColumns = .ok (own, other) ∧
      log = ⟨.query false (.select (((Selector.ofTable l.edge.table).withColumns
        [own, other]).filter (.oneOf own (Value.firstOfKeys keys)))), live,
          (.done joins : Outcome Rows)⟩ :: rest ∧
      ∀ ends, ends = Value.firstOfKeys ((joins.rows.filter fun row =>
          ∃ key ∈ keys, key.SameKey (row[0]?.getD .null)).map fun row => row[1]?.getD .null) →
        (ends = [] → rest = [] ∧ n = 0) ∧
        (ends ≠ [] → ∀ joins', joins'.Perm joins.rows →
          l.Joins l.target.id.column ends (positionsThrough joins' keys) rest n)

/-! ## Rows of a reply -/

/-- A row that is read is delivered to its parents, if it has any. -/
theorem reaches_deliverRow_recording {types : List FieldType} {row : List Value}
    (hp : parents.Finds positions)
    (h : (l.deliverRow column types parents row).Reaches .recording before n after) :
    ∃ values deliveries, readRow (l.columns column) types row = .ok values ∧
      after = before ++ deliveries ∧
      deliveries.map Exchange.call = ((l.delivery? column positions values).map Call.deliver).toList ∧
      n = (l.delivery? column positions values).toList.length := by
  obtain ⟨values, _, hlift, hrest⟩ := reaches_bind.mp h
  obtain ⟨hread, rfl⟩ := reaches_ofExcept.mp hlift
  have hfinds := hp (values[(l.columns column).idxOf column]?.getD .null)
  dsimp only at hrest
  cases hfind : parents.find? (values[(l.columns column).idxOf column]?.getD .null) with
  | none =>
    rw [hfind] at hrest hfinds
    obtain ⟨rfl, rfl⟩ := reaches_done.mp hrest
    have hnone : positions (values[(l.columns column).idxOf column]?.getD .null) = [] := by
      by_contra hne
      simp [hne] at hfinds
    refine ⟨values, [], hread, by simp, ?_, ?_⟩ <;> simp [delivery?, hnone]
  | some found =>
    rw [hfind] at hrest hfinds
    have hsome : positions (values[(l.columns column).idxOf column]?.getD .null) ≠ [] := by
      intro hnone
      simp [hnone] at hfinds
    rw [if_neg hsome, Option.map_some, Option.some_inj] at hfinds
    obtain ⟨_, mid, hdeliver, hdone⟩ := reaches_bind.mp hrest
    obtain ⟨rfl, rfl⟩ := reaches_done.mp hdone
    obtain ⟨live, rfl⟩ := reaches_deliver.mp hdeliver
    refine ⟨values, _, hread, rfl, ?_, ?_⟩
    · simp [delivery?, hsome, hfinds]
    · simp [delivery?, hsome]

/-- The rows of a reply are delivered one after the other. -/
theorem reaches_deliverRows_recording {types : List FieldType} {rows : List (List Value)}
    {counts : List Nat} (hp : parents.Finds positions)
    (h : (rows.mapM (l.deliverRow column types parents)).Reaches .recording before counts after) :
    ∃ found deliveries,
      List.Forall₂ (fun row values => readRow (l.columns column) types row = .ok values)
        rows found ∧
      after = before ++ deliveries ∧
      deliveries.map Exchange.call =
        (found.filterMap (l.delivery? column positions)).map Call.deliver ∧
      counts.foldr (· + ·) 0 = (found.filterMap (l.delivery? column positions)).length := by
  induction rows generalizing before counts with
  | nil =>
    obtain ⟨rfl, rfl⟩ := reaches_done.mp h
    exact ⟨[], [], .nil, by simp, rfl, rfl⟩
  | cons row rows ih =>
    obtain ⟨count, counts, mid, rfl, hrow, hrows⟩ := reaches_mapM_cons.mp h
    obtain ⟨values, first, hread, rfl, hcall, rfl⟩ := reaches_deliverRow_recording hp hrow
    obtain ⟨found, deliveries, hfound, rfl, hcalls, hcount⟩ := ih hrows
    refine ⟨values :: found, first ++ deliveries, .cons hread hfound, by simp, ?_, ?_⟩
    · rw [List.map_append, hcall, hcalls, List.filterMap_cons]
      cases l.delivery? column positions values <;> simp
    · rw [List.foldr_cons, hcount, List.filterMap_cons]
      cases l.delivery? column positions values <;> simp [Nat.add_comm]

theorem reaches_loadTargets_recording {conn : Connection} (hconn : conn.inside = false)
    (hp : parents.Finds positions)
    (h : (l.loadTargets conn column parents).Reaches .recording before n after) :
    ∃ log, after = before ++ log ∧ l.Joins column parents.values positions log n := by
  obtain ⟨rows, mid, hquery, hrest⟩ := reaches_bind.mp h
  obtain ⟨live, rfl⟩ := reaches_query.mp hquery
  rw [hconn] at hrest
  by_cases hempty : rows.rows.isEmpty = true
  · rw [if_pos hempty] at hrest
    obtain ⟨rfl, rfl⟩ := reaches_done.mp hrest
    exact ⟨_, rfl, live, rows, [], [], rfl, .inl ⟨List.isEmpty_iff.mp hempty, rfl⟩, rfl, rfl⟩
  · rw [if_neg hempty] at hrest
    obtain ⟨types, _, htypes, hread⟩ := reaches_bind.mp hrest
    obtain ⟨hscan, rfl⟩ := reaches_ofExcept.mp htypes
    obtain ⟨counts, _, hdeliver, hdone⟩ := reaches_bind.mp hread
    obtain ⟨rfl, rfl⟩ := reaches_done.mp hdone
    obtain ⟨found, deliveries, hfound, rfl, hcalls, hcount⟩ :=
      reaches_deliverRows_recording hp hdeliver
    refine ⟨_, List.append_assoc _ _ _, live, rows, found, deliveries, rfl,
      .inr ⟨types, hscan, hfound⟩, hcalls, ?_⟩
    rw [← hcount, ← List.foldl_eq_foldr]
    rfl

/-! ## Loads -/

/-- Every run of a load that has a result joins the neighbors to their parents by key. -/
theorem reaches_run_recording (h : (l.run d keys).Reaches .recording before n after) :
    ∃ log, after = before ++ log ∧ l.JoinsByKey keys log n := by
  have hvalues := Keyed.values_ofValues keys
  have hparents := Keyed.finds_ofValues keys
  unfold run at h
  by_cases hnone : Value.firstOfKeys keys = []
  · rw [if_pos (by rw [hvalues, hnone]; rfl)] at h
    obtain ⟨rfl, rfl⟩ := reaches_done.mp h
    refine ⟨[], by simp, fun _ => ⟨rfl, rfl⟩, ?_, ?_, ?_⟩ <;> exact fun hne => absurd hnone hne
  · rw [if_neg (by rw [hvalues, List.isEmpty_iff]; exact hnone), Connection.run,
      if_neg (by simp)] at h
    cases hmany : l.edge.isManyToMany with
    | false =>
      rw [if_neg (by simp [hmany])] at h
      cases hown : l.edge.writesOwnColumn with
      | true =>
        rw [if_pos (by simp [hown])] at h
        obtain ⟨log, hlog, hjoins⟩ := reaches_loadTargets_recording rfl hparents h
        rw [hvalues] at hjoins
        exact ⟨log, hlog, fun hne => absurd hne hnone, fun _ _ _ => hjoins, by simp [hown],
          by simp [hmany]⟩
      | false =>
        rw [if_neg (by simp [hown])] at h
        obtain ⟨fk, _, hlift, hload⟩ := reaches_bind.mp h
        obtain ⟨hfk, rfl⟩ := reaches_ofExcept.mp hlift
        obtain ⟨log, hlog, hjoins⟩ := reaches_loadTargets_recording rfl hparents hload
        rw [hvalues] at hjoins
        exact ⟨log, hlog, fun hne => absurd hne hnone, by simp [hown],
          fun _ _ _ => ⟨fk, hfk, hjoins⟩, by simp [hmany]⟩
    | true =>
      rw [if_pos (by simp [hmany])] at h
      obtain ⟨⟨own, other⟩, _, hlift, hrest⟩ := reaches_bind.mp h
      obtain ⟨hcolumns, rfl⟩ := reaches_ofExcept.mp hlift
      obtain ⟨joins, mid, hquery, hload⟩ := reaches_bind.mp hrest
      obtain ⟨live, rfl⟩ := reaches_query.mp hquery
      have howners := Keyed.finds_follow keys joins.rows
      have hends := Keyed.values_follow keys joins.rows
      rw [joinSelector, hvalues] at hload
      dsimp only at hload
      by_cases hempty : (joins.rows.foldl (Keyed.ofValues keys).follow .empty).values = []
      · rw [if_pos (List.isEmpty_iff.mpr hempty)] at hload
        obtain ⟨rfl, rfl⟩ := reaches_done.mp hload
        refine ⟨_, rfl, fun hne => absurd hne hnone, by simp [hmany], by simp [hmany], ?_⟩
        intro _ _
        refine ⟨own, other, live, joins, [], hcolumns, rfl, ?_⟩
        rintro ends rfl
        refine ⟨fun _ => ⟨rfl, rfl⟩, fun hne => ?_⟩
        exact absurd (hends.symm.trans hempty) hne
      · rw [if_neg (mt List.isEmpty_iff.mp hempty)] at hload
        obtain ⟨log, hlog, hjoins⟩ := reaches_loadTargets_recording rfl howners hload
        refine ⟨_, hlog.trans (List.append_assoc _ _ _), fun hne => absurd hne hnone,
          by simp [hmany], by simp [hmany], ?_⟩
        intro _ _
        refine ⟨own, other, live, joins, log, hcolumns, rfl, ?_⟩
        rintro ends rfl
        refine ⟨fun hnone => absurd (hends.trans hnone) hempty, ?_⟩
        intro _ joins' hperm
        rw [positionsThrough_perm hperm, ← hends]
        exact hjoins

end EdgeLoad

namespace NodeQuery

variable {q : NodeQuery} {d : Dialect} {rows : List (List Value)} {log before after : List Exchange}
  {n : Nat}

/-- The values of fetched rows in the column by which a load finds neighbors. -/
def keysOf (q : NodeQuery) (rows : List (List Value)) (l : EdgeLoad) : List Value :=
  rows.map fun row => row[q.projection.idxOf (l.edge.keyColumn q.node)]?.getD .null

/-- A query of nodes delivers its rows, in their order. Then each load joins the neighbors to them by
the column of its keys, which is always among those selected. -/
def LoadsByKey (q : NodeQuery) (log : List Exchange) (n : Nat) : Prop :=
  ∃ live rows found deliveries loads,
    log = ⟨.query false (.select (q.selector q.projection none)), live,
      (.done rows : Outcome Rows)⟩ :: (deliveries ++ loads.flatten) ∧
    ReadAs (scanTypes q.scan q.projection) q.projection rows.rows found ∧ n = found.length ∧
    deliveries.map Exchange.call =
      (if q.delivers then found.map fun row => .deliver (.row q.projection row) else []) ∧
    (found = [] → loads = []) ∧
    (found ≠ [] → List.Forall₂ (fun l log => l.edge.keyColumn q.node ∈ q.projection ∧
      ∃ k, l.JoinsByKey (q.keysOf found l) log k) q.edges loads)

/-- The columns by which the loads find neighbors are selected. -/
theorem keyColumn_mem_projection {l : EdgeLoad} (hl : l ∈ q.edges) :
    l.edge.keyColumn q.node ∈ q.projection := by
  have hfold : ∀ (edges : List EdgeLoad) (columns : List String) (c : String),
      c ∈ columns ∨ (∃ l ∈ edges, c = l.edge.keyColumn q.node) →
      c ∈ edges.foldl (fun columns l =>
        let key := l.edge.keyColumn q.node
        if columns.contains key then columns else columns ++ [key]) columns := by
    intro edges
    induction edges with
    | nil =>
      intro columns c h
      simpa using h
    | cons e edges ih =>
      intro columns c h
      rw [List.foldl_cons]
      apply ih
      dsimp only
      rcases h with h | ⟨l, hl, rfl⟩
      · left
        split <;> simp [h]
      · rcases List.mem_cons.mp hl with rfl | hl
        · left
          split
          case isTrue hknown => simpa using hknown
          case isFalse => simp
        · exact .inr ⟨l, hl, rfl⟩
  exact hfold q.edges _ _ (.inr ⟨l, hl, rfl⟩)

theorem keysFor_eq {l : EdgeLoad} (hl : l ∈ q.edges) (rows : List (List Value)) :
    q.keysFor rows l = q.keysOf rows l := by
  have hcolumn : q.projection.idxOf? (l.edge.keyColumn q.node) =
      some (q.projection.idxOf (l.edge.keyColumn q.node)) :=
    List.findIdx?_eq_some_iff_findIdx_eq.mpr
      ⟨List.idxOf_lt_length_of_mem (keyColumn_mem_projection hl), rfl⟩
  unfold keysFor keysOf
  rw [hcolumn]

theorem reaches_fetch_recording {limit : Option Nat}
    (h : (q.fetch d limit).Reaches .recording before rows after) :
    ∃ live reported, after = before ++ [⟨.query false (.select (q.selector q.projection limit)), live,
        (.done reported : Outcome Rows)⟩] ∧
      ReadAs (scanTypes q.scan q.projection) q.projection reported.rows rows := by
  unfold fetch at h
  rw [Connection.run, if_neg (by simp)] at h
  obtain ⟨reported, mid, hquery, hrest⟩ := reaches_bind.mp h
  obtain ⟨live, rfl⟩ := reaches_query.mp hquery
  refine ⟨live, reported, ?_⟩
  by_cases hempty : reported.rows.isEmpty = true
  · rw [if_pos hempty] at hrest
    obtain ⟨rfl, rfl⟩ := reaches_done.mp hrest
    exact ⟨rfl, .inl ⟨List.isEmpty_iff.mp hempty, rfl⟩⟩
  · rw [if_neg hempty] at hrest
    obtain ⟨types, _, htypes, hread⟩ := reaches_bind.mp hrest
    obtain ⟨hscan, rfl⟩ := reaches_ofExcept.mp htypes
    obtain ⟨hrows, rfl⟩ := reaches_ofExcept.mp hread
    exact ⟨rfl, .inr ⟨types, hscan, mapM_eq_ok.mp hrows⟩⟩

/-- Rows are delivered one after the other. -/
theorem reaches_deliverRows_recording {columns : List String}
    (h : (rows.forM fun row => Program.deliver (.row columns row)).Reaches .recording before ()
      after) :
    ∃ deliveries, after = before ++ deliveries ∧
      deliveries.map Exchange.call = rows.map fun row => .deliver (.row columns row) := by
  induction rows generalizing before with
  | nil =>
    obtain rfl := reaches_forM_nil.mp h
    exact ⟨[], by simp, rfl⟩
  | cons row rows ih =>
    obtain ⟨mid, hrow, hrows⟩ := reaches_forM_cons.mp h
    obtain ⟨live, rfl⟩ := reaches_deliver.mp hrow
    obtain ⟨deliveries, rfl, hcalls⟩ := ih hrows
    exact ⟨_ :: deliveries, List.append_assoc _ _ _, by simp [hcalls]⟩

/-- The loads of a query are made one after the other. -/
theorem reaches_loads_recording {keys : EdgeLoad → List Value} {edges : List EdgeLoad}
    (h : (edges.forM fun l => discard (l.run d (keys l))).Reaches .recording before () after) :
    ∃ loads, after = before ++ loads.flatten ∧
      List.Forall₂ (fun l log => ∃ k, l.JoinsByKey (keys l) log k) edges loads := by
  induction edges generalizing before with
  | nil =>
    obtain rfl := reaches_forM_nil.mp h
    exact ⟨[], by simp, .nil⟩
  | cons l edges ih =>
    obtain ⟨mid, hload, hrest⟩ := reaches_forM_cons.mp h
    obtain ⟨k, hrun⟩ := reaches_discard.mp hload
    obtain ⟨log, rfl, hjoins⟩ := EdgeLoad.reaches_run_recording hrun
    obtain ⟨loads, rfl, hloads⟩ := ih hrest
    exact ⟨log :: loads, by simp, .cons ⟨k, hjoins⟩ hloads⟩

theorem deliver_eq (d : Dialect) (q : NodeQuery) (rows : List (List Value)) :
    q.deliver d rows =
      ((if q.delivers then rows.forM fun row => Program.deliver (.row q.projection row)
        else pure PUnit.unit) >>= fun _ =>
      (if (!rows.isEmpty) = true then q.edges.forM fun l => discard (l.run d (q.keysFor rows l))
        else pure PUnit.unit) >>= fun _ => pure rows.length) := by
  unfold deliver
  cases q.delivers <;> cases rows.isEmpty <;> rfl

/-- What is done with rows that have been fetched. -/
theorem reaches_deliver_recording (h : (q.deliver d rows).Reaches .recording before n after) :
    n = rows.length ∧ ∃ deliveries loads, after = before ++ (deliveries ++ loads.flatten) ∧
      deliveries.map Exchange.call =
        (if q.delivers then rows.map fun row => .deliver (.row q.projection row) else []) ∧
      (rows = [] → loads = []) ∧
      (rows ≠ [] → List.Forall₂ (fun l log => l.edge.keyColumn q.node ∈ q.projection ∧
        ∃ k, l.JoinsByKey (q.keysOf rows l) log k) q.edges loads) := by
  rw [deliver_eq] at h
  obtain ⟨_, shown, hshow, hrest⟩ := reaches_bind.mp h
  obtain ⟨_, mid, hload, hdone⟩ := reaches_bind.mp hrest
  obtain ⟨rfl, rfl⟩ := reaches_done.mp hdone
  have hdeliveries : ∃ deliveries, shown = before ++ deliveries ∧ deliveries.map Exchange.call =
      (if q.delivers then rows.map fun row => .deliver (.row q.projection row) else []) := by
    split at hshow
    case isTrue hdelivers =>
      rw [if_pos hdelivers]
      exact reaches_deliverRows_recording hshow
    case isFalse hdelivers =>
      rw [if_neg hdelivers]
      obtain ⟨-, rfl⟩ := reaches_done.mp hshow
      exact ⟨[], by simp, rfl⟩
  obtain ⟨deliveries, rfl, hcalls⟩ := hdeliveries
  refine ⟨rfl, deliveries, ?_⟩
  by_cases hrows : rows = []
  · rw [if_neg (by simp [hrows])] at hload
    obtain ⟨-, rfl⟩ := reaches_done.mp hload
    exact ⟨[], by simp, hcalls, fun _ => rfl, fun hne => absurd hrows hne⟩
  · rw [if_pos (by simpa using hrows)] at hload
    obtain ⟨loads, rfl, hloads⟩ := reaches_loads_recording hload
    refine ⟨loads, List.append_assoc _ _ _, hcalls, fun hnone => absurd hnone hrows, fun _ => ?_⟩
    have hkeys : ∀ l log, l ∈ q.edges → (∃ k, l.JoinsByKey (q.keysFor rows l) log k) →
        l.edge.keyColumn q.node ∈ q.projection ∧ ∃ k, l.JoinsByKey (q.keysOf rows l) log k := by
      intro l log hl hjoins
      rw [keysFor_eq hl] at hjoins
      exact ⟨keyColumn_mem_projection hl, hjoins⟩
    exact forall₂_imp_of_mem hkeys hloads

end NodeQuery

/-- Eager loading is a join by key. Every load that has a result asks for each key once, and
delivers each row of the reply that has parents, once and in the order of the reply, with the
ascending positions of exactly those parents that have its key, or that a row of the join table
links to it. A query of nodes hands its loads the keys of the rows that it has read. -/
theorem eager_loading_joins_by_key {d : Dialect} :
    (∀ (l : EdgeLoad) (keys : List Value) (log : List Exchange) (n : Nat),
      (l.run d keys).Run log (.ok n) → l.JoinsByKey keys log n) ∧
    (∀ (q : NodeQuery) (log : List Exchange) (n : Nat),
      (q.all d).Run log (.ok n) → q.LoadsByKey log n) := by
  constructor
  · intro l keys log n h
    obtain ⟨log', hlog, hjoins⟩ := EdgeLoad.reaches_run_recording (reaches_recording h [])
    rw [List.nil_append, List.nil_append] at hlog
    exact hlog ▸ hjoins
  · intro q log n h
    obtain ⟨rows, mid, hfetch, hdeliver⟩ := reaches_bind.mp (reaches_recording h [])
    obtain ⟨live, reported, rfl, hread⟩ := NodeQuery.reaches_fetch_recording hfetch
    obtain ⟨rfl, deliveries, loads, hlog, hcalls, hnone, hloads⟩ :=
      NodeQuery.reaches_deliver_recording hdeliver
    exact ⟨live, reported, rows, deliveries, loads, hlog, hread, rfl, hcalls, hnone, hloads⟩

/-- The rows of a join table that link the first and the third of four parents, twice, to one
neighbor; the second parent has no key. -/
example : positionsThrough [[.int 1, .int 9], [.int 2, .int 9], [.int 1, .int 9], [.int 7, .int 9]]
    [.int 1, .null, .int 2, .int 1] (.int 9) = [0, 2, 3] := by
  decide

/-- The load of the friends of users. -/
def friendsLoad : EdgeLoad :=
  .ofEdge (friendEdge []) userNode fun columns => .ok (columns.map fun _ => .other)

/-- All users with their friends. -/
def usersWithFriends : NodeQuery :=
  { NodeQuery.ofNode userNode with edges := [friendsLoad], delivers := true }

/-- The rows of the friends of users 1 and 2: the pairs of the join table, with one that is no
friend of theirs and one without a friend, and the users that are found, with one too many. -/
def friendsReplies : List Exchange :=
  let pairs : Selector := ((Selector.ofTable "friends").withColumns ["user_id", "friend_id"]).filter
    (.oneOf "user_id" [.int 1, .int 2])
  [⟨.query false (.select pairs), true, (.done ⟨["user_id", "friend_id"],
      [[.int 1, .int 9], [.int 2, .int 9], [.int 1, .int 9], [.int 7, .int 8], [.int 2, .null]]⟩ :
        Outcome Rows)⟩,
    ⟨.query false (.select (friendsLoad.selector "id" [.int 9])), true,
      (.done ⟨["id"], [[.int 4], [.int 9]]⟩ : Outcome Rows)⟩,
    ⟨.deliver (.neighbor none [0, 2, 3] ["id"] [.int 9]), true, (.ok () : Except Error Unit)⟩]

theorem friendsReplies_run :
    (friendsLoad.run .sqlite [.int 1, .null, .int 2, .int 1]).Run friendsReplies (.ok 1) := by
  apply Run.call
  apply Run.call
  apply Run.call
  exact .done _

/-- The rows of the users, and then those of their friends. -/
def usersReplies : List Exchange :=
  let users : List Value := [.int 1, .null, .int 2, .int 1]
  ⟨.query false (.select (usersWithFriends.selector ["id"] none)), true,
      (.done ⟨["id"], users.map fun user => [user]⟩ : Outcome Rows)⟩ ::
    (users.map fun user => ⟨.deliver (.row ["id"] [user]), true, (.ok () : Except Error Unit)⟩) ++
    friendsReplies

theorem usersReplies_run : (usersWithFriends.all .sqlite).Run usersReplies (.ok 4) := by
  apply Run.call
  apply Run.call
  apply Run.call
  apply Run.call
  apply Run.call
  apply Run.call
  apply Run.call
  apply Run.call
  exact .done _

theorem eager_loading_users_with_friends :
    friendsLoad.JoinsByKey [.int 1, .null, .int 2, .int 1] friendsReplies 1 ∧
      usersWithFriends.LoadsByKey usersReplies 4 :=
  ⟨eager_loading_joins_by_key.1 _ _ _ _ friendsReplies_run,
    eager_loading_joins_by_key.2 _ _ _ usersReplies_run⟩

end EntityGraph
