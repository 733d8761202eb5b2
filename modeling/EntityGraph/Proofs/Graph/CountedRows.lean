import EntityGraph.Proofs.Entity.Untyped
import EntityGraph.Proofs.Graph.BatchAgreement
import EntityGraph.Proofs.Relational.Counting
import EntityGraph.Proofs.Relational.Performed

/-!
# Counting the rows of a query

A query can be counted by three selections: one that counts rows, one that counts IDs, each once,
and one that counts the rows of the selection with its window. The number is that of the rows that
the query delivers, if the query itself has what the selection that it starts from has: a window, or
the wish to see each row once. Rows that are to be seen once are counted by their IDs, so the IDs
have to be among the selected columns.
-/

set_option autoImplicit false

namespace EntityGraph

open Program

variable {E : Engine} {db : Database} {outer : Env}

/-! ## The selections of a query -/

theorem Selector.foldl_orderBy (terms : List OrderTerm) (s : Selector) :
    terms.foldl Selector.orderBy s = { s with order := s.order ++ terms } := by
  induction terms generalizing s with
  | nil =>
    rw [List.foldl_nil, List.append_nil]
    cases s
    rfl
  | cons t terms ih =>
    rw [List.foldl_cons, ih]
    simp [Selector.orderBy]

namespace NodeQuery

variable {q : NodeQuery} {columns : List String} {limit : Option Nat}

/-- The query itself cuts out a window. -/
def isWindowed (q : NodeQuery) : Bool := q.limit.isSome || q.offset.isSome

/-- Each row is to be seen once. -/
def isDistinct (q : NodeQuery) : Bool := q.unique || q.base.distinct

/-- What is selected to deliver all rows. -/
def listing (q : NodeQuery) : Selector := q.selector q.projection none

theorem selector_eq (q : NodeQuery) (columns : List String) (limit : Option Nat) :
    q.selector columns limit =
      { q.base with
        columns := columns.map q.base.qualify
        order := q.base.order ++ q.order
        limit := limit.or (q.limit.or q.base.limit)
        offset := q.offset.or q.base.offset
        distinct := q.isDistinct } := by
  rw [selector, Selector.foldl_orderBy]
  rfl

theorem levels_selector :
    (q.selector columns limit).levels E db outer = q.base.levels E db outer := by
  rw [selector_eq]
  rfl

/-- The number of rows before the window of the query. -/
theorem total_selector (hne : columns ≠ []) :
    (q.selector columns limit).itsShape.total E outer (q.base.levels E db outer) =
      if q.base.count then 1
      else if q.isDistinct then
        (distinctRows E (((q.base.levels E db outer).mergeSort
          (inOrder E outer (q.selector columns limit).itsShape.order)).map fun level =>
            (columns.map fun c => nameParts (q.base.qualify c)).flatMap
              (projected outer level))).length
      else (q.base.levels E db outer).length := by
  have hnames : Selector.columnNames (columns.map q.base.qualify) =
      columns.map fun c => nameParts (q.base.qualify c) := by
    cases columns with
    | nil => exact absurd rfl hne
    | cons c rest => simp [Selector.columnNames]
  have hnonempty : (columns.map q.base.qualify).isEmpty = false := by
    cases columns with
    | nil => exact absurd rfl hne
    | cons c rest => rfl
  rw [selector_eq]
  unfold Selector.itsShape Selector.shape Selector.projection Shape.total
  dsimp only
  rw [hnonempty, hnames]
  cases q.base.count <;> cases q.isDistinct <;> rfl

theorem projection_eq (q : NodeQuery) : q.projection = EntityQuery.addColumns
    (if q.columns.isEmpty then q.node.selectColumns else q.columns)
    (q.edges.map fun l => l.edge.keyColumn q.node) := by
  rw [EntityQuery.addColumns, List.foldl_map]
  rfl

theorem projection_ne_nil (q : NodeQuery) : q.projection ≠ [] := by
  rw [projection_eq]
  apply EntityQuery.addColumns_ne_nil
  split
  case isTrue => exact List.cons_ne_nil _ _
  case isFalse hne => simpa using hne

/-- The window does not depend on the columns that are selected. -/
theorem shown_selector (columns : List String) (n : Nat) :
    (q.selector columns limit).itsShape.shown n = (q.selector [] limit).itsShape.shown n := by
  rw [selector_eq, selector_eq]
  rfl

/-- The number of the rows of a query can be asked for. If the selection that it starts from has a
window, counts its rows or shows each row once, then the query has a window of its own, or in the
last case the wish to see each row once. With this wish it selects the ID, and nothing else than
columns of the nodes. -/
structure IsCountable (db : Database) (q : NodeQuery) : Prop where
  windowed : q.base.hasWindow = true → q.isWindowed = true
  listed : q.base.count = true → q.isWindowed = true
  distinct : q.base.distinct = true → q.unique = true ∨ q.isWindowed = true
  selected : q.isDistinct = true → q.node.id.column ∈ q.projection ∧ ∀ c ∈ q.projection,
    (q.base.source.sourceOf db).Supplies (nameParts (q.base.qualify c))

/-- The IDs tell the rows apart that the query starts from. -/
def IsIdentified (E : Engine) (db : Database) (q : NodeQuery) : Prop :=
  q.base.IsIdentifiedBy E db (q.base.qualify q.node.id.column)

section Stored

variable {table : String} (hsource : q.base.source = .table table none)
include hsource

theorem denotes_qualify_base {c : String} (hcolumn : (db (nameParts table)).HasColumn c) :
    db.Denotes table (q.base.qualify c) c := by
  have hqualify : q.base.qualify c = (Selector.ofTable table).qualify c := by
    unfold Selector.qualify Selector.qualified Selector.tableName
    rw [hsource]
    rfl
  rw [hqualify]
  exact hcolumn.denotes_qualify

theorem supplies_of_hasColumn {c : String} (hcolumn : (db (nameParts table)).HasColumn c) :
    (q.base.source.sourceOf db).Supplies (nameParts (q.base.qualify c)) := by
  obtain ⟨hknows, hname, hstar⟩ := denotes_qualify_base hsource hcolumn
  rw [hsource]
  exact ⟨hknows, fun h => hstar (hname.symm.trans h)⟩

/-- A query of a table starts from rows that the key of the table tells apart. -/
theorem isIdentified_of_hasKey (hkey : (db (nameParts table)).HasKey E q.node.id.column) :
    q.IsIdentified E db where
  supplied := supplies_of_hasColumn hsource hkey.toHasColumn
  present := by
    intro f hf
    rw [hsource, TableRef.frames] at hf
    obtain ⟨r, hr, rfl⟩ := List.mem_map.mp hf
    rw [(denotes_qualify_base hsource hkey.toHasColumn).column]
    exact hkey.present r hr
  unique := by
    rw [hsource, TableRef.frames, (denotes_qualify_base hsource hkey.toHasColumn).column]
    exact List.pairwise_map.mpr hkey.unique

end Stored

section Whole

variable (hq : q.IsCountable db) (hwindowed : q.isWindowed = false)
include hq hwindowed

/-- Without a window of its own a query that is counted is not a part of its selection. -/
theorem whole_base : q.base.limit = none ∧ q.base.offset = none ∧ q.base.count = false := by
  have hwindow : ¬q.base.hasWindow = true := mt hq.windowed (by simp [hwindowed])
  have hcount : ¬q.base.count = true := mt hq.listed (by simp [hwindowed])
  simp only [Selector.hasWindow, Bool.or_eq_true, not_or, Bool.not_eq_true,
    Option.isSome_eq_false_iff, Option.isNone_iff_eq_none] at hwindow
  exact ⟨hwindow.1, hwindow.2, Bool.not_eq_true _ ▸ hcount⟩

/-- The rows of the query are then all that meet its conditions. -/
theorem length_listing_whole : (q.listing.outRows E db []).length =
    q.listing.itsShape.total E [] (q.base.levels E db []) := by
  have hown : q.limit = none ∧ q.offset = none := by
    simpa [isWindowed] using hwindowed
  obtain ⟨hlimit, hoffset, -⟩ := whole_base hq hwindowed
  have hlisting : q.listing.limit = none ∧ q.listing.offset = none := by
    rw [listing, selector_eq, hown.1, hown.2, hlimit, hoffset]
    exact ⟨rfl, rfl⟩
  have hlevels : q.listing.levels E db [] = q.base.levels E db [] := levels_selector
  rw [Selector.outRows_eq, Shape.length_result, hlevels]
  simp [Shape.shown, Selector.itsShape, Selector.shape, hlisting.1, hlisting.2]

/-- All other rows are counted as they are. -/
theorem outRows_counter_plain (hunique : q.unique = false) : q.counter.outRows E db [] =
    [[("count", .int (Int64.ofNat (q.listing.outRows E db []).length))]] := by
  obtain ⟨hlimit, hoffset, hcount⟩ := whole_base hq hwindowed
  have hbase : q.base.distinct = false := by
    simpa [hunique, hwindowed] using mt hq.distinct
  have hdistinct : q.isDistinct = false := by simp [isDistinct, hunique, hbase]
  have hcounter : q.counter = q.base.makeCount := by
    unfold counter
    exact (if_neg (by simpa [isWindowed] using hwindowed)).trans (if_neg (by simp [hunique]))
  have hlevels : q.counter.levels E db [] = q.base.levels E db [] := by
    rw [hcounter]
    rfl
  have hshape : q.counter.itsShape = ⟨.rowCount, [], none, none⟩ := by
    rw [hcounter]
    simp [Selector.itsShape, Selector.makeCount, Selector.shape, Selector.projection, hlimit,
      hoffset, hbase]
  rw [Selector.outRows_eq, hlevels, hshape, Shape.result_rowCount,
    length_listing_whole hq hwindowed, listing, total_selector q.projection_ne_nil, hcount,
    hdistinct]
  rfl

end Whole

section Counting

variable (hE : E.Reflexive) (hid : q.IsIdentified E db) (hq : q.IsCountable db)
include hE hid hq

/-- Where each row is to be seen once, there are as many rows as there are IDs. -/
theorem length_distinct_ids (hdistinct : q.isDistinct = true) {levels levels' : List Level}
    (hlevels : levels.Perm (q.base.levels E db []))
    (hlevels' : levels'.Perm (q.base.levels E db [])) :
    (distinctRows E (levels.map fun level =>
      [nameParts (q.base.qualify q.node.id.column)].flatMap (projected [] level))).length =
    (distinctRows E (levels'.map fun level =>
      (q.projection.map fun c => nameParts (q.base.qualify c)).flatMap
        (projected [] level))).length := by
  obtain ⟨hselected, hsupplies⟩ := hq.selected hdistinct
  refine length_distinctRows_eq List.head? (hlevels.trans hlevels'.symm) ?_ ?_
  · intro a ha b hb
    refine hid.alike_iff hE (List.mem_singleton_self _) ?_ (hlevels.subset ha) (hlevels.subset hb)
    exact fun n hn => List.mem_singleton.mp hn ▸ hid.supplied
  · intro a ha b hb
    have hname : nameParts (q.base.qualify q.node.id.column) ∈
        q.projection.map fun c => nameParts (q.base.qualify c) := List.mem_map_of_mem hselected
    refine hid.alike_iff hE hname ?_ (hlevels'.subset ha) (hlevels'.subset hb)
    intro n hn
    obtain ⟨c, hc, rfl⟩ := List.mem_map.mp hn
    exact hsupplies c hc

/-- As many IDs are selected as rows are. -/
theorem length_ids_eq :
    ((q.selector [q.node.id.column] none).outRows E db []).length =
      (q.listing.outRows E db []).length := by
  have hlisting : q.listing = q.selector q.projection none := rfl
  rw [hlisting, Selector.outRows_eq, Selector.outRows_eq, Shape.length_result,
    Shape.length_result, levels_selector, levels_selector, shown_selector [q.node.id.column],
    shown_selector q.projection, total_selector (List.cons_ne_nil _ []),
    total_selector q.projection_ne_nil]
  refine congrArg _ ?_
  split
  case isTrue => rfl
  case isFalse =>
    split
    case isTrue hdistinct =>
      exact length_distinct_ids hE hid hq hdistinct (List.mergeSort_perm _ _)
        (List.mergeSort_perm _ _)
    case isFalse => rfl

/-- A window is counted as a selection of its own. -/
theorem outRows_counter_windowed (hwindowed : q.isWindowed = true) : q.counter.outRows E db [] =
    [[("count", .int (Int64.ofNat (q.listing.outRows E db []).length))]] := by
  have hcounter : q.counter = ⟨[], .select (q.selector [q.node.id.column] none) "t", [], none, [],
      none, none, false, true⟩ := if_pos hwindowed
  have hlevels : (q.counter.levels E db []).length =
      ((q.selector [q.node.id.column] none).outRows E db []).length := by
    rw [hcounter]
    simp [Selector.levels, joinsLevels, TableRef.frames, conditionTruth, Truth.isYes]
  rw [Selector.outRows_eq, ← length_ids_eq hE hid hq, ← hlevels, hcounter]
  exact Shape.result_rowCount

section Unwindowed

variable (hwindowed : q.isWindowed = false)
include hwindowed

/-- Rows that are to be seen once are counted by their IDs. -/
theorem outRows_counter_distinct (hunique : q.unique = true) : q.counter.outRows E db [] =
    [[("count", .int (Int64.ofNat (q.listing.outRows E db []).length))]] := by
  obtain ⟨hlimit, hoffset, hcount⟩ := whole_base hq hwindowed
  have hdistinct : q.isDistinct = true := by simp [isDistinct, hunique]
  have hcounter : q.counter = ((q.base.withColumns
      [q.base.qualify q.node.id.column]).makeDistinct).makeCount := by
    unfold counter
    exact (if_neg (by simpa [isWindowed] using hwindowed)).trans (if_pos hunique)
  have hlevels : q.counter.levels E db [] = q.base.levels E db [] := by
    rw [hcounter]
    rfl
  have hshape : q.counter.itsShape =
      ⟨.distinctCount [nameParts (q.base.qualify q.node.id.column)], [], none, none⟩ := by
    rw [hcounter]
    simp [Selector.itsShape, Selector.makeCount, Selector.makeDistinct, Selector.withColumns,
      Selector.shape, Selector.projection, hlimit, hoffset]
  have hpresent : ∀ level ∈ q.base.levels E db [],
      ∀ c ∈ [nameParts (q.base.qualify q.node.id.column)].flatMap (projected [] level),
        c.2.isNull = false := by
    intro level hlevel c hc
    obtain ⟨f, hf, rest, rfl⟩ := Selector.mem_levels hlevel
    have hsupplied : f.source.Supplies (nameParts (q.base.qualify q.node.id.column)) := by
      rw [source_frames E db q.base.source [] f hf]
      exact hid.supplied
    rw [List.flatMap_singleton, projected_of_supplies hsupplied, List.mem_singleton] at hc
    rw [hc]
    exact hid.present f hf
  rw [Selector.outRows_eq, hlevels, hshape, Shape.result_distinctCount hpresent,
    length_listing_whole hq hwindowed, listing, total_selector q.projection_ne_nil, hcount,
    hdistinct]
  have hlength := length_distinct_ids hE hid hq hdistinct
    (List.mergeSort_perm (q.base.levels E db []) (inOrder E [] []))
    (List.mergeSort_perm (q.base.levels E db [])
      (inOrder E [] (q.selector q.projection none).itsShape.order))
  rw [hlength]
  rfl

end Unwindowed

/-- The selection that counts tells how many rows are selected. -/
theorem outRows_counter : q.counter.outRows E db [] =
    [[("count", .int (Int64.ofNat (q.listing.outRows E db []).length))]] := by
  cases hwindowed : q.isWindowed with
  | true => exact outRows_counter_windowed hE hid hq hwindowed
  | false =>
    cases hunique : q.unique with
    | true => exact outRows_counter_distinct hE hid hq hwindowed hunique
    | false => exact outRows_counter_plain hq hwindowed hunique

end Counting

/-! ## Runs -/

variable {S : Schema} {keys : List (String × String)} {s s' : Session} {d : Dialect}

/-- The result of a query is the number of the rows that it selects. If it loads no neighbors, it
delivers these rows and nothing else. -/
theorem run_all {log : List Exchange} {m : Nat} (hrun : (q.all d).Run log (.ok m))
    (hlog : AnsweredBy (Call.Answers E keys) s log s') :
    m = (q.listing.outRows E s.current []).length ∧
      (q.edges = [] → q.delivers = true → (deliveries log).length = m) := by
  obtain ⟨rows, mid, hfetch, hdeliver⟩ := reaches_bind.mp (reaches_recording hrun [])
  obtain ⟨live, reported, rfl, hread⟩ := reaches_fetch_recording hfetch
  obtain ⟨rfl, delivered, loads, hsplit, hcalls, hnone, hloads⟩ :=
    reaches_deliver_recording hdeliver
  rw [List.nil_append, List.nil_append] at hsplit
  subst hsplit
  obtain ⟨_, ⟨-, hreturns, -, -⟩, -⟩ := hlog
  have hlength : rows.length = reported.rows.length := by
    rcases hread with ⟨hreported, hfound⟩ | ⟨types, -, hrows⟩
    · rw [hreported, hfound]
    · exact hrows.length_eq.symm
  have hreported := List.Perm.length_eq hreturns
  rw [List.length_map] at hreported
  refine ⟨hlength.trans hreported, fun hedges hdelivers => ?_⟩
  have hloads : loads = [] := by
    by_cases hempty : rows = []
    · exact hnone hempty
    · exact List.forall₂_nil_left_iff.mp (hedges ▸ hloads hempty)
  have hdelivered : deliveries delivered = rows.map (Delivery.row q.projection) := by
    apply deliveries_of_calls
    rw [hcalls, if_pos hdelivers, List.map_map]
    rfl
  rw [hloads, List.flatten_nil, List.append_nil, List.singleton_append, deliveries_cons,
    hdelivered]
  exact List.length_map _

/-- Counting has the result that the database reports. -/
theorem ensures_count {n : Nat} (hs : s.current.IsSound E S) (hsmall : n < 2 ^ 63)
    (hrows : q.counter.outRows E s.current [] = [[("count", .int (Int64.ofNat n))]]) :
    (q.count d).Ensures (Call.Performs E S) s fun m s' => s' = s ∧ m = n := by
  refine ensures_bind.mpr ((ensures_query performs_succeeds).mpr ⟨?_, fun rows s' hanswer => ?_⟩)
  · refine ⟨⟨["count"], [[.int (Int64.ofNat n)]]⟩, s, trivial, ?_, trivial, hs⟩
    refine ⟨⟨rfl, ?_, hs.obeys, rfl⟩, trivial⟩
    show List.Perm _ ((q.counter.outRows E s.current []).map fun r => r.map (·.2))
    rw [hrows]
    exact List.Perm.refl _
  · obtain ⟨hcarried, hreturns, -, hsaved⟩ := hanswer.answers
    have hreturns : rows.rows.Perm
        ((q.counter.outRows E s.current []).map fun r => r.map (·.2)) := hreturns
    rw [hrows] at hreturns
    have hfirst : rows.firstValue? = some (.int (Int64.ofNat n)) := by
      unfold Rows.firstValue?
      rw [List.perm_singleton.mp hreturns]
      rfl
    rw [hfirst]
    refine ⟨Session.eq_of_current hcarried hsaved, ?_⟩
    have hint : (Int64.ofNat n).toInt = n := Int64.toInt_ofNat_of_lt hsmall
    rw [hint]
    rfl

/-- Counting tells how many rows the query delivers, on every database whose IDs tell rows apart, if
the query is one that can be counted. -/
theorem count_agrees_with_query (hE : E.Reflexive) (hs : s.current.IsSound E S)
    (hid : q.IsIdentified E s.current) (hq : q.IsCountable s.current) (hedges : q.edges = [])
    (hsmall : (q.listing.outRows E s.current []).length < 2 ^ 63) :
    (q.count d).Ensures (Call.Performs E S) s fun n s' => s' = s ∧
      ∀ keys log m after, (q.all d).Run log (.ok m) →
        AnsweredBy (Call.Answers E keys) s log after →
          m = n ∧ (q.delivers = true → (deliveries log).length = n) := by
  refine (ensures_count hs hsmall (outRows_counter hE hid hq)).mono ?_
  rintro n s' ⟨rfl, rfl⟩
  refine ⟨rfl, fun keys log m after hrun hlog => ?_⟩
  obtain ⟨rfl, hdelivered⟩ := run_all hrun hlog
  exact ⟨rfl, hdelivered hedges⟩

end NodeQuery

/-! ## Counting two users -/

theorem Engine.ByKey.reflexive (hE : E.ByKey) : E.Reflexive := by
  intro v hv
  have hequal := hE.equal_self hv
  simpa [Engine.equal, hv] using hequal

/-- Two users who are not related, outside of a transaction. -/
def strangersSession : Session := ⟨familyDatabase strangers [], none⟩

theorem strangers_hasKey : (strangersSession.current (nameParts "users")).HasKey keyEngine "id" :=
  (strangers_isSound "users").hasKey List.mem_cons_self

/-- A page of the users, each once. -/
def userPage : NodeQuery :=
  { NodeQuery.ofNode userNode with
    limit := some 5, offset := some 1, unique := true, delivers := true }

/-- The run of a query for which the database reports one value. -/
def oneValueRun (q : NodeQuery) (v : Value) : List Exchange :=
  ⟨.query false (.select q.listing), true, (.done ⟨q.projection, [[v]]⟩ : Outcome Rows)⟩ ::
    if q.delivers then [⟨.deliver (.row q.projection [v]), true, .ok ()⟩] else []

theorem oneValueRun_answered {q : NodeQuery} {c : String} {v : Value}
    (h : q.listing.outRows keyEngine strangersSession.current [] = [[(c, v)]]) :
    AnsweredBy (Call.Answers keyEngine friendsSchema.keys) strangersSession (oneValueRun q v)
      strangersSession := by
  have hreturns : [[v]].Perm
      ((q.listing.outRows keyEngine strangersSession.current []).map fun r => r.map (·.2)) := by
    rw [h]
    exact List.Perm.refl _
  refine ⟨strangersSession, ⟨rfl, hreturns, strangers_isSound.obeys, rfl⟩, ?_⟩
  split
  case isTrue => exact ⟨strangersSession, rfl, rfl⟩
  case isFalse => rfl

theorem userPage_listing : userPage.listing.outRows keyEngine strangersSession.current [] =
    [[("id", .int 2)]] := by
  have hname : nameParts "users.id" = ["users", "id"] := by decide
  have hshape : userPage.listing.itsShape =
      ⟨.columns true [nameParts "users.id"], [], some 5, some 1⟩ := rfl
  rw [Selector.outRows_eq, hshape, Shape.result, mergeSort_unordered, hname]
  rfl

theorem userPage_isCountable : userPage.IsCountable strangersSession.current := by
  refine ⟨fun _ => rfl, fun _ => rfl, fun _ => .inl rfl, fun _ => ⟨List.mem_cons_self, ?_⟩⟩
  intro c hc
  obtain rfl := List.mem_singleton.mp hc
  exact NodeQuery.supplies_of_hasColumn rfl strangers_hasKey.toHasColumn

theorem userPage_small :
    (userPage.listing.outRows keyEngine strangersSession.current []).length < 2 ^ 63 := by
  rw [userPage_listing]
  decide

/-- The page shows one user, who is counted. -/
theorem count_agrees_with_query_page :
    (userPage.count .sqlite).Ensures (Call.Performs keyEngine friendsSchema) strangersSession
      fun n s' => s' = strangersSession ∧ n = 1 := by
  have hrun : (userPage.all .sqlite).Run (oneValueRun userPage (.int 2)) (.ok 1) := by
    apply Run.call
    apply Run.call
    exact .done _
  refine (NodeQuery.count_agrees_with_query keyEngine_byKey.reflexive strangers_isSound
    (NodeQuery.isIdentified_of_hasKey rfl strangers_hasKey) userPage_isCountable rfl
    userPage_small).mono ?_
  rintro n s' ⟨rfl, hall⟩
  exact ⟨rfl, (hall _ _ 1 _ hrun (oneValueRun_answered userPage_listing)).1.symm⟩

/-- The users in a selection that shows the first of them only. -/
def firstUser : NodeQuery :=
  { NodeQuery.ofNode userNode with source := some ((Selector.ofTable "users").withLimit 1) }

/-- The parents of the users, each once. -/
def parents : NodeQuery :=
  { NodeQuery.ofNode userNode with columns := ["parent_id"], unique := true }

/-- A window of the selection that is counted does not limit the count, and values that are to be
seen once are counted as often as there are users with them. -/
theorem users_miscounted :
    ((firstUser.count .sqlite).Ensures (Call.Performs keyEngine friendsSchema) strangersSession
        fun n _ => n = 2) ∧
      (firstUser.all .sqlite).Run (oneValueRun firstUser (.int 1)) (.ok 1) ∧
      AnsweredBy (Call.Answers keyEngine friendsSchema.keys) strangersSession
        (oneValueRun firstUser (.int 1)) strangersSession ∧
      ((parents.count .sqlite).Ensures (Call.Performs keyEngine friendsSchema) strangersSession
        fun n _ => n = 2) ∧
      (parents.all .sqlite).Run (oneValueRun parents .null) (.ok 1) ∧
      AnsweredBy (Call.Answers keyEngine friendsSchema.keys) strangersSession
        (oneValueRun parents .null) strangersSession := by
  have hid : nameParts "users.id" = ["users", "id"] := by decide
  have hparent : nameParts "users.parent_id" = ["users", "parent_id"] := by decide
  have hcounted : ∀ {q : NodeQuery}, q.counter.outRows keyEngine strangersSession.current [] =
      [[("count", .int (Int64.ofNat 2))]] →
        (q.count .sqlite).Ensures (Call.Performs keyEngine friendsSchema) strangersSession
          fun n _ => n = 2 :=
    fun h => (NodeQuery.ensures_count strangers_isSound (by decide) h).mono fun _ _ hn => hn.2
  refine ⟨hcounted ?_, .call _ _ (.done _), oneValueRun_answered (c := "id") ?_, hcounted ?_,
    .call _ _ (.done _), oneValueRun_answered (c := "parent_id") ?_⟩
  · have hshape : firstUser.counter.itsShape = ⟨.rowCount, [], some 1, none⟩ := rfl
    rw [Selector.outRows_eq, hshape, Shape.result, mergeSort_unordered]
    rfl
  · have hshape : firstUser.listing.itsShape =
        ⟨.columns false [nameParts "users.id"], [], some 1, none⟩ := rfl
    rw [Selector.outRows_eq, hshape, Shape.result, mergeSort_unordered, hid]
    rfl
  · have hshape : parents.counter.itsShape =
        ⟨.distinctCount [nameParts "users.id"], [], none, none⟩ := rfl
    rw [Selector.outRows_eq, hshape, Shape.result, mergeSort_unordered, hid]
    rfl
  · have hshape : parents.listing.itsShape =
        ⟨.columns true [nameParts "users.parent_id"], [], none, none⟩ := rfl
    rw [Selector.outRows_eq, hshape, Shape.result, mergeSort_unordered, hparent]
    rfl

end EntityGraph
