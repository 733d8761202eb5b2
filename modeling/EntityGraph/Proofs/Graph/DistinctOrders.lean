import EntityGraph.Proofs.Graph.QuerySelections

/-!
# The order of selections that show each row once

PostgreSQL orders the rows of a selection that shows each row once by selected columns only. The
rows of a query are selected with all columns, or with their IDs alone: then the order may name a
column that is left out. `Inquiry.orders_listed_iff` says for which questions about a query it does.
-/

set_option autoImplicit false

namespace EntityGraph

/-! ## The selections of a statement -/

mutual

/-- The selections in a condition. -/
def Predicate.selections : Predicate → List Selector
  | .compare _ _ _ | .isIn _ _ | .notIn _ _ | .isNull _ | .notNull _ | .like _ _ => []
  | .inSelect _ select | .anyRow select => select.selections
  | .conj preds | .disj preds => predicatesSelections preds
  | .neg pred => pred.selections

/-- The selections in the conditions of a list. -/
def predicatesSelections : List Predicate → List Selector
  | [] => []
  | p :: rest => p.selections ++ predicatesSelections rest

/-- The selections in an optional condition. -/
def conditionSelections : Option Predicate → List Selector
  | some p => p.selections
  | none => []

/-- The selections in a source. -/
def TableRef.selections : TableRef → List Selector
  | .table _ _ => []
  | .select select _ => select.selections

/-- The selections in joined sources. -/
def joinsSelections : List Join → List Selector
  | [] => []
  | ⟨table, _, _⟩ :: rest => table.selections ++ joinsSelections rest

/-- A selection and the selections in it. -/
def Selector.selections : Selector → List Selector
  | ⟨columns, source, joins, predicate, order, limit, offset, distinct, count⟩ =>
    ⟨columns, source, joins, predicate, order, limit, offset, distinct, count⟩ ::
      (source.selections ++ joinsSelections joins ++ conditionSelections predicate)

end

/-- The selections in a selection. -/
def Selector.parts (s : Selector) : List Selector :=
  s.source.selections ++ joinsSelections s.joins ++ conditionSelections s.predicate

theorem Selector.selections_eq (s : Selector) : s.selections = s :: s.parts := by
  cases s
  rw [selections]
  rfl

/-! ## Orders by selected columns -/

/-- A column to order by is a selected column, under a name that may leave out qualifiers. A star
stands for all columns. -/
def OrderTerm.IsListed (t : OrderTerm) (columns : List String) : Prop :=
  ∃ name ∈ Selector.columnNames columns, nameParts t.column <:+ name ∨ name.getLastD "" = "*"

instance (t : OrderTerm) (columns : List String) : Decidable (t.IsListed columns) :=
  inferInstanceAs (Decidable (∃ name ∈ Selector.columnNames columns, _))

namespace Selector

/-- A selection that shows each row once, instead of counting them, orders by selected columns. -/
def OrdersListed (s : Selector) : Prop :=
  s.distinct = true → s.count = false → ∀ t ∈ s.order, t.IsListed s.columns

instance (s : Selector) : Decidable s.OrdersListed :=
  inferInstanceAs (Decidable (_ → _ → ∀ t ∈ s.order, t.IsListed s.columns))

/-- A database accepts a selection. Only PostgreSQL asks for selected columns in the order. -/
def IsValidOn (d : Dialect) (s : Selector) : Prop :=
  d = .postgres → ∀ x ∈ s.selections, x.OrdersListed

instance (d : Dialect) (s : Selector) : Decidable (s.IsValidOn d) :=
  inferInstanceAs (Decidable (_ → ∀ x ∈ s.selections, x.OrdersListed))

/-- If it does not depend on the database whether a selection is accepted, then it is accepted. -/
theorem valid_on_all_iff {s : Selector} :
    (∀ d d', s.IsValidOn d → s.IsValidOn d') ↔ ∀ x ∈ s.selections, x.OrdersListed :=
  ⟨fun h => h .sqlite .postgres (fun h => absurd h (by decide)) rfl, fun h _ _ _ _ => h⟩

theorem ordersListed_of_count {s : Selector} (h : s.count = true) : s.OrdersListed :=
  fun _ hcount => absurd (hcount.symm.trans h) (by decide)

/-- A name of a column as it is declared, or with its table, is a name of the qualified column. -/
theorem suffix_qualify (s : Selector) {name c : String} (h : name = c ∨ name = s.qualify c) :
    nameParts name <:+ nameParts (s.qualify c) := by
  rcases h with rfl | rfl
  · unfold qualify
    split
    case isTrue => exact List.suffix_rfl
    case isFalse => exact ⟨_, (nameParts_qualified _ _).symm⟩
  · exact List.suffix_rfl

end Selector

namespace NodeQuery

variable {q : NodeQuery} {columns : List String} {limit : Option Nat}

theorem parts_selector : (q.selector columns limit).parts = q.base.parts := by
  rw [selector_eq]
  rfl

/-- A query that shows each row once orders by the columns that it selects, or counts rows. -/
def OrdersBy (q : NodeQuery) (columns : List String) : Prop :=
  q.base.count = true ∨ ∀ t ∈ q.base.order ++ q.order, t.IsListed (columns.map q.base.qualify)

theorem ordersListed_selector (hunique : q.unique = true) :
    (q.selector columns limit).OrdersListed ↔ q.OrdersBy columns := by
  have hdistinct : q.isDistinct = true := by simp [isDistinct, hunique]
  rw [selector_eq, Selector.OrdersListed, OrdersBy, hdistinct]
  cases hcount : q.base.count with
  | true => simp
  | false => simp

/-- The selections in what a query starts from stay as they are. -/
theorem ordersListed_selections (hunique : q.unique = true) :
    (∀ x ∈ (q.selector columns limit).selections, x.OrdersListed) ↔
      q.OrdersBy columns ∧ ∀ x ∈ q.base.parts, x.OrdersListed := by
  rw [Selector.selections_eq, List.forall_mem_cons, parts_selector, ordersListed_selector hunique]

/-- Counted rows have no order, but for those of a window, which are selected before. -/
theorem ordersListed_counter (hunique : q.unique = true) :
    (∀ x ∈ q.counter.selections, x.OrdersListed) ↔
      (q.isWindowed = true → q.OrdersBy [q.node.id.column]) ∧
        ∀ x ∈ q.base.parts, x.OrdersListed := by
  rw [Selector.selections_eq, List.forall_mem_cons]
  cases hwindowed : q.isWindowed with
  | true =>
    -- the counted selection is that of the IDs, which keeps its order for the window
    have hcounter : q.counter =
        (Selector.ofRef (.select (q.selector [q.node.id.column] none) "t")).makeCount :=
      if_pos hwindowed
    have hcount : q.counter.count = true := by
      rw [hcounter]
      rfl
    have hin : q.counter.parts = (q.selector [q.node.id.column] none).selections := by
      rw [hcounter]
      simp [Selector.parts, Selector.makeCount, Selector.ofRef, TableRef.selections,
        joinsSelections, conditionSelections]
    rw [hin, ordersListed_selections hunique]
    exact ⟨fun h => ⟨fun _ => h.2.1, h.2.2⟩,
      fun h => ⟨Selector.ordersListed_of_count hcount, h.1 rfl, h.2⟩⟩
  | false =>
    have hcounter : q.counter =
        ((q.base.withColumns [q.base.qualify q.node.id.column]).makeDistinct).makeCount :=
      (if_neg (by simpa [isWindowed] using hwindowed)).trans (if_pos hunique)
    rw [hcounter]
    exact and_congr_left fun _ =>
      iff_of_true (Selector.ordersListed_of_count rfl) (fun h => by cases h)

/-- All columns of the nodes are selected unless others are asked for. -/
theorem mem_projection (hcolumns : q.columns = []) {c : String} (hc : c ∈ q.node.selectColumns) :
    c ∈ q.projection := by
  rw [projection_eq, if_pos (by rw [hcolumns]; rfl)]
  exact (EntityQuery.prefix_addColumns _ _).subset hc

/-- An order by columns of the nodes is listed where all of them are selected. -/
theorem ordersBy_projection (hcolumns : q.columns = [])
    (horder : ∀ t ∈ q.base.order ++ q.order,
      ∃ c ∈ q.node.selectColumns, t.column = c ∨ t.column = q.base.qualify c) :
    q.OrdersBy q.projection := by
  refine .inr fun t ht => ?_
  obtain ⟨c, hc, hname⟩ := horder t ht
  refine ⟨nameParts (q.base.qualify c), ?_, .inl (q.base.suffix_qualify hname)⟩
  have hne : q.projection.map q.base.qualify ≠ [] := by
    simpa using q.projection_ne_nil
  have hnames : Selector.columnNames (q.projection.map q.base.qualify) =
      (q.projection.map q.base.qualify).map nameParts := by
    unfold Selector.columnNames
    split
    case h_1 heq => exact absurd heq hne
    case h_2 => rfl
  rw [hnames, List.map_map]
  exact List.mem_map_of_mem (mem_projection hcolumns hc)

end NodeQuery

/-! ## Questions about a query -/

namespace Inquiry

variable {i : Inquiry} {q : NodeQuery} {s : Selector} {d : Dialect}

/-- Rows are selected for their IDs only. -/
def selectsIds : Inquiry → Bool
  | .ids _ | .firstId _ | .onlyId _ => true
  | .count q => q.isWindowed
  | .nodes _ | .first _ | .only _ | .exist _ | .edges _ | .load _ _ => false

/-- A question about a query of nodes, each shown once, that orders by their columns is answered by
one selection and then by loads of neighbors, which may show rows repeatedly. The selection orders
by selected columns, and is accepted by all databases if by one, except if it selects only IDs and
orders by other columns, or if a selection in it does not. -/
theorem orders_listed_iff (hq : i.query? = some q) (hs : i.selection? = some s)
    (hunique : q.unique = true) (hcolumns : q.columns = [])
    (horder : ∀ t ∈ q.base.order ++ q.order,
      ∃ c ∈ q.node.selectColumns, t.column = c ∨ t.column = q.base.qualify c) :
    (∀ log result, (i.program d).Run log result → ∃ live reply rest,
        log = ⟨.query false (.select s), live, reply⟩ :: rest ∧
        OnlySends (fun c => ∃ x : Selector, c = .select x ∧ x.distinct = false) rest) ∧
      ((∀ x ∈ s.selections, x.OrdersListed) ↔
        (i.selectsIds = true → q.OrdersBy [q.node.id.column]) ∧
          ∀ x ∈ q.base.parts, x.OrdersListed) ∧
      ((∀ d d', s.IsValidOn d → s.IsValidOn d') ↔
        (i.selectsIds = true → q.OrdersBy [q.node.id.column]) ∧
          ∀ x ∈ q.base.parts, x.OrdersListed) := by
  have hlisted : (∀ x ∈ s.selections, x.OrdersListed) ↔
      (i.selectsIds = true → q.OrdersBy [q.node.id.column]) ∧
        ∀ x ∈ q.base.parts, x.OrdersListed := by
    have hall : q.OrdersBy q.projection := NodeQuery.ordersBy_projection hcolumns horder
    cases i with
    | nodes _ | first _ | only _ =>
      obtain rfl := Option.some.inj hq
      obtain rfl := Option.some.inj hs
      exact (NodeQuery.ordersListed_selections hunique).trans
        (and_congr_left fun _ => iff_of_true hall (fun h => by cases h))
    | ids _ | firstId _ | onlyId _ =>
      obtain rfl := Option.some.inj hq
      obtain rfl := Option.some.inj hs
      exact (NodeQuery.ordersListed_selections hunique).trans
        (and_congr_left fun _ => ⟨fun h _ => h, fun h => h rfl⟩)
    | count _ =>
      obtain rfl := Option.some.inj hq
      obtain rfl := Option.some.inj hs
      exact NodeQuery.ordersListed_counter hunique
    | exist _ | edges _ | load _ _ => cases hq
  refine ⟨fun log result hrun => ?_, hlisted, Selector.valid_on_all_iff.trans hlisted⟩
  obtain ⟨live, reply, rest, hlog, hrest⟩ := sends_selection hq hs hrun
  refine ⟨live, reply, rest, hlog, fun x hx c hc => ?_⟩
  obtain ⟨l, -, hsent⟩ := hrest x hx c hc
  exact hsent.not_distinct

end Inquiry

/-- The users, each once, in the order of their names. -/
def usersByName : NodeQuery :=
  { NodeQuery.ofNode { userNode with columns := ["name"] } with
    order := [⟨"name", .ascending⟩], unique := true }

/-- The users are selected with their names, so they can be ordered by them. -/
theorem orders_listed_iff_usersByName :
    usersByName.unique = true ∧ usersByName.columns = [] ∧
      (∀ t ∈ usersByName.base.order ++ usersByName.order, ∃ c ∈ usersByName.node.selectColumns,
        t.column = c ∨ t.column = usersByName.base.qualify c) ∧
      ∀ x ∈ (usersByName.selector usersByName.projection none).selections, x.OrdersListed := by
  have horder : ∀ t ∈ usersByName.base.order ++ usersByName.order,
      ∃ c ∈ usersByName.node.selectColumns,
        t.column = c ∨ t.column = usersByName.base.qualify c := by
    intro t ht
    obtain rfl : t = ⟨"name", .ascending⟩ := List.mem_singleton.mp ht
    exact ⟨"name", by decide, .inl rfl⟩
  have hparts : ∀ x ∈ usersByName.base.parts, x.OrdersListed := by
    intro x hx
    cases hx
  exact ⟨rfl, rfl, horder, (Inquiry.orders_listed_iff (d := .postgres) (i := .nodes usersByName)
    rfl rfl rfl rfl horder).2.1.mpr ⟨(fun h => by cases h), hparts⟩⟩

/-- Their IDs alone are ordered by names that are not selected, which PostgreSQL does not accept. -/
theorem ids_ordered_by_unlisted :
    ((Inquiry.ids usersByName).program .postgres).Run
        [⟨.query false (.select (usersByName.selector ["id"] none)), true,
          (.done ⟨["id"], []⟩ : Outcome Rows)⟩] (.ok ([] : List Value)) ∧
      ((Command.select (usersByName.selector ["id"] none)).statement .postgres).sql =
        "SELECT DISTINCT \"users\".\"id\" FROM \"users\" ORDER BY \"name\" ASC" ∧
      (usersByName.selector ["id"] none).IsValidOn .sqlite ∧
      ¬(usersByName.selector ["id"] none).IsValidOn .postgres := by
  exact ⟨.call _ _ (.done _), by decide, by decide, by decide⟩

end EntityGraph
