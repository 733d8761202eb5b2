import EntityGraph.Proofs.Graph.CountedRows
import EntityGraph.Proofs.Program.Maintained
import EntityGraph.Proofs.Transaction.Inquiries

/-!
# The selections that answer questions about a query

A question about the rows of a query is answered by one selection, which is sent first. What is
sent after it loads neighbors. `Inquiry.sends_selection` says so of every run.
-/

set_option autoImplicit false

namespace EntityGraph

/-! ## Programs that begin with a query -/

namespace Program

variable {α β : Type} {P : Command → Prop} {c : Command}

/-- The program asks for rows first, and all statements that follow have a property. -/
def Opens (c : Command) (P : Command → Prop) (p : Program α) : Prop :=
  ∃ next, p = .call (.query false c) next ∧ ∀ r, (next r).Issues P

theorem Opens.bind {p : Program α} {f : α → Program β} (hp : p.Opens c P)
    (hf : ∀ a, (f a).Issues P) : (p >>= f).Opens c P := by
  obtain ⟨next, rfl, hnext⟩ := hp
  exact ⟨fun r => next r >>= f, rfl, fun r => (hnext r).bind hf⟩

theorem opens_query (d : Dialect) (c : Command) :
    (Connection.query ⟨d, false⟩ c).Opens c P :=
  ⟨fun r => Connection.settle d r, rfl, fun r => maintains_settle r fun _ h => h⟩

/-- A run of such a program begins with the query. -/
theorem Opens.run {p : Program α} (h : p.Opens c P) {log : List Exchange}
    {result : Except Error α} (hrun : p.Run log result) :
    ∃ live reply rest, log = ⟨.query false c, live, reply⟩ :: rest ∧ OnlySends P rest := by
  obtain ⟨next, rfl, hnext⟩ := h
  obtain ⟨live, reply, rest, rfl, hrest⟩ := run_call.mp hrun
  exact ⟨live, reply, rest, rfl, (hnext reply).onlySends hrest⟩

theorem Opens.issues {P' : Command → Prop} {p : Program α} (h : p.Opens c P) (hc : P' c)
    (hP : ∀ c, P c → P' c) : p.Issues P' := by
  obtain ⟨next, rfl, hnext⟩ := h
  exact issues_call (c := .query false c) (fun _ hs => Option.some.inj hs ▸ hc) fun r =>
    (hnext r).mono hP

end Program

open Program

variable {d : Dialect} {P : Command → Prop}

/-! ## Loads of neighbors -/

/-- The statements of a load. -/
inductive EdgeLoad.MaySend (l : EdgeLoad) : Command → Prop
  | pairs (own other : String) (parents : Keyed) :
      MaySend l (.select (l.joinSelector own other parents))
  | targets (column : String) (values : List Value) :
      MaySend l (.select (l.selector column values))

theorem EdgeLoad.issues_maySend (l : EdgeLoad) (hP : ∀ c, l.MaySend c → P c)
    (keys : List Value) : (l.run d keys).Issues P := by
  have hload : ∀ conn column parents, (l.loadTargets conn column parents).Issues P := by
    intro conn column parents
    refine (issues_query (hP _ (.targets column _))).bind fun rows =>
      issues_ite (fun _ => issues_done _) fun _ => issues_lift_bind fun types _ =>
        (issues_mapM fun row _ => ?_).bind fun _ => issues_done _
    refine issues_lift_bind fun values _ => ?_
    dsimp only
    split
    case h_1 => exact issues_done _
    case h_2 => exact (issues_deliver _).bind fun _ => issues_done _
  refine issues_ite (fun _ => issues_done _) fun _ => issues_connection fun inside => ?_
  refine issues_ite (fun _ => ?_) fun _ => issues_ite (fun _ => hload _ _ _) fun _ => ?_
  case refine_1 =>
    refine issues_lift_bind fun columns _ =>
      (issues_query (hP _ (.pairs _ _ _))).bind fun rows => ?_
    exact issues_ite (fun _ => issues_done _) fun _ => hload _ _ _
  case refine_2 => exact issues_lift_bind fun fk _ => hload _ fk _

/-- A load does not leave out repeated rows. -/
theorem EdgeLoad.MaySend.not_distinct {l : EdgeLoad} {c : Command} (h : l.MaySend c) :
    ∃ s, c = .select s ∧ s.distinct = false := by
  cases h with
  | pairs own other parents => exact ⟨_, rfl, rfl⟩
  | targets column values =>
    refine ⟨_, rfl, ?_⟩
    rw [EdgeLoad.selector, Selector.foldl_orderBy]
    cases l.predicate <;> rfl

/-! ## Questions about a query -/

namespace NodeQuery

variable (q : NodeQuery)

/-- The statements of the loads of a query. -/
def MayLoad (c : Command) : Prop := ∃ l ∈ q.edges, l.MaySend c

theorem opens_fetch (limit : Option Nat) :
    (q.fetch d limit).Opens (.select (q.selector q.projection limit)) P := by
  refine (opens_query d _).bind fun rows => issues_ite (fun _ => issues_done _) fun _ => ?_
  exact issues_lift_bind fun types _ => issues_lift _

theorem opens_fetchIds (limit : Option Nat) :
    (q.fetchIds d limit).Opens (.select (q.selector [q.node.id.column] limit)) P :=
  (opens_query d _).bind fun _ => issues_lift _

theorem issues_mayLoad (rows : List (List Value)) : (q.deliver d rows).Issues q.MayLoad := by
  have hloads : (do
      if !rows.isEmpty then q.edges.forM fun l => discard (l.run d (q.keysFor rows l))
      pure rows.length : Program Nat).Issues q.MayLoad := by
    refine issues_ite (fun _ => Issues.bind ?_ fun _ => issues_done _) fun _ => issues_done _
    exact maintains_forM fun l hl =>
      Maintains.discard (l.issues_maySend (fun c hc => ⟨l, hl, hc⟩) _)
  unfold deliver
  refine issues_ite (fun _ => Issues.bind ?_ fun _ => hloads) fun _ => hloads
  exact maintains_forM fun row _ => issues_deliver _

end NodeQuery

namespace Inquiry

/-- The query whose rows an inquiry is about. -/
def query? : Inquiry → Option NodeQuery
  | .nodes q | .first q | .only q | .ids q | .firstId q | .onlyId q | .count q => some q
  | .exist _ | .edges _ | .load _ _ => none

/-- The selection that answers it. -/
def selection? : Inquiry → Option Selector
  | .nodes q => some (q.selector q.projection none)
  | .first q => some (q.selector q.projection (q.capped 1))
  | .only q => some (q.selector q.projection (q.capped 2))
  | .ids q => some (q.selector [q.node.id.column] none)
  | .firstId q => some (q.selector [q.node.id.column] (q.capped 1))
  | .onlyId q => some (q.selector [q.node.id.column] (q.capped 2))
  | .count q => some q.counter
  | .exist _ | .edges _ | .load _ _ => none

/-- The selection of the rows that it is about. A window is selected before it is counted. -/
def rows? : Inquiry → Option Selector
  | .count q => some (if q.isWindowed then q.selector [q.node.id.column] none else q.counter)
  | i => i.selection?

/-- A question about a query asks for its selection first, and then loads neighbors. -/
theorem opens_selection {i : Inquiry} {q : NodeQuery} {s : Selector} (hq : i.query? = some q)
    (hs : i.selection? = some s) : (i.program d).Opens (.select s) q.MayLoad := by
  cases i with
  | nodes q' =>
    obtain rfl := Option.some.inj hq
    obtain rfl := Option.some.inj hs
    exact (q'.opens_fetch none).bind fun rows => q'.issues_mayLoad rows
  | first q' =>
    obtain rfl := Option.some.inj hq
    obtain rfl := Option.some.inj hs
    exact (q'.opens_fetch _).bind fun rows =>
      issues_ite (fun _ => issues_fail _) fun _ => Maintains.discard (q'.issues_mayLoad rows)
  | only q' =>
    obtain rfl := Option.some.inj hq
    obtain rfl := Option.some.inj hs
    refine (q'.opens_fetch _).bind fun rows => ?_
    split
    case h_1 => exact issues_fail _
    case h_2 => exact Maintains.discard (q'.issues_mayLoad _)
    case h_3 => exact issues_fail _
  | ids q' =>
    obtain rfl := Option.some.inj hs
    exact q'.opens_fetchIds none
  | firstId q' =>
    obtain rfl := Option.some.inj hs
    refine (q'.opens_fetchIds _).bind fun ids => ?_
    split
    case h_1 => exact issues_done _
    case h_2 => exact issues_fail _
  | onlyId q' =>
    obtain rfl := Option.some.inj hs
    refine (q'.opens_fetchIds _).bind fun ids => ?_
    split
    case h_1 => exact issues_fail _
    case h_2 => exact issues_done _
    case h_3 => exact issues_fail _
  | count q' =>
    obtain rfl := Option.some.inj hs
    refine (opens_query d _).bind fun rows => ?_
    split
    case h_1 => exact issues_done _
    case h_2 => exact issues_fail _
  | exist _ | edges _ | load _ _ => cases hs

/-- The answer to a question about a query begins with its selection, and nothing else is sent but
loads of neighbors. -/
theorem sends_selection {i : Inquiry} {q : NodeQuery} {s : Selector} (hq : i.query? = some q)
    (hs : i.selection? = some s) {log : List Exchange} {result : Except Error i.Result}
    (hrun : (i.program d).Run log result) :
    ∃ live reply rest, log = ⟨.query false (.select s), live, reply⟩ :: rest ∧
      OnlySends q.MayLoad rest :=
  (opens_selection hq hs).run hrun

end Inquiry

end EntityGraph
