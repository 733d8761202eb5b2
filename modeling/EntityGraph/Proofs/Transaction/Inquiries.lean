import EntityGraph.Graph.Query
import EntityGraph.Proofs.Program.Orderly

/-!
# Inquiries

The operations that only ask, as one family: queries of nodes in all their shapes, queries of the
pairs of a join table, and loads of neighbors. None of them opens a transaction. What each of them
does is orderly on the plain connection, from the first statement to the last follow-up.
-/

set_option autoImplicit false

namespace EntityGraph

open Program

variable {d : Dialect}

/-- Outside a transaction an operation is what it does on the plain connection. -/
theorem orderly_plain {α : Type} {body : Connection → Program α}
    (h : (body ⟨d, false⟩).Orderly ⟨d, false⟩) :
    (Connection.run d false body).Orderly ⟨d, false⟩ := h

/-! ## Loading neighbors -/

namespace EdgeLoad

theorem deliverRow_orderly (conn : Connection) (l : EdgeLoad) (column : String)
    (types : List FieldType) (parents : Keyed) (row : List Value) :
    (l.deliverRow column types parents row).Orderly conn := by
  refine (orderly_ofExcept _).bind fun values => ?_
  dsimp only
  split
  case h_1 => trivial
  case h_2 => exact (orderly_deliver conn _).bind fun _ => orderly_done 1

theorem loadTargets_orderly (conn : Connection) (l : EdgeLoad) (column : String)
    (parents : Keyed) : (l.loadTargets conn column parents).Orderly conn := by
  refine (orderly_query conn _).bind fun rows => orderly_ite trivial ?_
  refine (orderly_ofExcept _).bind fun types => ?_
  exact (orderly_mapM fun row _ => deliverRow_orderly conn l column types parents row).bind
    fun _ => orderly_done _

theorem run_orderly (l : EdgeLoad) (keys : List Value) : (l.run d keys).Orderly ⟨d, false⟩ := by
  have hload := loadTargets_orderly ⟨d, false⟩ l
  refine orderly_ite trivial (orderly_plain (orderly_ite ?_ (orderly_ite (hload _ _) ?_)))
  case refine_1 =>
    refine (orderly_ofExcept _).bind fun columns => (orderly_query _ _).bind fun rows => ?_
    exact orderly_ite trivial (hload _ _)
  case refine_2 => exact (orderly_ofExcept _).bind fun fk => hload fk _

end EdgeLoad

/-! ## Querying nodes -/

namespace NodeQuery

theorem fetch_orderly (q : NodeQuery) (limit : Option Nat) :
    (q.fetch d limit).Orderly ⟨d, false⟩ := by
  refine (orderly_query _ _).bind fun rows => orderly_ite trivial ?_
  exact (orderly_ofExcept _).bind fun types => orderly_ofExcept _

theorem deliver_orderly (q : NodeQuery) (rows : List (List Value)) :
    (q.deliver d rows).Orderly ⟨d, false⟩ := by
  have htail : (do
      if !rows.isEmpty then q.edges.forM fun l => discard (l.run d (q.keysFor rows l))
      pure rows.length : Program Nat).Orderly ⟨d, false⟩ :=
    orderly_ite ((orderly_forM fun l _ => (l.run_orderly _).discard).bind fun _ => orderly_done _)
      (orderly_done _)
  unfold deliver
  exact orderly_ite ((orderly_forM fun _ _ => orderly_deliver _ _).bind fun _ => htail) htail

theorem all_orderly (q : NodeQuery) : (q.all d).Orderly ⟨d, false⟩ :=
  (fetch_orderly q none).bind fun rows => deliver_orderly q rows

theorem first_orderly (q : NodeQuery) : (q.first d).Orderly ⟨d, false⟩ :=
  (fetch_orderly q _).bind fun rows =>
    orderly_ite trivial (deliver_orderly q rows).discard

theorem only_orderly (q : NodeQuery) : (q.only d).Orderly ⟨d, false⟩ := by
  refine (fetch_orderly q _).bind fun rows => ?_
  split
  case h_1 => trivial
  case h_2 => exact (deliver_orderly q _).discard
  case h_3 => trivial

theorem fetchIds_orderly (q : NodeQuery) (limit : Option Nat) :
    (q.fetchIds d limit).Orderly ⟨d, false⟩ :=
  (orderly_query _ _).bind fun _ => orderly_ofExcept _

theorem firstId_orderly (q : NodeQuery) : (q.firstId d).Orderly ⟨d, false⟩ := by
  refine (fetchIds_orderly q _).bind fun ids => ?_
  split <;> trivial

theorem onlyId_orderly (q : NodeQuery) : (q.onlyId d).Orderly ⟨d, false⟩ := by
  refine (fetchIds_orderly q _).bind fun ids => ?_
  split <;> trivial

theorem count_orderly (q : NodeQuery) : (q.count d).Orderly ⟨d, false⟩ := by
  refine (orderly_query _ _).bind fun rows => ?_
  split <;> trivial

theorem exist_orderly (q : NodeQuery) : (q.exist d).Orderly ⟨d, false⟩ :=
  orderly_probe _ _

end NodeQuery

/-! ## Querying the pairs of a join table -/

namespace EdgeQuery

theorem deliverRow_orderly (conn : Connection) (q : EdgeQuery) (other : String)
    (row : List Value) : (q.deliverRow other row).Orderly conn := by
  unfold deliverRow
  split
  case h_1 => exact (orderly_ofExcept _).bind fun _ => orderly_deliver conn _
  case h_2 => trivial

theorem run_orderly (q : EdgeQuery) : (q.run d).Orderly ⟨d, false⟩ := by
  refine orderly_ite trivial ((orderly_ofExcept _).bind fun columns => ?_)
  refine (orderly_query _ _).bind fun rows => Orderly.bind (orderly_forM fun row _ => ?_)
    fun _ => orderly_done _
  exact deliverRow_orderly _ q _ row

end EdgeQuery

/-! ## All inquiries -/

/-- An operation that only asks. -/
inductive Inquiry where
  | nodes (q : NodeQuery)
  | first (q : NodeQuery)
  | only (q : NodeQuery)
  | ids (q : NodeQuery)
  | firstId (q : NodeQuery)
  | onlyId (q : NodeQuery)
  | count (q : NodeQuery)
  | exist (q : NodeQuery)
  | edges (q : EdgeQuery)
  | load (l : EdgeLoad) (keys : List Value)

namespace Inquiry

/-- What an inquiry results in. -/
def Result : Inquiry → Type
  | .nodes _ => Nat
  | .first _ => Unit
  | .only _ => Unit
  | .ids _ => List Value
  | .firstId _ => Value
  | .onlyId _ => Value
  | .count _ => Nat
  | .exist _ => Bool
  | .edges _ => Nat
  | .load _ _ => Nat

/-- The program of an inquiry. -/
def program (d : Dialect) : (i : Inquiry) → Program i.Result
  | .nodes q => q.all d
  | .first q => q.first d
  | .only q => q.only d
  | .ids q => q.ids d
  | .firstId q => q.firstId d
  | .onlyId q => q.onlyId d
  | .count q => q.count d
  | .exist q => q.exist d
  | .edges q => q.run d
  | .load l keys => l.run d keys

/-- An inquiry is orderly on the plain connection. -/
theorem program_orderly (i : Inquiry) : (i.program d).Orderly ⟨d, false⟩ := by
  cases i with
  | nodes q => exact q.all_orderly
  | first q => exact q.first_orderly
  | only q => exact q.only_orderly
  | ids q => exact q.fetchIds_orderly none
  | firstId q => exact q.firstId_orderly
  | onlyId q => exact q.onlyId_orderly
  | count q => exact q.count_orderly
  | exist q => exact q.exist_orderly
  | edges q => exact q.run_orderly
  | load l keys => exact l.run_orderly keys

end Inquiry

end EntityGraph
