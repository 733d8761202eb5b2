import EntityGraph.Proofs.Entity.Untyped
import EntityGraph.Proofs.Transaction.Inquiries
import EntityGraph.Sample.Entities

/-!
# Queries of entities refine queries of nodes

A query of entities sends what the corresponding query of nodes sends to a caller who reads rows as
entities: `EntityQuery.Refines` relates the runs of the two in both directions. What such a caller
has in the end is said by `EntityQuery.Assembled` in terms of what has been delivered alone: an
entity for each row, to which exactly the neighbors are attached that are delivered for its
position, each once and in the order in which they come.
-/

set_option autoImplicit false

namespace EntityGraph

open Program

/-! ## Positions of delivered neighbors -/

/-- Ascending positions of some things. -/
structure PositionsIn (n : Nat) (positions : List Nat) : Prop where
  ascending : positions.Pairwise (· < ·)
  bounded : ∀ i ∈ positions, i < n

theorem positionsIn_filter_range (n : Nat) (p : Nat → Bool) :
    PositionsIn n ((List.range n).filter p) := by
  refine ⟨Keyed.ascending_filter_range n p, fun i hi => ?_⟩
  exact List.mem_range.mp (List.mem_filter.mp hi).1

namespace EdgeLoad

variable {l : EdgeLoad} {column : String} {keys values : List Value} {log : List Exchange}
  {n k : Nat}

/-- A delivery of a neighbor of some of so many parents. -/
def DeliversWithin (l : EdgeLoad) (n : Nat) (dl : Delivery) : Prop :=
  ∃ positions columns row, dl = .neighbor l.name positions columns row ∧ PositionsIn n positions

theorem Joins.delivers {positions : Value → List Nat} (h : l.Joins column values positions log k)
    (hpositions : ∀ v, PositionsIn n (positions v)) :
    ∀ dl ∈ deliveries log, l.DeliversWithin n dl := by
  obtain ⟨live, rows, found, ds, rfl, -, hcalls, -⟩ := h
  rw [deliveries_cons, deliveries_of_calls hcalls]
  intro dl hdl
  obtain ⟨row, -, hrow⟩ := List.mem_filterMap.mp hdl
  rw [delivery?] at hrow
  split at hrow
  case isTrue => cases hrow
  case isFalse => exact ⟨_, _, row, (Option.some.inj hrow).symm, hpositions _⟩

/-- A load delivers neighbors only, for positions of its keys. -/
theorem JoinsByKey.delivers (h : l.JoinsByKey keys log k) :
    ∀ dl ∈ deliveries log, l.DeliversWithin keys.length dl := by
  have hown : ∀ v, PositionsIn keys.length (positionsOf keys v) :=
    fun v => positionsIn_filter_range _ _
  by_cases hnone : Value.firstOfKeys keys = []
  · rw [(h.nothing hnone).1]
    exact fun dl hdl => absurd hdl List.not_mem_nil
  · cases hmany : l.edge.isManyToMany with
    | false =>
      cases hwrites : l.edge.writesOwnColumn with
      | true => exact (h.own hnone hmany hwrites).delivers hown
      | false =>
        obtain ⟨fk, -, hjoins⟩ := h.foreign hnone hmany hwrites
        exact hjoins.delivers hown
    | true =>
      obtain ⟨own, other, live, joins, rest, -, rfl, hrest⟩ := h.joined hnone hmany
      rw [deliveries_cons]
      obtain ⟨hends, hjoins⟩ := hrest _ rfl
      by_cases hempty : Value.firstOfKeys ((joins.rows.filter fun row =>
          ∃ key ∈ keys, key.SameKey (row[0]?.getD .null)).map fun row => row[1]?.getD .null) = []
      · rw [(hends hempty).1]
        exact fun dl hdl => absurd hdl List.not_mem_nil
      · exact (hjoins hempty joins.rows (.refl _)).delivers fun v => positionsIn_filter_range _ _

end EdgeLoad

namespace EntityQuery

variable {E : Type} {q : EntityQuery E} {d : Dialect}

/-! ## Assembling entities -/

/-- Changing the members at some positions, each of which comes once, changes each of them once. -/
theorem foldl_modify_eq_mapIdx {α : Type} (f : α → α) {positions : List Nat}
    (h : positions.Nodup) (xs : List α) :
    positions.foldl (fun xs i => xs.modify i f) xs =
      xs.mapIdx fun i x => if i ∈ positions then f x else x := by
  induction positions generalizing xs with
  | nil => simp [List.mapIdx_eq_zipIdx_map]
  | cons j positions ih =>
    obtain ⟨hj, hrest⟩ := List.nodup_cons.mp h
    rw [List.foldl_cons, ih hrest]
    refine List.ext_getElem? fun i => ?_
    rw [List.getElem?_mapIdx, List.getElem?_mapIdx, List.getElem?_modify]
    by_cases hi : j = i
    · subst hi
      cases xs[j]? <;> simp [hj]
    · simp [hi, Ne.symm hi]

/-- A neighbor that is loaded by one of the loads, with the positions of its parents. -/
structure Neighbor (E : Type) where
  loader : EdgeLoader E
  positions : List Nat
  child : loader.Child

namespace Neighbor

/-- Attaches a neighbor to an entity. -/
def attachTo (e : E) (nb : Neighbor E) : E := nb.loader.attach nb.child e

/-- Attaches a neighbor to the entities at its positions. -/
def attach (es : List E) (nb : Neighbor E) : List E :=
  nb.loader.attachAt es (nb.positions, nb.child)

/-- The entities at the positions of a neighbor get it once, the others stay as they are. -/
theorem attach_eq_mapIdx {nb : Neighbor E} (h : nb.positions.Nodup) (es : List E) :
    nb.attach es = es.mapIdx fun i e => if i ∈ nb.positions then attachTo e nb else e :=
  foldl_modify_eq_mapIdx (nb.loader.attach nb.child) h es

/-- After neighbors have been attached one after the other, each entity has those of its position,
in their order. -/
theorem attachAll_eq_mapIdx {neighbors : List (Neighbor E)}
    (h : ∀ nb ∈ neighbors, nb.positions.Nodup) (es : List E) :
    neighbors.foldl (fun es nb => nb.attach es) es =
      es.mapIdx fun i e => (neighbors.filter (i ∈ ·.positions)).foldl attachTo e := by
  induction neighbors generalizing es with
  | nil => simp [List.mapIdx_eq_zipIdx_map]
  | cons nb neighbors ih =>
    obtain ⟨hnb, hrest⟩ := List.forall_mem_cons.mp h
    rw [List.foldl_cons, ih hrest, attach_eq_mapIdx hnb, List.mapIdx_mapIdx]
    congr 1
    funext i e
    by_cases hi : i ∈ nb.positions
    · simp [hi]
    · simp [hi]

end Neighbor

/-- A delivered neighbor is read as an entity of the type of its load. -/
def ReadsNeighbor (q : EntityQuery E) (dl : Delivery) (nb : Neighbor E) : Prop :=
  ∃ (i : Nat) (columns : List String) (row : List Value),
    dl = .neighbor (some (toString i)) nb.positions columns row ∧
      q.loaders[i]? = some nb.loader ∧ nb.loader.childType.ofRow columns row = .ok nb.child

/-- Entities are what has been delivered in a run: rows, each read as an entity, and after them
neighbors, each read and attached once to every entity at its positions, in the order in which they
have come. -/
def Assembled (q : EntityQuery E) (log : List Exchange) (es : List E) : Prop :=
  ∃ rows read ds neighbors,
    deliveries log = rows.map (Delivery.row q.untyped.projection) ++ ds ∧
    List.Forall₂ (fun row e => q.type.ofRow q.untyped.projection row = .ok e) rows read ∧
    List.Forall₂ q.ReadsNeighbor ds neighbors ∧
    (∀ nb ∈ neighbors, PositionsIn rows.length nb.positions) ∧
    es = read.mapIdx fun i e => (neighbors.filter (i ∈ ·.positions)).foldl Neighbor.attachTo e

/-- A neighbor that one of the loads delivers for some of so many rows. -/
def DeliversWithin (q : EntityQuery E) (n : Nat) (dl : Delivery) : Prop :=
  ∃ (i : Nat) (l : EdgeLoader E), q.loaders[i]? = some l ∧ (l.namedLoad i).DeliversWithin n dl

/-- Neighbors that have been taken have been read and attached. -/
theorem attached_of_taken {n : Nat} {ds : List Delivery} (hds : ∀ dl ∈ ds, q.DeliversWithin n dl)
    {es es' : List E} (h : ds.foldlM q.take es = .ok es') :
    ∃ neighbors, List.Forall₂ q.ReadsNeighbor ds neighbors ∧
      (∀ nb ∈ neighbors, PositionsIn n nb.positions) ∧
      es' = neighbors.foldl (fun es nb => nb.attach es) es := by
  induction ds generalizing es with
  | nil => exact ⟨[], .nil, by simp, (Except.ok.inj h).symm⟩
  | cons dl ds ih =>
    obtain ⟨⟨i, l, hl, positions, columns, row, rfl, hpositions⟩, hrest⟩ :=
      List.forall_mem_cons.mp hds
    obtain ⟨first, htake, htaken⟩ := bind_eq_ok.mp h
    rw [take_neighbor hl] at htake
    obtain ⟨child, hchild, ⟨⟩⟩ := bind_eq_ok.mp htake
    obtain ⟨neighbors, hneighbors, hwithin, rfl⟩ := ih hrest htaken
    refine ⟨⟨l, positions, child⟩ :: neighbors, .cons ?_ hneighbors, ?_, rfl⟩
    · exact ⟨i, columns, row, rfl, hl, hchild⟩
    · exact List.forall_mem_cons.mpr ⟨hpositions, hwithin⟩

/-- Rows and neighbors that have been taken are assembled. -/
theorem assembled_of_taken {log : List Exchange} {rows : List (List Value)} {ds : List Delivery}
    {es : List E} (hlog : deliveries log = rows.map (Delivery.row q.untyped.projection) ++ ds)
    (hds : ∀ dl ∈ ds, q.DeliversWithin rows.length dl)
    (h : (deliveries log).foldlM q.take [] = .ok es) :
    q.Assembled log es ∧ es.length = rows.length := by
  rw [hlog, List.foldlM_append, List.foldlM_map] at h
  obtain ⟨read, hread, htaken⟩ := bind_eq_ok.mp h
  have hrows := forall₂_of_readRows hread
  obtain ⟨neighbors, hneighbors, hwithin, rfl⟩ := attached_of_taken hds htaken
  have hnodup : ∀ nb ∈ neighbors, nb.positions.Nodup :=
    fun nb hnb => (hwithin nb hnb).ascending.imp Nat.ne_of_lt
  rw [Neighbor.attachAll_eq_mapIdx hnodup]
  refine ⟨⟨rows, read, ds, neighbors, hlog, hrows, hneighbors, hwithin, rfl⟩, ?_⟩
  rw [List.length_mapIdx, hrows.length_eq]

/-- What is delivered of rows that have been fetched. -/
theorem delivered_of_deliver {rows : List (List Value)} {before after : List Exchange} {n : Nat}
    (h : (q.untyped.deliver d rows).Reaches .recording before n after) :
    ∃ log ds, after = before ++ log ∧
      deliveries log = rows.map (Delivery.row q.untyped.projection) ++ ds ∧
      ∀ dl ∈ ds, q.DeliversWithin rows.length dl := by
  obtain ⟨-, shown, loads, rfl, hcalls, hnone, hloads⟩ := NodeQuery.reaches_deliver_recording h
  rw [if_pos (show q.untyped.delivers = true from rfl)] at hcalls
  refine ⟨_, loads.flatMap deliveries, rfl, ?_, ?_⟩
  · have hshown : shown.map Exchange.call =
        (rows.map (Delivery.row q.untyped.projection)).map Call.deliver := by
      rw [hcalls, List.map_map]
      rfl
    rw [deliveries_append, deliveries_flatten, deliveries_of_calls hshown]
  · intro dl hdl
    obtain ⟨log, hlog, hdl⟩ := List.mem_flatMap.mp hdl
    -- Without rows nothing is loaded, so every delivery comes from a load that has run.
    by_cases hrows : rows = []
    · rw [hnone hrows] at hlog
      exact absurd hlog List.not_mem_nil
    · obtain ⟨load, hload, -, k, hjoins⟩ := exists_of_forall₂ (hloads hrows).flip hlog
      obtain ⟨⟨l, i⟩, hl, rfl⟩ := List.mem_map.mp hload
      have hdelivers := hjoins.delivers dl hdl
      rw [NodeQuery.keysOf, List.length_map] at hdelivers
      exact ⟨i, l, List.mk_mem_zipIdx_iff_getElem?.mp hl, hdelivers⟩

/-- A query that goes on to deliver what it has fetched delivers what is assembled. -/
theorem assembled_of_run {α : Type} {limit : Option Nat} {f : List (List Value) → Program α}
    (horderly : (q.untyped.fetch d limit >>= f).Orderly ⟨d, false⟩) (fits : Nat → Prop)
    (hf : ∀ rows before a after, (f rows).Reaches .recording before a after →
      fits rows.length ∧ ∃ n, (q.untyped.deliver d rows).Reaches .recording before n after)
    {log : List Exchange} {a : α} {es : List E}
    (h : (q.untyped.fetch d limit >>= f).Run log (.ok a))
    (htaken : AnsweredBy (.taking q.take) [] log es) : q.Assembled log es ∧ fits es.length := by
  obtain ⟨rows, mid, hfetch, hrest⟩ := reaches_bind.mp (reaches_recording h [])
  obtain ⟨live, reported, rfl, -⟩ := NodeQuery.reaches_fetch_recording hfetch
  obtain ⟨hfits, n, hdeliver⟩ := hf rows _ a _ hrest
  obtain ⟨rest, ds, hlog, hdelivered, hds⟩ := delivered_of_deliver hdeliver
  have hall : deliveries log = rows.map (Delivery.row q.untyped.projection) ++ ds := by
    rw [← hdelivered, ← List.nil_append log, hlog, List.nil_append]
    rfl
  obtain ⟨hassembled, hlength⟩ :=
    assembled_of_taken hall hds (foldlM_of_answered htaken (horderly.smooth h))
  exact ⟨hassembled, hlength ▸ hfits⟩

/-! ## Refinement -/

/-- A query of entities refines a query of nodes whose caller takes rows as entities and attaches
neighbors to them. The two send the same statements and go on from the same replies; what the query
of entities has in the end is found in the entities that have been taken. -/
structure Refines {α β : Type} (q : EntityQuery E) (R : Except Error β → Except Error β → Prop)
    (typed : Program β) (untyped : Program α) (found : List E → Except Error β) : Prop where
  /-- Whatever the query of entities does, the query of nodes does. -/
  sound : ∀ log x, typed.Run log x → ∃ log' y es, untyped.Run log' y ∧
    AnsweredBy (.taking q.take) [] log' es ∧ log = exchanged log' ∧ R x (y.bind fun _ => found es)
  /-- Whatever the query of nodes does, the query of entities does. -/
  complete : ∀ log y es, untyped.Run log y → AnsweredBy (.taking q.take) [] log es →
    ∃ x, typed.Run (exchanged log) x ∧ R x (y.bind fun _ => found es)
  /-- If the query of nodes succeeds, the entities are those that it delivers. -/
  assembled : ∀ log a es, untyped.Run log (.ok a) → AnsweredBy (.taking q.take) [] log es →
    q.Assembled log es ∧ ∃ b, found es = .ok b

/-- It is enough that the query of entities does what is done with all that has been taken. -/
theorem refines_of_alike {α β : Type} {R : Except Error β → Except Error β → Prop}
    {typed : Program β} {untyped : Program α} {found : List E → Except Error β}
    (h : Alike R typed (collecting q.take [] untyped >>= fun r => Program.ofExcept (found r.2)))
    (hassembled : ∀ log a es, untyped.Run log (.ok a) → AnsweredBy (.taking q.take) [] log es →
      q.Assembled log es ∧ ∃ b, found es = .ok b) : q.Refines R typed untyped found := by
  refine ⟨fun log x hrun => ?_, fun log y es hrun htaken => ?_, hassembled⟩
  · obtain ⟨x', hcollected, hx⟩ := h.left log x hrun
    obtain ⟨log', y, es, huntyped, htaken, hlog, rfl⟩ := run_collected.mp hcollected
    exact ⟨log', y, es, huntyped, htaken, hlog, hx⟩
  · exact h.right _ _ (run_collected.mpr ⟨log, y, es, hrun, htaken, rfl, rfl⟩)

/-- A query of the first node that succeeds delivers a row. -/
theorem assembled_of_first {log : List Exchange} {es : List E}
    (h : (q.untyped.first d).Run log (.ok ())) (htaken : AnsweredBy (.taking q.take) [] log es) :
    q.Assembled log es ∧ 0 < es.length := by
  refine assembled_of_run q.untyped.first_orderly (0 < ·) ?_ h htaken
  intro rows before _ after hrest
  by_cases hempty : rows = []
  · rw [if_pos (by simp [hempty])] at hrest
    exact absurd hrest reaches_fail
  · rw [if_neg (by simpa using hempty)] at hrest
    exact ⟨List.length_pos_iff.mpr hempty, reaches_discard.mp hrest⟩

/-- A query of the only node that succeeds delivers one row. -/
theorem assembled_of_only {log : List Exchange} {es : List E}
    (h : (q.untyped.only d).Run log (.ok ())) (htaken : AnsweredBy (.taking q.take) [] log es) :
    q.Assembled log es ∧ es.length = 1 := by
  refine assembled_of_run q.untyped.only_orderly (· = 1) ?_ h htaken
  intro rows before _ after hrest
  match rows with
  | [] => exact absurd hrest reaches_fail
  | [row] => exact ⟨rfl, reaches_discard.mp hrest⟩
  | _ :: _ :: _ => exact absurd hrest reaches_fail

theorem exists_last {es : List E} (h : 0 < es.length) : ∃ e, q.last es = .ok e := by
  refine ⟨es.getLast (List.ne_nil_of_length_pos h), ?_⟩
  rw [last, List.getLast?_eq_getLast_of_ne_nil]

theorem all_refines (h : q.KeepsKeys) :
    q.Refines Eq (q.all d) (q.untyped.all d) Except.ok := by
  refine refines_of_alike ?_ fun log n es hrun htaken => ⟨?_, es, rfl⟩
  · rw [all_eq h, map_eq_pure_bind]
    exact alike_refl (fun _ => rfl) _
  · refine (assembled_of_run q.untyped.all_orderly (fun _ => True) ?_ hrun htaken).1
    exact fun rows before n after hdeliver => ⟨trivial, n, hdeliver⟩

theorem first_refines (h : q.KeepsKeys) :
    q.Refines Eq (q.first d) (q.untyped.first d) q.last := by
  refine refines_of_alike ?_ fun log _ es hrun htaken => ?_
  · rw [first_eq h]
    exact alike_refl (fun _ => rfl) _
  · obtain ⟨hassembled, hsome⟩ := assembled_of_first hrun htaken
    exact ⟨hassembled, exists_last hsome⟩

theorem only_refines (h : q.KeepsKeys) :
    q.Refines q.SameUnlessMany (q.only d) (q.untyped.only d) q.last := by
  refine refines_of_alike (only_alike h) fun log _ es hrun htaken => ?_
  obtain ⟨hassembled, hone⟩ := assembled_of_only hrun htaken
  exact ⟨hassembled, exists_last (by omega)⟩

end EntityQuery

/-- Queries of entities refine queries of nodes whose caller reads rows as entities, if the entities
have and keep the values by which neighbors are found. All three send the same statements in the
same order, whatever is replied, and succeed alike; only where more than one row is found for the
only entity, this may be reported as a row that is not an entity. The entities are those of the rows
that are delivered, and have exactly the neighbors that are delivered for their position. -/
theorem entity_query_refines {E : Type} {q : EntityQuery E} (h : q.KeepsKeys) (d : Dialect) :
    q.Refines Eq (q.all d) (q.untyped.all d) Except.ok ∧
    q.Refines Eq (q.first d) (q.untyped.first d) q.last ∧
    q.Refines q.SameUnlessMany (q.only d) (q.untyped.only d) q.last ∧
    ∀ log es, (q.untyped.only d).Run log (.ok ()) → AnsweredBy (.taking q.take) [] log es →
      ∃ e, es = [e] := by
  refine ⟨q.all_refines h, q.first_refines h, q.only_refines h, fun log es hrun htaken => ?_⟩
  exact List.length_eq_one_iff.mp (EntityQuery.assembled_of_only hrun htaken).2

/-! ## Accounts with their tokens -/

theorem Value.coerce_int {v w : Value} (h : v.coerce .int = .ok w) :
    w = .null ∨ ∃ i, w = .int i := by
  cases v with
  | null => exact .inl (Except.ok.inj h).symm
  | int i => exact .inr ⟨i, (Except.ok.inj h).symm⟩
  | bool b => exact .inr ⟨_, (Except.ok.inj h).symm⟩
  | float x =>
    rw [coerce] at h
    split at h
    case isTrue => exact .inr ⟨_, (Except.ok.inj h).symm⟩
    case isFalse => cases h
  | _ => cases h

theorem readColumns_cons {column : String} {columns : List String} {type : FieldType}
    {types : List FieldType} {v : Value} {vs row : List Value}
    (h : readColumns (column :: columns) (type :: types) (v :: vs) = .ok row) :
    ∃ w ws, row = w :: ws ∧ v.coerce type = .ok w ∧ readColumns columns types vs = .ok ws := by
  obtain ⟨w, hw, hrest⟩ := bind_eq_ok.mp h
  obtain ⟨ws, hws, ⟨⟩⟩ := bind_eq_ok.mp hrest
  refine ⟨w, ws, rfl, ?_, hws⟩
  rw [readColumn] at hw
  split at hw
  case h_1 u hu => exact hu.trans (congrArg Except.ok (Except.ok.inj hw))
  case h_2 => cases hw

/-- A reader that begins with a column has read it. -/
theorem read_of_run {α β : Type} [ColumnData α] {name : String} {f : α → RowReader β}
    {r : Record} {b : β} (h : ((RowReader.column α name >>= f).run r).run.1 = .ok b) :
    ∃ a, ColumnData.read (r.valueOf name) = .ok a ∧ ((f a).run (r.erase name)).run.1 = .ok b := by
  rw [RowReader.column, bind_assoc] at h
  change ((_ >>= f : RowReader β).run (r.erase name)).run.1 = .ok b at h
  split at h
  case h_1 a hread => exact ⟨a, hread, h⟩
  case h_2 => cases h

namespace Sample

theorem Account.id_of_row {columns : List String} {row : List Value} {a : Account}
    (h : Account.type.ofRow columns row = .ok a) :
    ColumnData.read ((Record.ofRow columns row).valueOf "id") = .ok a.id := by
  obtain ⟨id, hid, hrest⟩ := read_of_run h
  obtain ⟨email, -, hrest⟩ := read_of_run hrest
  obtain ⟨name, -, hdone⟩ := read_of_run hrest
  obtain rfl := Except.ok.inj hdone
  exact hid

/-- The load of the tokens of accounts. -/
def accountTokens : EdgeLoader (WithNeighbors Account) :=
  WithNeighbors.loader "tokens" Token.type (.oneToMany "tokens" "account_id")

/-- A query of accounts that loads their tokens twice. -/
def accountsWithTokens : EntityQuery (WithNeighbors Account) :=
  ((EntityQuery.ofType (WithNeighbors.type Account.type)).withEdge accountTokens).withEdge
    accountTokens

/-- An account that has been read from a row has the ID that stands there. -/
theorem Account.id_eq {stored row : List Value} {a : Account}
    (hread : readRow ["id", "email", "name"] (Account.type.scanTypes ["id", "email", "name"])
      stored = .ok row) (hrow : Account.type.ofRow ["id", "email", "name"] row = .ok a) :
    Account.value a "id" = row[0]?.getD .null := by
  have hid := Account.id_of_row hrow
  rw [readRow] at hread
  split at hread
  case isTrue => cases hread
  case isFalse hlength =>
    match stored with
    | [] => cases hlength (by decide)
    | v :: vs =>
      obtain ⟨w, ws, rfl, hw, -⟩ := readColumns_cons hread
      have hvalue : (Record.ofRow ["id", "email", "name"] (w :: ws)).valueOf "id" = w := by
        match ws with
        | [] => rfl
        | [_] => rfl
        | _ :: _ :: _ => rfl
      rw [hvalue] at hid
      show Value.int a.id = w
      rcases Value.coerce_int hw with rfl | ⟨i, rfl⟩
      · cases hid
      · exact congrArg Value.int (Except.ok.inj hid).symm

theorem accountsWithTokens_keepsKeys : accountsWithTokens.KeepsKeys := by
  have honly : ∀ l ∈ [accountTokens, accountTokens], l = accountTokens := by simp
  have hprojection : accountsWithTokens.untyped.projection = ["id", "email", "name"] := by decide
  refine ⟨⟨?_, ?_⟩, ?_⟩
  · intro l hl
    obtain rfl := honly l hl
    exact List.mem_cons_self
  · intro l hl stored row e hread hrow
    obtain rfl := honly l hl
    rw [hprojection] at hread hrow ⊢
    change (Account.type.ofRow ["id", "email", "name"] row >>= fun entity =>
      pure (WithNeighbors.mk entity [])) = .ok e at hrow
    obtain ⟨a, hentity, ⟨⟩⟩ := bind_eq_ok.mp hrow
    exact Account.id_eq hread hentity
  · have hkept : accountsWithTokens.KeepsKeyOf accountTokens accountTokens := fun child e => rfl
    exact List.pairwise_pair.mpr hkept

/-- Accounts keep their IDs when tokens are attached, so the query of accounts with their tokens is
a refinement. -/
theorem accounts_with_tokens_refine : accountsWithTokens.KeepsKeys ∧
    accountsWithTokens.Refines Eq (accountsWithTokens.all .sqlite)
      (accountsWithTokens.untyped.all .sqlite) Except.ok :=
  ⟨accountsWithTokens_keepsKeys, (entity_query_refines accountsWithTokens_keepsKeys .sqlite).1⟩

/-! ## What is not a refinement -/

/-- A load after which an account has the ID of its last token. -/
def renamingTokens : EdgeLoader Account :=
  .ofEdge (.oneToMany "tokens" "account_id") Token.type fun t a => { a with id := t.id }

/-- A query of accounts that loads tokens twice and takes their IDs. -/
def renamedAccounts : EntityQuery Account :=
  ((EntityQuery.ofType Account.type).withEdge renamingTokens).withEdge renamingTokens

theorem renamedAccounts_readsKeys : renamedAccounts.ReadsKeys := by
  have honly : ∀ l ∈ [renamingTokens, renamingTokens], l = renamingTokens := by simp
  have hprojection : renamedAccounts.untyped.projection = ["id", "email", "name"] := by decide
  constructor
  · intro l hl
    obtain rfl := honly l hl
    exact List.mem_cons_self
  · intro l hl stored row e hread hrow
    obtain rfl := honly l hl
    rw [hprojection] at hread hrow ⊢
    exact Account.id_eq hread hrow

/-- Without loads there is nothing to keep. -/
theorem accounts_keepsKeys : (EntityQuery.ofType Account.type).KeepsKeys := by
  refine ⟨⟨?_, ?_⟩, .nil⟩
  all_goals exact fun l hl => absurd hl List.not_mem_nil

/-- The selection of accounts, with a reply. -/
def accountRows (limit : Option Nat) (rows : List (List Value)) : Exchange :=
  ⟨.query false (.select { (Selector.ofTable "accounts").withColumns
    (["id", "email", "name"].map (Selector.ofTable "accounts").qualify) with limit }), true,
    (.done ⟨["id", "email", "name"], rows⟩ : Outcome Rows)⟩

/-- The selection of the tokens of an account, with a reply. -/
def tokensOf (account : Int64) (rows : List (List Value)) : Exchange :=
  ⟨.query false (.select (accountTokens.edgeLoad.selector "account_id" [.int account])), true,
    (.done ⟨["id", "body", "account_id"], rows⟩ : Outcome Rows)⟩

/-- A delivery that the caller accepts. -/
def accepted (d : Delivery) : Exchange := ⟨.deliver d, true, (.ok () : Except Error Unit)⟩

/-- The delivery of an account. -/
def acceptedAccount (row : List Value) : Exchange := accepted (.row ["id", "email", "name"] row)

/-- A caller of the query of nodes who accepts a row that is not an entity gets its neighbors, which
the query of entities does not ask for. Attaching neighbors can change the values by which the next
ones are found. And where more rows are reported than were asked for, the first entity is the
last. -/
theorem entity_query_differs :
    (accountsWithTokens.ReadsKeys ∧
      (accountsWithTokens.all .sqlite).Run [accountRows none [[.int 1, .null, .null]]]
        (.error (.validation "email" (.reading (.expected "string" "null")))) ∧
      (accountsWithTokens.untyped.all .sqlite).Run
        [accountRows none [[.int 1, .null, .null]], acceptedAccount [.int 1, .null, .null],
          tokensOf 1 [], tokensOf 1 []] (.ok 1)) ∧
    (renamedAccounts.ReadsKeys ∧
      (renamedAccounts.all .sqlite).Run
        [accountRows none [[.int 1, .string "a", .null]], tokensOf 1 [[.int 7, .null, .int 1]],
          tokensOf 7 []] (.ok [⟨7, "a", none⟩]) ∧
      (renamedAccounts.untyped.all .sqlite).Run
        [accountRows none [[.int 1, .string "a", .null]],
          acceptedAccount [.int 1, .string "a", .null], tokensOf 1 [[.int 7, .null, .int 1]],
          accepted (.neighbor (some (toString 0)) [0] ["id", "body", "account_id"]
            [.int 7, .null, .int 1]),
          tokensOf 1 []] (.ok 1)) ∧
    ((EntityQuery.ofType Account.type).KeepsKeys ∧
      ((EntityQuery.ofType Account.type).first .sqlite).Run
        [accountRows (some 1) [[.int 1, .string "a", .null], [.int 2, .string "b", .null]]]
        (.ok ⟨2, "b", none⟩) ∧
      ((EntityQuery.ofType Account.type).untyped.first .sqlite).Run
        [accountRows (some 1) [[.int 1, .string "a", .null], [.int 2, .string "b", .null]],
          acceptedAccount [.int 1, .string "a", .null],
          acceptedAccount [.int 2, .string "b", .null]] (.ok ())) := by
  refine ⟨⟨accountsWithTokens_keepsKeys.toReadsKeys, ?_, ?_⟩,
    ⟨renamedAccounts_readsKeys, ?_, ?_⟩, ⟨accounts_keepsKeys, ?_, ?_⟩⟩
  · apply Run.call
    exact .fail _
  · apply Run.call
    apply Run.call
    apply Run.call
    apply Run.call
    exact .done _
  · apply Run.call
    apply Run.call
    apply Run.call
    exact .done _
  · apply Run.call
    apply Run.call
    apply Run.call
    apply Run.call
    apply Run.call
    exact .done _
  · apply Run.call
    exact .done _
  · apply Run.call
    apply Run.call
    apply Run.call
    exact .done _

end Sample

end EntityGraph
