import EntityGraph.Graph.Load
import EntityGraph.Proofs.Graph.UpdateRuns
import EntityGraph.Proofs.Relational.NamedColumns

/-!
# Loading the neighbors of one node

What a load delivers for one parent, on a database: the rows of the neighbors' table that the edge
links to the parent, each once. The client finds parents by key, so it finds them all if the
database tells values apart as keys do.
-/

set_option autoImplicit false

namespace EntityGraph

open Program

variable {E : Engine} {keys : List (String × String)} {conn : Connection} {c : String}

/-! ## Keys -/

/-- The database takes two values for the same if and only if they have the same key. -/
def Engine.ByKey (E : Engine) : Prop :=
  ∀ v w, E.equal v w = true ↔ ∃ key, v.key? = some key ∧ w.key? = some key

theorem Value.exists_key {v : Value} (h : v.isNull = false) : ∃ key, v.key? = some key := by
  cases v with
  | null => cases h
  | _ => exact ⟨_, rfl⟩

theorem Value.isNull_of_key {v : Value} {key : Key} (h : v.key? = some key) : v.isNull = false := by
  cases v with
  | null => cases h
  | _ => rfl

namespace Engine.ByKey

theorem equal_self (hE : E.ByKey) {v : Value} (h : v.isNull = false) : E.equal v v = true := by
  obtain ⟨key, hkey⟩ := Value.exists_key h
  exact (hE v v).mpr ⟨key, hkey, hkey⟩

theorem key_eq (hE : E.ByKey) {v w : Value} (h : E.equal v w = true) : v.key? = w.key? := by
  obtain ⟨key, hv, hw⟩ := (hE v w).mp h
  rw [hv, hw]

end Engine.ByKey

/-- Values of a column that are read as a type keep their keys. -/
def Table.ReadsAs (t : Table) (c : String) (type : FieldType) : Prop :=
  ∀ r ∈ t.rows, ∀ w, (r c).coerce type = .ok w → w.key? = (r c).key?

/-! ## Positions by key -/

namespace KeyIndex

theorem find?_cons (l k : Key) (found : List Nat) (rest : KeyIndex) :
    find? ((l, found) :: rest) k = if k = l then some found else rest.find? k := by
  unfold find?
  rw [List.lookup_cons]
  by_cases h : k = l
  · simp [h]
  · simp [h, beq_false_of_ne h]

theorem find?_insert (index : KeyIndex) (key k : Key) (positions : List Nat) :
    (index.insert key positions).find? k =
      if k = key then some ((index.find? key).getD [] ++ positions) else index.find? k := by
  induction index with
  | nil =>
    rw [insert, find?_cons]
    rfl
  | cons entry rest ih =>
    obtain ⟨l, found⟩ := entry
    unfold insert
    split
    case isTrue hl =>
      subst hl
      rw [find?_cons, find?_cons, find?_cons, if_pos rfl, Option.getD_some]
      split <;> rfl
    case isFalse hl =>
      rw [find?_cons, find?_cons, find?_cons, if_neg (Ne.symm hl), ih]
      by_cases hk : k = l
      · rw [if_pos hk, if_pos hk, if_neg (hk ▸ hl)]
      · rw [if_neg hk, if_neg hk]

end KeyIndex

/-- The positions are all that of the only parent. -/
def IsOnlyParent (positions : List Nat) : Prop := positions ≠ [] ∧ ∀ i ∈ positions, i = 0

theorem IsOnlyParent.insertPositions {positions : List Nat} (h : IsOnlyParent positions) :
    positions.foldr insertPosition [] = [0] := by
  obtain ⟨hne, hall⟩ := h
  induction positions with
  | nil => exact absurd rfl hne
  | cons i rest ih =>
    obtain ⟨rfl, hrest⟩ := List.forall_mem_cons.mp hall
    cases rest with
    | nil => rfl
    | cons j rest =>
      rw [List.foldr_cons, ih (by simp) hrest]
      rfl

theorem IsOnlyParent.append {positions more : List Nat} (h : ∀ i ∈ positions, i = 0)
    (hmore : IsOnlyParent more) : IsOnlyParent (positions ++ more) :=
  ⟨by simp [hmore.1], fun i hi => (List.mem_append.mp hi).elim (h i) (hmore.2 i)⟩

/-- The values of a list have been added, all for the only parent. -/
structure Keyed.Holds (k : Keyed) (vs : List Value) : Prop where
  known : ∀ v ∈ k.values, v ∈ vs
  present : ∀ v ∈ k.values, v.isNull = false
  found : ∀ v ∈ vs, ∀ key, v.key? = some key →
    ∃ positions, k.index.find? key = some positions ∧ IsOnlyParent positions
  indexed : ∀ key positions, k.index.find? key = some positions →
    (∀ i ∈ positions, i = 0) ∧ ∃ w ∈ k.values, w.key? = some key

namespace Keyed

theorem holds_empty : Keyed.empty.Holds [] :=
  ⟨fun _ h => (List.not_mem_nil h).elim, fun _ h => (List.not_mem_nil h).elim,
    fun _ h => (List.not_mem_nil h).elim, fun _ _ h => (Option.some_ne_none _ h.symm).elim⟩

variable {k : Keyed} {vs : List Value} {v : Value} {positions : List Nat}

theorem Holds.add (h : k.Holds vs) (hpositions : IsOnlyParent positions) :
    (k.add v positions).Holds (vs ++ [v]) := by
  unfold Keyed.add
  cases hv : v.key? with
  | none =>
    refine ⟨fun w hw => List.mem_append_left _ (h.known w hw), h.present, fun w hw key hkey => ?_,
      h.indexed⟩
    rcases List.mem_append.mp hw with hw | hw
    · exact h.found w hw key hkey
    · obtain rfl := List.mem_singleton.mp hw
      rw [hv] at hkey
      cases hkey
  | some key =>
    have hzero : ∀ i ∈ (k.index.find? key).getD [], i = 0 := by
      cases hfind : k.index.find? key with
      | none => exact fun _ hi => (List.not_mem_nil hi).elim
      | some old => exact (h.indexed key old hfind).1
    refine ⟨fun w hw => ?_, fun w hw => ?_, fun w hw l hl => ?_, fun l found hfound => ?_⟩
    · dsimp only at hw
      split at hw
      case isTrue => exact List.mem_append_left _ (h.known w hw)
      case isFalse => exact List.mem_append.mpr ((List.mem_append.mp hw).imp_left (h.known w))
    · dsimp only at hw
      split at hw
      case isTrue => exact h.present w hw
      case isFalse =>
        rcases List.mem_append.mp hw with hw | hw
        · exact h.present w hw
        · obtain rfl := List.mem_singleton.mp hw
          exact Value.isNull_of_key hv
    · rw [KeyIndex.find?_insert]
      split
      case isTrue => exact ⟨_, rfl, .append hzero hpositions⟩
      case isFalse hne =>
        rcases List.mem_append.mp hw with hw | hw
        · exact h.found w hw l hl
        · obtain rfl := List.mem_singleton.mp hw
          exact absurd (Option.some.inj (hl.symm.trans hv)) hne
    · rw [KeyIndex.find?_insert] at hfound
      dsimp only
      split at hfound
      case isTrue hl =>
        obtain rfl := Option.some.inj hfound
        refine ⟨(IsOnlyParent.append hzero hpositions).2, ?_⟩
        subst hl
        split
        case isTrue hsome =>
          obtain ⟨old, hold⟩ := Option.isSome_iff_exists.mp hsome
          exact (h.indexed l old hold).2
        case isFalse => exact ⟨v, List.mem_append_right _ List.mem_cons_self, hv⟩
      case isFalse =>
        obtain ⟨hall, w, hw, hkey⟩ := h.indexed l found hfound
        refine ⟨hall, w, ?_, hkey⟩
        split
        case isTrue => exact hw
        case isFalse => exact List.mem_append_left _ hw

/-- The only parent is known under its own key. -/
theorem holds_ofValues (v : Value) : (ofValues [v]).Holds [v] :=
  holds_empty.add ⟨by simp, by simp⟩

/-- A value is among those of a list if it is among those that are kept. -/
theorem Holds.any_equal {E : Engine} (hE : E.ByKey) (h : k.Holds vs) (v : Value) :
    k.values.any (E.equal v) = vs.any (E.equal v) := by
  rw [Bool.eq_iff_iff, List.any_eq_true, List.any_eq_true]
  constructor
  · rintro ⟨w, hw, hequal⟩
    exact ⟨w, h.known w hw, hequal⟩
  · rintro ⟨w, hw, hequal⟩
    obtain ⟨key, hv, hkey⟩ := (hE v w).mp hequal
    obtain ⟨positions, hfind, -⟩ := h.found w hw key hkey
    obtain ⟨-, u, hu, hukey⟩ := h.indexed key positions hfind
    exact ⟨u, hu, (hE v u).mpr ⟨key, hv, hukey⟩⟩

end Keyed

/-! ## Selections -/

theorem reaches_select {q : Selector} {rows : Rows} {t t' : Session × List Delivery}
    (h : (conn.query (.select q)).Reaches (Answering.keeping (Call.Answers E keys)) t rows t') :
    t' = t ∧ rows.rows.Perm ((q.outRows E t.1.current []).map fun r => r.map (·.2)) := by
  obtain ⟨⟨hcarried, hreturns, -, hsaved⟩, hdelivered⟩ := reaches_query.mp h
  refine ⟨Prod.ext (Session.eq_of_current hcarried hsaved) ?_, hreturns⟩
  rw [hdelivered]
  exact List.append_nil _

/-- The rows that a selection of columns of one table reports. -/
theorem reaches_select_columns {table : String} {columns : List String} {f : String → String}
    {p : Option Predicate} {rows : Rows} {t t' : Session × List Delivery} (hne : columns ≠ [])
    (hcolumns : ∀ c ∈ columns, t.1.current.Denotes table (f c) c)
    (h : (conn.query (.select ⟨columns.map f, .table table none, [], p, [], none, none, false,
      false⟩)).Reaches (Answering.keeping (Call.Answers E keys)) t rows t') :
    t' = t ∧ ∃ found : List Tuple,
      found.Perm ((t.1.current (nameParts table)).rows.filter (t.1.current.meets E table p)) ∧
        rows.rows = found.map fun r => columns.map r := by
  obtain ⟨hsame, hperm⟩ := reaches_select h
  rw [outRows_columns hne hcolumns, List.map_map] at hperm
  obtain ⟨found, hfound, hrows⟩ := exists_perm_map hperm
  refine ⟨hsame, found, hfound, ?_⟩
  rw [hrows]
  simp

/-- A plain name is qualified with the name of the table. -/
theorem qualify_of_plain {table : String} (h : nameParts c = [c]) :
    (Selector.ofTable table).qualify c = Step.qualify table c := by
  unfold Selector.qualify
  split
  case isTrue hdot =>
    exfalso
    have hmem : '.' ∈ c.toList := by simpa using hdot
    obtain ⟨a, b, hab⟩ := List.append_of_mem hmem
    have hc : c = String.ofList a ++ "." ++ String.ofList b := by
      apply String.toList_inj.mp
      simp [hab]
    have hlength := congrArg List.length h
    rw [hc, nameParts_qualified, List.length_append] at hlength
    have ha := List.length_pos_iff.mpr (nameParts_ne_nil (String.ofList a))
    have hb := List.length_pos_iff.mpr (nameParts_ne_nil (String.ofList b))
    rw [List.length_singleton] at hlength
    omega
  case isFalse => rfl

theorem Table.HasColumn.denotes_qualify {db : Database} {table : String}
    (h : (db (nameParts table)).HasColumn c) :
    db.Denotes table ((Selector.ofTable table).qualify c) c := by
  rw [qualify_of_plain h.plain]
  exact h.denotes_qualified

/-- A row of a join table links a value in its one column to a value in its other one. -/
def Table.links (E : Engine) (t : Table) (own other : String) (v w : Value) : Bool :=
  t.rows.any fun l => E.equal (l own) v && E.equal w (l other)

/-! ## Rows of a load -/

theorem readColumn_eq_ok {column : String} {type : FieldType} {v w : Value} :
    readColumn column type v = .ok w ↔ v.coerce type = .ok w := by
  unfold readColumn
  cases v.coerce type <;> simp

theorem readColumns_value {columns : List String} {types : List FieldType} {r : Tuple}
    {values : List Value} (hlength : types.length = columns.length)
    (h : readColumns columns types (columns.map r) = .ok values) (hc : c ∈ columns) :
    ∃ type w, types[columns.idxOf c]? = some type ∧ values[columns.idxOf c]? = some w ∧
      (r c).coerce type = .ok w := by
  induction columns generalizing types values with
  | nil => cases hc
  | cons column columns ih =>
    cases types with
    | nil => cases hlength
    | cons type types =>
      obtain ⟨w, hw, hrest⟩ := bind_eq_ok.mp h
      obtain ⟨ws, hws, hvalues⟩ := bind_eq_ok.mp hrest
      obtain rfl := Except.ok.inj hvalues
      by_cases hcolumn : column = c
      · subst hcolumn
        rw [List.idxOf_cons_self]
        exact ⟨type, w, rfl, rfl, readColumn_eq_ok.mp hw⟩
      · rw [List.idxOf_cons_ne _ hcolumn]
        exact ih (Nat.succ.inj hlength) hws ((List.mem_cons.mp hc).resolve_left (Ne.symm hcolumn))

/-- A row that is read has in each column the value there, read as the type of the column. -/
theorem readRow_value {columns : List String} {types : List FieldType} {r : Tuple}
    {values : List Value} (h : readRow columns types (columns.map r) = .ok values)
    (hc : c ∈ columns) :
    ∃ type w, types[columns.idxOf c]? = some type ∧ values[columns.idxOf c]? = some w ∧
      (r c).coerce type = .ok w := by
  unfold readRow at h
  split at h
  case isTrue => cases h
  case isFalse hlength =>
    rw [List.length_map, not_not] at hlength
    exact readColumns_value hlength h hc

namespace EdgeLoad

variable {l : EdgeLoad} {column : String} {parents : Keyed} {vs : List Value}

theorem mem_columns (l : EdgeLoad) (column : String) : column ∈ l.columns column := by
  unfold columns
  dsimp only
  split
  case isTrue h => exact List.contains_iff_mem.mp h
  case isFalse => simp

/-- A row of the neighbors' table is delivered to the only parent, with the types of its columns
restored. -/
def Delivers (l : EdgeLoad) (column : String) (r : Tuple) (d : Delivery) : Prop :=
  ∃ types values, l.scan (l.columns column) = .ok types ∧
    readRow (l.columns column) types ((l.columns column).map r) = .ok values ∧
    d = .neighbor l.name [0] (l.columns column) values

/-- The column by which neighbors are found keeps its keys when it is read. -/
def ReadsKeys (l : EdgeLoad) (t : Table) (column : String) : Prop :=
  ∀ types type, l.scan (l.columns column) = .ok types →
    types[(l.columns column).idxOf column]? = some type → t.ReadsAs column type

variable {t t' : Session × List Delivery} {n : Nat} {r : Tuple} {types : List FieldType}

/-- A row whose value has the key of a known one is delivered. -/
theorem reaches_deliverRow (hp : parents.Holds vs) (hscan : l.scan (l.columns column) = .ok types)
    (hkey : ∃ v ∈ vs, ∃ key, v.key? = some key ∧ ∀ type w,
      types[(l.columns column).idxOf column]? = some type → (r column).coerce type = .ok w →
        w.key? = some key)
    (h : (l.deliverRow column types parents ((l.columns column).map r)).Reaches
      (Answering.keeping (Call.Answers E keys)) t n t') :
    n = 1 ∧ t'.1 = t.1 ∧ ∃ d, l.Delivers column r d ∧ t'.2 = t.2 ++ [d] := by
  obtain ⟨values, _, hlift, hrest⟩ := reaches_bind.mp h
  obtain ⟨hread, rfl⟩ := reaches_ofExcept.mp hlift
  obtain ⟨type, w, htype, hvalue, hcoerce⟩ := readRow_value hread (l.mem_columns column)
  obtain ⟨v, hv, key, hvkey, hwkey⟩ := hkey
  obtain ⟨positions, hfind, hpositions⟩ := hp.found v hv key hvkey
  have hknown : parents.find? (values[(l.columns column).idxOf column]?.getD .null) =
      some positions := by
    rw [hvalue, Option.getD_some, Keyed.find?, hwkey type w htype hcoerce]
    exact hfind
  dsimp only at hrest
  rw [hknown] at hrest
  obtain ⟨_, mid, hdeliver, hdone⟩ := reaches_bind.mp hrest
  obtain ⟨rfl, rfl⟩ := reaches_done.mp hdone
  obtain ⟨hsame, hdelivered⟩ := reaches_deliver.mp hdeliver
  rw [hpositions.insertPositions] at hdelivered
  exact ⟨rfl, hsame, _, ⟨types, values, hscan, hread, rfl⟩, hdelivered⟩

/-- All rows whose values have keys of known ones are delivered. -/
theorem reaches_deliverRows {rows : List Tuple} {counts : List Nat} (hp : parents.Holds vs)
    (hscan : l.scan (l.columns column) = .ok types)
    (hkey : ∀ r ∈ rows, ∃ v ∈ vs, ∃ key, v.key? = some key ∧ ∀ type w,
      types[(l.columns column).idxOf column]? = some type → (r column).coerce type = .ok w →
        w.key? = some key)
    (h : ((rows.map fun r => (l.columns column).map r).mapM
      (l.deliverRow column types parents)).Reaches (Answering.keeping (Call.Answers E keys)) t
        counts t') :
    counts = rows.map (fun _ => 1) ∧ t'.1 = t.1 ∧
      ∃ ds, List.Forall₂ (l.Delivers column) rows ds ∧ t'.2 = t.2 ++ ds := by
  induction rows generalizing t counts with
  | nil =>
    obtain ⟨rfl, rfl⟩ := reaches_done.mp h
    exact ⟨rfl, rfl, [], .nil, by simp⟩
  | cons r rows ih =>
    obtain ⟨hr, hrows⟩ := List.forall_mem_cons.mp hkey
    obtain ⟨count, counts, mid, rfl, hfirst, hrest⟩ := reaches_mapM_cons.mp h
    obtain ⟨rfl, hsame, d, hd, hdelivered⟩ := reaches_deliverRow hp hscan hr hfirst
    obtain ⟨rfl, hsame', ds, hds, hdelivered'⟩ := ih hrows hrest
    refine ⟨rfl, hsame'.trans hsame, d :: ds, .cons hd hds, ?_⟩
    rw [hdelivered', hdelivered, List.append_assoc]
    rfl

/-- A load of the neighbors whose column has a known value delivers them all. -/
theorem reaches_loadTargets {e : Edge} {goal : Node} {scan : Scan} (hE : E.ByKey)
    (hl : l = ofEdge e goal scan) (hp : parents.Holds vs)
    (hcolumns : ∀ c ∈ l.columns column, (t.1.current (nameParts goal.table)).HasColumn c)
    (hreads : l.ReadsKeys (t.1.current (nameParts goal.table)) column)
    (h : (l.loadTargets conn column parents).Reaches (Answering.keeping (Call.Answers E keys)) t n
      t') :
    t'.1 = t.1 ∧ ∃ rows ds, rows.Perm ((t.1.current (nameParts goal.table)).rows.filter fun r =>
      vs.any (E.equal (r column))) ∧ List.Forall₂ (l.Delivers column) rows ds ∧
        t'.2 = t.2 ++ ds ∧ n = rows.length := by
  subst hl
  obtain ⟨reported, mid, hquery, hrest⟩ := reaches_bind.mp h
  have hne : (ofEdge e goal scan).columns column ≠ [] := List.ne_nil_of_mem (mem_columns _ column)
  obtain ⟨rfl, found, hfound, hrows⟩ := reaches_select_columns hne
    (fun c hc => (hcolumns c hc).denotes_qualify) hquery
  have hcolumn := (hcolumns column (mem_columns _ column)).denotes_qualify
  have hmeets : ∀ r, mid.1.current.meets E goal.table
      (some (.oneOf ((Selector.ofTable goal.table).qualify column) parents.values)) r =
        vs.any (E.equal (r column)) := by
    intro r
    rw [meets_oneOf_of_present hcolumn.knows hp.present, hcolumn.column, hp.any_equal hE]
  have hfound : found.Perm ((mid.1.current (nameParts goal.table)).rows.filter fun r =>
      vs.any (E.equal (r column))) := by
    rw [← funext hmeets]
    exact hfound
  split at hrest
  case isTrue hempty =>
    obtain ⟨rfl, rfl⟩ := reaches_done.mp hrest
    have hnone : found = [] := by
      rw [hrows, List.isEmpty_iff, List.map_eq_nil_iff] at hempty
      exact hempty
    subst hnone
    exact ⟨rfl, [], [], hfound, .nil, by simp, rfl⟩
  case isFalse =>
    obtain ⟨types, _, htypes, hread⟩ := reaches_bind.mp hrest
    obtain ⟨hscan, rfl⟩ := reaches_ofExcept.mp htypes
    obtain ⟨counts, _, hdeliver, hdone⟩ := reaches_bind.mp hread
    obtain ⟨rfl, rfl⟩ := reaches_done.mp hdone
    rw [hrows] at hdeliver
    have hkey : ∀ r ∈ found, ∃ v ∈ vs, ∃ key, v.key? = some key ∧ ∀ type w,
        types[((ofEdge e goal scan).columns column).idxOf column]? = some type →
          (r column).coerce type = .ok w → w.key? = some key := by
      intro r hr
      obtain ⟨hstored, hany⟩ := List.mem_filter.mp (hfound.mem_iff.mp hr)
      obtain ⟨v, hv, hequal⟩ := List.any_eq_true.mp hany
      obtain ⟨key, hrkey, hvkey⟩ := (hE _ _).mp hequal
      refine ⟨v, hv, key, hvkey, fun type w htype hcoerce => ?_⟩
      rw [hreads types type hscan htype r hstored w hcoerce, hrkey]
    obtain ⟨rfl, hsame, ds, hds, hdelivered⟩ := reaches_deliverRows hp hscan hkey hdeliver
    refine ⟨hsame, found, ds, hfound, hds, hdelivered, ?_⟩
    have hsum : ∀ (l : List Tuple) (k : Nat),
        (l.map fun _ => 1).foldl Nat.add k = k + l.length := by
      intro l
      induction l with
      | nil => simp
      | cons x l ih =>
        intro k
        rw [List.map_cons, List.foldl_cons, ih, List.length_cons]
        show k + 1 + l.length = _
        omega
    rw [hsum, Nat.zero_add]

/-- What the load of an edge has read and delivered: the neighbors that meet a condition. -/
def Loads (l : EdgeLoad) (column : String) (t t' : Session × List Delivery) (n : Nat)
    (p : Tuple → Bool) : Prop :=
  t'.1 = t.1 ∧ ∃ rows ds,
    rows.Perm ((t.1.current (nameParts l.target.table)).rows.filter p) ∧
      List.Forall₂ (l.Delivers column) rows ds ∧ t'.2 = t.2 ++ ds ∧ n = rows.length

/-- What a load does once there are keys. -/
def loadFor (d : Dialect) (l : EdgeLoad) (parents : Keyed) : Program Nat :=
  if l.edge.isManyToMany then
    Program.ofExcept l.edge.joinColumns >>= fun columns =>
      (⟨d, false⟩ : Connection).query (.select (l.joinSelector columns.1 columns.2 parents)) >>=
        fun rows =>
          let owners := rows.rows.foldl parents.follow .empty
          if owners.values.isEmpty then pure 0
          else l.loadTargets ⟨d, false⟩ l.target.id.column owners
  else if l.edge.writesOwnColumn then l.loadTargets ⟨d, false⟩ l.target.id.column parents
  else Program.ofExcept l.edge.foreignKey >>= fun fk => l.loadTargets ⟨d, false⟩ fk parents

theorem run_eq_loadFor {keys : List Value} (h : (Keyed.ofValues keys).values ≠ [])
    (d : Dialect) (l : EdgeLoad) : l.run d keys = l.loadFor d (.ofValues keys) := by
  rw [run, if_neg (mt List.isEmpty_iff.mp h), Connection.run, if_neg (by simp)]
  rfl

section Run

variable {e : Edge} {goal : Node} {scan : Scan} {d : Dialect} {k : Value}

theorem values_ne_nil (hk : k.isNull = false) : (Keyed.ofValues [k]).values ≠ [] := by
  obtain ⟨key, hkey⟩ := Value.exists_key hk
  have hp := Keyed.holds_ofValues k
  obtain ⟨positions, hfind, -⟩ := hp.found k List.mem_cons_self key hkey
  obtain ⟨-, w, hw, -⟩ := hp.indexed key positions hfind
  exact List.ne_nil_of_mem hw

theorem loads_of_loadTargets {column : String} (hE : E.ByKey)
    (hcolumns : ∀ c ∈ (ofEdge e goal scan).columns column,
      (t.1.current (nameParts goal.table)).HasColumn c)
    (hreads : (ofEdge e goal scan).ReadsKeys (t.1.current (nameParts goal.table)) column)
    (h : ((ofEdge e goal scan).loadTargets conn column (.ofValues [k])).Reaches
      (Answering.keeping (Call.Answers E keys)) t n t') :
    (ofEdge e goal scan).Loads column t t' n fun r => E.equal (r column) k := by
  have hloads := reaches_loadTargets hE rfl (Keyed.holds_ofValues k) hcolumns hreads h
  simp only [List.any_cons, List.any_nil, Bool.or_false] at hloads
  exact hloads

/-- A load over an edge whose foreign key the parent has finds the row with that ID. -/
theorem reaches_run_of_own (hE : E.ByKey) (hk : k.isNull = false)
    (hmany : e.isManyToMany = false) (hown : e.writesOwnColumn = true)
    (hcolumns : ∀ c ∈ (ofEdge e goal scan).columns goal.id.column,
      (t.1.current (nameParts goal.table)).HasColumn c)
    (hreads : (ofEdge e goal scan).ReadsKeys (t.1.current (nameParts goal.table)) goal.id.column)
    (h : ((ofEdge e goal scan).run d [k]).Reaches (Answering.keeping (Call.Answers E keys)) t n
      t') :
    (ofEdge e goal scan).Loads goal.id.column t t' n fun r => E.equal (r goal.id.column) k := by
  have hmany : (ofEdge e goal scan).edge.isManyToMany = false := hmany
  have hown : (ofEdge e goal scan).edge.writesOwnColumn = true := hown
  rw [run_eq_loadFor (values_ne_nil hk), loadFor, hmany, hown] at h
  exact loads_of_loadTargets hE hcolumns hreads h

/-- A load over an edge whose foreign key the neighbors have finds the rows that refer to the
parent. -/
theorem reaches_run_of_foreignKey (hE : E.ByKey) (hk : k.isNull = false)
    (hmany : e.isManyToMany = false) (hown : e.writesOwnColumn = false) (hfk : e.columns = [c])
    (hcolumns : ∀ c' ∈ (ofEdge e goal scan).columns c,
      (t.1.current (nameParts goal.table)).HasColumn c')
    (hreads : (ofEdge e goal scan).ReadsKeys (t.1.current (nameParts goal.table)) c)
    (h : ((ofEdge e goal scan).run d [k]).Reaches (Answering.keeping (Call.Answers E keys)) t n
      t') :
    (ofEdge e goal scan).Loads c t t' n fun r => E.equal (r c) k := by
  have hmany : (ofEdge e goal scan).edge.isManyToMany = false := hmany
  have hown : (ofEdge e goal scan).edge.writesOwnColumn = false := hown
  rw [run_eq_loadFor (values_ne_nil hk), loadFor, hmany, hown] at h
  obtain ⟨fk, _, hlift, hload⟩ := reaches_bind.mp h
  obtain ⟨hcolumn, rfl⟩ := reaches_ofExcept.mp hlift
  obtain rfl : c = fk := by simpa using hfk.symm.trans (Edge.foreignKey_eq_ok.mp hcolumn)
  exact loads_of_loadTargets hE hcolumns hreads hload

/-- The rows of a join table that belong to the only parent make their other ends known. -/
theorem holds_follow (own other : String) {found : List Tuple}
    (hfound : ∀ l ∈ found, k.key? = (l own).key?) (hk : k.isNull = false) {owners : Keyed}
    (h : owners.Holds vs) :
    ((found.map fun l => [own, other].map l).foldl (Keyed.ofValues [k]).follow owners).Holds
      (vs ++ found.map fun l => l other) := by
  induction found generalizing owners vs with
  | nil => simpa using h
  | cons l found ih =>
    obtain ⟨hl, hrest⟩ := List.forall_mem_cons.mp hfound
    obtain ⟨key, hkey⟩ := Value.exists_key hk
    obtain ⟨positions, hfind, hpositions⟩ :=
      (Keyed.holds_ofValues k).found k List.mem_cons_self key hkey
    have hknown : (Keyed.ofValues [k]).find? (l own) = some positions := by
      rw [Keyed.find?, ← hl, hkey]
      exact hfind
    have hstep : (Keyed.ofValues [k]).follow owners ([own, other].map l) =
        owners.add (l other) positions := by
      simp only [Keyed.follow, List.map_cons, hknown]
    rw [List.map_cons, List.foldl_cons, hstep, List.map_cons, List.append_cons]
    exact ih hrest (h.add hpositions)

/-- A load over a join table finds the rows that it links to the parent. -/
theorem reaches_run_of_joinTable (hE : E.ByKey) (hk : k.isNull = false)
    (hmany : e.isManyToMany = true) {own other : String} (hjoin : e.joinColumns = .ok (own, other))
    (hown : (t.1.current (nameParts e.table)).HasColumn own)
    (hother : (t.1.current (nameParts e.table)).HasColumn other)
    (hcolumns : ∀ c ∈ (ofEdge e goal scan).columns goal.id.column,
      (t.1.current (nameParts goal.table)).HasColumn c)
    (hreads : (ofEdge e goal scan).ReadsKeys (t.1.current (nameParts goal.table)) goal.id.column)
    (h : ((ofEdge e goal scan).run d [k]).Reaches (Answering.keeping (Call.Answers E keys)) t n
      t') :
    (ofEdge e goal scan).Loads goal.id.column t t' n fun r =>
      (t.1.current (nameParts e.table)).links E own other k (r goal.id.column) := by
  have hedge : (ofEdge e goal scan).edge.isManyToMany = true := hmany
  rw [run_eq_loadFor (values_ne_nil hk), loadFor, if_pos hedge] at h
  obtain ⟨columns, start, hlift, hrest⟩ := reaches_bind.mp h
  obtain ⟨hcolumn, rfl⟩ := reaches_ofExcept.mp hlift
  obtain rfl : (own, other) = columns := Except.ok.inj (hjoin.symm.trans hcolumn)
  obtain ⟨reported, mid, hquery, hload⟩ := reaches_bind.mp hrest
  have hends : ∀ c ∈ [own, other], start.1.current.Denotes e.table (id c) c := by
    simp only [List.forall_mem_cons, List.not_mem_nil, false_implies, implies_true, and_true]
    exact ⟨hown.denotes, hother.denotes⟩
  obtain ⟨rfl, found, hfound, hrows⟩ := reaches_select_columns (List.cons_ne_nil own [other])
    hends hquery
  have hp := Keyed.holds_ofValues k
  have hmeets : ∀ l, mid.1.current.meets E e.table
      (some (.oneOf own (Keyed.ofValues [k]).values)) l = E.equal (l own) k := by
    intro l
    rw [meets_oneOf_of_present hown.knows hp.present, columnName_plain hown.plain,
      hp.any_equal hE, List.any_cons, List.any_nil, Bool.or_false]
  have hmem : ∀ l, l ∈ found ↔
      l ∈ (mid.1.current (nameParts e.table)).rows ∧ E.equal (l own) k = true := by
    intro l
    rw [hfound.mem_iff, ← hmeets l]
    exact List.mem_filter
  have howners := holds_follow own other
    (fun l hl => (hE.key_eq ((hmem l).mp hl).2).symm) hk Keyed.holds_empty
  rw [← hrows, List.nil_append] at howners
  have hlinks : ∀ v, (found.map fun l => l other).any (E.equal v) =
      (mid.1.current (nameParts e.table)).links E own other k v := by
    intro v
    rw [Bool.eq_iff_iff, Table.links, List.any_map, List.any_eq_true, List.any_eq_true]
    refine exists_congr fun l => ?_
    rw [hmem, and_assoc, Bool.and_eq_true]
    rfl
  dsimp only at hload
  split at hload
  case isTrue hempty =>
    obtain ⟨rfl, hsame⟩ := reaches_done.mp hload
    refine ⟨congrArg Prod.fst hsame, [], [], ?_, .nil, by simp [hsame], rfl⟩
    have hnone : ∀ r : Tuple, (mid.1.current (nameParts e.table)).links E own other k
        (r goal.id.column) = false := by
      intro r
      rw [← hlinks, ← howners.any_equal hE, List.isEmpty_iff.mp hempty]
      rfl
    simp only [hnone, List.filter_false]
    exact .refl []
  case isFalse =>
    obtain ⟨hsame, rows, ds, hperm, hds⟩ := reaches_loadTargets hE rfl howners hcolumns hreads hload
    simp only [hlinks] at hperm
    exact ⟨hsame, rows, ds, hperm, hds⟩

end Run

end EdgeLoad

end EntityGraph
