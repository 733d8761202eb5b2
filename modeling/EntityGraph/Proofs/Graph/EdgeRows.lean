import EntityGraph.Graph.Update
import EntityGraph.Proofs.Graph.OwnRow
import EntityGraph.Proofs.Relational.Rows

/-!
# What the statements of an update make of single rows

The UPDATE of a node's own row, the statements that clear edges and the ones that link targets, each
as a function on rows: which columns it writes, in which rows, and with what.
-/

set_option autoImplicit false

namespace EntityGraph

variable {E : Engine} {db db' : Database} {name : List String} {c : String}

/-! ## Clearing edges -/

theorem isLocal_oneOf (column : String) (vs : List Value) :
    (Predicate.oneOf column vs).IsLocal E := by
  intro db db' env
  unfold Predicate.oneOf
  split
  case h_1 v =>
    unfold Predicate.eq
    cases v with
    | null => rw [Predicate.truth, Predicate.truth]
    | _ => rw [Predicate.truth, Predicate.truth] <;> simp
  case h_2 => rw [Predicate.truth, Predicate.truth]

theorem isLocal_bothOneOf (column other : String) (vs ws : List Value) :
    (Predicate.bothOneOf column vs other ws).IsLocal E :=
  (isLocal_oneOf column vs).and (isLocal_oneOf other ws)

/-- The condition that a column has one of some values is met if it does. The absent value alone is
compared in another way than several values are: the condition on it is met where there is none. -/
theorem meets_oneOf_iff {table column : String} {r : Tuple} (h : db.knows table column = true)
    (vs : List Value) :
    db.meets E table (some (.oneOf column vs)) r = true ↔
      vs.any (E.equal (r (columnName column))) = true ∨
        vs = [.null] ∧ (r (columnName column)).isNull = true := by
  unfold Predicate.oneOf
  split
  case h_1 v =>
    rw [meets_eq h, List.any_cons, List.any_nil, Bool.or_false, Engine.picks]
    split
    case isTrue hv =>
      obtain rfl := Value.eq_null_of_isNull hv
      simp [Engine.equal_null _ hv]
    case isFalse hv =>
      have hsingle : [v] ≠ [.null] := by
        rintro hnull
        obtain rfl := List.singleton_inj.mp hnull
        exact hv rfl
      simp [hsingle]
  case h_2 hsingle =>
    rw [Database.meets, conditionTruth, Predicate.truth, lookup_row h, Engine.isIn_isYes]
    exact (or_iff_left fun hnull => hsingle _ hnull.1).symm

/-- Where a column has a value, the condition that it has one of some values is met if it does. -/
theorem meets_oneOf {table column : String} {r : Tuple} (h : db.knows table column = true)
    (hr : (r (columnName column)).isNull = false) (vs : List Value) :
    db.meets E table (some (.oneOf column vs)) r = vs.any (E.equal (r (columnName column))) := by
  rw [Bool.eq_iff_iff, meets_oneOf_iff h]
  exact or_iff_left fun hnull => by simp [hr] at hnull

/-- The condition that a column has one of some values that are there is met if it does. -/
theorem meets_oneOf_of_present {table column : String} {r : Tuple}
    (h : db.knows table column = true) {vs : List Value} (hvs : ∀ v ∈ vs, v.isNull = false) :
    db.meets E table (some (.oneOf column vs)) r = vs.any (E.equal (r (columnName column))) := by
  rw [Bool.eq_iff_iff, meets_oneOf_iff h]
  refine or_iff_left fun hnull => ?_
  have habsent := hvs .null (hnull.1 ▸ List.mem_cons_self)
  cases habsent

namespace JoinTable

theorem isLocal_clearedRows {ids : List Value} {e : Edge} {ps : List Predicate}
    (h : clearedRows ids e = .ok ps) : ∀ p ∈ ps, p.IsLocal E := by
  obtain ⟨⟨own, other⟩, -, hrows⟩ := bind_eq_ok.mp h
  intro p hp
  dsimp only at hrows
  split at hrows
  case isTrue =>
    obtain rfl := Except.ok.inj hrows
    rcases List.mem_cons.mp hp with rfl | hp
    · exact isLocal_oneOf _ _
    · split at hp
      case isTrue =>
        obtain rfl := List.mem_singleton.mp hp
        exact isLocal_oneOf _ _
      case isFalse => cases hp
  case isFalse =>
    obtain rfl := Except.ok.inj hrows
    rcases List.mem_cons.mp hp with rfl | hp
    · exact isLocal_bothOneOf _ _ _ _
    · split at hp
      case isTrue =>
        obtain rfl := List.mem_singleton.mp hp
        exact isLocal_bothOneOf _ _ _ _
      case isFalse => cases hp

theorem unlinks_clearing {table : String} {ids : List Value} {edges : List Edge} {x : Delete}
    (h : clearing table ids edges = .ok x) : (Command.delete x).Unlinks E db name := by
  obtain ⟨ps, hps, hx⟩ := bind_eq_ok.mp h
  obtain rfl := Except.ok.inj hx
  refine unlinks_delete (p := .disj ps.flatten) (isLocal_disj fun p hp => ?_) rfl
  obtain ⟨group, hgroup, hp⟩ := List.mem_flatten.mp hp
  obtain ⟨e, -, hrows⟩ := exists_of_forall₂ (mapM_eq_ok.mp hps).flip hgroup
  exact isLocal_clearedRows hrows p hp

/-- The DELETEs that clear edges of many to many of some nodes. -/
def clearings (ids : List Value) (edges : List Edge) : List Command :=
  (groupByName Edge.table (edges.filter Edge.isManyToMany)).filterMap fun g =>
    (clearing g.1 ids g.2).toOption.map .delete

end JoinTable

namespace ForeignKey

/-- The rows that clearing an edge of some nodes reaches. -/
def clearedRows (ids : List Value) (e : Edge) (fk : String) : Predicate :=
  if e.target.nodes.isEmpty then .oneOf fk ids
  else .bothOneOf e.target.id.column e.target.nodes fk ids

theorem clearing_eq_ok {ids : List Value} {e : Edge} {u : Update} :
    clearing ids e = .ok u ↔ ∃ fk, e.columns = [fk] ∧
      u = { table := e.table, nulls := [fk], sets := [],
            predicate := some (clearedRows ids e fk) } := by
  unfold clearing
  rw [bind_eq_ok]
  constructor
  · rintro ⟨fk, hfk, ⟨⟩⟩
    exact ⟨fk, Edge.foreignKey_eq_ok.mp hfk, rfl⟩
  · rintro ⟨fk, hfk, rfl⟩
    exact ⟨fk, Edge.foreignKey_eq_ok.mpr hfk, rfl⟩

theorem unlinks_clearing {ids : List Value} {e : Edge} {u : Update} (h : clearing ids e = .ok u) :
    (Command.update u).Unlinks E db name := by
  obtain ⟨fk, -, rfl⟩ := clearing_eq_ok.mp h
  refine unlinks_update (p := clearedRows ids e fk) ?_ rfl fun r k => ?_
  · unfold clearedRows
    split
    case isTrue => exact isLocal_oneOf _ _
    case isFalse => exact isLocal_bothOneOf _ _ _ _
  · have hassigned : Update.assigned E
        { table := e.table, nulls := [fk], sets := [],
          predicate := some (clearedRows ids e fk) } r =
        Function.update r (columnName fk) .null := rfl
    rw [hassigned]
    by_cases hk : k = columnName fk
    · rw [hk, Function.update_self]
      exact .inr rfl
    · exact .inl (Function.update_of_ne hk _ _)

/-- What clearing an edge makes of a row of a table. -/
theorem clearing_rowIn {table fk : String} {ids : List Value} {e : Edge} {w : Update}
    (hw : clearing ids e = .ok w) (hfk : e.columns = [fk]) (r : Tuple) :
    w.rowIn E db (nameParts table) r =
      if e.table = table ∧ db.meets E e.table (some (clearedRows ids e fk)) r = true then
        Function.update r (columnName fk) .null
      else r := by
  obtain ⟨fk', hfk', rfl⟩ := clearing_eq_ok.mp hw
  obtain rfl : fk = fk' := by simpa using hfk.symm.trans hfk'
  have hassigned : Update.assigned E
      { table := e.table, nulls := [fk], sets := [], predicate := some (clearedRows ids e fk) } r =
      Function.update r (columnName fk) .null := rfl
  rw [Update.rowIn, Update.rowAfter, hassigned]
  by_cases htable : e.table = table
  · rw [if_pos (congrArg nameParts htable)]
    exact if_congr (and_iff_right htable).symm rfl rfl
  · rw [if_neg fun hname => htable (nameParts_injective hname), if_neg fun h => htable h.1]

/-- Clearing all edges of a node takes the node from every row. -/
theorem not_equal_of_clearing {id : Value} {e : Edge} {u : Update}
    (h : clearing [id] e = .ok u) (hcolumns : e.columns = [c]) (hall : e.target.nodes = [])
    (hcolumn : (db (nameParts e.table)).HasColumn c) (r : Tuple) :
    E.equal (u.rowIn E db (nameParts e.table) r c) id = false := by
  have hmeets : db.meets E e.table (some (clearedRows [id] e c)) r = E.picks (r c) id := by
    have heq : clearedRows [id] e c = .eq c id := by
      rw [clearedRows, hall]
      rfl
    rw [heq, meets_eq hcolumn.knows, columnName_plain hcolumn.plain]
  rw [clearing_rowIn h hcolumns, hmeets, columnName_plain hcolumn.plain]
  split
  case isTrue =>
    rw [Function.update_self, Engine.equal_comm]
    exact Engine.equal_null _ rfl
  case isFalse hspared =>
    rw [Bool.eq_false_iff]
    intro hequal
    exact hspared ⟨rfl, Engine.picks_of_equal hequal⟩

/-- The UPDATEs that clear foreign keys that refer to some nodes. -/
def clearings (ids : List Value) (edges : List Edge) : List Command :=
  (edges.filter Edge.isForeignKeyEdge).filterMap fun e => (clearing ids e).toOption.map .update

end ForeignKey

namespace ExternalEdges

/-- The statements that clear edges of some nodes which are stored outside their rows. -/
def clearings (ids : List Value) (edges : List Edge) : List Command :=
  JoinTable.clearings ids edges ++ ForeignKey.clearings ids edges

theorem unlinks_clearings {ids : List Value} {edges : List Edge} :
    ∀ c ∈ clearings ids edges, c.Unlinks E db name := by
  have hok : ∀ {α : Type} {x : Except Error α} {a : α}, x.toOption = some a → x = .ok a := by
    rintro α (_ | _) a ⟨⟩
    rfl
  intro c hc
  rcases List.mem_append.mp hc with hc | hc
  · obtain ⟨g, -, hg⟩ := List.mem_filterMap.mp hc
    obtain ⟨x, hx, rfl⟩ := Option.map_eq_some_iff.mp hg
    exact JoinTable.unlinks_clearing (hok hx)
  · obtain ⟨e, -, he⟩ := List.mem_filterMap.mp hc
    obtain ⟨u, hu, rfl⟩ := Option.map_eq_some_iff.mp he
    exact ForeignKey.unlinks_clearing (hok hu)

end ExternalEdges

/-! ## Linking foreign keys -/

namespace ForeignKey

variable {id target : Value} {fk : String} {e : Edge}

/-- The rows that linking a target reaches: it is the target's row, and not linked. -/
theorem linking_meets (ht : e.target.nodes = [target])
    (hnames : ∀ n ∈ (linking id fk e).names, db.knows e.table n = true) (r : Tuple) :
    db.meets E e.table (linking id fk e).predicate r =
      (E.picks (r (columnName e.target.id.column)) target && (r (columnName fk)).isNull) := by
  have hfk : db.knows e.table fk = true :=
    hnames fk (by simp [Update.names, linking, Update.filter, Update.set, Update.ofTable])
  have hpredicate : (linking id fk e).predicate =
      some (Predicate.conjoin (some (.eq e.target.id.column target)) (.isNull fk)) := by
    simp [linking, Update.filter, Update.set, Update.ofTable, Predicate.conjoin, ht,
      Predicate.oneOf]
  have hid : db.knows e.table e.target.id.column = true := by
    refine hnames _ ?_
    rw [Update.names, hpredicate]
    simp [Predicate.conjoin, Predicate.and, Predicate.eq, Predicate.columns, Predicate.columnsOf]
  rw [hpredicate, meets_conjoin, meets_eq hid, meets_isNull hfk]

/-- What linking a target makes of a row. -/
theorem linking_rowIn (ht : e.target.nodes = [target])
    (hnames : ∀ n ∈ (linking id fk e).names, db.knows e.table n = true) (r : Tuple) :
    (linking id fk e).rowIn E db (nameParts e.table) r =
      if E.picks (r (columnName e.target.id.column)) target && (r (columnName fk)).isNull then
        Function.update r (columnName fk) id
      else r := by
  have hmeets := linking_meets (E := E) ht hnames r
  have hassigned : (linking id fk e).assigned E r = Function.update r (columnName fk) id := rfl
  have htable : nameParts (linking id fk e).table = nameParts e.table := rfl
  rw [Update.rowIn, if_pos htable, Update.rowAfter, hassigned]
  exact ite_congr (congrArg (· = true) hmeets) (fun _ => rfl) fun _ => rfl

/-- Linking targets only writes foreign keys that are absent. -/
theorem linking_rowIn_keeps (hnames : ∀ n ∈ (linking id fk e).names, db.knows e.table n = true)
    (r : Tuple) {k : String} (hk : k ≠ columnName fk ∨ (r k).isNull = false) :
    (linking id fk e).rowIn E db name r k = r k := by
  have hfk : db.knows e.table fk = true :=
    hnames fk (by simp [Update.names, linking, Update.filter, Update.set, Update.ofTable])
  have hassigned : (linking id fk e).assigned E r = Function.update r (columnName fk) id := rfl
  unfold Update.rowIn Update.rowAfter
  rw [hassigned]
  split
  case isFalse => rfl
  case isTrue htable =>
    split
    case isFalse => rfl
    case isTrue hmeets =>
      rcases hk with hk | hk
      · exact Function.update_of_ne hk _ _
      · by_cases hkfk : k = columnName fk
        · exfalso
          have hnull : db.meets E e.table (some (.isNull fk)) r = true := by
            have hconjoin : db.meets E e.table (some (Predicate.conjoin
                (some (.oneOf e.target.id.column e.target.nodes)) (.isNull fk))) r = true := hmeets
            rw [meets_conjoin, Bool.and_eq_true_iff] at hconjoin
            exact hconjoin.2
          rw [meets_isNull hfk, ← hkfk, hk] at hnull
          cases hnull
        · exact Function.update_of_ne hkfk _ _

end ForeignKey

/-! ## The node's own row -/

namespace Update

theorem foldl_setNull (columns : List String) (u : Update) :
    (columns.foldl setNull u).table = u.table ∧ (columns.foldl setNull u).sets = u.sets ∧
      (columns.foldl setNull u).predicate = u.predicate := by
  induction columns generalizing u with
  | nil => exact ⟨rfl, rfl, rfl⟩
  | cons column columns ih =>
    have hset : (u.setNull column).table = u.table ∧ (u.setNull column).sets = u.sets ∧
        (u.setNull column).predicate = u.predicate := by
      unfold setNull
      split <;> exact ⟨rfl, rfl, rfl⟩
    obtain ⟨htable, hsets, hpredicate⟩ := ih (u.setNull column)
    exact ⟨htable.trans hset.1, hsets.trans hset.2.1, hpredicate.trans hset.2.2⟩

theorem mem_foldl_setNull {columns : List String} {w : Update} :
    c ∈ (columns.foldl setNull w).nulls ↔ c ∈ w.nulls ∨ c ∈ columns := by
  induction columns generalizing w with
  | nil => simp
  | cons column columns ih =>
    have hone : c ∈ (w.setNull column).nulls ↔ c ∈ w.nulls ∨ c = column := by
      unfold setNull
      split
      case isTrue hthere =>
        refine (or_iff_left_of_imp ?_).symm
        rintro rfl
        exact List.contains_iff_mem.mp hthere
      case isFalse => simp
    rw [List.foldl_cons, ih, hone, List.mem_cons, or_assoc]

theorem foldl_set (sets : List (String × Value)) (u : Update) :
    sets.foldl (fun w s => w.set s.1 s.2) u =
      { u with sets := u.sets ++ sets.map fun s => (s.1, .value s.2) } := by
  induction sets generalizing u with
  | nil => simp
  | cons s sets ih =>
    rw [List.foldl_cons, ih]
    simp [set]

theorem foldl_add (adds : List (String × Value)) (u : Update) :
    adds.foldl (fun w a => w.add a.1 a.2) u =
      { u with sets := u.sets ++ adds.map fun a => (a.1, .add a.2) } := by
  induction adds generalizing u with
  | nil => simp
  | cons a adds ih =>
    rw [List.foldl_cons, ih]
    simp [add]

theorem mem_assignments {w : Update} {a : String × Assignment} :
    a ∈ w.assignments ↔ (∃ c ∈ w.nulls, a = (c, .value .null)) ∨ a ∈ w.sets := by
  unfold assignments
  simp only [List.mem_append, List.mem_map, List.mem_filter, or_assoc, eq_comm]
  cases a.2.isAbsolute <;> simp

end Update

namespace NodeUpdate

/-- What the UPDATE of a node's own row assigns. -/
structure OwnAssignments (u : NodeUpdate) (own : Update) (sets adds : List (String × Value)) :
    Prop where
  table : own.table = u.node.table
  predicate : own.predicate = none
  columns : u.node.ownColumns u.fields.set u.edges.add = .ok sets
  increments : ∀ a ∈ adds, ∃ f ∈ u.fields.add, a.1 = f.column
  nulls : ∀ k ∈ own.nulls, k ∈ u.fields.clear ∨ ∃ e ∈ u.edges.clear, e.columns = [k]
  sets : own.sets = sets.map (fun s => (s.1, .value s.2)) ++ adds.map fun a => (a.1, .add a.2)

theorem mem_clearedKey {sets : List (String × Value)} {e : Edge} {ks : List String}
    (h : clearedKey sets e = .ok ks) : c ∈ ks ↔ e.columns = [c] ∧ ∀ v, (c, v) ∉ sets := by
  obtain ⟨column, hcolumn, hpure⟩ := bind_eq_ok.mp h
  obtain rfl := Except.ok.inj hpure
  have hset : (sets.any fun a => a.1 == c) = true ↔ ∃ v, (c, v) ∈ sets := by
    simp [List.any_eq_true]
  rw [Edge.foreignKey_eq_ok.mp hcolumn, List.singleton_inj, ← not_exists, ← hset]
  by_cases hc : column = c
  · subst hc
    by_cases hany : (sets.any fun a => a.1 == column) = true <;> simp [hany]
  · refine iff_of_false (fun hmem => ?_) fun h => hc h.1
    split at hmem
    case isTrue => cases hmem
    case isFalse => exact hc (List.mem_singleton.mp hmem).symm

/-- The UPDATE of own rows clears the fields that are to be cleared, and the foreign keys of cleared
edges that are stored there and that it does not set. -/
theorem mem_nulls_iff {u : NodeUpdate} {own : Update} (hown : u.ownUpdate = .ok own) :
    c ∈ own.nulls ↔ c ∈ u.fields.clear ∨ ∃ e ∈ u.edges.clear, e.writesOwnColumn = true ∧
      e.columns = [c] ∧ ∀ v, (c, .value v) ∉ own.sets := by
  unfold ownUpdate at hown
  obtain ⟨sets, -, hown⟩ := bind_eq_ok.mp hown
  obtain ⟨_, -, hown⟩ := bind_eq_ok.mp hown
  obtain ⟨keys, hkeys, hown⟩ := bind_eq_ok.mp hown
  obtain ⟨adds, -, hown⟩ := bind_eq_ok.mp hown
  obtain rfl := Except.ok.inj hown
  obtain ⟨-, hnone, -⟩ := Update.foldl_setNull (u.fields.clear ++ keys.flatten)
    (.ofTable u.node.table)
  rw [Update.foldl_add, Update.foldl_set]
  dsimp only
  rw [Update.mem_foldl_setNull, hnone]
  simp only [Update.ofTable, List.not_mem_nil, false_or, List.mem_append, List.nil_append]
  refine or_congr_right ⟨fun hmem => ?_, ?_⟩
  · obtain ⟨ks, hks, hmem⟩ := List.mem_flatten.mp hmem
    obtain ⟨e, he, hclear⟩ := exists_of_forall₂ (mapM_eq_ok.mp hkeys).flip hks
    obtain ⟨he, hwrites⟩ := List.mem_filter.mp he
    obtain ⟨hfk, hunset⟩ := (mem_clearedKey hclear).mp hmem
    refine ⟨e, he, hwrites, hfk, fun v => ?_⟩
    simpa using hunset v
  · rintro ⟨e, he, hwrites, hfk, hunset⟩
    obtain ⟨ks, hks, hclear⟩ :=
      exists_of_forall₂ (mapM_eq_ok.mp hkeys) (List.mem_filter.mpr ⟨he, hwrites⟩)
    refine List.mem_flatten.mpr ⟨ks, hks, (mem_clearedKey hclear).mpr ⟨hfk, fun v => ?_⟩⟩
    simpa using hunset v

theorem ownUpdate_ok {u : NodeUpdate} {own : Update} (h : u.ownUpdate = .ok own) :
    ∃ sets adds, u.OwnAssignments own sets adds := by
  have hnulls : ∀ k ∈ own.nulls, k ∈ u.fields.clear ∨ ∃ e ∈ u.edges.clear, e.columns = [k] :=
    fun k hk => ((mem_nulls_iff h).mp hk).imp_right fun ⟨e, he, _, hfk, _⟩ => ⟨e, he, hfk⟩
  unfold ownUpdate at h
  obtain ⟨sets, hsets, h⟩ := bind_eq_ok.mp h
  obtain ⟨_, -, h⟩ := bind_eq_ok.mp h
  obtain ⟨keys, -, h⟩ := bind_eq_ok.mp h
  obtain ⟨adds, hadds, h⟩ := bind_eq_ok.mp h
  obtain rfl := Except.ok.inj h
  obtain ⟨htable, hnone, hpredicate⟩ :=
    Update.foldl_setNull (u.fields.clear ++ keys.flatten) (.ofTable u.node.table)
  refine ⟨sets, adds, ?_⟩
  rw [Update.foldl_add, Update.foldl_set] at hnulls ⊢
  refine ⟨htable, hpredicate, hsets, fun a ha => ?_, hnulls, ?_⟩
  · obtain ⟨f, hf, hcolumn⟩ := exists_of_forall₂ (mapM_eq_ok.mp hadds).flip ha
    exact ⟨f, hf, (Node.fieldColumn_eq_ok.mp hcolumn).2.2⟩
  · simp only [hnone]
    rfl

/-- What the UPDATE of a node's own row makes of a column that is not incremented and in which at
most one value is written. -/
theorem OwnAssignments.assigned {u : NodeUpdate} {own : Update} {sets adds : List (String × Value)}
    (h : u.OwnAssignments own sets adds) {v : Value}
    (hsets : ∀ s ∈ sets, columnName s.1 = c → s.2 = v) (hadds : ∀ a ∈ adds, columnName a.1 ≠ c)
    (r : Tuple) :
    (own.assigned E r c = v ∧ ∃ s ∈ sets, columnName s.1 = c) ∨
      ((own.assigned E r c = r c ∨ (own.assigned E r c).isNull = true) ∧
        ∀ s ∈ sets, columnName s.1 ≠ c) := by
  have habsolute : own.sets.filter (fun a => a.2.isAbsolute) =
      sets.map fun s => (s.1, .value s.2) := by
    rw [h.sets, List.filter_append, List.filter_map, List.filter_map]
    simp [Function.comp_def, Assignment.isAbsolute]
  have hincrements : own.sets.filter (fun a => !a.2.isAbsolute) =
      adds.map fun a => (a.1, .add a.2) := by
    rw [h.sets, List.filter_append, List.filter_map, List.filter_map]
    simp [Function.comp_def, Assignment.isAbsolute]
  have hassigned : own.assigned E r c =
      (sets.map fun s => (s.1, Assignment.value s.2)).foldl (Update.assign E r)
        ((own.nulls.map fun column => (column, Assignment.value .null)).foldl
          (Update.assign E r) r) c := by
    rw [Update.assigned, Update.assignments, habsolute, hincrements, List.foldl_append,
      List.foldl_append]
    refine Update.foldl_assign_of_ne (fun a ha => ?_) r _
    obtain ⟨a', ha', rfl⟩ := List.mem_map.mp ha
    exact hadds a' ha'
  rw [hassigned]
  have hvalues := Update.foldl_assign_value (E := E) (c := c) (v := v)
    (l := sets.map fun s => (s.1, Assignment.value s.2)) (fun a ha hc => by
      obtain ⟨s, hs, rfl⟩ := List.mem_map.mp ha
      rw [hsets s hs hc]) r
    ((own.nulls.map fun column => (column, Assignment.value .null)).foldl (Update.assign E r) r)
  have hnulls := Update.foldl_assign_value (E := E) (c := c) (v := .null)
    (l := own.nulls.map fun column => (column, Assignment.value .null)) (fun a ha _ => by
      obtain ⟨column, -, rfl⟩ := List.mem_map.mp ha
      rfl) r r
  rcases hvalues with ⟨hv, a, ha, hc⟩ | ⟨hnew, hne⟩
  · obtain ⟨s, hs, rfl⟩ := List.mem_map.mp ha
    exact .inl ⟨hv, s, hs, hc⟩
  · refine .inr ⟨?_, fun s hs => hne (s.1, .value s.2) (List.mem_map_of_mem hs)⟩
    rw [hnew]
    rcases hnulls with ⟨hnull, -⟩ | ⟨hold, -⟩
    · right
      rw [hnull]
      rfl
    · exact .inl hold

end NodeUpdate

end EntityGraph
