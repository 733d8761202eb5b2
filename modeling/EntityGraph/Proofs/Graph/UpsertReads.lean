import EntityGraph.Proofs.Graph.MatchedRows
import EntityGraph.Proofs.Graph.SentStatements
import EntityGraph.Proofs.Relational.InsertTurns
import EntityGraph.Proofs.Relational.NamedColumns

/-!
# The rows that an upsert reads back

What comes back from an upsert is taken from rows of its table: those that the INSERT reports, or,
where it reports none, those that a selection finds afterwards by the keys of the nodes. That
selection finds whatever has such a key. Only where the policy is to do nothing and the database has
generated the IDs, rows that had been there are left out of it.
-/

set_option autoImplicit false

namespace EntityGraph

open Program

variable {E : Engine} {S : Schema} {d : Dialect} {policy : ConflictPolicy}

/-! ## The clause of a policy -/

/-- What a conflict clause of a dialect does on behalf of a policy. -/
structure ConflictPolicy.Governs (policy : ConflictPolicy) (d : Dialect) (columns : List String)
    (clause : ConflictClause) : Prop where
  inert : policy.action ≠ .updateNewValues → clause.IsInert
  skips : policy.action = .doNothing → d ≠ .mysql → ∀ stored proposed,
    clause.resolve stored proposed = none
  overwrites : policy.action = .updateNewValues → ∀ stored proposed r,
    clause.resolve stored proposed = some r → ∀ c ∈ columns, r (columnName c) = proposed (columnName c)
  about : policy.action ≠ .doNothing → d ≠ .mysql → ∀ key, clause.IsAbout key →
    policy.columns ≠ [] ∧ ∀ c ∈ policy.columns, c ∈ key

namespace Insert

variable {i : Insert} {clause : ConflictClause} {conflict : Option ConflictClause}

theorem inert_of_stored (columns target : List String) :
    (ConflictClause.doUpdate target (columns.map (⟨·, .stored⟩))).IsInert ∧
      (ConflictClause.onDuplicateKey (columns.map (⟨·, .stored⟩))).IsInert := by
  have hstored : ∀ a ∈ columns.map fun c => (⟨c, .stored⟩ : ConflictAssignment),
      a.value ≠ .proposed := by
    intro a ha hvalue
    obtain ⟨c, -, rfl⟩ := List.mem_map.mp ha
    cases hvalue
  exact ⟨ConflictClause.isInert_of_assignments hstored, ConflictClause.isInert_of_assignments hstored⟩

theorem governs_of_conflictClause (hne : i.columns ≠ [])
    (h : i.conflictClause policy = .ok clause) : policy.Governs d i.columns clause := by
  unfold conflictClause at h
  rw [if_neg (by simpa using hne)] at h
  have habout : ∀ as key, policy.columns.isEmpty = false →
      (ConflictClause.doUpdate policy.columns as).IsAbout key →
        policy.columns ≠ [] ∧ ∀ c ∈ policy.columns, c ∈ key := by
    intro as key hcolumns hkey
    have hcolumns : policy.columns ≠ [] := by simpa using hcolumns
    exact ⟨hcolumns, fun c hc => ((hkey.resolve_left hcolumns) c).mp hc⟩
  cases haction : policy.action with
  | doNothing =>
    rw [haction] at h
    obtain rfl := Except.ok.inj h
    refine ⟨fun _ _ _ => .inl rfl, fun _ _ _ _ => rfl, ?_, fun hne => absurd haction hne⟩
    rw [haction]
    rintro ⟨⟩
  | ignore =>
    rw [haction] at h
    dsimp only at h
    split at h
    case isTrue => cases h
    case isFalse hcolumns =>
      obtain rfl := Except.ok.inj h
      refine ⟨fun _ => (inert_of_stored _ _).1, ?_, ?_, fun _ _ key =>
        habout _ key (by simpa using hcolumns)⟩
      all_goals
        rw [haction]
        rintro ⟨⟩
  | updateNewValues =>
    rw [haction] at h
    dsimp only at h
    split at h
    case isTrue => cases h
    case isFalse hcolumns =>
      obtain rfl := Except.ok.inj h
      refine ⟨fun hne => absurd haction hne, ?_, fun _ stored proposed r hr c hc => ?_,
        fun _ _ key => habout _ key (by simpa using hcolumns)⟩
      · rw [haction]
        rintro ⟨⟩
      · obtain rfl := Option.some.inj hr
        exact ConflictClause.assigned_of_proposed hc

theorem governs_of_duplicateClause (hne : i.columns ≠ []) (hreported : i.reportedId = none)
    (h : i.duplicateClause policy = .ok clause) : policy.Governs .mysql i.columns clause := by
  obtain ⟨first, rest, hcolumns⟩ := List.exists_cons_of_ne_nil hne
  have hassignments : i.duplicateAssignments policy.action ≠ [] := by
    unfold duplicateAssignments
    rw [hcolumns]
    cases policy.action <;> exact List.cons_ne_nil _ _
  obtain rfl : clause = .onDuplicateKey (i.duplicateAssignments policy.action) := by
    unfold duplicateClause reportAssignments at h
    rw [hreported] at h
    dsimp only at h
    split at h
    case h_1 hnil => exact absurd hnil hassignments
    case h_2 => exact (Except.ok.inj h).symm
  refine ⟨fun haction => ?_, fun _ hd => absurd rfl hd, fun haction stored proposed r hr c hc => ?_,
    fun _ hd => absurd rfl hd⟩
  · cases hpolicy : policy.action with
    | doNothing =>
      refine ConflictClause.isInert_of_assignments ?_
      unfold duplicateAssignments
      rw [hcolumns]
      intro a ha hvalue
      obtain rfl := List.mem_singleton.mp ha
      cases hvalue
    | ignore => exact (inert_of_stored i.columns []).2
    | updateNewValues => exact absurd hpolicy haction
  · rw [haction] at hr
    obtain rfl := Option.some.inj hr
    exact ConflictClause.assigned_of_proposed hc

/-- The conflict clause of an INSERT that writes columns acts on behalf of its policy. -/
theorem governs_of_compiledClause (hpolicy : i.policy = some policy) (hne : i.columns ≠ [])
    (hreported : i.reportedId = none) (h : Sql.compiledClause d i = .ok conflict) :
    ∃ clause, conflict = some clause ∧ policy.Governs d i.columns clause := by
  unfold Sql.compiledClause at h
  rw [hpolicy] at h
  cases d with
  | mysql =>
    obtain ⟨clause, hclause, hsome⟩ := bind_eq_ok.mp h
    exact ⟨clause, (Except.ok.inj hsome).symm, governs_of_duplicateClause hne hreported hclause⟩
  | postgres | sqlite =>
    obtain ⟨clause, hclause, hsome⟩ := bind_eq_ok.mp h
    exact ⟨clause, (Except.ok.inj hsome).symm, governs_of_conflictClause hne hclause⟩

end Insert

namespace BoundRows

variable {b : BoundRows} {node : Node} {keys : List Nat} {i : InsertStatement} {k : Nat}
  {returning : List String} {db : Database} {r : Tuple} {conn : Connection} {s s' : Session}
  {stored : List (List Value)}

/-! ## Statements of an upsert -/

/-- The INSERT of bound rows under a policy. -/
def upsert (b : BoundRows) (node : Node) (policy : ConflictPolicy) (returning : List String) :
    Insert :=
  { table := node.table, columns := b.columns, rows := b.rows, returning
    policy := some policy, reportedId := none }

/-- What the INSERT of bound rows is in a dialect. -/
structure IsUpsert (b : BoundRows) (d : Dialect) (node : Node) (policy : ConflictPolicy)
    (i : InsertStatement) : Prop where
  table : i.table = node.table
  columns : i.columns = b.columns
  proposals : i.proposals = b.rows
  width : ∀ row ∈ b.rows, row.length = b.columns.length
  clause : ∃ clause, i.conflict = some clause ∧ policy.Governs d b.columns clause

theorem isUpsert_of_compile (hne : b.columns ≠ [])
    (h : (b.upsert node policy returning).compile d = .ok i) : b.IsUpsert d node policy i := by
  obtain ⟨hrows, conflict, hconflict, rfl⟩ := Sql.compile_eq_ok.mp h
  refine ⟨rfl, rfl, if_neg ?_, Sql.checkRows_eq_ok.mp hrows, ?_⟩
  · rwa [List.isEmpty_iff]
  · exact Insert.governs_of_compiledClause rfl hne rfl hconflict

/-- Unless the policy overwrites stored rows, the INSERT leaves them as they are. -/
theorem IsUpsert.inert (h : b.IsUpsert d node policy i) (haction : policy.action ≠ .updateNewValues) :
    ∀ clause, i.conflict = some clause → clause.IsInert := by
  obtain ⟨clause, hclause, hgoverns⟩ := h.clause
  rintro _ hsome
  obtain rfl := Option.some.inj (hclause.symm.trans hsome)
  exact hgoverns.inert haction

theorem lt_of_mem_keys (hk : k ∈ b.keys policy) : k < b.columns.length := by
  unfold keys at hk
  split at hk
  case h_1 => exact List.mem_range.mp hk
  case h_2 =>
    obtain ⟨column, -, hposition⟩ := List.mem_filterMap.mp hk
    rw [List.idxOf?_eq_some_iff] at hposition
    exact hposition.1

/-! ## Reading back -/

/-- The name of the column at a position. -/
def columnAt (b : BoundRows) (k : Nat) : String := b.columns[k]?.getD ""

theorem columnAt_mem (hk : k ∈ b.keys policy) : b.columnAt k ∈ b.columns := by
  rw [columnAt, List.getElem?_eq_getElem (lt_of_mem_keys hk)]
  exact List.getElem_mem _

/-- The values of a row of the table in the key columns. -/
def keyIn (b : BoundRows) (keys : List Nat) (r : Tuple) : List Value :=
  keys.map fun k => r (b.columnAt k)

/-- The condition of the selection by the keys picks a row of the table for a bound row. -/
def Selects (E : Engine) (b : BoundRows) (keys : List Nat) (row : List Value) (r : Tuple) : Prop :=
  ∀ k ∈ keys, E.picks (r (b.columnAt k)) (valueAt row k) = true

theorem meets_matching (hcolumns : ∀ k ∈ keys, (db (nameParts node.table)).HasColumn (b.columnAt k)) :
    db.meets E node.table (some (b.matching keys)) r = true ↔
      ∃ row ∈ b.rows, b.Selects E keys row r := by
  unfold matching
  rw [meets_disj, List.any_map, List.any_eq_true]
  refine exists_congr fun row => and_congr_right fun _ => ?_
  dsimp only [Function.comp_apply]
  rw [meets_conj, List.all_map, List.all_eq_true]
  refine forall₂_congr fun k hk => Bool.eq_iff_iff.mp ?_
  have hknown := hcolumns k hk
  dsimp only [Function.comp_apply]
  split
  case h_1 hnull =>
    show db.meets E node.table (some (.isNull (b.columnAt k))) r = _
    rw [meets_isNull hknown.knows, columnName_plain hknown.plain, hnull]
    rfl
  case h_2 =>
    show db.meets E node.table (some (.eq (b.columnAt k) _)) r = _
    rw [meets_eq hknown.knows, columnName_plain hknown.plain]

/-- The rows of a selection of the IDs and the keys are those of the table that meet its
condition. -/
theorem exists_of_returns {p : Predicate} {rows : Rows}
    (hid : (db (nameParts node.table)).HasColumn node.id.column)
    (hcolumns : ∀ k ∈ keys, (db (nameParts node.table)).HasColumn (b.columnAt k))
    (h : (Command.select ⟨node.id.column :: b.keyColumns keys, .table node.table none, [], some p, [],
      none, none, false, false⟩).Returns E db rows) : ∀ row ∈ rows.rows,
        ∃ r ∈ (db (nameParts node.table)).rows, db.meets E node.table (some p) r = true ∧
          row = r node.id.column :: b.keyIn keys r := by
  intro row hrow
  have hdenotes : ∀ c ∈ node.id.column :: b.keyColumns keys, db.Denotes node.table c c := by
    refine List.forall_mem_cons.mpr ⟨hid.denotes, fun c hc => ?_⟩
    obtain ⟨k, hk, rfl⟩ := List.mem_map.mp hc
    exact (hcolumns k hk).denotes
  have hselected := outRows_columns (E := E) (List.cons_ne_nil _ _) hdenotes (some p)
  rw [List.map_id'] at hselected
  obtain ⟨out, hout, rfl⟩ := List.mem_map.mp ((List.Perm.mem_iff h).mp hrow)
  rw [hselected] at hout
  obtain ⟨r, hr, rfl⟩ := List.mem_map.mp hout
  obtain ⟨hr, hmeets⟩ := List.mem_filter.mp hr
  refine ⟨r, hr, hmeets, ?_⟩
  simp only [List.map_cons, List.map_map, keyColumns, keyIn]
  rfl

/-- The key columns are columns of the table after an INSERT that has been carried out. -/
theorem IsUpsert.hasColumn {db' : Database} {reported : List Tuple}
    (hupsert : b.IsUpsert d node policy i) (hinserts : i.Inserts E S db db' reported)
    (hk : k ∈ b.keys policy) : (db' (nameParts node.table)).HasColumn (b.columnAt k) := by
  have hcolumn := hinserts.columns (b.columnAt k) (hupsert.columns ▸ columnAt_mem hk)
  have hsame := hinserts.sameColumns
  rw [hupsert.table] at hcolumn hsame
  exact ⟨hcolumn.plain, hcolumn.notStar, hsame ▸ hcolumn.mem⟩

/-- A row of the table is among those that come back from an upsert. -/
structure ComesBack (E : Engine) (d : Dialect) (b : BoundRows) (policy : ConflictPolicy)
    (before after reported : List Tuple) (r : Tuple) : Prop where
  returned : d ≠ .mysql → r ∈ reported
  stored : d = .mysql → r ∈ after
  selected : d = .mysql → ∃ row ∈ b.rows, b.Selects E (b.keys policy) row r
  new : d = .mysql → b.generated = true → policy.action = .doNothing → r ∉ before

/-- What an INSERT returns comes back. -/
theorem exists_returned {db' : Database} {before after reported : List Tuple} (hdialect : d ≠ .mysql)
    (hid : (db' (nameParts node.table)).HasColumn node.id.column)
    (hcolumns : ∀ k ∈ b.keys policy, (db' (nameParts node.table)).HasColumn (b.columnAt k)) :
    ∀ row ∈ reported.map fun x =>
        (node.id.column :: b.keyColumns (b.keys policy)).map fun c => x (columnName c),
      ∃ r, row = r node.id.column :: b.keyIn (b.keys policy) r ∧
        b.ComesBack E d policy before after reported r := by
  intro row hrow
  obtain ⟨r, hr, rfl⟩ := List.mem_map.mp hrow
  refine ⟨r, ?_, fun _ => hr, fun h => absurd h hdialect, fun h => absurd h hdialect,
    fun h => absurd h hdialect⟩
  have hplain : ∀ k ∈ b.keys policy, r (columnName (b.columnAt k)) = r (b.columnAt k) :=
    fun k hk => by rw [columnName_plain (hcolumns k hk).plain]
  rw [List.map_cons, columnName_plain hid.plain, keyColumns, List.map_map]
  exact congrArg _ (List.map_congr_left hplain)

/-- What is selected comes back if the selection leaves out older rows where it is to. -/
theorem exists_comesBack {p : Predicate} {rows : Rows} {before reported : List Tuple}
    (hid : (db (nameParts node.table)).HasColumn node.id.column)
    (hcolumns : ∀ k ∈ b.keys policy, (db (nameParts node.table)).HasColumn (b.columnAt k))
    (h : (Command.select ⟨node.id.column :: b.keyColumns (b.keys policy), .table node.table none, [],
      some p, [], none, none, false, false⟩).Returns E db rows)
    (hp : ∀ r, db.meets E node.table (some p) r = true →
      db.meets E node.table (some (b.matching (b.keys policy))) r = true ∧
        (b.generated = true → policy.action = .doNothing → r ∉ before)) : ∀ row ∈ rows.rows,
          ∃ r, row = r node.id.column :: b.keyIn (b.keys policy) r ∧
            b.ComesBack E .mysql policy before (db (nameParts node.table)).rows reported r := by
  intro row hrow
  obtain ⟨r, hr, hmeets, rfl⟩ := exists_of_returns hid hcolumns h row hrow
  obtain ⟨hmatching, hnew⟩ := hp r hmeets
  exact ⟨r, rfl, fun h => absurd rfl h, fun _ => hr, fun _ => (meets_matching hcolumns).mp hmatching,
    fun _ => hnew⟩

/-- A check that has passed leaves the database as it is. -/
theorem reaches_checked {α : Type} {p : Prop} [Decidable p] {x : Except Error Unit}
    {f : Unit → Program α} {a : α} {R : Answering Session}
    (h : (if p then (liftM x : Program Unit) >>= f else f ()).Reaches R s a s') :
    (f ()).Reaches R s a s' := by
  split at h
  case isTrue =>
    obtain ⟨_, start, hpassed, hrest⟩ := reaches_bind.mp h
    obtain ⟨-, hstart⟩ := reaches_ofExcept.mp hpassed
    rwa [hstart] at hrest
  case isFalse => exact h

/-- What comes back from an upsert are the IDs and the keys of rows of the table, in the database to
which the INSERT has led. -/
theorem reaches_storedRows (hkey : (node.table, node.id.column) ∈ S.keys) (hne : b.columns ≠ [])
    (htells : b.generated = true → d.supportsReturning = false → S.reportsIds = true ∧
      S.identity node.table = some node.id.column ∧ node.id.column ∉ b.columns) {inside : Bool}
    (h : (b.storedRows ⟨d, inside⟩ node (b.upsert node policy []) policy).Reaches
      (Call.Generates E S) s stored s') : ∃ returning i db reported,
      (b.upsert node policy returning).compile d = .ok i ∧
        i.Inserts E S s.current db reported ∧ s'.current = db ∧ ∀ row ∈ stored, ∃ r,
          row = r node.id.column :: b.keyIn (b.keys policy) r ∧
            b.ComesBack E d policy (s.current (nameParts node.table)).rows
              (db (nameParts node.table)).rows reported r := by
  unfold storedRows at h
  split at h
  case isTrue hreturning =>
    have hdialect : d ≠ .mysql := by
      rintro rfl
      cases hreturning
    dsimp only at h
    rw [BatchCreation.foldl_withReturning] at h
    obtain ⟨rows, mid, hquery, hdone⟩ := reaches_bind.mp h
    obtain ⟨rfl, hlast⟩ := reaches_done.mp hdone
    obtain ⟨i, hcompile, ⟨⟨-, -, hobeys, -⟩, reported, hinserts, hrows⟩, -⟩ :=
      reaches_queryInsert.mp hquery
    refine ⟨_, i, mid.current, reported, hcompile, hinserts, congrArg Session.current hlast, ?_⟩
    have hupsert := isUpsert_of_compile hne hcompile
    have hreturned : i.returning = node.id.column :: b.keyColumns (b.keys policy) := by
      obtain ⟨-, conflict, -, rfl⟩ := Sql.compile_eq_ok.mp hcompile
      exact if_pos hreturning
    rw [hrows, hreturned]
    exact exists_returned hdialect (hobeys _ hkey).toHasColumn
      fun k hk => hupsert.hasColumn hinserts hk
  case isFalse hreturning =>
    obtain rfl : d = .mysql := by
      cases d <;> first | rfl | exact absurd rfl hreturning
    obtain ⟨result, mid, hexec, hread⟩ := reaches_bind.mp (reaches_checked h)
    obtain ⟨i, hcompile, ⟨⟨-, -, hobeys, -⟩, reported, hinserts, -⟩, hascends⟩ :=
      reaches_execInsert.mp hexec
    have hupsert := isUpsert_of_compile hne hcompile
    have hid := (hobeys _ hkey).toHasColumn
    refine ⟨_, i, mid.current, reported, hcompile, hinserts, ?_⟩
    have hcolumns := fun k (hk : k ∈ b.keys policy) => hupsert.hasColumn hinserts hk
    dsimp only at hread
    split at hread
    case isTrue hnew =>
      split at hread
      case h_1 first hfirst =>
        split at hread
        case isTrue hadded =>
          obtain ⟨rows, last, hquery, hdone⟩ := reaches_bind.mp hread
          obtain ⟨rfl, rfl⟩ := reaches_done.mp hdone
          obtain ⟨hsame, hreturns, -⟩ := (reaches_query.mp hquery).records.answers
          refine ⟨hsame, exists_comesBack hid hcolumns hreturns
            fun r hmeets => ?_⟩
          rw [meets_conjoin, Bool.and_eq_true_iff, meets_compare hid.knows rfl,
            columnName_plain hid.plain] at hmeets
          refine ⟨hmeets.1, fun _ _ hold => ?_⟩
          obtain ⟨hreports, hidentity, hunwritten⟩ := htells hnew.1 rfl
          have hinert := hupsert.inert (by rw [hnew.2]; nofun)
          have habove := hascends hreports hinert node.id.column (hupsert.table ▸ hidentity)
            (hupsert.columns ▸ hunwritten) first hfirst hadded.1 hadded.2 r (hupsert.table ▸ hold)
          rw [hmeets.2] at habove
          cases habove
        case isFalse =>
          obtain ⟨rfl, rfl⟩ := reaches_done.mp hread
          exact ⟨rfl, fun _ h => absurd h List.not_mem_nil⟩
      case h_2 =>
        obtain ⟨rfl, rfl⟩ := reaches_done.mp hread
        exact ⟨rfl, fun _ h => absurd h List.not_mem_nil⟩
    case isFalse hnew =>
      obtain ⟨rows, last, hquery, hdone⟩ := reaches_bind.mp hread
      obtain ⟨rfl, rfl⟩ := reaches_done.mp hdone
      obtain ⟨hsame, hreturns, -⟩ := (reaches_query.mp hquery).records.answers
      exact ⟨hsame, exists_comesBack hid hcolumns hreturns
        fun r hmeets => ⟨hmeets, fun hgenerated haction => absurd ⟨hgenerated, haction⟩ hnew⟩⟩

end BoundRows

end EntityGraph
