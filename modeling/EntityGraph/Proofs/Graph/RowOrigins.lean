import EntityGraph.Proofs.Graph.UpsertReads

/-!
# Where the rows of upserted nodes come from

A node that has an ID after an upsert has it from a row of the table with its key.
`BoundRows.Origin` has a case for each way in which such a row has come to be there. It has been
inserted in the turn of a node with that key, or it was stored and met a conflict in such a turn, or
agrees with the row that was proposed in it. Two more cases remain where the rows are read back by a
selection: nothing in them says that the INSERT has touched the row. If the policy is to do nothing
and the IDs are supplied, an older row with the key is found; and so is, under any other policy, an
older row that has no values where the node has none.
-/

set_option autoImplicit false

namespace EntityGraph

namespace BoundRows

variable {E : Engine} {S : Schema} {d : Dialect} {policy : ConflictPolicy} {b : BoundRows}
  {node : Node} {i : InsertStatement} {keys : List Nat} {j k n : Nat} {row : List Value}
  {db db' : Database} {mid before after reported : List Tuple} {x r : Tuple}

/-! ## Values of keys -/

/-- A node has the key of the node at a position. -/
def SharesKey (b : BoundRows) (keys : List Nat) (n j : Nat) : Prop :=
  ∃ row, b.rows[j]? = some row ∧ b.HasKey keys n (keys.map (valueAt row))

/-- A node has no value in a key column. -/
def LacksKey (b : BoundRows) (keys : List Nat) (n : Nat) : Prop :=
  ∃ row, b.rows[n]? = some row ∧ ∃ k ∈ keys, (valueAt row k).isNull = true

/-- Only an absent value is the same as an absent one. -/
theorem isNull_of_sameValue {v w : Value} (h : sameValue v w = true) : v.isNull = w.isNull := by
  unfold sameValue at h
  cases w with
  | null => exact h
  | _ =>
    simp only [Value.ownType?] at h
    split at h
    case h_1 u hu =>
      rw [← Value.isNull_of_coerce hu]
      cases u <;> first | rfl | cases h
    case h_2 => cases h

/-- A node lacks a value of its key where the rows with that key do. -/
theorem lacksKey_iff (h : b.HasKey keys n (b.keyIn keys r)) :
    b.LacksKey keys n ↔ ∃ k ∈ keys, (r (b.columnAt k)).isNull = true := by
  obtain ⟨row, hrow, hvalues⟩ := h
  have hsame : ∀ k ∈ keys, (r (b.columnAt k)).isNull = (valueAt row k).isNull := by
    rw [keyIn, List.forall₂_map_right_iff, List.forall₂_same] at hvalues
    exact fun k hk => isNull_of_sameValue (hvalues k hk)
  constructor
  · rintro ⟨row', hrow', k, hk, hnull⟩
    obtain rfl := Option.some.inj (hrow.symm.trans hrow')
    exact ⟨k, hk, (hsame k hk).trans hnull⟩
  · rintro ⟨k, hk, hnull⟩
    exact ⟨row, hrow, k, hk, (hsame k hk).symm.trans hnull⟩

/-- A key column is one of the policy, unless none of these is written. -/
theorem columnAt_mem_policy (hk : k ∈ b.keys policy) :
    b.columnAt k ∈ policy.columns ∨ ∀ c ∈ policy.columns, c ∉ b.columns := by
  unfold keys at hk
  split at hk
  case h_1 hnone =>
    right
    intro c hc hmem
    rw [List.filterMap_eq_nil_iff] at hnone
    exact absurd hmem (List.idxOf?_eq_none_iff.mp (hnone c hc))
  case h_2 =>
    left
    obtain ⟨c, hc, hposition⟩ := List.mem_filterMap.mp hk
    obtain ⟨hlt, hfound, -⟩ := List.idxOf?_eq_some_iff.mp hposition
    have hcolumn : b.columnAt k = c := by
      rw [columnAt, List.getElem?_eq_getElem hlt]
      exact hfound
    exact hcolumn ▸ hc

/-- A proposed row has the values that are bound. -/
theorem IsUpsert.proposed (hupsert : b.IsUpsert d node policy i) (hrow : row ∈ b.rows)
    (hx : i.Proposes E S mid row x) (hk : k ∈ b.keys policy) : x (b.columnAt k) = valueAt row k := by
  have hcolumn : k < b.columns.length := lt_of_mem_keys hk
  have hvalue : k < row.length := by
    rw [hupsert.width row hrow]
    exact hcolumn
  have hmem : (b.columns[k], row[k]) ∈ i.columns.zip row := by
    rw [hupsert.columns]
    have hzip : k < (b.columns.zip row).length := by
      rw [List.length_zip]
      omega
    rw [← List.getElem_zip (h := hzip)]
    exact List.getElem_mem hzip
  have hwritten := hx.written _ hmem
  unfold columnAt valueAt
  rw [List.getElem?_eq_getElem hcolumn, List.getElem?_eq_getElem hvalue]
  exact hwritten

/-! ## Origins -/

/-- How a row has come to be in the table of which a node with its key has got the ID. -/
inductive Origin (E : Engine) (S : Schema) (d : Dialect) (b : BoundRows) (node : Node)
    (policy : ConflictPolicy) (i : InsertStatement) (before after : List Tuple) (n : Nat)
    (r : Tuple) : Prop
  /-- It has been inserted in the turn of a node with the same key, when no row had its ID. -/
  | inserted {j : Nat} {mid mid' : List Tuple} (shared : b.SharesKey (b.keys policy) n j)
      (turn : i.Turn E S i.proposals before after j mid r mid' (some r))
      (new : ∀ q ∈ mid, E.equal (q node.id.column) (r node.id.column) = false) :
      Origin E S d b node policy i before after n r
  /-- It is what has become of a stored row that has met a conflict in a turn. -/
  | resolved {j : Nat} {mid mid' : List Tuple} {x q : Tuple} {key : List String}
      (touches : policy.action ≠ .doNothing)
      (turn : i.Turn E S i.proposals before after j mid x mid' (some r)) (mem : q ∈ mid)
      (resolves : i.Resolves E S key q x r) : Origin E S d b node policy i before after n r
  /-- It was stored when a row came with which it agrees in all key columns. -/
  | kept {j : Nat} {mid mid' : List Tuple} {x : Tuple} {o : Option Tuple} (dialect : d = .mysql)
      (touches : policy.action ≠ .doNothing)
      (turn : i.Turn E S i.proposals before after j mid x mid' o) (mem : r ∈ mid)
      (agree : Agree E (b.keyColumns (b.keys policy)) r x) :
      Origin E S d b node policy i before after n r
  /-- It was stored, and has been found by its key although nothing is done to stored rows. -/
  | found (dialect : d = .mysql) (skips : policy.action = .doNothing) (supplied : b.generated = false)
      (mem : r ∈ before) : Origin E S d b node policy i before after n r
  /-- It was stored, and has been found by a key without some of its values. -/
  | foundWithout (dialect : d = .mysql) (touches : policy.action ≠ .doNothing)
      (lacks : b.LacksKey (b.keys policy) n) (mem : r ∈ before) :
      Origin E S d b node policy i before after n r

/-- A row that is reported in a turn has been inserted, or has met a conflict. -/
theorem IsUpsert.origin_of_turn {mid' : List Tuple} (hupsert : b.IsUpsert d node policy i)
    (hid : [node.id.column] ∈ S.uniques node.table)
    (hkey : b.HasKey (b.keys policy) n (b.keyIn (b.keys policy) r))
    (hturn : i.Turn E S i.proposals before after j mid x mid' (some r))
    (hresolved : ∀ key, ∀ q ∈ mid, i.Resolves E S key q x r → policy.action ≠ .doNothing) :
    Origin E S d b node policy i before after n r := by
  rcases hturn.stores.added_or_resolved with ⟨rfl, hfree⟩ | ⟨key, q, hq, hresolves⟩
  · obtain ⟨row, hrow, hproposes⟩ := hturn.proposes
    rw [hupsert.proposals] at hrow
    refine .inserted ⟨row, hrow, ?_⟩ hturn fun q hq => ?_
    · have hvalues : b.keyIn (b.keys policy) r = (b.keys policy).map (valueAt row) :=
        List.map_congr_left fun k hk =>
          hupsert.proposed (List.mem_of_getElem? hrow) hproposes hk
      rwa [← hvalues]
    · rw [Bool.eq_false_iff]
      intro hequal
      apply hfree _ (hupsert.table ▸ hid) q hq
      intro c hc
      rwa [List.mem_singleton.mp hc]
  · exact .resolved (hresolved key q hq hresolves) hturn hq hresolves

/-- A row that comes back has one of the origins. -/
theorem IsUpsert.origin (hupsert : b.IsUpsert d node policy i)
    (hid : [node.id.column] ∈ S.uniques node.table)
    (hstored : i.StoresRows E S i.proposals before after reported)
    (hkey : b.HasKey (b.keys policy) n (b.keyIn (b.keys policy) r))
    (hback : b.ComesBack E d policy before after reported r) :
    Origin E S d b node policy i before after n r := by
  by_cases hdialect : d = .mysql
  case neg =>
    obtain ⟨j, mid, x, mid', hturn⟩ := hstored.exists_turn_of_reported (hback.returned hdialect)
    refine hupsert.origin_of_turn hid hkey hturn fun key q _ hresolves haction => ?_
    obtain ⟨clause, hclause, hgoverns⟩ := hupsert.clause
    obtain ⟨_, hsome, -, hresolve⟩ := hresolves.clause
    obtain rfl := Option.some.inj (hclause.symm.trans hsome)
    rw [hgoverns.skips haction hdialect] at hresolve
    cases hresolve
  case pos =>
    by_cases haction : policy.action = .doNothing
    · by_cases hold : r ∈ before
      · refine .found hdialect haction (Bool.eq_false_iff.mpr fun hgenerated => ?_) hold
        exact hback.new hdialect hgenerated haction hold
      · obtain ⟨j, mid, x, mid', hturn, hnew⟩ :=
          hstored.exists_turn_of_new (hback.stored hdialect) hold
        refine hupsert.origin_of_turn hid hkey hturn fun key q hq hresolves => ?_
        -- a stored row stays as it is, and would not be new
        obtain ⟨clause, hclause, -, hresolve⟩ := hresolves.clause
        have hinert := hupsert.inert (by rw [haction]; nofun) clause hclause
        exact absurd (hinert.eq hresolve ▸ hq) hnew
    · rcases hstored.reported_or_kept (hback.stored hdialect) with
        ⟨j, mid, x, mid', hturn⟩ | ⟨hold, hkept⟩
      · exact hupsert.origin_of_turn hid hkey hturn fun _ _ _ _ => haction
      · by_cases hlacks : b.LacksKey (b.keys policy) n
        · exact .foundWithout hdialect haction hlacks hold
        · obtain ⟨row, hrow, hselects⟩ := hback.selected hdialect
          obtain ⟨j, hj, hget⟩ := List.mem_iff_getElem.mp hrow
          obtain ⟨mid, x, mid', o, hturn, hmid⟩ := hkept j (by rw [hupsert.proposals]; exact hj)
          refine .kept hdialect haction hturn hmid fun c hc => ?_
          obtain ⟨k, hk, rfl⟩ := List.mem_map.mp hc
          obtain ⟨row', hrow', hproposes⟩ := hturn.proposes
          rw [hupsert.proposals, List.getElem?_eq_getElem hj, Option.some_inj, hget] at hrow'
          obtain rfl := hrow'
          have hpresent : (r (b.columnAt k)).isNull = false := by
            rw [Bool.eq_false_iff]
            exact fun hnull => hlacks ((lacksKey_iff hkey).mpr ⟨k, hk, hnull⟩)
          have hequal := Engine.equal_of_picks hpresent (hselects k hk)
          rwa [← hupsert.proposed hrow hproposes hk] at hequal

/-- Where a policy that does nothing has its rows returned, or the IDs are generated, a row that
comes back has an ID that no row had before. -/
theorem IsUpsert.new_of_skips (hupsert : b.IsUpsert d node policy i)
    (horigin : Origin E S d b node policy i before after n r) (hskips : policy.action = .doNothing)
    (hnew : d ≠ .mysql ∨ b.generated = true) :
    ∀ q ∈ before, E.equal (q node.id.column) (r node.id.column) = false := by
  have hinert := hupsert.inert (by rw [hskips]; nofun)
  cases horigin with
  | inserted _ turn new => exact fun q hq => new q (turn.before_subset hinert hq)
  | resolved touches => exact absurd hskips touches
  | kept _ touches => exact absurd hskips touches
  | found dialect _ supplied =>
    rw [dialect, supplied] at hnew
    simp at hnew
  | foundWithout _ touches => exact absurd hskips touches

/-- What has become of a stored row in a conflict about the columns of a policy has values in all key
columns. -/
theorem IsUpsert.present_of_resolves {key : List String} {q : Tuple}
    (hupsert : b.IsUpsert d node policy i) (hinserts : i.Inserts E S db db' reported)
    (hdialect : d ≠ .mysql) (htouches : policy.action ≠ .doNothing) (hmem : q ∈ mid)
    (hproposes : i.Proposes E S mid row x) (h : i.Resolves E S key q x r)
    (hk : k ∈ b.keys policy) : (r (b.columnAt k)).isNull = false := by
  obtain ⟨clause, hclause, hgoverns⟩ := hupsert.clause
  obtain ⟨_, hsome, habout, hresolve⟩ := h.clause
  obtain rfl := Option.some.inj (hclause.symm.trans hsome)
  obtain ⟨hne, hcolumns⟩ := hgoverns.about htouches hdialect key habout
  rcases columnAt_mem_policy hk with hmem' | hunwritten
  · have hequal := h.agree _ (hcolumns _ hmem')
    by_cases haction : policy.action = .updateNewValues
    · have hplain := columnName_plain (hupsert.hasColumn hinserts hk).plain
      have hvalue := hgoverns.overwrites haction _ _ _ hresolve _ (columnAt_mem hk)
      rw [hplain] at hvalue
      rw [hvalue]
      exact Engine.isNull_of_equal_right hequal
    · rw [(hgoverns.inert haction).eq hresolve]
      exact Engine.isNull_of_equal hequal
  · -- no stored row agrees with a proposed one in a column that is not written
    exfalso
    obtain ⟨c, hc⟩ := List.exists_mem_of_ne_nil _ hne
    have hequal := h.agree c (hcolumns c hc)
    have hcolumn : c ∉ i.columns := by
      rw [hupsert.columns]
      exact hunwritten c hc
    by_cases hidentity : S.identity i.table = some c
    · rw [hproposes.fresh c hcolumn hidentity q hmem] at hequal
      cases hequal
    · rw [hproposes.unwritten c hcolumn hidentity, Engine.equal_null _ rfl] at hequal
      cases hequal

/-- A node that lacks a value of its key has got the ID of a row that has been inserted, where rows
are returned, or where nothing is done to stored rows and the IDs are generated. -/
theorem IsUpsert.inserted_of_lacksKey (hupsert : b.IsUpsert d node policy i)
    (hinserts : i.Inserts E S db db' reported)
    (hkey : b.HasKey (b.keys policy) n (b.keyIn (b.keys policy) r))
    (hlacks : b.LacksKey (b.keys policy) n)
    (hexact : d ≠ .mysql ∨ policy.action = .doNothing ∧ b.generated = true)
    (horigin : Origin E S d b node policy i before after n r) :
    ∃ j mid mid', b.SharesKey (b.keys policy) n j ∧
      i.Turn E S i.proposals before after j mid r mid' (some r) ∧
        ∀ q ∈ mid, E.equal (q node.id.column) (r node.id.column) = false := by
  cases horigin with
  | inserted shared turn new => exact ⟨_, _, _, shared, turn, new⟩
  | resolved touches turn mem resolves =>
    exfalso
    have hdialect : d ≠ .mysql := hexact.resolve_right fun h => touches h.1
    obtain ⟨k, hk, hnull⟩ := (lacksKey_iff hkey).mp hlacks
    obtain ⟨row, -, hproposes⟩ := turn.proposes
    rw [hupsert.present_of_resolves hinserts hdialect touches mem hproposes resolves hk] at hnull
    cases hnull
  | kept dialect touches =>
    rcases hexact with hdialect | ⟨hskips, -⟩
    · exact absurd dialect hdialect
    · exact absurd hskips touches
  | found dialect _ supplied =>
    rw [dialect, supplied] at hexact
    simp at hexact
  | foundWithout dialect touches =>
    rcases hexact with hdialect | ⟨hskips, -⟩
    · exact absurd dialect hdialect
    · exact absurd hskips touches

/-- A row of the table of which a node has got the ID belongs to the node. -/
structure Attributed (E : Engine) (S : Schema) (d : Dialect) (b : BoundRows) (node : Node)
    (policy : ConflictPolicy) (i : InsertStatement) (before after : List Tuple) (n : Nat)
    (r : Tuple) : Prop where
  key : b.HasKey (b.keys policy) n (b.keyIn (b.keys policy) r)
  origin : Origin E S d b node policy i before after n r
  new : policy.action = .doNothing → d ≠ .mysql ∨ b.generated = true →
    ∀ q ∈ before, E.equal (q node.id.column) (r node.id.column) = false
  inserted : b.LacksKey (b.keys policy) n →
    d ≠ .mysql ∨ policy.action = .doNothing ∧ b.generated = true → ∃ j mid mid',
      b.SharesKey (b.keys policy) n j ∧ i.Turn E S i.proposals before after j mid r mid' (some r) ∧
        ∀ q ∈ mid, E.equal (q node.id.column) (r node.id.column) = false

/-- A row that comes back belongs to each node with its key. -/
theorem IsUpsert.attributed (hupsert : b.IsUpsert d node policy i)
    (hid : [node.id.column] ∈ S.uniques node.table) (hinserts : i.Inserts E S db db' reported)
    (hkey : b.HasKey (b.keys policy) n (b.keyIn (b.keys policy) r))
    (hback : b.ComesBack E d policy (db (nameParts node.table)).rows
      (db' (nameParts node.table)).rows reported r) :
    Attributed E S d b node policy i (db (nameParts node.table)).rows
      (db' (nameParts node.table)).rows n r := by
  have hstored := hinserts.stored
  rw [hupsert.table] at hstored
  have horigin := hupsert.origin hid hstored hkey hback
  exact ⟨hkey, horigin, hupsert.new_of_skips horigin,
    fun hlacks hexact => hupsert.inserted_of_lacksKey hinserts hkey hlacks hexact horigin⟩

end BoundRows

end EntityGraph
