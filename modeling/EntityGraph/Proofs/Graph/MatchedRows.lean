import EntityGraph.Graph.Upsert
import EntityGraph.Proofs.Graph.StoredForms
import EntityGraph.Proofs.Relational.Keys

/-!
# Rows that are matched to nodes

The rows that come back from an upsert are gone through once. Each gives its ID to the first node
that has no ID yet and whose bound row has its key. `BoundRows.Gives` says of a row which node it
gives its ID to, and `BoundRows.Assigns` what a list of IDs is then: each node has the ID that it was
given, it was given one at most, and a node that a row was not given to although it has its key had
an ID, or stood behind the one that got it. Where the keys tell nodes and rows apart, the order of
the rows does not matter.
-/

set_option autoImplicit false

namespace EntityGraph

open Program

namespace BoundRows

variable {b : BoundRows} {node : Node} {keys : List Nat} {ids ids' : List Value} {key : List Value}
  {stored stored' : List (List Value)} {r : List Value} {i j p q : Nat} {v w id : Value}

/-! ## Keys -/

/-- The bound row of a node has a key: the values are the same in all key columns. -/
def HasKey (b : BoundRows) (keys : List Nat) (i : Nat) (key : List Value) : Prop :=
  ∃ row, b.rows[i]? = some row ∧
    List.Forall₂ (fun k v => sameValue v (valueAt row k) = true) keys key

/-- A stored row, its ID first, has the key of a node. -/
def Matches (b : BoundRows) (keys : List Nat) (i : Nat) (r : List Value) : Prop :=
  ∃ id key, r = id :: key ∧ b.HasKey keys i key

/-- A stored row has an ID. -/
def TellsId (r : List Value) : Prop := ∃ id key, r = id :: key ∧ id.isNull = false

/-- A node has no ID and the key of a stored row. -/
def Waits (b : BoundRows) (keys : List Nat) (ids key : List Value) (i : Nat) : Prop :=
  (∃ id, ids[i]? = some id ∧ id.isNull = true) ∧ b.HasKey keys i key

theorem sameKey_iff {row : List Value} : sameKey keys row key = true ↔
    List.Forall₂ (fun k v => sameValue v (valueAt row k) = true) keys key := by
  rw [List.forall₂_iff_zip, sameKey, Bool.and_eq_true, List.all_eq_true, beq_iff_eq, eq_comm]
  refine and_congr_right fun _ => ?_
  constructor
  · intro h k v hmem
    exact h (k, v) hmem
  · rintro h ⟨k, v⟩ hmem
    exact h hmem

theorem waits_iff : b.Waits keys ids key i ↔ ∃ pair, (b.rows.zip ids)[i]? = some pair ∧
    (pair.2.isNull && sameKey keys pair.1 key) = true := by
  constructor
  · rintro ⟨⟨id, hid, hnull⟩, row, hrow, hkey⟩
    refine ⟨(row, id), List.getElem?_zip_eq_some.mpr ⟨hrow, hid⟩, ?_⟩
    rw [hnull, sameKey_iff.mpr hkey]
    rfl
  · rintro ⟨⟨row, id⟩, hpair, hboth⟩
    obtain ⟨hrow, hid⟩ := List.getElem?_zip_eq_some.mp hpair
    obtain ⟨hnull, hkey⟩ := Bool.and_eq_true_iff.mp hboth
    exact ⟨⟨id, hid, hnull⟩, row, hrow, sameKey_iff.mp hkey⟩

/-- The place of a key is the first of the nodes that wait for it. -/
theorem slot?_eq_some : b.slot? keys ids key = some i ↔
    b.Waits keys ids key i ∧ ∀ j < i, ¬b.Waits keys ids key j := by
  simp only [waits_iff]
  unfold slot?
  rw [List.findIdx?_eq_some_iff_getElem]
  constructor
  · rintro ⟨hi, hfound, hfirst⟩
    refine ⟨⟨_, List.getElem?_eq_getElem hi, hfound⟩, ?_⟩
    rintro j hj ⟨pair, hpair, hboth⟩
    obtain ⟨_, rfl⟩ := List.getElem?_eq_some_iff.mp hpair
    exact hfirst j hj hboth
  · rintro ⟨⟨pair, hpair, hfound⟩, hfirst⟩
    obtain ⟨hi, rfl⟩ := List.getElem?_eq_some_iff.mp hpair
    refine ⟨hi, hfound, ?_⟩
    intro j hj hboth
    exact hfirst j hj ⟨_, List.getElem?_eq_getElem (hj.trans hi), hboth⟩

theorem slot?_eq_none : b.slot? keys ids key = none ↔ ∀ i, ¬b.Waits keys ids key i := by
  simp only [waits_iff]
  unfold slot?
  rw [List.findIdx?_eq_none_iff]
  constructor
  · rintro hnone i ⟨⟨row, id⟩, hpair, hboth⟩
    exact Bool.eq_false_iff.mp (hnone (row, id) (List.mem_of_getElem? hpair)) hboth
  · intro hnone pair hmem
    obtain ⟨i, hi⟩ := List.getElem?_of_mem hmem
    rw [Bool.eq_false_iff]
    exact fun hboth => hnone i ⟨pair, hi, hboth⟩

/-! ## One row -/

/-- A stored row that comes back gives its ID to one node, or to none. -/
theorem identify_cases (h : b.identify node keys ids r = .ok ids') :
    (ids' = ids ∧ ∀ id key, r = id :: key → ∀ i, ¬b.Waits keys ids key i) ∨
      ∃ id key i v, r = id :: key ∧ b.slot? keys ids key = some i ∧ node.readId id = .ok v ∧
        ids' = ids.set i v := by
  cases r with
  | nil =>
    obtain rfl := Except.ok.inj h
    exact .inl ⟨rfl, nofun⟩
  | cons id key =>
    unfold identify at h
    dsimp only at h
    split at h
    case h_1 hnone =>
      obtain rfl := Except.ok.inj h
      left
      refine ⟨rfl, ?_⟩
      rintro _ _ ⟨⟩
      exact slot?_eq_none.mp hnone
    case h_2 i hslot =>
      obtain ⟨v, hv, hset⟩ := bind_eq_ok.mp h
      exact .inr ⟨id, key, i, v, rfl, hslot, hv, (Except.ok.inj hset).symm⟩

/-- A row whose ID can be read if it has the key of a node goes through. -/
theorem exists_identify (h : ∀ id key i, r = id :: key → b.HasKey keys i key →
    ∃ v, node.readId id = .ok v) : ∃ ids', b.identify node keys ids r = .ok ids' := by
  cases r with
  | nil => exact ⟨ids, rfl⟩
  | cons id key =>
    unfold identify
    dsimp only
    cases hslot : b.slot? keys ids key with
    | none => exact ⟨ids, rfl⟩
    | some i =>
      obtain ⟨v, hv⟩ := h id key i rfl (slot?_eq_some.mp hslot).1.2
      refine ⟨ids.set i v, ?_⟩
      dsimp only
      rw [hv]
      rfl

/-! ## All rows -/

/-- A row that comes back at a position gives its ID to a node: that is the place of its key when the
rows before it have been gone through. -/
def Gives (b : BoundRows) (node : Node) (keys : List Nat) (stored : List (List Value)) (p i : Nat)
    (v : Value) : Prop :=
  ∃ ids id key, b.identifyAll node keys (stored.take p) = .ok ids ∧ stored[p]? = some (id :: key) ∧
    b.slot? keys ids key = some i ∧ node.readId id = .ok v

theorem identifyAll_concat : b.identifyAll node keys (stored ++ [r]) = .ok ids' ↔
    ∃ ids, b.identifyAll node keys stored = .ok ids ∧ b.identify node keys ids r = .ok ids' := by
  unfold identifyAll
  rw [List.foldlM_append, bind_eq_ok]
  refine exists_congr fun ids => and_congr_right fun _ => ?_
  rw [List.foldlM_cons, bind_eq_ok]
  constructor
  · rintro ⟨_, h, hdone⟩
    obtain rfl := Except.ok.inj hdone
    exact h
  · exact fun h => ⟨ids', h, rfl⟩

theorem gives_concat : b.Gives node keys (stored ++ [r]) p i v ↔
    b.Gives node keys stored p i v ∨ p = stored.length ∧ ∃ ids id key,
      b.identifyAll node keys stored = .ok ids ∧ r = id :: key ∧ b.slot? keys ids key = some i ∧
        node.readId id = .ok v := by
  unfold Gives
  rcases Nat.lt_trichotomy p stored.length with hlt | rfl | hgt
  · rw [List.take_append_of_le_length hlt.le, List.getElem?_append_left hlt]
    simp [hlt.ne]
  · simp
  · rw [List.getElem?_eq_none (by simp; omega), List.getElem?_eq_none hgt.le]
    simp [hgt.ne']

/-- A row gives its ID to one node only. -/
theorem Gives.unique (h : b.Gives node keys stored p i v) (h' : b.Gives node keys stored p j w) :
    i = j ∧ v = w := by
  obtain ⟨ids, id, key, hids, hrow, hslot, hread⟩ := h
  obtain ⟨_, _, _, hids', hrow', hslot', hread'⟩ := h'
  obtain rfl := Except.ok.inj (hids.symm.trans hids')
  obtain ⟨rfl, rfl⟩ := List.cons.inj (Option.some.inj (hrow.symm.trans hrow'))
  exact ⟨Option.some.inj (hslot.symm.trans hslot'), Except.ok.inj (hread.symm.trans hread')⟩

/-- The ID that a node is given is that of a row with its key. -/
theorem Gives.row (h : b.Gives node keys stored p i v) : ∃ id key, stored[p]? = some (id :: key) ∧
    b.HasKey keys i key ∧ node.readId id = .ok v := by
  obtain ⟨ids, id, key, -, hrow, hslot, hread⟩ := h
  exact ⟨id, key, hrow, (slot?_eq_some.mp hslot).1.2, hread⟩

/-- What the IDs of the nodes are, given the rows that came back. -/
structure Assigns (b : BoundRows) (node : Node) (keys : List Nat) (stored : List (List Value))
    (ids : List Value) : Prop where
  length : ids.length = b.rows.length
  given : ∀ i v, v.isNull = false → (ids[i]? = some v ↔ ∃ p, b.Gives node keys stored p i v)
  once : ∀ p q i v w, b.Gives node keys stored p i v → b.Gives node keys stored q i w →
    v.isNull = false → w.isNull = false → p = q
  passed : ∀ p id key i, stored[p]? = some (id :: key) → id.isNull = false → b.HasKey keys i key →
    (∃ v, ids[i]? = some v ∧ v.isNull = false) ∨ ∃ j v, j < i ∧ b.Gives node keys stored p j v

theorem assigns_nil : b.Assigns node keys [] b.noIds where
  length := List.length_map _
  given := by
    intro i v hv
    have hnone : ∀ p, ¬b.Gives node keys [] p i v := by
      rintro p ⟨_, _, _, -, hrow, -⟩
      cases hrow
    refine iff_of_false ?_ fun h => hnone h.choose h.choose_spec
    intro hid
    obtain ⟨_, -, rfl⟩ := List.mem_map.mp (List.mem_of_getElem? hid)
    cases hv
  once := by
    rintro p q i v w ⟨_, _, _, -, hrow, -⟩
    cases hrow
  passed := by
    intro p id key i hrow
    cases hrow

/-- A row that no node waits for changes nothing. -/
theorem Assigns.skip (h : b.Assigns node keys stored ids)
    (hids : b.identifyAll node keys stored = .ok ids)
    (hnone : ∀ id key, r = id :: key → ∀ i, ¬b.Waits keys ids key i) :
    b.Assigns node keys (stored ++ [r]) ids := by
  have hsame : ∀ p i v, b.Gives node keys (stored ++ [r]) p i v ↔ b.Gives node keys stored p i v := by
    intro p i v
    rw [gives_concat, or_iff_left]
    rintro ⟨-, _, id, key, hids', rfl, hslot, -⟩
    obtain rfl := Except.ok.inj (hids.symm.trans hids')
    exact hnone id key rfl i (slot?_eq_some.mp hslot).1
  refine ⟨h.length, ?_, ?_, ?_⟩
  · simpa only [hsame] using h.given
  · simpa only [hsame] using h.once
  · intro p id key i hrow hid hkey
    simp only [hsame]
    rcases Nat.lt_or_ge p stored.length with hlt | hge
    · rw [List.getElem?_append_left hlt] at hrow
      exact h.passed p id key i hrow hid hkey
    · rw [List.getElem?_append_right hge, List.getElem?_singleton] at hrow
      split at hrow
      case isFalse => cases hrow
      case isTrue =>
        obtain rfl := Option.some.inj hrow
        left
        obtain ⟨row, hlt⟩ := hkey
        have hi : i < ids.length := by
          rw [h.length]
          exact (List.getElem?_eq_some_iff.mp hlt.1).1
        refine ⟨ids[i], List.getElem?_eq_getElem hi, Bool.eq_false_iff.mpr fun hnull => ?_⟩
        exact hnone id key rfl i ⟨⟨_, List.getElem?_eq_getElem hi, hnull⟩, row, hlt⟩

/-- A row gives its ID to the first node that waits for it. -/
theorem Assigns.give (h : b.Assigns node keys stored ids)
    (hids : b.identifyAll node keys stored = .ok ids) (hslot : b.slot? keys ids key = some i)
    (hread : node.readId id = .ok v) :
    b.Assigns node keys (stored ++ [id :: key]) (ids.set i v) := by
  obtain ⟨⟨⟨old, hold, hnull⟩, -⟩, hfirst⟩ := slot?_eq_some.mp hslot
  have hi : i < ids.length := (List.getElem?_eq_some_iff.mp hold).1
  have hgives : ∀ p j w, b.Gives node keys (stored ++ [id :: key]) p j w ↔
      b.Gives node keys stored p j w ∨ p = stored.length ∧ i = j ∧ v = w := by
    intro p j w
    rw [gives_concat]
    refine or_congr_right (and_congr_right fun _ => ?_)
    constructor
    · rintro ⟨_, _, _, hids', hrow, hslot', hread'⟩
      obtain rfl := Except.ok.inj (hids.symm.trans hids')
      obtain ⟨rfl, rfl⟩ := List.cons.inj hrow
      exact ⟨Option.some.inj (hslot.symm.trans hslot'), Except.ok.inj (hread.symm.trans hread')⟩
    · rintro ⟨rfl, rfl⟩
      exact ⟨ids, id, key, hids, rfl, hslot, hread⟩
  -- the node had no ID before
  have hnew : ∀ p w, b.Gives node keys stored p i w → w.isNull = true := by
    intro p w hp
    by_contra hw
    have hsome := (h.given i w (by simpa using hw)).mpr ⟨p, hp⟩
    obtain rfl := Option.some.inj (hold.symm.trans hsome)
    exact hw hnull
  have hother : ∀ j, i ≠ j → (ids.set i v)[j]? = ids[j]? := fun j hj => List.getElem?_set_ne hj
  have hself : (ids.set i v)[i]? = some v := List.getElem?_set_self hi
  refine ⟨by rw [List.length_set, h.length], ?_, ?_, ?_⟩
  · intro j w hw
    simp only [hgives]
    by_cases hj : i = j
    · subst hj
      rw [hself, Option.some_inj]
      constructor
      · rintro rfl
        exact ⟨_, .inr ⟨rfl, rfl, rfl⟩⟩
      · rintro ⟨p, hp | ⟨-, -, hv⟩⟩
        · rw [hnew p w hp] at hw
          cases hw
        · exact hv
    · rw [hother j hj, h.given j w hw]
      simp [hj]
  · intro p q j u w hp hq hu hw
    rcases (hgives p j u).mp hp with hp | ⟨rfl, rfl, rfl⟩
    · rcases (hgives q j w).mp hq with hq | ⟨rfl, rfl, rfl⟩
      · exact h.once p q j u w hp hq hu hw
      · rw [hnew p u hp] at hu
        cases hu
    · rcases (hgives q i w).mp hq with hq | ⟨rfl, -⟩
      · rw [hnew q w hq] at hw
        cases hw
      · rfl
  · intro p id' key' j hrow hid hkey
    simp only [hgives]
    rcases Nat.lt_or_ge p stored.length with hlt | hge
    · rw [List.getElem?_append_left hlt] at hrow
      rcases h.passed p id' key' j hrow hid hkey with ⟨w, hsome, hw⟩ | ⟨k, w, hk, hp⟩
      · left
        by_cases hj : i = j
        · subst hj
          obtain rfl := Option.some.inj (hold.symm.trans hsome)
          rw [hnull] at hw
          cases hw
        · exact ⟨w, (hother j hj).trans hsome, hw⟩
      · exact .inr ⟨k, w, hk, .inl hp⟩
    · rw [List.getElem?_append_right hge, List.getElem?_singleton] at hrow
      split at hrow
      case isFalse => cases hrow
      case isTrue hp =>
        obtain ⟨rfl, rfl⟩ := List.cons.inj (Option.some.inj hrow)
        have hp : p = stored.length := by omega
        have hv : v.isNull = false := (Node.isNull_of_readId hread).trans hid
        rcases Nat.lt_trichotomy i j with hlt | rfl | hgt
        · exact .inr ⟨i, v, hlt, .inr ⟨hp, rfl, rfl⟩⟩
        · exact .inl ⟨v, hself, hv⟩
        · left
          have hj : j < ids.length := hgt.trans hi
          refine ⟨ids[j], ?_, Bool.eq_false_iff.mpr fun hnull => ?_⟩
          · rw [hother j hgt.ne', List.getElem?_eq_getElem hj]
          · exact hfirst j hgt ⟨⟨_, List.getElem?_eq_getElem hj, hnull⟩, hkey⟩

/-- The IDs that have been found are those that were given. -/
theorem assigns_of_identifyAll (h : b.identifyAll node keys stored = .ok ids) :
    b.Assigns node keys stored ids := by
  induction stored using List.reverseRecOn generalizing ids with
  | nil =>
    obtain rfl := Except.ok.inj h
    exact assigns_nil
  | append_singleton stored r ih =>
    obtain ⟨before, hbefore, hlast⟩ := identifyAll_concat.mp h
    rcases identify_cases hlast with ⟨rfl, hnone⟩ | ⟨id, key, i, v, rfl, hslot, hread, rfl⟩
    · exact (ih hbefore).skip hbefore hnone
    · exact (ih hbefore).give hbefore hslot hread

/-- A node has an ID exactly if a row with its key and an ID was not given to a node before it. -/
theorem Assigns.present_iff (h : b.Assigns node keys stored ids) :
    (∃ v, ids[i]? = some v ∧ v.isNull = false) ↔ ∃ p r, stored[p]? = some r ∧ TellsId r ∧
      b.Matches keys i r ∧ ∀ j v, j < i → ¬b.Gives node keys stored p j v := by
  constructor
  · rintro ⟨v, hsome, hv⟩
    obtain ⟨p, hp⟩ := (h.given i v hv).mp hsome
    obtain ⟨id, key, hrow, hkey, hread⟩ := hp.row
    have hid : id.isNull = false := (Node.isNull_of_readId hread).symm.trans hv
    refine ⟨p, _, hrow, ⟨id, key, rfl, hid⟩, ⟨id, key, rfl, hkey⟩, fun j w hj hgives => ?_⟩
    exact hj.ne (hgives.unique hp).1
  · rintro ⟨p, _, hrow, ⟨id, key, rfl, hid⟩, ⟨_, _, ⟨⟩, hkey⟩, hnone⟩
    rcases h.passed p id key i hrow hid hkey with hsome | ⟨j, v, hj, hgives⟩
    · exact hsome
    · exact absurd hgives (hnone j v hj)

/-! ## Any order -/

theorem exists_identifyAll (h : ∀ id key i, id :: key ∈ stored → b.HasKey keys i key →
    ∃ v, node.readId id = .ok v) : ∃ ids, b.identifyAll node keys stored = .ok ids := by
  induction stored using List.reverseRecOn with
  | nil => exact ⟨_, rfl⟩
  | append_singleton stored r ih =>
    obtain ⟨ids, hids⟩ := ih fun id key i hmem =>
      h id key i (List.mem_append_left _ hmem)
    obtain ⟨ids', hids'⟩ : ∃ ids', b.identify node keys ids r = .ok ids' :=
      exists_identify fun id key i hr hkey =>
        h id key i (List.mem_append_right _ (List.mem_singleton.mpr hr.symm)) hkey
    exact ⟨ids', identifyAll_concat.mpr ⟨ids, hids, hids'⟩⟩

/-- The keys tell nodes and rows apart: no row has the keys of two nodes, and no two rows with an ID
have the key of one node. -/
structure Distinguishes (b : BoundRows) (keys : List Nat) (stored : List (List Value)) : Prop where
  node : ∀ r ∈ stored, ∀ i j, b.Matches keys i r → b.Matches keys j r → i = j
  row : ∀ r ∈ stored, ∀ r' ∈ stored, ∀ i, TellsId r → TellsId r' → b.Matches keys i r →
    b.Matches keys i r' → r = r'

theorem Distinguishes.of_perm (h : b.Distinguishes keys stored) (hperm : stored'.Perm stored) :
    b.Distinguishes keys stored' where
  node r hr := h.node r (hperm.subset hr)
  row r hr r' hr' := h.row r (hperm.subset hr) r' (hperm.subset hr')

/-- Where the keys tell nodes and rows apart, a row with an ID gives it to the node with its key. -/
theorem Assigns.getElem?_of_hasKey (h : b.Assigns node keys stored ids)
    (hkeys : b.Distinguishes keys stored) (hmem : id :: key ∈ stored) (hid : id.isNull = false)
    (hkey : b.HasKey keys i key) : ∃ v, node.readId id = .ok v ∧ ids[i]? = some v := by
  obtain ⟨p, hp⟩ := List.getElem?_of_mem hmem
  rcases h.passed p id key i hp hid hkey with ⟨v, hsome, hv⟩ | ⟨j, v, hj, hgives⟩
  · -- the row that the node has its ID from is this one
    obtain ⟨q, hq⟩ := (h.given i v hv).mp hsome
    obtain ⟨id', key', hrow', hkey', hread'⟩ := hq.row
    have hid' : id'.isNull = false := (Node.isNull_of_readId hread').symm.trans hv
    obtain ⟨rfl, rfl⟩ := List.cons.inj <| hkeys.row _ (List.mem_of_getElem? hrow') _ hmem i
      ⟨_, _, rfl, hid'⟩ ⟨_, _, rfl, hid⟩ ⟨_, _, rfl, hkey'⟩ ⟨_, _, rfl, hkey⟩
    exact ⟨v, hread', hsome⟩
  · -- a node before it would have the same key
    obtain ⟨id', key', hrow', hkey', -⟩ := hgives.row
    obtain ⟨rfl, rfl⟩ := List.cons.inj (Option.some.inj (hp.symm.trans hrow'))
    obtain rfl := hkeys.node _ hmem i j ⟨_, _, rfl, hkey⟩ ⟨_, _, rfl, hkey'⟩
    exact absurd hj (lt_irrefl i)

theorem Assigns.eq_some_iff (h : b.Assigns node keys stored ids)
    (hkeys : b.Distinguishes keys stored) (hv : v.isNull = false) : ids[i]? = some v ↔
      ∃ id key, id :: key ∈ stored ∧ b.HasKey keys i key ∧ node.readId id = .ok v := by
  constructor
  · intro hsome
    obtain ⟨p, hp⟩ := (h.given i v hv).mp hsome
    obtain ⟨id, key, hrow, hkey, hread⟩ := hp.row
    exact ⟨id, key, List.mem_of_getElem? hrow, hkey, hread⟩
  · rintro ⟨id, key, hmem, hkey, hread⟩
    have hid : id.isNull = false := (Node.isNull_of_readId hread).symm.trans hv
    obtain ⟨w, hread', hsome⟩ := h.getElem?_of_hasKey hkeys hmem hid hkey
    obtain rfl := Except.ok.inj (hread.symm.trans hread')
    exact hsome

theorem Assigns.exists_readId (h : b.Assigns node keys stored ids)
    (hkeys : b.Distinguishes keys stored) (hmem : id :: key ∈ stored) (hkey : b.HasKey keys i key) :
    ∃ v, node.readId id = .ok v := by
  cases hid : id.isNull with
  | true =>
    rw [Value.eq_null_of_isNull hid]
    exact ⟨_, node.readId_null⟩
  | false =>
    obtain ⟨v, hread, -⟩ := h.getElem?_of_hasKey hkeys hmem hid hkey
    exact ⟨v, hread⟩

/-- IDs are the same if those that are not absent are. -/
theorem ext_of_present (hlength : ids.length = ids'.length)
    (h : ∀ (i : Nat) (v : Value), v.isNull = false → (ids[i]? = some v ↔ ids'[i]? = some v)) :
    ids = ids' := by
  refine List.ext_getElem hlength fun i hi hi' => ?_
  cases hv : ids[i].isNull with
  | false =>
    have hsome := (h i _ hv).mp (List.getElem?_eq_getElem hi)
    rw [List.getElem?_eq_getElem hi'] at hsome
    exact (Option.some.inj hsome).symm
  | true =>
    cases hv' : ids'[i].isNull with
    | true => rw [Value.eq_null_of_isNull hv, Value.eq_null_of_isNull hv']
    | false =>
      have hsome := (h i _ hv').mpr (List.getElem?_eq_getElem hi')
      rw [List.getElem?_eq_getElem hi] at hsome
      exact Option.some.inj hsome

/-- Where the keys tell nodes and rows apart, the IDs do not depend on the order of the rows. -/
theorem identifyAll_of_perm (h : b.identifyAll node keys stored = .ok ids)
    (hkeys : b.Distinguishes keys stored) (hperm : stored'.Perm stored) :
    b.identifyAll node keys stored' = .ok ids := by
  have hassigns := assigns_of_identifyAll h
  obtain ⟨ids', hids'⟩ : ∃ ids', b.identifyAll node keys stored' = .ok ids' :=
    exists_identifyAll fun id key i hmem => hassigns.exists_readId hkeys (hperm.subset hmem)
  have hassigns' := assigns_of_identifyAll hids'
  obtain rfl : ids' = ids := by
    refine ext_of_present (hassigns'.length.trans hassigns.length.symm) fun i v hv => ?_
    rw [hassigns'.eq_some_iff (hkeys.of_perm hperm) hv, hassigns.eq_some_iff hkeys hv]
    simp only [hperm.mem_iff]
  exact hids'

/-- The IDs are found in the rows that come back. -/
theorem run_upsertedIds {conn : Connection} {insert : Insert} {policy : ConflictPolicy}
    {log : List Exchange} : (b.upsertedIds conn node insert policy).Run log (.ok ids) ↔
      ∃ stored, (b.storedRows conn node insert policy).Run log (.ok stored) ∧
        b.identifyAll node (b.keys policy) stored = .ok ids := by
  refine Iff.trans run_bind_ok ?_
  constructor
  · rintro ⟨stored, before, after, rfl, hstored, hids⟩
    obtain ⟨rfl, hfound⟩ := run_ofExcept.mp hids
    rw [List.append_nil]
    exact ⟨stored, hstored, hfound.symm⟩
  · rintro ⟨stored, hstored, hids⟩
    exact ⟨stored, log, [], (List.append_nil log).symm, hstored, run_ofExcept.mpr ⟨rfl, hids.symm⟩⟩

/-- The rows that come back from an upsert are matched to the nodes by their keys, whatever they are
and in whatever order they come: a row gives its ID to one node at most, a node is given one ID at
most, and that of a row with its key. Where the keys tell nodes and rows apart, a node has an ID
exactly if a row with an ID has its key, and the same rows in another order give the same IDs. -/
theorem rows_matched_by_key {conn : Connection} {insert : Insert} {policy : ConflictPolicy}
    {log : List Exchange} (h : (b.upsertedIds conn node insert policy).Run log (.ok ids)) :
    ∃ stored, (b.storedRows conn node insert policy).Run log (.ok stored) ∧
      ids.length = b.rows.length ∧
      (∀ p i j v w, b.Gives node (b.keys policy) stored p i v →
        b.Gives node (b.keys policy) stored p j w → i = j ∧ v = w) ∧
      (∀ p q i v w, b.Gives node (b.keys policy) stored p i v →
        b.Gives node (b.keys policy) stored q i w → v.isNull = false → w.isNull = false → p = q) ∧
      (∀ i v, v.isNull = false →
        (ids[i]? = some v ↔ ∃ p, b.Gives node (b.keys policy) stored p i v)) ∧
      (∀ p i v, b.Gives node (b.keys policy) stored p i v → ∃ id key,
        stored[p]? = some (id :: key) ∧ b.HasKey (b.keys policy) i key ∧ node.readId id = .ok v) ∧
      (b.Distinguishes (b.keys policy) stored →
        (∀ i, (∃ v, ids[i]? = some v ∧ v.isNull = false) ↔
          ∃ r ∈ stored, TellsId r ∧ b.Matches (b.keys policy) i r) ∧
        ∀ log' stored', (b.storedRows conn node insert policy).Run log' (.ok stored') →
          stored'.Perm stored → (b.upsertedIds conn node insert policy).Run log' (.ok ids)) := by
  obtain ⟨stored, hstored, hids⟩ := run_upsertedIds.mp h
  have hassigns := assigns_of_identifyAll hids
  refine ⟨stored, hstored, hassigns.length, fun p i j v w => Gives.unique, hassigns.once,
    hassigns.given, fun p i v => Gives.row, fun hkeys => ⟨fun i => ⟨?_, ?_⟩, ?_⟩⟩
  · rintro ⟨v, hsome, hv⟩
    obtain ⟨id, key, hmem, hkey, hread⟩ := (hassigns.eq_some_iff hkeys hv).mp hsome
    have hid : id.isNull = false := (Node.isNull_of_readId hread).symm.trans hv
    exact ⟨_, hmem, ⟨id, key, rfl, hid⟩, id, key, rfl, hkey⟩
  · rintro ⟨_, hmem, ⟨id, key, rfl, hid⟩, _, _, ⟨⟩, hkey⟩
    obtain ⟨v, hread⟩ := hassigns.exists_readId hkeys hmem hkey
    have hv : v.isNull = false := (Node.isNull_of_readId hread).trans hid
    exact ⟨v, (hassigns.eq_some_iff hkeys hv).mpr ⟨id, key, hmem, hkey, hread⟩, hv⟩
  · intro log' stored' hstored' hperm
    exact run_upsertedIds.mpr ⟨stored', hstored', identifyAll_of_perm hids hkeys hperm⟩

end BoundRows

/-- Two accounts, one of them without an email. -/
def accounts : BoundRows :=
  { columns := ["active", "email"], generated := true
    rows := [[.bool true, .null], [.bool true, .string "ann"]] }

/-- The policy that finds accounts by their email and whether they are active. -/
def accountPolicy : ConflictPolicy := ⟨["email", "active"], .ignore⟩

def accountInsert : Insert :=
  { table := "accounts", columns := accounts.columns, rows := accounts.rows
    returning := [], policy := some accountPolicy, reportedId := none }

/-- The rows of the accounts come back in the other order, with numbers for the truth values. -/
def accountRows : List (List Value) :=
  [[.int 2, .string "ann", .int 1], [.int 7, .null, .int 1]]

/-- The run that sends the INSERT of the accounts and gets rows back. -/
def accountRun (rows : List (List Value)) : List Exchange :=
  [⟨.query false (.insert
      { table := "accounts", columns := ["active", "email"], rows := accounts.rows
        conflict := some (.doUpdate ["email", "active"] [⟨"active", .stored⟩, ⟨"email", .stored⟩])
        returning := ["id", "email", "active"] }), true,
    (.done ⟨["id", "email", "active"], rows⟩ : Outcome Rows)⟩]

theorem accountRows_run (rows : List (List Value)) :
    (accounts.storedRows ⟨.sqlite, false⟩ (.ofTable "accounts" ⟨"id", .int, .null⟩) accountInsert
      accountPolicy).Run (accountRun rows) (.ok rows) := by
  apply Run.call
  exact .done _

/-- The values tell the accounts apart. -/
theorem accounts_distinguished :
    accounts.Distinguishes (accounts.keys accountPolicy) accountRows := by
  have hkeys : accounts.keys accountPolicy = [1, 0] := by decide
  have hmatch : ∀ i, ∀ r ∈ accountRows, accounts.Matches [1, 0] i r →
      i = 0 ∧ r = [.int 7, .null, .int 1] ∨ i = 1 ∧ r = [.int 2, .string "ann", .int 1] := by
    rintro i r hr ⟨id, key, rfl, row, hrow, hkey⟩
    rw [← BoundRows.sameKey_iff] at hkey
    obtain ⟨rfl, rfl⟩ | ⟨rfl, rfl⟩ : id = .int 2 ∧ key = [.string "ann", .int 1] ∨
        id = .int 7 ∧ key = [.null, .int 1] := by simpa [accountRows] using hr
    · match i, hrow with
      | 0, rfl => exact absurd hkey (by decide)
      | 1, rfl => exact .inr ⟨rfl, rfl⟩
    · match i, hrow with
      | 0, rfl => exact .inl ⟨rfl, rfl⟩
      | 1, rfl => exact absurd hkey (by decide)
  rw [hkeys]
  constructor
  case node =>
    intro r hr i j hi hj
    rcases hmatch i r hr hi with ⟨rfl, rfl⟩ | ⟨rfl, rfl⟩ <;>
      rcases hmatch j _ hr hj with ⟨rfl, h⟩ | ⟨rfl, h⟩ <;> first | rfl | cases h
  case row =>
    intro r hr r' hr' i _ _ hi hi'
    rcases hmatch i r hr hi with ⟨rfl, rfl⟩ | ⟨rfl, rfl⟩ <;>
      rcases hmatch _ r' hr' hi' with ⟨h, rfl⟩ | ⟨h, rfl⟩ <;> first | rfl | cases h

theorem accounts_run :
    (accounts.upsertedIds ⟨.sqlite, false⟩ (.ofTable "accounts" ⟨"id", .int, .null⟩) accountInsert
      accountPolicy).Run (accountRun accountRows) (.ok [.int 7, .int 2]) := by
  apply Run.call
  exact .done _

/-- The rows come back in the other order, and the accounts have their own IDs. -/
theorem rows_matched_by_key_accounts :
    (accounts.upsertedIds ⟨.sqlite, false⟩ (.ofTable "accounts" ⟨"id", .int, .null⟩) accountInsert
      accountPolicy).Run (accountRun accountRows) (.ok [.int 7, .int 2]) ∧
    accounts.Distinguishes (accounts.keys accountPolicy) accountRows ∧
    (accounts.upsertedIds ⟨.sqlite, false⟩ (.ofTable "accounts" ⟨"id", .int, .null⟩) accountInsert
      accountPolicy).Run (accountRun accountRows.reverse) (.ok [.int 7, .int 2]) := by
  obtain ⟨stored, hstored, -, -, -, -, -, hany⟩ := BoundRows.rows_matched_by_key accounts_run
  obtain rfl : stored = accountRows :=
    Except.ok.inj (hstored.result_eq (accountRows_run accountRows))
  refine ⟨accounts_run, accounts_distinguished, ?_⟩
  exact (hany accounts_distinguished).2 _ _ (accountRows_run _) (List.reverse_perm _)

end EntityGraph
