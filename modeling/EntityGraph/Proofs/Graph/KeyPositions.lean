import EntityGraph.Proofs.Graph.NeighborLoads

/-!
# Positions under keys

The client finds the parents of a neighbor in an index that it fills row by row. What the index
knows after all rows is said here without it: the values that have a key, each key once and where it
is first (`Value.firstOfKeys`), and for a value the positions of all keys that are the same, in
ascending order (`Keyed.Finds`).
-/

set_option autoImplicit false

namespace EntityGraph

/-! ## Values with the same key -/

namespace Value

variable {u v w : Value} {vs : List Value}

/-- Two values have the same key. The absent value has none. -/
def SameKey (v w : Value) : Prop := ∃ key, v.key? = some key ∧ w.key? = some key

theorem sameKey_iff : v.SameKey w ↔ v.isNull = false ∧ v.key? = w.key? := by
  constructor
  · rintro ⟨key, hv, hw⟩
    exact ⟨isNull_of_key hv, hv.trans hw.symm⟩
  · rintro ⟨hpresent, hkeys⟩
    obtain ⟨key, hkey⟩ := exists_key hpresent
    exact ⟨key, hkey, hkeys ▸ hkey⟩

instance (v w : Value) : Decidable (v.SameKey w) := decidable_of_iff _ sameKey_iff.symm

theorem not_sameKey_of_isNull (h : v.isNull = true) : ¬v.SameKey w := by
  rw [sameKey_iff, h]
  simp

/-- The values that have a key, each key once: where it appears first. -/
def firstOfKeys : List Value → List Value
  | [] => []
  | v :: vs =>
    if v.isNull then firstOfKeys vs
    else v :: (firstOfKeys vs).filter fun w => ¬v.SameKey w

/-- A further value is kept at the end if it has a key that no value before it has. -/
theorem firstOfKeys_append (vs : List Value) (w : Value) :
    firstOfKeys (vs ++ [w]) =
      if w.isNull = true ∨ ∃ v ∈ vs, v.SameKey w then firstOfKeys vs
      else firstOfKeys vs ++ [w] := by
  induction vs with
  | nil => cases hw : w.isNull <;> simp [firstOfKeys, hw]
  | cons v vs ih =>
    by_cases hv : v.isNull = true
    · have hnot : ¬v.SameKey w := not_sameKey_of_isNull hv
      simp [firstOfKeys, hv, hnot, ih]
    · by_cases hknown : w.isNull = true ∨ ∃ v ∈ vs, v.SameKey w
      · have hknown' : w.isNull = true ∨ ∃ u ∈ v :: vs, u.SameKey w := by
          simpa using hknown.imp_right Or.inr
        rw [if_pos hknown] at ih
        rw [if_pos hknown', List.cons_append, firstOfKeys, firstOfKeys, if_neg hv, if_neg hv, ih]
      · rw [if_neg hknown] at ih
        by_cases hsame : v.SameKey w
        · simp [firstOfKeys, hv, ih, hsame]
        · simp [firstOfKeys, hv, ih, hsame, not_or.mp hknown]

end Value

/-! ## Filling an index -/

/-- What an index knows once values have been added, each with positions. -/
structure Keyed.Collects (k : Keyed) (entries : List (Value × List Nat)) : Prop where
  values : k.values = Value.firstOfKeys (entries.map Prod.fst)
  known : ∀ key, (k.index.find? key).isSome = true ↔ ∃ e ∈ entries, e.1.key? = some key
  mem : ∀ key i, i ∈ (k.index.find? key).getD [] ↔
    ∃ e ∈ entries, e.1.key? = some key ∧ i ∈ e.2

namespace Keyed

variable {k : Keyed} {entries : List (Value × List Nat)} {e : Value × List Nat}

theorem collects_empty : Keyed.empty.Collects [] := by
  refine ⟨rfl, ?_, ?_⟩ <;> simp [empty, KeyIndex.find?]

theorem Collects.add (h : k.Collects entries) (e : Value × List Nat) :
    (k.add e.1 e.2).Collects (entries ++ [e]) := by
  obtain ⟨v, positions⟩ := e
  unfold Keyed.add
  cases hv : v.key? with
  | none =>
    have hnull : v.isNull = true := by
      cases v <;> first | rfl | cases hv
    refine ⟨?_, ?_, ?_⟩
    · simp [Value.firstOfKeys_append, hnull, h.values]
    · simp [hv, h.known]
    · simp [hv, h.mem]
  | some key =>
    have hpresent : v.isNull = false := Value.isNull_of_key hv
    have hknown : (k.index.find? key).isSome = true ↔ ∃ u ∈ entries.map Prod.fst, u.SameKey v := by
      rw [h.known key]
      simp [Value.SameKey, hv]
    refine ⟨?_, ?_, ?_⟩
    · dsimp only
      rw [List.map_append, List.map_singleton, Value.firstOfKeys_append, hpresent, h.values]
      by_cases hsome : (k.index.find? key).isSome = true
      · rw [if_pos hsome, if_pos (.inr (hknown.mp hsome))]
      · rw [if_neg hsome, if_neg]
        simpa using fun u hu => mt hknown.mpr hsome ⟨u, hu⟩
    · intro l
      dsimp only
      rw [KeyIndex.find?_insert]
      by_cases hl : l = key
      · simp [hl, hv]
      · simp [hl, hv, h.known, Ne.symm hl]
    · intro l i
      dsimp only
      rw [KeyIndex.find?_insert]
      by_cases hl : l = key
      · simp only [hl, if_true, Option.getD_some, List.mem_append, h.mem, List.mem_singleton,
          or_and_right, exists_or, exists_eq_left, hv, true_and]
      · simp [hl, hv, h.mem, Ne.symm hl]

theorem collects_foldl {β : Type} {f : β → Option (Value × List Nat)} {step : Keyed → β → Keyed}
    (hstep : ∀ k x, step k x = (f x).elim k fun e => k.add e.1 e.2) (l : List β)
    (h : k.Collects entries) : (l.foldl step k).Collects (entries ++ l.filterMap f) := by
  induction l generalizing k entries with
  | nil => simpa using h
  | cons x l ih =>
    rw [List.foldl_cons, hstep, List.filterMap_cons]
    cases hx : f x with
    | none => exact ih h
    | some e => simpa using ih (h.add e)

end Keyed

/-! ## Positions in order -/

theorem mem_insertPosition {i j : Nat} {l : List Nat} :
    j ∈ insertPosition i l ↔ j = i ∨ j ∈ l := by
  induction l with
  | nil => simp [insertPosition]
  | cons k l ih =>
    unfold insertPosition
    split
    · simp
    · split
      case isTrue h =>
        subst h
        simp
      case isFalse =>
        rw [List.mem_cons, ih, List.mem_cons]
        tauto

theorem ascending_insertPosition {i : Nat} {l : List Nat} (h : l.Pairwise (· < ·)) :
    (insertPosition i l).Pairwise (· < ·) := by
  induction l with
  | nil => simp [insertPosition]
  | cons k l ih =>
    obtain ⟨hk, hl⟩ := List.pairwise_cons.mp h
    unfold insertPosition
    split
    case isTrue hlt =>
      refine List.pairwise_cons.mpr ⟨?_, h⟩
      intro j hj
      rcases List.mem_cons.mp hj with rfl | hj
      · exact hlt
      · exact hlt.trans (hk j hj)
    case isFalse hge =>
      split
      case isTrue => exact h
      case isFalse hne =>
        refine List.pairwise_cons.mpr ⟨?_, ih hl⟩
        intro j hj
        rcases mem_insertPosition.mp hj with rfl | hj
        · omega
        · exact hk j hj

/-- Sorting positions keeps the set of them, and leaves each once. -/
theorem sorted_positions (l : List Nat) :
    (l.foldr insertPosition []).Pairwise (· < ·) ∧ ∀ i, i ∈ l.foldr insertPosition [] ↔ i ∈ l := by
  induction l with
  | nil => simp
  | cons k l ih =>
    refine ⟨ascending_insertPosition ih.1, ?_⟩
    intro i
    rw [List.foldr_cons, mem_insertPosition, ih.2, List.mem_cons]

/-- Ascending positions are known by their members. -/
theorem ascending_ext {l l' : List Nat} (h : l.Pairwise (· < ·)) (h' : l'.Pairwise (· < ·))
    (hmem : ∀ i, i ∈ l ↔ i ∈ l') : l = l' := by
  have hperm : l.Perm l' :=
    (List.perm_ext_iff_of_nodup (h.imp Nat.ne_of_lt) (h'.imp Nat.ne_of_lt)).mpr hmem
  exact hperm.eq_of_pairwise (fun a b _ _ hab hba => absurd hab (Nat.lt_asymm hba)) h h'

/-! ## Finding positions -/

/-- The positions that an index knows for a value, put in order, are those of a function; it knows
nothing for a value where there are none. -/
def Keyed.Finds (k : Keyed) (positions : Value → List Nat) : Prop :=
  ∀ v, (k.find? v).map (fun found => found.foldr insertPosition []) =
    if positions v = [] then none else some (positions v)

/-- The positions of the keys that have the key of a value, in ascending order. -/
def positionsOf (keys : List Value) (v : Value) : List Nat :=
  (List.range keys.length).filter fun i => (keys[i]?.getD .null).SameKey v

/-- The positions of the keys that some row of a join table, this side first, links to a value, in
ascending order. -/
def positionsThrough (joins : List (List Value)) (keys : List Value) (v : Value) : List Nat :=
  (List.range keys.length).filter fun i =>
    ∃ row ∈ joins, (keys[i]?.getD .null).SameKey (row[0]?.getD Value.null) ∧
      (row[1]?.getD Value.null).SameKey v

theorem positionsThrough_perm {joins joins' : List (List Value)} (h : joins.Perm joins')
    (keys : List Value) : positionsThrough joins keys = positionsThrough joins' keys := by
  funext v
  simp only [positionsThrough, h.mem_iff]

namespace Keyed

variable {k : Keyed} {entries : List (Value × List Nat)} {positions : Value → List Nat}
  {keys : List Value} {v : Value}

/-- An index finds what has been added to it. -/
theorem Collects.finds (h : k.Collects entries) (hpositions : ∀ e ∈ entries, e.2 ≠ [])
    (hascending : ∀ v, (positions v).Pairwise (· < ·))
    (hmem : ∀ v i, i ∈ positions v ↔ ∃ e ∈ entries, e.1.SameKey v ∧ i ∈ e.2) :
    k.Finds positions := by
  intro v
  unfold Keyed.find?
  cases hv : v.key? with
  | none =>
    have hnone : positions v = [] := by
      simp [List.eq_nil_iff_forall_not_mem, hmem, Value.SameKey, hv]
    simp [hnone]
  | some key =>
    have hmem' : ∀ i, i ∈ positions v ↔ i ∈ (k.index.find? key).getD [] := by
      intro i
      rw [hmem, h.mem]
      simp [Value.SameKey, hv]
    cases hfind : k.index.find? key with
    | none =>
      have hnone : positions v = [] := by
        simp [List.eq_nil_iff_forall_not_mem, hmem', hfind]
      simp [hnone, hfind]
    | some found =>
      simp only [hfind, Option.getD_some] at hmem'
      obtain ⟨e, he, hkey⟩ := (h.known key).mp (by simp [hfind])
      obtain ⟨i, hi⟩ := List.exists_mem_of_ne_nil _ (hpositions e he)
      have hsome : positions v ≠ [] :=
        List.ne_nil_of_mem ((hmem v i).mpr ⟨e, he, ⟨key, hkey, hv⟩, hi⟩)
      have hsorted := sorted_positions found
      rw [if_neg hsome, Option.bind_some, hfind, Option.map_some, Option.some_inj]
      apply ascending_ext hsorted.1 (hascending v)
      intro i
      rw [hsorted.2, hmem']

theorem ascending_filter_range (n : Nat) (p : Nat → Bool) :
    ((List.range n).filter p).Pairwise (· < ·) :=
  List.pairwise_lt_range.filter p

theorem collects_ofValues (keys : List Value) :
    (ofValues keys).Collects (keys.zipIdx.map fun e => (e.1, [e.2])) := by
  have hstep : ∀ (k : Keyed) (e : Value × Nat), k.add e.1 [e.2] =
      (some (e.1, [e.2])).elim k fun e => k.add e.1 e.2 := fun _ _ => rfl
  have h := collects_foldl hstep keys.zipIdx collects_empty
  rw [List.filterMap_eq_map', List.nil_append] at h
  exact h

/-- Each key is kept once, where it is first. -/
theorem values_ofValues (keys : List Value) :
    (ofValues keys).values = Value.firstOfKeys keys := by
  rw [(collects_ofValues keys).values, List.map_map]
  congr 1
  exact List.zipIdx_map_fst 0 keys

theorem mem_positionsOf {i : Nat} :
    i ∈ positionsOf keys v ↔ ∃ key, keys[i]? = some key ∧ key.SameKey v := by
  unfold positionsOf
  rw [List.mem_filter, List.mem_range, decide_eq_true_eq]
  constructor
  · rintro ⟨hi, hsame⟩
    rw [List.getElem?_eq_getElem hi] at hsame ⊢
    exact ⟨_, rfl, hsame⟩
  · rintro ⟨key, hkey, hsame⟩
    refine ⟨(List.getElem?_eq_some_iff.mp hkey).1, ?_⟩
    rw [hkey]
    exact hsame

/-- The index of the parents finds the positions of the keys that are the same. -/
theorem finds_ofValues (keys : List Value) : (ofValues keys).Finds (positionsOf keys) := by
  have hpositions : ∀ e ∈ keys.zipIdx.map fun e => (e.1, [e.2]), e.2 ≠ [] := by
    intro e he
    obtain ⟨_, -, rfl⟩ := List.mem_map.mp he
    exact List.cons_ne_nil _ _
  refine (collects_ofValues keys).finds hpositions (fun v => ascending_filter_range _ _) ?_
  intro v i
  simp [mem_positionsOf, List.mem_zipIdx_iff_getElem?]

/-! ## Following a join table -/

theorem Finds.of_some {found : List Nat} (h : k.Finds positions) (hfind : k.find? v = some found) :
    found ≠ [] ∧ ∀ i, i ∈ found ↔ i ∈ positions v := by
  have hv := h v
  rw [hfind, Option.map_some] at hv
  by_cases hnone : positions v = []
  · simp [hnone] at hv
  · rw [if_neg hnone, Option.some_inj] at hv
    rw [← hv] at hnone ⊢
    refine ⟨?_, fun i => ((sorted_positions found).2 i).symm⟩
    rintro rfl
    exact hnone rfl

theorem Finds.eq_none_iff (h : k.Finds positions) : k.find? v = none ↔ positions v = [] := by
  have hv := h v
  by_cases hnone : positions v = []
  · simpa [hnone] using hv
  · rw [if_neg hnone, Option.map_eq_some_iff] at hv
    obtain ⟨found, hfound, -⟩ := hv
    simp [hfound, hnone]

/-- The row of a join table adds its other end with the positions of its own end, if there are
any. -/
theorem follow_eq (parents k : Keyed) (row : List Value) :
    parents.follow k row =
      ((parents.find? (row[0]?.getD .null)).map fun found => (row[1]?.getD Value.null, found)).elim k
        fun e => k.add e.1 e.2 := by
  match row with
  | [] => rfl
  | [own] =>
    show k = _
    cases h : parents.find? own <;> simp [h, add, Value.key?]
  | own :: other :: rest =>
    simp only [follow, List.getElem?_cons_zero, List.getElem?_cons_succ, Option.getD_some]
    cases parents.find? own <;> rfl

theorem collects_follow (parents : Keyed) (joins : List (List Value)) :
    (joins.foldl parents.follow .empty).Collects (joins.filterMap fun row =>
      (parents.find? (row[0]?.getD .null)).map fun found => (row[1]?.getD .null, found)) := by
  have h := collects_foldl (follow_eq parents) joins collects_empty
  rwa [List.nil_append] at h

theorem mem_positionsThrough {joins : List (List Value)} {i : Nat} :
    i ∈ positionsThrough joins keys v ↔ ∃ row ∈ joins,
      i ∈ positionsOf keys (row[0]?.getD .null) ∧ (row[1]?.getD Value.null).SameKey v := by
  simp only [positionsThrough, positionsOf, List.mem_filter, List.mem_range, decide_eq_true_eq]
  constructor
  · rintro ⟨hi, row, hrow, hown, hother⟩
    exact ⟨row, hrow, ⟨hi, hown⟩, hother⟩
  · rintro ⟨row, hrow, ⟨hi, hown⟩, hother⟩
    exact ⟨hi, row, hrow, hown, hother⟩

/-- The index of the owners finds the positions of the keys that are linked to a value. -/
theorem finds_follow (keys : List Value) (joins : List (List Value)) :
    (joins.foldl (ofValues keys).follow .empty).Finds (positionsThrough joins keys) := by
  have hparents := finds_ofValues keys
  have hentry : ∀ e, e ∈ (joins.filterMap fun row =>
      ((ofValues keys).find? (row[0]?.getD .null)).map fun found =>
        (row[1]?.getD Value.null, found)) ↔
      ∃ row ∈ joins, (ofValues keys).find? (row[0]?.getD .null) = some e.2 ∧
        row[1]?.getD .null = e.1 := by
    intro e
    simp [List.mem_filterMap, Prod.ext_iff, and_comm]
  apply (collects_follow (ofValues keys) joins).finds
  · intro e he
    obtain ⟨row, -, hfind, -⟩ := (hentry e).mp he
    exact (hparents.of_some hfind).1
  · exact fun v => ascending_filter_range _ _
  · intro v i
    rw [mem_positionsThrough]
    constructor
    · rintro ⟨row, hrow, hi, hsame⟩
      cases hfind : (ofValues keys).find? (row[0]?.getD .null) with
      | none =>
        rw [hparents.eq_none_iff.mp hfind] at hi
        cases hi
      | some found =>
        exact ⟨(row[1]?.getD .null, found), (hentry _).mpr ⟨row, hrow, hfind, rfl⟩, hsame,
          ((hparents.of_some hfind).2 i).mpr hi⟩
    · rintro ⟨e, he, hsame, hi⟩
      obtain ⟨row, hrow, hfind, hother⟩ := (hentry e).mp he
      exact ⟨row, hrow, ((hparents.of_some hfind).2 i).mp hi, hother ▸ hsame⟩

/-- The other ends of the rows of a join table whose own end has the key of a parent. -/
theorem values_follow (keys : List Value) (joins : List (List Value)) :
    (joins.foldl (ofValues keys).follow .empty).values =
      Value.firstOfKeys ((joins.filter fun row =>
        ∃ key ∈ keys, key.SameKey (row[0]?.getD .null)).map fun row => row[1]?.getD .null) := by
  have hknown : ∀ row : List Value, (∃ key ∈ keys, key.SameKey (row[0]?.getD .null)) ↔
      (ofValues keys).find? (row[0]?.getD .null) ≠ none := by
    intro row
    rw [ne_eq, (finds_ofValues keys).eq_none_iff, List.eq_nil_iff_forall_not_mem, not_forall]
    simp only [not_not, mem_positionsOf]
    constructor
    · rintro ⟨key, hkey, hsame⟩
      obtain ⟨i, hi⟩ := List.mem_iff_getElem?.mp hkey
      exact ⟨i, key, hi, hsame⟩
    · rintro ⟨i, key, hi, hsame⟩
      exact ⟨key, List.mem_of_getElem? hi, hsame⟩
  rw [(collects_follow (ofValues keys) joins).values]
  congr 1
  simp only [hknown]
  induction joins with
  | nil => rfl
  | cons row joins ih =>
    rw [List.filterMap_cons, List.filter_cons]
    cases hfind : (ofValues keys).find? (row[0]?.getD .null) with
    | none => simpa [hfind] using ih
    | some found => simpa [hfind] using ih

end Keyed

end EntityGraph
