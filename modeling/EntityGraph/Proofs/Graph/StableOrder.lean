import EntityGraph.Proofs.Graph.ReferenceOrder

/-!
# The first of all orders

Taking the least free node until none is free gives the first, lexicographically, of all orders in
which each node comes after those that it refers to. So nodes that do not depend on each other keep
their places. It gives an order of all nodes exactly if no reference leads out of the batch and none
lead in a circle. On the way no counter falls below zero, and there are no more rounds than nodes.
-/

set_option autoImplicit false

namespace EntityGraph

namespace CreationOrder

variable {references : List (List Nat)} {s : CreationOrder} {taken order other : List Nat} {i : Nat}

/-! ## Orders of the references -/

/-- All nodes stand in the order once, each after those that it refers to. -/
structure Respects (references : List (List Nat)) (order : List Nat) : Prop where
  perm : order.Perm (List.range references.length)
  targets_before : ∀ before i after, order = before ++ i :: after →
    ∀ target ∈ targetsOf references i, target ∈ before

/-- In such an order the next node is free. -/
theorem Respects.isFree (h : Respects references order) {before after : List Nat}
    (hsplit : order = before ++ i :: after) : IsFree references before i := by
  have hnodup : order.Nodup := h.perm.nodup_iff.mpr List.nodup_range
  refine ⟨?_, ?_, h.targets_before before i after hsplit⟩
  · rw [← List.mem_range, ← h.perm.mem_iff, hsplit]
    simp
  · rw [hsplit, List.nodup_append] at hnodup
    intro hmem
    exact hnodup.2.2 i hmem i List.mem_cons_self rfl

namespace InTurn

theorem respects (h : InTurn references taken) (hall : taken.length = references.length) :
    Respects references taken :=
  ⟨h.perm_range hall, fun _ _ _ hsplit => h.targets_before hsplit⟩

/-- Where two orders part, the one in which the least free node is taken has the lesser node. -/
theorem first_of_append {before rest others : List Nat} (h : InTurn references (before ++ rest))
    (hother : Respects references (before ++ others)) (hlength : rest.length = others.length) :
    rest = others ∨ List.Lex (· < ·) rest others := by
  induction rest generalizing before others with
  | nil => exact .inl (List.length_eq_zero_iff.mp hlength.symm).symm
  | cons i rest ih =>
    obtain ⟨j, others, rfl⟩ := List.exists_cons_of_length_eq_add_one hlength.symm
    have hle : i ≤ j := (h.next rfl).2 j (hother.isFree rfl)
    rcases Nat.lt_or_eq_of_le hle with hlt | rfl
    · exact .inr (.rel hlt)
    · have htaken : InTurn references (before ++ [i] ++ rest) := by simpa using h
      have hrest : rest = others ∨ List.Lex (· < ·) rest others :=
        ih htaken (by simpa using hother) (by simpa using hlength)
      exact hrest.imp (congrArg (i :: ·)) List.Lex.cons

/-- No order that respects the references comes before the one in which the least free node is taken
each time. -/
theorem first (h : InTurn references order) (hall : order.length = references.length)
    (hother : Respects references other) : order = other ∨ List.Lex (· < ·) order other := by
  have htaken : InTurn references ([] ++ order) := h
  refine first_of_append htaken hother ?_
  rw [hall, hother.perm.length_eq, List.length_range]

/-- Nodes that have all been taken do not refer to each other in a circle: each is taken after what
it refers to. -/
theorem acyclic (h : InTurn references order) (hall : order.length = references.length) :
    Acyclic references := by
  refine acyclic_of_rank (fun i => order.idxOf i) ?_
  intro i target htarget
  have hi : i ∈ order := by
    rw [(h.perm_range hall).mem_iff, List.mem_range]
    exact lt_length_of_mem_targetsOf htarget
  obtain ⟨before, after, rfl⟩ := List.append_of_mem hi
  have hbefore := h.targets_before rfl target htarget
  have hnew : i ∉ before := (h.next rfl).1.2.1
  rw [List.idxOf_append_of_mem hbefore, List.idxOf_append_of_notMem hnew, List.idxOf_cons_self,
    Nat.add_zero]
  exact List.idxOf_lt_length_of_mem hbefore

end InTurn

/-! ## Rounds -/

/-- In every round each counter is positive when one is taken from it. -/
def NeverUnderflows (references : List (List Nat)) : Prop :=
  ∀ n i rest, (rounds references n (start references)).ready = i :: rest →
    ∀ before j after, referrers references i = before ++ j :: after →
      ∃ w, (before.foldl release { rounds references n (start references) with
        ready := rest
        taken := (rounds references n (start references)).taken ++ [i] }).waiting[j]? = some (w + 1)

theorem neverUnderflows (references : List (List Nat)) : NeverUnderflows references := by
  intro n i rest hready before j after hsplit
  have h := (tracks_start references).rounds_keep n
  generalize rounds references n (start references) = s at hready h
  have hascending : (i :: rest).Pairwise (· < ·) := hready ▸ h.ascending
  have hnew : i ∉ s.taken := ((h.ready i).mp (by simp [hready])).2.1
  have hwaits := h.waits hnew
  rw [hsplit] at hwaits
  -- the releases so far are among those that the counters have room for
  have hsofar : ∀ k ∈ before, ∃ w, s.waiting[k]? = some w ∧ before.count k ≤ w := by
    intro k hk
    obtain ⟨w, hw, hle⟩ := hwaits k (List.mem_append_left _ hk)
    rw [List.count_append] at hle
    exact ⟨w, hw, by omega⟩
  obtain ⟨-, -, hwaiting, -⟩ := release_foldl
    (s := { s with ready := rest, taken := s.taken ++ [i] }) hsofar hascending.of_cons
  obtain ⟨w, hw, hle⟩ := hwaits j (by simp)
  rw [List.count_append, List.count_cons_self] at hle
  refine ⟨w - before.count j - 1, ?_⟩
  rw [hwaiting j w hw]
  congr 1
  omega

theorem rounds_of_ready_eq_nil (h : s.ready = []) (n : Nat) : rounds references n s = s := by
  induction n with
  | zero => rfl
  | succ n ih =>
    have hround : round references s = s := by
      unfold round
      rw [h]
    rw [rounds, hround, ih]

/-- Once all nodes have been taken none is ready. -/
theorem Tracks.ready_eq_nil (h : Tracks references s)
    (hall : references.length ≤ s.taken.length) : s.ready = [] := by
  have hle := (h.inTurn.nodup.subperm fun i hi =>
    List.mem_range.mpr (h.inTurn.lt_length hi)).length_le
  rw [List.length_range] at hle
  rw [List.eq_nil_iff_forall_not_mem]
  intro i hi
  obtain ⟨hlt, hnew, -⟩ := (h.ready i).mp hi
  apply hnew
  rwa [(h.inTurn.perm_range (by omega)).mem_iff, List.mem_range]

/-- There are no more rounds than nodes that have not been taken. -/
theorem Tracks.ready_rounds (h : Tracks references s) {n : Nat}
    (hn : references.length ≤ s.taken.length + n) :
    (EntityGraph.CreationOrder.rounds references n s).ready = [] := by
  induction n generalizing s with
  | zero => exact h.ready_eq_nil hn
  | succ n ih =>
    cases hready : s.ready with
    | nil =>
      rw [rounds_of_ready_eq_nil hready]
      exact hready
    | cons i rest =>
      obtain ⟨hround, htaken⟩ := h.round hready
      refine ih hround ?_
      rw [htaken, List.length_append, List.length_singleton]
      omega

end CreationOrder

open CreationOrder

/-- The nodes of a batch are put into order exactly if all references lead to nodes of the batch, and
none in a circle. The order respects the references, and it is the first of all that do. For any
references no counter falls below zero, and the rounds end when there have been as many as there are
nodes. -/
theorem BatchCreation.order_is_first (b : BatchCreation) :
    ((∃ order, b.order = .ok order) ↔ InRange b.references ∧ Acyclic b.references) ∧
      (∀ order, b.order = .ok order → Respects b.references order ∧
        ∀ other, Respects b.references other → order = other ∨ List.Lex (· < ·) order other) ∧
      NeverUnderflows b.references ∧
      (rounds b.references b.references.length (start b.references)).ready = [] := by
  refine ⟨⟨?_, ?_⟩, ?_, neverUnderflows _, ?_⟩
  · rintro ⟨order, horder⟩
    obtain ⟨hrange, hturn, hall⟩ := inTurn_of_order horder
    exact ⟨hrange, hturn.acyclic hall⟩
  · rintro ⟨hrange, hacyclic⟩
    obtain ⟨order, horder, -⟩ := order_eq_ok hrange hacyclic
    exact ⟨order, horder⟩
  · intro order horder
    obtain ⟨-, hturn, hall⟩ := inTurn_of_order horder
    exact ⟨hturn.respects hall, fun _ hother => hturn.first hall hother⟩
  · exact (tracks_start b.references).ready_rounds (by omega)

/-- A user who refers to the last of the batch twice, one who refers to nobody, one who refers to the
second, and the last, who refers to nobody either. -/
def usersInReverse : BatchCreation :=
  let user : NodeCreation := .ofNode (.ofTable "users" ⟨"id", .int, .null⟩)
  let below (targets : List Nat) : NodeCreation :=
    { user with edges := targets.map fun target =>
        { Edge.manyToOne "users" "parent_id" with
          target := { nodes := [], id := ⟨"id", .int, .null⟩, fields := [], pending := [target] } } }
  { nodes := [below [3, 3], below [], below [1], below []], policy := none }

/-- The first user has to wait for the last; the others keep their places. -/
theorem order_is_first_usersInReverse :
    usersInReverse.order = .ok [1, 2, 3, 0] ∧ Respects usersInReverse.references [1, 2, 3, 0] ∧
      ∀ other, Respects usersInReverse.references other →
        [1, 2, 3, 0] = other ∨ List.Lex (· < ·) [1, 2, 3, 0] other := by
  have horder : usersInReverse.order = .ok [1, 2, 3, 0] := rfl
  exact ⟨horder, (BatchCreation.order_is_first usersInReverse).2.1 _ horder⟩

end EntityGraph
