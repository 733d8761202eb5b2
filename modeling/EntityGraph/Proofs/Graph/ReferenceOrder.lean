import Mathlib.Data.Fintype.Pigeonhole
import Mathlib.Logic.Relation
import Mathlib.Order.WellFounded
import EntityGraph.Graph.CreationOrder
import EntityGraph.Proofs.Graph.KeyPositions

/-!
# The order of creation

The counters of `CreationOrder` keep track of the nodes that are free: not taken, and with all their
references taken (`CreationOrder.Tracks`). So each round takes the least free node, and it finds one
as long as no node refers to itself through others. Without cycles the order is thus that of taking
the least free node until all are taken.
-/

set_option autoImplicit false

namespace EntityGraph

namespace CreationOrder

variable {references : List (List Nat)} {s : CreationOrder} {taken js : List Nat} {i j : Nat}

/-- The nodes that a node refers to. -/
def targetsOf (references : List (List Nat)) (i : Nat) : List Nat := references[i]?.getD []

/-- A node is free once all that it refers to have been taken, until it is taken itself. -/
def IsFree (references : List (List Nat)) (taken : List Nat) (i : Nat) : Prop :=
  i < references.length ∧ i ∉ taken ∧ ∀ target ∈ targetsOf references i, target ∈ taken

/-- Nodes have been taken in turn, each time the least that is free. -/
inductive InTurn (references : List (List Nat)) : List Nat → Prop
  | nil : InTurn references []
  | snoc {taken : List Nat} {i : Nat} (before : InTurn references taken)
      (free : IsFree references taken i) (least : ∀ j, IsFree references taken j → i ≤ j) :
      InTurn references (taken ++ [i])

namespace InTurn

theorem lt_length (h : InTurn references taken) (hi : i ∈ taken) : i < references.length := by
  induction h with
  | nil => cases hi
  | snoc before free _ ih =>
    rcases List.mem_append.mp hi with hi | hi
    · exact ih hi
    · rw [List.mem_singleton.mp hi]
      exact free.1

theorem nodup (h : InTurn references taken) : taken.Nodup := by
  induction h with
  | nil => exact .nil
  | snoc before free _ ih =>
    rw [List.nodup_append]
    refine ⟨ih, List.nodup_singleton _, ?_⟩
    intro a ha b hb hab
    rw [List.mem_singleton.mp hb] at hab
    exact free.2.1 (hab ▸ ha)

/-- A node that has been taken was the least free one after those before it. -/
theorem next (h : InTurn references taken) {before after : List Nat}
    (hsplit : taken = before ++ i :: after) :
    IsFree references before i ∧ ∀ j, IsFree references before j → i ≤ j := by
  induction h generalizing after with
  | nil => simp at hsplit
  | @snoc taken last _ free least ih =>
    rcases List.eq_nil_or_concat after with rfl | ⟨rest, l, rfl⟩
    · obtain ⟨rfl, hlast⟩ := List.append_inj' hsplit rfl
      obtain rfl : last = i := by simpa using hlast
      exact ⟨free, least⟩
    · rw [List.concat_eq_append, ← List.cons_append, ← List.append_assoc] at hsplit
      exact ih (List.append_inj' hsplit rfl).1

/-- What a node refers to is taken before it. -/
theorem targets_before (h : InTurn references taken) {before after : List Nat}
    (hsplit : taken = before ++ i :: after) : ∀ target ∈ targetsOf references i, target ∈ before :=
  (h.next hsplit).1.2.2

theorem targets_mem (h : InTurn references taken) (hi : i ∈ taken) :
    ∀ target ∈ targetsOf references i, target ∈ taken := by
  obtain ⟨before, after, rfl⟩ := List.append_of_mem hi
  intro target htarget
  exact List.mem_append_left _ (h.targets_before rfl target htarget)

/-- Once as many nodes have been taken as there are, each has been taken once. -/
theorem perm_range (h : InTurn references taken) (hall : taken.length = references.length) :
    taken.Perm (List.range references.length) := by
  have hsub : taken.Subperm (List.range references.length) :=
    h.nodup.subperm fun i hi => List.mem_range.mpr (h.lt_length hi)
  apply hsub.perm_of_length_le
  rw [List.length_range, hall]

end InTurn

/-! ## Counters -/

theorem insertNode_eq (i : Nat) (l : List Nat) : insertNode i l = insertPosition i l := by
  induction l with
  | nil => rfl
  | cons j l ih => simp only [insertNode, insertPosition, ih]

/-- The counters of nodes that are released, once each for every time that they stand in a list. -/
theorem release_foldl (hcount : ∀ j ∈ js, ∃ w, s.waiting[j]? = some w ∧ js.count j ≤ w)
    (hready : s.ready.Pairwise (· < ·)) :
    (js.foldl release s).taken = s.taken ∧ (js.foldl release s).ready.Pairwise (· < ·) ∧
      (∀ j w, s.waiting[j]? = some w →
        (js.foldl release s).waiting[j]? = some (w - js.count j)) ∧
      ∀ j, j ∈ (js.foldl release s).ready ↔
        j ∈ s.ready ∨ j ∈ js ∧ s.waiting[j]? = some (js.count j) := by
  induction js generalizing s with
  | nil => simpa using hready
  | cons k js ih =>
    obtain ⟨w, hw, hle⟩ := hcount k List.mem_cons_self
    rw [List.count_cons_self] at hle
    have hreleased : (release s k).waiting[k]? = some (w - 1) := by
      simp [release, hw]
    have hother : ∀ j, j ≠ k → (release s k).waiting[j]? = s.waiting[j]? := by
      intro j hj
      simp [release, Ne.symm hj]
    have hmem : ∀ j, j ∈ (release s k).ready ↔ j ∈ s.ready ∨ j = k ∧ w = 1 := by
      intro j
      have hlast : w - 1 = 0 ↔ w = 1 := by omega
      have hready : (release s k).ready = if w = 1 then insertNode k s.ready else s.ready := by
        simp [release, hw, hlast]
      rw [hready]
      by_cases hone : w = 1
      · simp [insertNode_eq, mem_insertPosition, hone, or_comm]
      · simp [hone]
    have hascending : (release s k).ready.Pairwise (· < ·) := by
      simp only [release]
      split
      case isTrue =>
        rw [insertNode_eq]
        exact ascending_insertPosition hready
      case isFalse => exact hready
    have hcount' : ∀ j ∈ js, ∃ w, (release s k).waiting[j]? = some w ∧ js.count j ≤ w := by
      intro j hj
      by_cases hjk : j = k
      · subst hjk
        exact ⟨w - 1, hreleased, by omega⟩
      · obtain ⟨v, hv, hle'⟩ := hcount j (List.mem_cons_of_mem k hj)
        rw [List.count_cons_of_ne (Ne.symm hjk)] at hle'
        exact ⟨v, (hother j hjk).trans hv, hle'⟩
    obtain ⟨htaken, hpairwise, hwaiting, hready'⟩ := ih hcount' hascending
    refine ⟨htaken, hpairwise, ?_, ?_⟩
    · intro j v hv
      by_cases hjk : j = k
      · subst hjk
        obtain rfl : w = v := Option.some.inj (hw.symm.trans hv)
        rw [List.foldl_cons, hwaiting j _ hreleased, List.count_cons_self]
        congr 1
        omega
      · rw [List.foldl_cons, hwaiting j v ((hother j hjk).trans hv),
          List.count_cons_of_ne (Ne.symm hjk)]
    · intro j
      rw [List.foldl_cons, hready', hmem]
      by_cases hjk : j = k
      · subst hjk
        rw [hreleased, hw, List.count_cons_self, Option.some_inj, Option.some_inj]
        have hcounted : j ∈ js ↔ 0 < js.count j := List.count_pos_iff.symm
        simp only [hcounted, List.mem_cons_self, true_and]
        constructor
        · rintro ((hmem | hone) | ⟨hpos, hlast⟩)
          · exact .inl hmem
          · exact .inr (by omega)
          · exact .inr (by omega)
        · rintro (hmem | hlast)
          · exact .inl (.inl hmem)
          · by_cases hone : w = 1
            · exact .inl (.inr hone)
            · exact .inr ⟨by omega, by omega⟩
      · rw [hother j hjk, List.count_cons_of_ne (Ne.symm hjk)]
        simp [hjk]

/-- A node is released once for each of its references to the node that is taken. -/
theorem count_referrers (references : List (List Nat)) (i j : Nat) :
    (referrers references i).count j = (targetsOf references j).count i := by
  have hfrom : ∀ (references : List (List Nat)) (n : Nat),
      ((references.zipIdx n).flatMap fun e => (e.1.filter (· == i)).map fun _ => e.2).count j =
        if n ≤ j then (targetsOf references (j - n)).count i else 0 := by
    intro references
    induction references with
    | nil =>
      intro n
      simp [targetsOf]
    | cons targets references ih =>
      intro n
      have hhead : ((targets.filter (· == i)).map fun _ => n).count j =
          if n = j then targets.count i else 0 := by
        rw [List.map_const', List.count_replicate, List.count_eq_length_filter]
        simp
      rw [List.zipIdx_cons, List.flatMap_cons, List.count_append, ih, hhead]
      by_cases hlt : n < j
      · have hsub : j - n = j - (n + 1) + 1 := by omega
        rw [if_neg (by omega), if_pos (by omega), if_pos (by omega), hsub]
        simp [targetsOf]
      · by_cases heq : n = j
        · subst heq
          simp [targetsOf]
        · rw [if_neg heq, if_neg (by omega), if_neg (by omega)]
  simpa [referrers] using hfrom references 0

theorem mem_referrers : j ∈ referrers references i ↔ i ∈ targetsOf references j := by
  rw [← List.count_pos_iff, count_referrers, List.count_pos_iff]

/-! ## Rounds -/

/-- What the counters say of the nodes that have been taken. -/
structure Tracks (references : List (List Nat)) (s : CreationOrder) : Prop where
  inTurn : InTurn references s.taken
  waiting : ∀ j, j < references.length →
    s.waiting[j]? = some ((targetsOf references j).countP fun target => target ∉ s.taken)
  ascending : s.ready.Pairwise (· < ·)
  ready : ∀ j, j ∈ s.ready ↔ IsFree references s.taken j

theorem tracks_start (references : List (List Nat)) : Tracks references (start references) := by
  refine ⟨.nil, ?_, List.pairwise_lt_range.filter _, ?_⟩
  · intro j hj
    simp [start, targetsOf, List.getElem?_eq_getElem hj]
  · intro j
    simp only [start, List.mem_filter, List.mem_range, IsFree, List.not_mem_nil, not_false_eq_true,
      true_and, imp_false, beq_iff_eq]
    refine and_congr_right ?_
    intro hj
    simp [targetsOf, List.getElem?_eq_getElem hj, List.eq_nil_iff_forall_not_mem]

/-- The references to a node that has not been taken are waited for. -/
theorem count_le_countP (l : List Nat) (hi : i ∉ taken) :
    l.count i ≤ l.countP fun target => target ∉ taken := by
  rw [List.count]
  apply List.countP_mono_left
  intro k _ hk
  rw [eq_of_beq hk]
  simpa using hi

/-- The references that a node waits for, without those to the node that is taken. -/
theorem countP_not_mem_append (l : List Nat) (hi : i ∉ taken) :
    (l.countP fun target => target ∉ taken ++ [i]) =
      (l.countP fun target => target ∉ taken) - l.count i := by
  induction l with
  | nil => rfl
  | cons k l ih =>
    have hle := count_le_countP l hi
    rw [List.countP_cons, List.countP_cons, List.count_cons, ih]
    by_cases hk : k = i
    · subst hk
      simp [hi]
    · by_cases htaken : k ∈ taken
      · simp [htaken, hk]
      · have hcount : k ∉ taken ++ [i] := by simp [htaken, hk]
        rw [if_pos (by simpa using hcount), if_pos (by simpa using htaken), if_neg (by simpa using hk)]
        omega

theorem lt_length_of_mem_targetsOf (h : i ∈ targetsOf references j) : j < references.length := by
  by_contra hge
  simp [targetsOf, List.getElem?_eq_none (Nat.le_of_not_lt hge)] at h

/-- A node waits at least for all of its references to a node that has not been taken. -/
theorem Tracks.waits (h : Tracks references s) (hi : i ∉ s.taken) :
    ∀ j ∈ referrers references i, ∃ w,
      s.waiting[j]? = some w ∧ (referrers references i).count j ≤ w := by
  intro j hj
  refine ⟨_, h.waiting j (lt_length_of_mem_targetsOf (mem_referrers.mp hj)), ?_⟩
  rw [count_referrers]
  exact count_le_countP _ hi

/-- A round takes the least free node, if there is one. -/
theorem Tracks.round {rest : List Nat} (h : Tracks references s) (hready : s.ready = i :: rest) :
    Tracks references (round references s) ∧ (round references s).taken = s.taken ++ [i] := by
  have hascending : (i :: rest).Pairwise (· < ·) := hready ▸ h.ascending
  obtain ⟨hleast, hrest⟩ := List.pairwise_cons.mp hascending
  have hfree : IsFree references s.taken i := (h.ready i).mp (by simp [hready])
  obtain ⟨hi, hnew, hfreed⟩ := hfree
  have hstep : EntityGraph.CreationOrder.round references s = (referrers references i).foldl release
      { s with ready := rest, taken := s.taken ++ [i] } := by
    unfold EntityGraph.CreationOrder.round
    rw [hready]
  obtain ⟨htaken, hpairwise, hwaiting, hmem⟩ :=
    release_foldl (s := { s with ready := rest, taken := s.taken ++ [i] }) (h.waits hnew) hrest
  rw [hstep]
  refine ⟨⟨?_, ?_, hpairwise, ?_⟩, htaken⟩
  · rw [htaken]
    refine .snoc h.inTurn ⟨hi, hnew, hfreed⟩ ?_
    intro j hj
    rcases List.mem_cons.mp (hready ▸ (h.ready j).mpr hj) with rfl | hj
    · exact Nat.le_refl _
    · exact Nat.le_of_lt (hleast j hj)
  · intro j hj
    rw [hwaiting j _ (h.waiting j hj), htaken, count_referrers, countP_not_mem_append _ hnew]
  · intro j
    rw [hmem, htaken, mem_referrers, count_referrers]
    constructor
    · rintro (hj | ⟨hrefers, hlast⟩)
      · obtain ⟨hj', hnew', hfreed'⟩ := (h.ready j).mp (by simp [hready, hj])
        refine ⟨hj', ?_, fun target ht => List.mem_append_left _ (hfreed' target ht)⟩
        have hne : j ≠ i := Nat.ne_of_gt (hleast j hj)
        simp [hnew', hne]
      · have hj := lt_length_of_mem_targetsOf hrefers
        have hnone := countP_not_mem_append (targetsOf references j) hnew
        have hlast := (h.waiting j hj).symm.trans hlast
        rw [Option.some_inj] at hlast
        rw [hlast, Nat.sub_self, List.countP_eq_zero] at hnone
        refine ⟨hj, ?_, fun target ht => by simpa [imp_iff_not_or] using hnone target ht⟩
        intro hj'
        rcases List.mem_append.mp hj' with hj' | hj'
        · exact hnew (h.inTurn.targets_mem hj' i hrefers)
        · rw [List.mem_singleton.mp hj'] at hrefers
          exact hnew (hfreed i hrefers)
    · rintro ⟨hj, hnew', hfreed'⟩
      obtain ⟨hnew', hne⟩ : j ∉ s.taken ∧ j ≠ i := by simpa using hnew'
      by_cases hrefers : i ∈ targetsOf references j
      · right
        refine ⟨hrefers, ?_⟩
        have hnone := countP_not_mem_append (targetsOf references j) hnew
        have hzero : ((targetsOf references j).countP fun target => target ∉ s.taken ++ [i]) = 0 := by
          rw [List.countP_eq_zero]
          intro target ht
          simpa [imp_iff_not_or] using hfreed' target ht
        have hle := count_le_countP (targetsOf references j) hnew
        rw [h.waiting j hj, Option.some_inj]
        omega
      · left
        have hj : j ∈ s.ready := by
          refine (h.ready j).mpr ⟨hj, hnew', ?_⟩
          intro target ht
          rcases List.mem_append.mp (hfreed' target ht) with htaken | hlast
          · exact htaken
          · rw [List.mem_singleton.mp hlast] at ht
            exact absurd ht hrefers
        rw [hready] at hj
        exact (List.mem_cons.mp hj).resolve_left hne

/-- A round without free nodes changes nothing, so all rounds keep what the counters say. -/
theorem Tracks.rounds_keep (h : Tracks references s) (n : Nat) :
    Tracks references (rounds references n s) := by
  induction n generalizing s with
  | zero => exact h
  | succ n ih =>
    apply ih
    cases hready : s.ready with
    | nil =>
      have hnone : EntityGraph.CreationOrder.round references s = s := by
        unfold EntityGraph.CreationOrder.round
        rw [hready]
      rwa [hnone]
    | cons i rest => exact (h.round hready).1

/-! ## Batches without cycles -/

/-- All references lead to nodes of the batch. -/
def InRange (references : List (List Nat)) : Prop :=
  ∀ i, ∀ target ∈ targetsOf references i, target < references.length

/-- No node refers to itself, directly or through others. -/
def Acyclic (references : List (List Nat)) : Prop :=
  ∀ i, ¬Relation.TransGen (fun target i => target ∈ targetsOf references i) i i

/-- References that all lead to a lower rank do not run in a circle. -/
theorem acyclic_of_rank (rank : Nat → Nat)
    (h : ∀ i, ∀ target ∈ targetsOf references i, rank target < rank i) : Acyclic references := by
  have hlower : ∀ target i, Relation.TransGen
      (fun target i => target ∈ targetsOf references i) target i → rank target < rank i := by
    intro target i hpath
    induction hpath with
    | single htarget => exact h _ _ htarget
    | tail _ hstep ih => exact ih.trans (h _ _ hstep)
  intro i hi
  exact Nat.lt_irrefl _ (hlower i i hi)

/-- As long as not all nodes have been taken, one is free. -/
theorem exists_isFree (hrange : InRange references) (hacyclic : Acyclic references)
    (hsome : ∃ i, i < references.length ∧ i ∉ taken) : ∃ i, IsFree references taken i := by
  let before : Fin references.length → Fin references.length → Prop :=
    Relation.TransGen fun target i => target.val ∈ targetsOf references i.val
  have hirrefl : Std.Irrefl before := by
    refine ⟨fun i hi => hacyclic i.val ?_⟩
    exact hi.lift Fin.val fun _ _ h => h
  have htrans : IsTrans _ before := ⟨fun _ _ _ => Relation.TransGen.trans⟩
  have hwf : WellFounded before := Finite.wellFounded_of_trans_of_irrefl before
  obtain ⟨i, hi, hnew⟩ := hsome
  obtain ⟨m, hm, hmin⟩ := hwf.has_min {i | i.val ∉ taken} ⟨⟨i, hi⟩, hnew⟩
  refine ⟨m.val, m.isLt, hm, ?_⟩
  intro target htarget
  by_contra hopen
  exact hmin ⟨target, hrange _ _ htarget⟩ hopen (.single htarget)

/-- Each round takes one node. -/
theorem Tracks.rounds (hrange : InRange references) (hacyclic : Acyclic references) {n : Nat}
    (h : Tracks references s) (hn : s.taken.length + n ≤ references.length) :
    Tracks references (rounds references n s) ∧
      (rounds references n s).taken.length = s.taken.length + n := by
  induction n generalizing s with
  | zero => exact ⟨h, rfl⟩
  | succ n ih =>
    have hsome : ∃ i, i < references.length ∧ i ∉ s.taken := by
      by_contra hall
      push Not at hall
      have hsub : (List.range references.length).Subperm s.taken :=
        List.nodup_range.subperm fun i hi => hall i (List.mem_range.mp hi)
      have hle := hsub.length_le
      rw [List.length_range] at hle
      omega
    obtain ⟨j, hfree⟩ := exists_isFree hrange hacyclic hsome
    have hready := (h.ready j).mpr hfree
    cases hcases : s.ready with
    | nil => simp [hcases] at hready
    | cons i rest =>
      obtain ⟨hround, htaken⟩ := h.round hcases
      have hlength := congrArg List.length htaken
      rw [List.length_append, List.length_singleton] at hlength
      obtain ⟨hrounds, hcount⟩ := ih hround (by omega)
      exact ⟨hrounds, by rw [EntityGraph.CreationOrder.rounds, hcount]; omega⟩

/-- Without cycles all nodes are put into order. -/
theorem exists_order (hrange : InRange references) (hacyclic : Acyclic references) :
    ∃ order, ofReferences? references = some order ∧ InTurn references order ∧
      order.length = references.length := by
  obtain ⟨hfinal, hcount⟩ := (tracks_start references).rounds hrange hacyclic
    (n := references.length) (by simp [start])
  have hall : (rounds references references.length (start references)).taken.length =
      references.length := by
    rw [hcount]
    simp [start]
  exact ⟨_, if_pos hall, hfinal.inTurn, hall⟩

theorem dangling?_eq_none : dangling? references.length references = none ↔ InRange references := by
  unfold dangling?
  rw [List.findSome?_eq_none_iff]
  constructor
  · intro hnone i target htarget
    have hi := lt_length_of_mem_targetsOf htarget
    rw [targetsOf, List.getElem?_eq_getElem hi, Option.getD_some] at htarget
    have hmem : (references[i], i) ∈ references.zipIdx :=
      List.mem_zipIdx_iff_getElem?.mpr (List.getElem?_eq_getElem hi)
    have hfound := List.find?_eq_none.mp (Option.map_eq_none_iff.mp (hnone _ hmem)) target htarget
    simpa using hfound
  · rintro hrange ⟨targets, i⟩ hmem
    have htargets : targetsOf references i = targets := by
      simp [targetsOf, List.mem_zipIdx_iff_getElem?.mp hmem]
    rw [Option.map_eq_none_iff, List.find?_eq_none]
    intro target htarget
    have hlt := hrange i target (htargets ▸ htarget)
    simpa using hlt

/-- What is put into order is the order in which the least free node is taken each time. -/
theorem inTurn_of_order {order : List Nat} (h : ofReferences? references = some order) :
    InTurn references order ∧ order.length = references.length := by
  unfold ofReferences? at h
  dsimp only at h
  split at h
  case isFalse => cases h
  case isTrue hall =>
    obtain rfl := Option.some.inj h
    exact ⟨((tracks_start references).rounds_keep references.length).inTurn, hall⟩

end CreationOrder

/-- The references of the nodes of a batch. -/
def BatchCreation.references (b : BatchCreation) : List (List Nat) :=
  b.nodes.map NodeCreation.dependencies

/-- A batch whose references lead to its own nodes, and not in a circle, is created by taking the
least free node until all are taken. -/
theorem BatchCreation.order_eq_ok {b : BatchCreation}
    (hrange : CreationOrder.InRange b.references) (hacyclic : CreationOrder.Acyclic b.references) :
    ∃ order, b.order = .ok order ∧ CreationOrder.InTurn b.references order ∧
      order.Perm (List.range b.nodes.length) := by
  obtain ⟨order, horder, hturn, hall⟩ := CreationOrder.exists_order hrange hacyclic
  have hlength : b.references.length = b.nodes.length := List.length_map _
  have hnone := CreationOrder.dangling?_eq_none.mpr hrange
  rw [hlength] at hnone
  refine ⟨order, ?_, hturn, hlength ▸ hturn.perm_range hall⟩
  unfold BatchCreation.order
  unfold BatchCreation.references at hnone horder
  simp only [hnone, horder]

/-- The order of a batch is that in which the least free node is taken each time. -/
theorem BatchCreation.inTurn_of_order {b : BatchCreation} {order : List Nat}
    (h : b.order = .ok order) : CreationOrder.InRange b.references ∧
      CreationOrder.InTurn b.references order ∧ order.length = b.references.length := by
  unfold BatchCreation.order at h
  dsimp only at h
  split at h
  case h_1 => cases h
  case h_2 hnone =>
    split at h
    case h_2 => cases h
    case h_1 found hfound =>
      obtain rfl := Except.ok.inj h
      have hlength : b.references.length = b.nodes.length := List.length_map _
      exact ⟨CreationOrder.dangling?_eq_none.mp (hlength ▸ hnone),
        CreationOrder.inTurn_of_order hfound⟩

/-- In the order of a batch each of its nodes stands once. -/
theorem BatchCreation.perm_of_order {b : BatchCreation} {order : List Nat}
    (h : b.order = .ok order) : order.Perm (List.range b.nodes.length) := by
  obtain ⟨-, hturn, hall⟩ := inTurn_of_order h
  have hlength : b.references.length = b.nodes.length := List.length_map _
  exact hlength ▸ hturn.perm_range hall

end EntityGraph
