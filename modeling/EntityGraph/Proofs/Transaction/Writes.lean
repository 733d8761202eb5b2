import EntityGraph.Proofs.Program.Run
import EntityGraph.Graph.Batch
import EntityGraph.Graph.Delete
import EntityGraph.Graph.Update

/-!
# How often an operation writes

`Program.WritesAtMost` bounds the INSERT, UPDATE and DELETE statements of every run of a program.
Bounds add up along sequencing, so the bound of an operation is found part by part. Edges that need
no transaction are written with the row of their node, so a creation with such edges only writes
once, and so does a bulk insert of such creations.
-/

set_option autoImplicit false

namespace EntityGraph

/-- The number of statements of a run that change rows. -/
def writes (log : List Exchange) : Nat := log.countP fun x => x.call.isWrite

@[simp]
theorem writes_append (before after : List Exchange) :
    writes (before ++ after) = writes before + writes after :=
  List.countP_append

namespace Program

/-- No run of the program sends more than so many statements that change rows. -/
def WritesAtMost {α : Type} (n : Nat) (p : Program α) : Prop :=
  ∀ log result, p.Run log result → writes log ≤ n

variable {α β : Type} {m n : Nat}

theorem writesAtMost_done (a : α) : (Program.done a).WritesAtMost n := by
  intro log result h
  obtain ⟨rfl, -⟩ := run_done.mp h
  exact Nat.zero_le n

theorem writesAtMost_fail (e : Error) : (Program.fail e : Program α).WritesAtMost n := by
  intro log result h
  obtain ⟨rfl, -⟩ := run_fail.mp h
  exact Nat.zero_le n

theorem writesAtMost_ofExcept (x : Except Error α) : (ofExcept x).WritesAtMost n := by
  intro log result h
  obtain ⟨rfl, -⟩ := run_ofExcept.mp h
  exact Nat.zero_le n

theorem WritesAtMost.mono {p : Program α} (h : p.WritesAtMost m) (hmn : m ≤ n) :
    p.WritesAtMost n :=
  fun log result hrun => Nat.le_trans (h log result hrun) hmn

/-- The writes of programs in sequence add up. -/
theorem WritesAtMost.bind {p : Program α} {f : α → Program β} (hp : p.WritesAtMost m)
    (hf : ∀ a, (f a).WritesAtMost n) : (p >>= f).WritesAtMost (m + n) := by
  intro log result h
  rcases run_bind.mp h with ⟨e, h, -⟩ | ⟨a, before, after, rfl, hbefore, hafter⟩
  · have := hp log _ h
    omega
  · have hm := hp before _ hbefore
    have hn := hf a after result hafter
    rw [writes_append]
    omega

/-- What only reads may be followed by all the writes. -/
theorem WritesAtMost.then_bind {p : Program α} {f : α → Program β} (hp : p.WritesAtMost 0)
    (hf : ∀ a, (f a).WritesAtMost n) : (p >>= f).WritesAtMost n := by
  have h := hp.bind hf
  rwa [Nat.zero_add] at h

/-- All the writes may be followed by what only reads. -/
theorem WritesAtMost.bind_reads {p : Program α} {f : α → Program β} (hp : p.WritesAtMost n)
    (hf : ∀ a, (f a).WritesAtMost 0) : (p >>= f).WritesAtMost n :=
  hp.bind hf

theorem WritesAtMost.discard {p : Program α} (hp : p.WritesAtMost n) :
    (Functor.discard p).WritesAtMost n := by
  show ((fun _ => PUnit.unit) <$> p).WritesAtMost n
  rw [map_eq_pure_bind]
  exact hp.bind_reads fun a => writesAtMost_done _

/-- A loop whose rounds only read only reads. -/
theorem writesAtMost_forM {l : List α} {f : α → Program PUnit}
    (hf : ∀ a ∈ l, (f a).WritesAtMost 0) : (l.forM f).WritesAtMost 0 := by
  induction l with
  | nil => exact writesAtMost_done _
  | cons a l ih =>
    have hrest := ih fun b hb => hf b (List.mem_cons_of_mem a hb)
    exact (hf a List.mem_cons_self).then_bind fun _ => hrest

theorem writesAtMost_ite {c : Prop} [Decidable c] {p q : Program α} (hp : p.WritesAtMost n)
    (hq : q.WritesAtMost n) : (if c then p else q).WritesAtMost n := by
  split
  case isTrue => exact hp
  case isFalse => exact hq

/-- One call that is followed by what only reads. -/
theorem writesAtMost_call {c : Call} {next : c.Reply → Program α}
    (hnext : ∀ r, (next r).WritesAtMost 0) :
    (Program.call c next).WritesAtMost (if c.isWrite then 1 else 0) := by
  intro log result h
  obtain ⟨live, r, rest, rfl, htail⟩ := run_call.mp h
  have hrest := hnext r rest result htail
  simp only [writes, List.countP_cons] at hrest ⊢
  omega

/-! ## Single calls -/

theorem writesAtMost_settle {d : Dialect} (r : Outcome α) :
    (Connection.settle d r).WritesAtMost n := by
  cases r with
  | done a => exact writesAtMost_done a
  | failed f => exact writesAtMost_fail _
  | interrupted why => exact writesAtMost_fail _

theorem writesAtMost_exec (conn : Connection) (c : Command) : (conn.exec c).WritesAtMost 1 := by
  refine WritesAtMost.mono (writesAtMost_call (c := .exec conn.inside c) fun r => ?_) ?_
  · exact writesAtMost_settle r
  · split <;> omega

theorem writesAtMost_query (conn : Connection) (c : Command) :
    (conn.query c).WritesAtMost (if c.isWrite then 1 else 0) :=
  writesAtMost_call (c := .query conn.inside c) fun r => writesAtMost_settle r

theorem writesAtMost_execInsert (conn : Connection) (i : Insert) :
    (conn.execInsert i).WritesAtMost 1 :=
  (writesAtMost_ofExcept _).then_bind fun _ => writesAtMost_exec conn _

theorem writesAtMost_queryInsert (conn : Connection) (i : Insert) :
    (conn.queryInsert i).WritesAtMost 1 :=
  (writesAtMost_ofExcept _).then_bind fun statement => writesAtMost_query conn (.insert statement)

theorem writesAtMost_probe (conn : Connection) (s : Selector) : (conn.probe s).WritesAtMost 0 :=
  (writesAtMost_query conn (.anyRow s)).then_bind fun _ => writesAtMost_done _

theorem writesAtMost_revise (position : Nat) (r : Revision) :
    (Program.revise position r).WritesAtMost 0 :=
  writesAtMost_call (c := .revise position r) fun _ => writesAtMost_done _

theorem writesAtMost_draw (g : IdGenerator) : (Program.draw g).WritesAtMost 0 :=
  writesAtMost_call (c := .draw g) fun v => writesAtMost_done v

end Program

open Program

/-! ## Parts of operations -/

/-- Looking for partners writes nothing. -/
theorem Partner.check_reads (conn : Connection) (node : Node) (id? : Option Value)
    (add clear : List Edge) : (check conn node id? add clear).WritesAtMost 0 := by
  refine writesAtMost_forM fun e _ => ?_
  unfold checkEdge
  split
  case h_1 => exact writesAtMost_done _
  case h_2 =>
    refine (writesAtMost_ofExcept _).then_bind fun fk => writesAtMost_forM fun q _ => ?_
    refine (writesAtMost_probe conn _).then_bind fun b => ?_
    exact writesAtMost_ite (writesAtMost_fail _) (writesAtMost_done _)

/-- Edges that need no transaction are stored in the row of their node. -/
theorem ExternalEdges.not_external {edges : List Edge} (h : needTransaction edges = false)
    {e : Edge} (he : e ∈ edges) : e.writesExternal = false ∧ e.relation = .manyToOne := by
  have hedge := List.any_eq_false.mp h e he
  cases hr : e.relation with
  | oneToOne =>
    cases hi : e.inverse <;>
      simp [Edge.writesExternal, Edge.writesOwnColumn, Edge.isOneToOne, hr, hi] at hedge
  | oneToMany => simp [Edge.writesExternal, hr] at hedge
  | manyToOne => exact ⟨by simp [Edge.writesExternal, hr], rfl⟩
  | manyToMany => simp [Edge.writesExternal, hr] at hedge

/-- A creation writes nothing for edges that need no transaction. -/
theorem JoinTable.add_reads {conn : Connection} {links : List (List Value × Edge)}
    (h : ∀ l ∈ links, l.2.isManyToMany = false) : (add conn links).WritesAtMost 0 := by
  have hnone : (links.filter fun l => l.2.isManyToMany) = [] := by
    refine List.filter_eq_nil_iff.mpr fun l hl => ?_
    simp [h l hl]
  unfold add
  rw [hnone]
  exact writesAtMost_done _

theorem ForeignKey.add_reads {conn : Connection} {ids : List Value} {edges : List Edge}
    (h : ∀ e ∈ edges, e.isForeignKeyEdge = false) : (add conn ids edges).WritesAtMost 0 := by
  have hnone : (edges.filter fun e => e.isForeignKeyEdge && !e.target.nodes.isEmpty) = [] := by
    refine List.filter_eq_nil_iff.mpr fun e he => ?_
    simp [h e he]
  unfold add
  rw [hnone]
  exact writesAtMost_done _

theorem NodeCreation.supplyId_reads (position : Nat) (node : Node) :
    (supplyId position node).WritesAtMost 0 := by
  unfold supplyId
  refine writesAtMost_ite ((writesAtMost_ofExcept _).then_bind fun v => writesAtMost_done _) ?_
  split
  case h_1 => exact writesAtMost_done _
  case h_2 => exact writesAtMost_fail _
  case h_3 g _ =>
    refine (writesAtMost_draw g).then_bind fun drawn => ?_
    refine (writesAtMost_revise position _).then_bind fun _ => ?_
    exact (writesAtMost_ofExcept _).then_bind fun v => writesAtMost_done _

theorem NodeCreation.insertedId_writes (conn : Connection) (node : Node) (i : Insert)
    (supplied : Option Value) : (insertedId conn node i supplied).WritesAtMost 1 := by
  unfold insertedId
  refine writesAtMost_ite ?_ ?_
  · refine (writesAtMost_queryInsert conn _).bind_reads fun rows => ?_
    split
    case h_1 => exact writesAtMost_ofExcept _
    case h_2 => exact writesAtMost_done _
    case h_3 => exact writesAtMost_fail _
  · refine (writesAtMost_execInsert conn i).bind_reads fun result => ?_
    split
    case h_1 => exact writesAtMost_done _
    case h_2 =>
      refine (writesAtMost_ofExcept _).then_bind fun _ => ?_
      split
      case h_1 => exact writesAtMost_ite (writesAtMost_ofExcept _) (writesAtMost_fail _)
      case h_2 => exact writesAtMost_fail _

/-- A creation with edges that need no transaction writes once. -/
theorem NodeCreation.write_writes {conn : Connection} {position : Nat} {c : NodeCreation}
    (h : ExternalEdges.needTransaction c.edges = false) :
    (write conn position c).WritesAtMost 1 := by
  have hedges : ∀ e ∈ c.edges, e.relation = .manyToOne := fun e he =>
    (ExternalEdges.not_external h he).2
  have hcreate : ∀ id, (ExternalEdges.create conn id c.edges).WritesAtMost 0 := by
    intro id
    refine WritesAtMost.then_bind (JoinTable.add_reads fun l hl => ?_) fun _ => ?_
    · obtain ⟨e, he, rfl⟩ := List.mem_map.mp hl
      simp [Edge.isManyToMany, hedges e he]
    · refine ForeignKey.add_reads fun e he => ?_
      simp [Edge.isForeignKeyEdge, hedges e he]
  have htail : ∀ id : Value, (do
      Program.revise position (.id id)
      ExternalEdges.create conn id c.edges
      pure id : Program Value).WritesAtMost 0 := fun id =>
    (writesAtMost_revise position _).then_bind fun _ =>
      (hcreate id).then_bind fun _ => writesAtMost_done _
  unfold write
  refine (Partner.check_reads conn _ _ _ _).then_bind fun _ => ?_
  refine (supplyId_reads position c.node).then_bind fun supplied => ?_
  refine (writesAtMost_ofExcept _).then_bind fun i => ?_
  split
  case h_1 id _ => exact (writesAtMost_execInsert conn i).discard.bind_reads fun _ => htail id
  case h_2 => exact (insertedId_writes conn _ i _).bind_reads htail

namespace BoundRows

theorem storedRows_writes (conn : Connection) (b : BoundRows) (node : Node) (i : Insert)
    (policy : ConflictPolicy) : (b.storedRows conn node i policy).WritesAtMost 1 := by
  have hread : ∀ select : Selector, (do
      let rows ← conn.query (.select select)
      pure rows.rows : Program (List (List Value))).WritesAtMost 0 := fun select =>
    (writesAtMost_query conn (.select select)).then_bind fun _ => writesAtMost_done _
  unfold storedRows
  refine writesAtMost_ite ?_ ?_
  · exact (writesAtMost_queryInsert conn _).bind_reads fun rows => writesAtMost_done _
  -- Whether IDs are generated decides only whether their type is checked first.
  · refine writesAtMost_ite ((writesAtMost_ofExcept _).then_bind fun _ => ?_) ?_
    all_goals
      refine (writesAtMost_execInsert conn i).bind_reads fun result => ?_
      refine writesAtMost_ite ?_ (hread _)
      split
      case h_1 => exact writesAtMost_ite (hread _) (writesAtMost_done _)
      case h_2 => exact writesAtMost_done _

theorem upsertedIds_writes (conn : Connection) (b : BoundRows) (node : Node) (i : Insert)
    (policy : ConflictPolicy) : (b.upsertedIds conn node i policy).WritesAtMost 1 :=
  (storedRows_writes conn b node i policy).bind_reads fun _ => writesAtMost_ofExcept _

theorem insertedIds_writes (conn : Connection) (b : BoundRows) (node : Node) (i : Insert) :
    (b.insertedIds conn node i).WritesAtMost 1 := by
  unfold insertedIds
  refine writesAtMost_ite ?_ ?_
  · exact (writesAtMost_queryInsert conn _).bind_reads fun _ => writesAtMost_ofExcept _
  · refine (writesAtMost_ofExcept _).then_bind fun _ => ?_
    refine (writesAtMost_execInsert conn i).bind_reads fun result => ?_
    split
    case h_1 => exact writesAtMost_fail _
    case h_2 => exact writesAtMost_ofExcept _

end BoundRows

namespace BatchCreation

theorem ownRows_reads (conn : Connection) (nodes : List NodeCreation) (i : Nat)
    (claims : List PartnerClaim) : (ownRows conn i claims nodes).WritesAtMost 0 := by
  induction nodes generalizing i claims with
  | nil => exact writesAtMost_done _
  | cons c rest ih =>
    refine (writesAtMost_ofExcept _).then_bind fun claimed => ?_
    refine (Partner.check_reads conn _ _ _ _).then_bind fun _ => ?_
    refine (NodeCreation.supplyId_reads i c.node).then_bind fun _ => ?_
    refine (writesAtMost_ofExcept _).then_bind fun _ => ?_
    exact (ih (i + 1) claimed).then_bind fun _ => writesAtMost_done _

theorem insertRows_writes (conn : Connection) (node : Node) (policy : Option ConflictPolicy)
    (supplied : List Value) (b : BoundRows) :
    (insertRows conn node policy supplied b).WritesAtMost 1 := by
  unfold insertRows
  split
  case h_1 => exact BoundRows.upsertedIds_writes conn b node _ _
  case h_2 =>
    refine writesAtMost_ite (BoundRows.insertedIds_writes conn b node _) ?_
    exact (writesAtMost_execInsert conn _).discard.bind_reads fun _ => writesAtMost_done _

theorem reviseIds_reads (ids : List Value) (i : Nat) : (reviseIds i ids).WritesAtMost 0 := by
  induction ids generalizing i with
  | nil => exact writesAtMost_done _
  | cons id ids ih => exact (writesAtMost_revise i _).then_bind fun _ => ih (i + 1)

theorem addEdges_reads {conn : Connection} {nodes : List NodeCreation} (ids : List Value)
    (h : ∀ c ∈ nodes, ∀ e ∈ c.edges, e.relation = .manyToOne) :
    (addEdges conn nodes ids).WritesAtMost 0 := by
  unfold addEdges
  refine WritesAtMost.then_bind (JoinTable.add_reads fun l hl => ?_) fun _ => ?_
  · obtain ⟨p, hp, hl⟩ := List.mem_flatMap.mp hl
    obtain ⟨e, he, rfl⟩ := List.mem_map.mp hl
    have hnode := (List.of_mem_zip (List.mem_filter.mp hp).1).1
    simp [Edge.isManyToMany, h p.1 hnode e he]
  · refine writesAtMost_forM fun p hp => ForeignKey.add_reads fun e he => ?_
    have hnode := (List.of_mem_zip (List.mem_filter.mp hp).1).1
    simp [Edge.isForeignKeyEdge, h p.1 hnode e he]

end BatchCreation

/-! ## Updates and deletions of rows -/

theorem NodeUpdate.writeRows_writes (conn : Connection) (u : NodeUpdate) :
    (u.writeRows conn).WritesAtMost 1 := by
  refine (writesAtMost_ofExcept _).then_bind fun own => ?_
  refine writesAtMost_ite (writesAtMost_done _) ?_
  exact (writesAtMost_exec conn _).bind_reads fun _ => writesAtMost_done _

end EntityGraph
