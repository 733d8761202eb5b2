import EntityGraph.Proofs.Graph.AddedEdges

/-!
# Pairs that statements take away

The links of a relation that is stored in a column are pairs of an ID and a foreign key. A statement
takes a pair away by leaving one of its values out of every row that has the pair. `Table.Loses`
says which pairs are gone after some statements, and that all others are still there.
-/

set_option autoImplicit false

namespace EntityGraph

open Program

variable {E : Engine} {keys : List (String × String)} {s s' : Session} {conn : Connection}
  {table c₁ c₂ k fk : String} {ids : List Value}

/-- The pairs of a table in two columns are those that it had before, without those of a kind. -/
def Table.Loses (E : Engine) (t : Table) (c₁ c₂ : String) (taken : Value × Value → Prop)
    (t' : Table) : Prop :=
  ∀ p, t'.HasPair E c₁ c₂ p ↔ t.HasPair E c₁ c₂ p ∧ ¬taken p

namespace Table.Loses

variable {t t' t'' : Table} {P Q : Value × Value → Prop}

theorem refl (t : Table) : t.Loses E c₁ c₂ (fun _ => False) t :=
  fun _ => (and_iff_left not_false).symm

theorem congr (h : t.Loses E c₁ c₂ P t') (hPQ : ∀ p, P p ↔ Q p) : t.Loses E c₁ c₂ Q t' :=
  fun p => (h p).trans (and_congr_right' (not_congr (hPQ p)))

theorem trans (h : t.Loses E c₁ c₂ P t') (h' : t'.Loses E c₁ c₂ Q t'') :
    t.Loses E c₁ c₂ (fun p => P p ∨ Q p) t'' := by
  intro p
  rw [h' p, h p, and_assoc, ← not_or]

/-- Rows that change in place lose a pair where one of both values is absent afterwards. -/
theorem of_map {g : Tuple → Tuple} (hrows : t'.rows = t.rows.map g)
    (hless : ∀ r ∈ t.rows, ∀ c, c = c₁ ∨ c = c₂ → g r c = r c ∨ (g r c).isNull = true)
    (htaken : ∀ r ∈ t.rows, ∀ p, E.SamePair (pairOf c₁ c₂ r) p →
      (P p ↔ (g r c₁).isNull = true ∨ (g r c₂).isNull = true)) :
    t.Loses E c₁ c₂ P t' := by
  intro p
  unfold HasPair
  rw [hrows]
  constructor
  · rintro ⟨r', hr', hp⟩
    obtain ⟨r, hr, rfl⟩ := List.mem_map.mp hr'
    have h₁ := Bool.eq_false_iff.mp (Engine.isNull_of_equal hp.1)
    have h₂ := Bool.eq_false_iff.mp (Engine.isNull_of_equal hp.2)
    have hsame : pairOf c₁ c₂ (g r) = pairOf c₁ c₂ r :=
      Prod.ext ((hless r hr c₁ (.inl rfl)).resolve_right h₁)
        ((hless r hr c₂ (.inr rfl)).resolve_right h₂)
    rw [hsame] at hp
    exact ⟨⟨r, hr, hp⟩, fun hP => ((htaken r hr p hp).mp hP).elim h₁ h₂⟩
  · rintro ⟨⟨r, hr, hp⟩, hP⟩
    rw [htaken r hr p hp, not_or] at hP
    have hsame : pairOf c₁ c₂ (g r) = pairOf c₁ c₂ r :=
      Prod.ext ((hless r hr c₁ (.inl rfl)).resolve_right hP.1)
        ((hless r hr c₂ (.inr rfl)).resolve_right hP.2)
    exact ⟨g r, List.mem_map_of_mem hr, by rwa [hsame]⟩

/-- Rows that keep both values lose no pair. -/
theorem of_same {g : Tuple → Tuple} (hrows : t'.rows = t.rows.map g)
    (hsame : ∀ r ∈ t.rows, ∀ c, c = c₁ ∨ c = c₂ → g r c = r c) :
    t.Loses E c₁ c₂ (fun _ => False) t' := by
  refine of_map hrows (fun r hr c hc => .inl (hsame r hr c hc)) fun r hr p hp => ?_
  have h₁ : (r c₁).isNull = false := Engine.isNull_of_equal hp.1
  have h₂ : (r c₂).isNull = false := Engine.isNull_of_equal hp.2
  simp [hsame r hr c₁ (.inl rfl), hsame r hr c₂ (.inr rfl), h₁, h₂]

end Table.Loses

/-- The pairs of a row with its columns exchanged. -/
theorem Table.hasPair_swap {t : Table} {p : Value × Value} :
    t.HasPair E c₁ c₂ p ↔ t.HasPair E c₂ c₁ p.swap :=
  exists_congr fun _ => and_congr_right fun _ => And.comm

namespace Edge

/-- The edge joins one of the nodes to one of its targets, which are the same as two values. -/
def Joins (E : Engine) (e : Edge) (nodes : Value → Prop) (x v : Value) : Prop :=
  ∃ i, nodes i ∧ ∃ t ∈ e.target.nodes, E.equal x i = true ∧ E.equal v t = true

/-- An edge links a pair if it joins its ends, in either direction if it serves both. -/
theorem links_pair {e : Edge} {nodes : Value → Prop} {x v : Value} :
    e.Links E nodes (e.pair x v) ↔
      e.Joins E nodes x v ∨ e.bidi = true ∧ e.Joins E nodes v x := by
  unfold Links Joins
  simp only [samePair_pair, Prod.swap_swap, ownEnd_pair, ownEnd_swap_pair]
  constructor
  · rintro ⟨i, hi, t, ht, h | ⟨hbidi, h⟩⟩
    · exact .inl ⟨i, hi, t, ht, h⟩
    · exact .inr ⟨hbidi, i, hi, t, ht, h⟩
  · rintro (⟨i, hi, t, ht, h⟩ | ⟨hbidi, i, hi, t, ht, h⟩)
    · exact ⟨i, hi, t, ht, .inl h⟩
    · exact ⟨i, hi, t, ht, .inr ⟨hbidi, h⟩⟩

/-- Nothing that writes the foreign key of the edge writes one of two columns of a table. -/
def SparesColumns (e : Edge) (table c₁ c₂ : String) : Prop :=
  e.table = table → ∀ fk, e.columns = [fk] → columnName fk ≠ c₁ ∧ columnName fk ≠ c₂

end Edge

/-- A loop loses the pairs that its rounds lose. -/
theorem leads_forM_loses {α : Type} {f : α → Program PUnit} {xs : List α} {name : List String}
    {taken : α → Value × Value → Prop}
    (hf : ∀ x ∈ xs, ∀ s s', (f x).Leads E keys s () s' →
      (s.current name).Loses E c₁ c₂ (taken x) (s'.current name))
    (h : (xs.forM f).Leads E keys s () s') :
    (s.current name).Loses E c₁ c₂ (fun p => ∃ x ∈ xs, taken x p) (s'.current name) := by
  induction xs generalizing s with
  | nil =>
    obtain rfl := leads_forM_nil.mp h
    exact (Table.Loses.refl _).congr fun p => by simp
  | cons x xs ih =>
    obtain ⟨mid, hx, hxs⟩ := leads_forM_cons.mp h
    have hfirst := hf x List.mem_cons_self s mid hx
    have hrest := ih (fun y hy => hf y (List.mem_cons_of_mem x hy)) hxs
    exact (hfirst.trans hrest).congr fun p => by simp

namespace ForeignKey

variable {e : Edge} {edges : List Edge} {db : Database} {w : Update}

/-- Clearing an edge whose foreign key is in neither column loses no pair. -/
theorem clearing_loses_none (hw : clearing ids e = .ok w) (he : e.SparesColumns table c₁ c₂) :
    (db (nameParts table)).Loses E c₁ c₂ (fun _ => False) (w.applied E db (nameParts table)) := by
  obtain ⟨fk, hfk, -⟩ := clearing_eq_ok.mp hw
  refine .of_same (Update.applied_rows _) fun r _ c hc => ?_
  rw [clearing_rowIn hw hfk]
  split
  case isFalse => rfl
  case isTrue hreached =>
    obtain ⟨h₁, h₂⟩ := he hreached.1 fk hfk
    refine Function.update_of_ne ?_ _ _
    rcases hc with rfl | rfl
    · exact h₁.symm
    · exact h₂.symm

/-- Clearing an edge to listed targets loses the pairs of the targets with the nodes. -/
theorem clearing_loses (hw : clearing ids e = .ok w)
    (hnames : ∀ n ∈ w.names, db.knows w.table n = true) (hcolumns : e.columns = [fk])
    (hnodes : e.target.nodes ≠ []) (hfk : nameParts fk = [fk])
    (hid : nameParts e.target.id.column = [e.target.id.column]) :
    (db (nameParts e.table)).Loses E e.target.id.column fk (fun p => e.Joins E (· ∈ ids) p.2 p.1)
      (w.applied E db (nameParts e.table)) := by
  have hrow : ∀ r, w.rowIn E db (nameParts e.table) r =
      if db.meets E e.table (some (clearedRows ids e fk)) r = true then Function.update r fk .null
      else r := by
    intro r
    rw [clearing_rowIn hw hcolumns, columnName_plain hfk]
    exact if_congr (and_iff_right rfl) rfl rfl
  refine .of_map (Update.applied_rows _) (fun r _ c _ => ?_) fun r _ p hp => ?_
  · rw [hrow]
    split
    case isFalse => exact .inl rfl
    case isTrue =>
      by_cases hc : c = fk
      · exact .inr (by rw [hc, Function.update_self]; rfl)
      · exact .inl (Function.update_of_ne hc _ _)
  · obtain ⟨fk', hfk', rfl⟩ := clearing_eq_ok.mp hw
    obtain rfl : fk = fk' := by simpa using hcolumns.symm.trans hfk'
    have hknowsKey : db.knows e.table fk = true := hnames fk (by simp [Update.names])
    have hknowsId : db.knows e.table e.target.id.column = true :=
      hnames _ (List.mem_append_right _ (mem_columns_clearedRows hnodes))
    have hpid : (r e.target.id.column).isNull = false := Engine.isNull_of_equal hp.1
    have hpfk : (r fk).isNull = false := Engine.isNull_of_equal hp.2
    have hmeets : db.meets E e.table (some (clearedRows ids e fk)) r = true ↔
        e.Joins E (· ∈ ids) p.2 p.1 := by
      have hempty : ¬e.target.nodes.isEmpty = true := by simpa [List.isEmpty_iff] using hnodes
      rw [clearedRows, if_neg hempty, Predicate.bothOneOf, meets_and,
        meets_oneOf hknowsId (by rwa [columnName_plain hid]),
        meets_oneOf hknowsKey (by rwa [columnName_plain hfk]), columnName_plain hid,
        columnName_plain hfk, Bool.and_eq_true, List.any_eq_true, List.any_eq_true]
      have htarget : ∀ t, E.equal p.1 t = E.equal (r e.target.id.column) t :=
        fun t => (Engine.equal_congr_left hp.1 t).symm
      have hnode : ∀ i, E.equal p.2 i = E.equal (r fk) i :=
        fun i => (Engine.equal_congr_left hp.2 i).symm
      unfold Edge.Joins
      simp only [htarget, hnode]
      constructor
      · rintro ⟨⟨t, ht, hpt⟩, i, hi, hpi⟩
        exact ⟨i, hi, t, ht, hpi, hpt⟩
      · rintro ⟨i, hi, t, ht, hpi, hpt⟩
        exact ⟨⟨t, ht, hpt⟩, i, hi, hpi⟩
    rw [← hmeets, hrow]
    split
    case isTrue hmet => exact iff_of_true hmet (.inr (by rw [Function.update_self]; rfl))
    case isFalse hspared => exact iff_of_false hspared (by simp [hpid, hpfk])

/-- Clearing edges, some of which are stored in a column and the others elsewhere, loses the pairs
that the former join. -/
theorem leads_clear_loses (hids : ids ≠ []) (hfk : nameParts fk = [fk]) (hid : nameParts k = [k])
    (hedges : ∀ e ∈ edges, e.isForeignKeyEdge = true →
      (e.table = table ∧ e.columns = [fk] ∧ e.target.id.column = k ∧ e.target.nodes ≠ []) ∨
        e.SparesColumns table k fk)
    (h : (clear conn ids edges).Leads E keys s () s') :
    (s.current (nameParts table)).Loses E k fk
      (fun p => ∃ e ∈ edges, e.isForeignKeyEdge = true ∧ e.table = table ∧ e.columns = [fk] ∧
        e.Joins E (· ∈ ids) p.2 p.1)
      (s'.current (nameParts table)) := by
  unfold clear at h
  split at h
  case isTrue hempty => exact absurd (List.isEmpty_iff.mp hempty) hids
  case isFalse =>
    have hround : ∀ e ∈ edges.filter Edge.isForeignKeyEdge, ∀ t t' : Session,
        (ofExcept (clearing ids e) >>= fun w =>
          discard (conn.exec (.update w))).Leads E keys t () t' →
        (t.current (nameParts table)).Loses E k fk
          (fun p => e.table = table ∧ e.columns = [fk] ∧ e.Joins E (· ∈ ids) p.2 p.1)
          (t'.current (nameParts table)) := by
      intro e he t t' ht
      obtain ⟨he, hforeign⟩ := List.mem_filter.mp he
      obtain ⟨w, _, hlift, hdiscard⟩ := leads_bind.mp ht
      obtain ⟨hw, rfl⟩ := leads_ofExcept.mp hlift
      obtain ⟨n, hexec⟩ := leads_discard.mp hdiscard
      obtain ⟨hnames, hcurrent, -, -⟩ := leads_update hexec
      rw [hcurrent]
      rcases hedges e he hforeign with ⟨rfl, hcolumns, rfl, hnodes⟩ | hspares
      · exact (clearing_loses hw hnames hcolumns hnodes hfk hid).congr fun p =>
          ⟨fun h => ⟨rfl, hcolumns, h⟩, fun h => h.2.2⟩
      · refine (clearing_loses_none hw hspares).congr fun p => iff_of_false not_false ?_
        rintro ⟨htable, hcolumns, -⟩
        exact (hspares htable fk hcolumns).2 (columnName_plain hfk)
    refine (leads_forM_loses hround h).congr fun p => ?_
    simp only [List.mem_filter, and_assoc]

/-- Linking targets over edges that are stored elsewhere loses no pair. -/
theorem leads_add_loses_none
    (hedges : ∀ e ∈ edges, e.isForeignKeyEdge = true → e.SparesColumns table c₁ c₂)
    (h : (add conn ids edges).Leads E keys s () s') :
    (s.current (nameParts table)).Loses E c₁ c₂ (fun _ => False)
      (s'.current (nameParts table)) := by
  rcases leads_add h with ⟨-, rfl⟩ | ⟨id, -, hlinks⟩
  · exact .refl _
  · refine Table.Loses.congr (leads_forM_loses (fun e he t t' ht => ?_) hlinks) (P := fun p =>
      ∃ e ∈ edges.filter fun e => e.isForeignKeyEdge && !e.target.nodes.isEmpty, False) (by simp)
    obtain ⟨he, hlinks⟩ := List.mem_filter.mp he
    have hspares := hedges e he (Bool.and_eq_true_iff.mp hlinks).1
    obtain ⟨fk, hfk, hnames, hcurrent, -⟩ := leads_link ht
    rw [hcurrent]
    refine .of_same (Update.applied_rows _) fun r _ c hc => ?_
    by_cases htable : e.table = table
    · obtain ⟨h₁, h₂⟩ := hspares htable fk hfk
      refine linking_rowIn_keeps hnames r (.inl ?_)
      rcases hc with rfl | rfl
      · exact h₁.symm
      · exact h₂.symm
    · have hname : nameParts (linking id fk e).table ≠ nameParts table :=
        fun hparts => htable (nameParts_injective hparts)
      rw [Update.rowIn, if_neg hname]

end ForeignKey

end EntityGraph
