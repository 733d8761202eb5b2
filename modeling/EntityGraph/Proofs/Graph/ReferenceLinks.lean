import EntityGraph.Proofs.Graph.OneToOne
import EntityGraph.Proofs.Graph.StoredEdges
import EntityGraph.Proofs.Relational.References

/-!
# Foreign keys of one to one under the statements of a creation

Rows of join tables and links of other foreign keys leave a foreign key as it is. A link of one to one
writes the node into the row of its target: the column has the node then, and had it nowhere before,
so no value is there twice.
-/

set_option autoImplicit false

namespace EntityGraph

open Program

variable {E : Engine} {S : Schema} {s s' : Session} {conn : Connection} {f : Reference}
  {x v : Value} {e : Edge} {es : List Edge}

/-- A column that has been kept has its values apart if it had them so before. -/
theorem Table.Keeps.unique {t t' : Table} {c : String} (h : t.Keeps c t') (hunique : t.Unique E c) :
    t'.Unique E c := by
  obtain ⟨-, g, hrows, hg⟩ := h
  unfold Table.Unique
  rw [hrows, List.pairwise_map]
  refine hunique.imp fun hapart => ?_
  rwa [(hg _).1, (hg _).1]

/-- A table whose rows have changed elsewhere only. -/
theorem Reference.IsPaired.of_keeps {db db' : Database} (h : f.IsPaired E db)
    (hf : f.IsDeclared S) (hextends : db.Extends S.keys db')
    (hkeeps : (db (nameParts f.table)).Keeps f.column (db' (nameParts f.table))) :
    f.IsPaired E db' := by
  have hunique := hkeeps.unique h.unique
  obtain ⟨hcolumns, g, hrows, hg⟩ := hkeeps
  refine ⟨⟨h.column.plain, h.column.notStar, by rw [hcolumns]; exact h.column.mem⟩, ?_, hunique⟩
  intro r' hr' hpresent
  rw [hrows] at hr'
  obtain ⟨r, hr, rfl⟩ := List.mem_map.mp hr'
  rw [(hg r).1] at hpresent ⊢
  exact hextends.holds hf.key (h.intact r hr hpresent)

/-- A value of a column that has been kept was there before. -/
theorem Table.Keeps.holds {t t' : Table} {c : String} (h : t.Keeps c t') (hv : t'.Holds E c v) :
    t.Holds E c v := by
  obtain ⟨-, g, hrows, hg⟩ := h
  obtain ⟨r', hr', hequal⟩ := hv
  rw [hrows] at hr'
  obtain ⟨r, hr, rfl⟩ := List.mem_map.mp hr'
  rw [(hg r).1] at hequal
  exact ⟨r, hr, hequal⟩

/-! ## Join tables -/

/-- Writing join tables leaves all rows in their tables. -/
theorem JoinTable.reaches_add_subset {links : List (List Value × Edge)}
    (h : (JoinTable.add conn links).Reaches (Call.Records E S) s () s') :
    ∀ name, (s.current name).rows ⊆ (s'.current name).rows := by
  refine reaches_add_invariant (fun _ _ _ _ => Call.Records.answers)
    (fun t => ∀ name, (s.current name).rows ⊆ (t.current name).rows)
    (fun g hg i r t t' hinsert hexec hkeep name => ?_) h fun _ => List.Subset.refl _
  obtain ⟨statement, hcompile, ⟨hcarried, -⟩, reported, hstored, -⟩ := reaches_execInsert.mp hexec
  refine List.Subset.trans (hkeep name) ?_
  by_cases hname : name = nameParts statement.table
  · subst hname
    apply hstored.stored.subset
    intro clause hclause
    obtain ⟨first, -, rowss, -, rfl⟩ := insertOf_eq_ok hinsert (mem_of_groupByName hg).1
    exact (inert_of_compile hcompile (by dsimp only; split <;> simp) rfl hclause).2
  · have hsame : t'.current name = t.current name := hcarried name hname
    rw [hsame]
    exact List.Subset.refl _

/-! ## Links -/

/-- The column of an edge is a foreign key. -/
def Edge.isStoredThere (f : Reference) (e : Edge) : Bool :=
  e.table == f.table && (e.columns.map columnName).contains f.column

namespace ForeignKey

/-- Linking targets leaves the keys of all rows as they are. -/
theorem leads_links_extends (h : (es.forM (link conn x)).Leads E S.keys s () s')
    (hs : s.current.Obeys E S.keys) :
    s.current.Extends S.keys s'.current ∧ s'.current.Obeys E S.keys := by
  refine leads_forM_invariant (fun db => s.current.Extends S.keys db ∧ db.Obeys E S.keys)
    (fun e _ t t' ht hkeep => ?_) h ⟨.refl _, hs⟩
  obtain ⟨fk, -, hnames, hcurrent, -, hobeys⟩ := leads_link ht
  refine ⟨hkeep.1.trans fun k hk r hr => ?_, hobeys⟩
  rw [hcurrent]
  refine ⟨_, Update.mem_applied hr, ?_⟩
  exact linking_rowIn_keeps hnames r (.inr ((hkeep.2 k hk).present r hr))

theorem leads_link_extends (h : (link conn x e).Leads E S.keys s () s')
    (hs : s.current.Obeys E S.keys) :
    s.current.Extends S.keys s'.current ∧ s'.current.Obeys E S.keys := by
  have hlinks : ([e].forM (link conn x)).Leads E S.keys s () s' :=
    leads_forM_cons.mpr ⟨s', h, leads_forM_nil.mpr rfl⟩
  exact leads_links_extends hlinks hs

/-- An edge of one to one is linked. The node was in no row before. -/
theorem leads_link_paired (h : f.IsPaired E s.current) (hf : f.IsDeclared S)
    (hs : s.current.Obeys E S.keys) (htable : e.table = f.table) (hcolumns : e.columns = [f.column])
    (hkey : (f.table, e.target.id.column) ∈ S.keys) (htarget : ∃ t, e.target.nodes = [t])
    (hnew : ¬f.Holds E s.current x) (hx : f.Reaches E s.current x)
    (hlink : (link conn x e).Leads E S.keys s () s') :
    f.IsPaired E s'.current ∧
      ∀ v, f.Holds E s'.current v → f.Holds E s.current v ∨ E.equal x v = true := by
  obtain ⟨t, ht⟩ := htarget
  have hextends := (leads_link_extends hlink hs).1
  obtain ⟨fk, hfk, hnames, hcurrent, -, -⟩ := leads_link hlink
  obtain rfl : f.column = fk := by simpa using hcolumns.symm.trans hfk
  have hkeyed : (s.current (nameParts f.table)).HasKey E e.target.id.column := hs _ hkey
  have hrow : ∀ r, (linking x f.column e).rowIn E s.current (nameParts f.table) r f.column =
      if E.picks (r e.target.id.column) t && (r f.column).isNull then x else r f.column := by
    intro r
    have hlinked := linking_rowIn (E := E) ht hnames r
    rw [htable, columnName_plain hkeyed.plain, columnName_plain h.column.plain] at hlinked
    rw [hlinked]
    split
    case isTrue => exact Function.update_self ..
    case isFalse => rfl
  have hrows : (s'.current (nameParts f.table)).rows = (s.current (nameParts f.table)).rows.map
      ((linking x f.column e).rowIn E s.current (nameParts f.table)) := by
    rw [hcurrent, Update.applied_rows]
  refine ⟨⟨⟨h.column.plain, h.column.notStar, ?_⟩, ?_, ?_⟩, ?_⟩
  · rw [hcurrent, Update.applied_columns]
    exact h.column.mem
  · intro r' hr' hpresent
    rw [hrows] at hr'
    obtain ⟨r, hr, rfl⟩ := List.mem_map.mp hr'
    apply hextends.holds hf.key
    rw [hrow] at hpresent ⊢
    split at hpresent
    case isTrue hreached =>
      rw [if_pos hreached]
      exact hx
    case isFalse hspared =>
      rw [if_neg hspared]
      exact h.intact r hr hpresent
  · show (s'.current (nameParts f.table)).rows.Pairwise _
    rw [hrows]
    refine hkeyed.unique_linked h.unique (fun r _ => hrow r) fun _ _ _ r hr => ?_
    rw [Bool.eq_false_iff]
    exact fun hequal => hnew ⟨r, hr, hequal⟩
  · rintro v ⟨r', hr', hequal⟩
    rw [hrows] at hr'
    obtain ⟨r, hr, rfl⟩ := List.mem_map.mp hr'
    rw [hrow] at hequal
    split at hequal
    case isTrue => exact .inr hequal
    case isFalse => exact .inl ⟨r, hr, hequal⟩

/-- Links of other foreign keys leave a foreign key as it is. -/
theorem leads_links_other (hes : ∀ e ∈ es, e.isStoredThere f = false)
    (h : (es.forM (link conn x)).Leads E S.keys s () s') (hs : s.current.Obeys E S.keys) :
    (s.current (nameParts f.table)).Keeps f.column (s'.current (nameParts f.table)) := by
  refine (leads_links_keep (fun e he htable fk hfk => ?_) h hs).1
  rintro hsame
  have hother := hes e he
  simp [Edge.isStoredThere, htable, hfk, hsame] at hother

/-- The targets of edges are linked, at most one of which is stored in a foreign key of one to one:
the node was in no row before. -/
theorem leads_links_paired (h : f.IsPaired E s.current) (hf : f.IsDeclared S)
    (hs : s.current.Obeys E S.keys)
    (honce : (es.filter (Edge.isStoredThere f)).length ≤ 1)
    (hstored : ∀ e ∈ es, e.isStoredThere f = true → e.columns = [f.column] ∧
      (f.table, e.target.id.column) ∈ S.keys ∧ (∃ t, e.target.nodes = [t]) ∧
        ¬f.Holds E s.current x ∧ f.Reaches E s.current x)
    (hlinks : (es.forM (link conn x)).Leads E S.keys s () s') :
    f.IsPaired E s'.current ∧
      ∀ v, f.Holds E s'.current v → f.Holds E s.current v ∨ E.equal x v = true := by
  cases hfound : es.filter (Edge.isStoredThere f) with
  | nil =>
    have hkeeps := leads_links_other (f := f) (fun e he => by
      simpa using List.filter_eq_nil_iff.mp hfound e he) hlinks hs
    have hextends := (leads_links_extends hlinks hs).1
    exact ⟨h.of_keeps hf hextends hkeeps, fun v hv => .inl (hkeeps.holds hv)⟩
  | cons e rest =>
    have hrest : rest = [] := by
      rw [hfound, List.length_cons] at honce
      exact List.length_eq_zero_iff.mp (by omega)
    subst hrest
    obtain ⟨before, after, rfl, hbefore, he, hafter⟩ := List.filter_eq_cons_iff.mp hfound
    obtain ⟨mid, hfirst, hothers⟩ := leads_forM_append hlinks
    obtain ⟨linked, hlink, hlast⟩ := leads_forM_cons.mp hothers
    obtain ⟨hcolumns, hkey, htarget, hnew, hx⟩ := hstored e (by simp) he
    have htable : e.table = f.table := by
      simp only [Edge.isStoredThere, Bool.and_eq_true, beq_iff_eq] at he
      exact he.1
    -- the links before leave the column as it is
    have hkeeps := leads_links_other (f := f) (fun e he => by simpa using hbefore e he) hfirst hs
    obtain ⟨hextends, hmid⟩ := leads_links_extends hfirst hs
    obtain ⟨hpaired, hvalues⟩ := leads_link_paired (h.of_keeps hf hextends hkeeps) hf hmid htable
      hcolumns hkey htarget (fun hv => hnew (hkeeps.holds hv)) (hextends.holds hf.key hx) hlink
    have hlinked := (leads_link_extends hlink hmid).2
    -- and so do the links after it
    have hkeeps' := leads_links_other (f := f) (fun e he => by
      simpa using List.filter_eq_nil_iff.mp hafter e he) hlast hlinked
    have hextends' := (leads_links_extends hlast hlinked).1
    refine ⟨hpaired.of_keeps hf hextends' hkeeps', fun v hv => ?_⟩
    rcases hvalues v (hkeeps'.holds hv) with hheld | hequal
    · exact .inl (hkeeps.holds hheld)
    · exact .inr hequal

end ForeignKey

end EntityGraph
