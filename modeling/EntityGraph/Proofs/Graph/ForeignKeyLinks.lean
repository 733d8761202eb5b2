import EntityGraph.Proofs.Graph.UpdateRuns

/-!
# Which rows foreign keys link to a node

Targets are linked where they are free, and the number of rows that were reached is compared with
the number of targets. Together that means that every target has been linked: the rows of a key
cannot be more than the targets they have. What the foreign key column holds afterwards is said by
`Linked`, which each link keeps.
-/

set_option autoImplicit false

namespace EntityGraph

open Program

variable {E : Engine} {keys : List (String × String)} {s s' : Session} {conn : Connection}
  {c : String}

/-! ## Counting -/

/-- Rows that a column tells apart and that each have one of some values are not more than these. -/
theorem length_le_of_unique {rows : List Tuple} {ts : List Value}
    (hunique : rows.Pairwise fun r s => E.equal (r c) (s c) = false)
    (hrows : ∀ r ∈ rows, ∃ t ∈ ts, E.equal (r c) t = true) : rows.length ≤ ts.length := by
  induction ts generalizing rows with
  | nil =>
    cases rows with
    | nil => exact Nat.le_refl 0
    | cons r rows =>
      obtain ⟨t, ht, -⟩ := hrows r List.mem_cons_self
      cases ht
  | cons t ts ih =>
    have hone : (rows.filter fun r => E.equal (r c) t).length ≤ 1 := by
      have hnone : (rows.filter fun r => E.equal (r c) t).Pairwise fun _ _ => False := by
        refine (hunique.filter _).imp_of_mem fun {r s} hr hs hapart => ?_
        have hr := (List.mem_filter.mp hr).2
        have hs := (List.mem_filter.mp hs).2
        rw [Engine.equal_comm] at hs
        rw [Engine.equal_trans hr hs] at hapart
        cases hapart
      cases hfound : rows.filter fun r => E.equal (r c) t with
      | nil => exact Nat.zero_le 1
      | cons r rest =>
        rw [hfound] at hnone
        cases rest with
        | nil => exact Nat.le_refl 1
        | cons r' rest => exact ((List.pairwise_cons.mp hnone).1 r' List.mem_cons_self).elim
    have hothers : (rows.filter fun r => !E.equal (r c) t).length ≤ ts.length := by
      refine ih (hunique.filter _) fun r hr => ?_
      obtain ⟨hr, hne⟩ := List.mem_filter.mp hr
      obtain ⟨t', ht', hequal⟩ := hrows r hr
      rcases List.mem_cons.mp ht' with rfl | ht'
      · rw [hequal] at hne
        cases hne
      · exact ⟨t', ht', hequal⟩
    have hsplit := List.length_eq_length_filter_add (l := rows) fun r => E.equal (r c) t
    rw [List.length_cons]
    omega

/-- If they are as many, each of the values is had by a row. -/
theorem exists_equal_of_length_le {rows : List Tuple} {ts : List Value}
    (hunique : rows.Pairwise fun r s => E.equal (r c) (s c) = false)
    (hrows : ∀ r ∈ rows, ∃ t ∈ ts, E.equal (r c) t = true) (hlength : ts.length ≤ rows.length)
    {t : Value} (ht : t ∈ ts) : ∃ r ∈ rows, E.equal (r c) t = true := by
  by_contra hnone
  obtain ⟨before, after, rfl⟩ := List.append_of_mem ht
  have hshorter : rows.length ≤ (before ++ after).length := by
    refine length_le_of_unique hunique fun r hr => ?_
    obtain ⟨t', ht', hequal⟩ := hrows r hr
    rcases List.mem_append.mp ht' with hbefore | hafter
    · exact ⟨t', List.mem_append_left _ hbefore, hequal⟩
    · rcases List.mem_cons.mp hafter with rfl | hafter
      · exact absurd ⟨r, hr, hequal⟩ hnone
      · exact ⟨t', List.mem_append_right _ hafter, hequal⟩
  simp only [List.length_append, List.length_cons] at hlength hshorter
  omega

/-! ## Linking -/

/-- The targets of an edge are told apart by their IDs, and its foreign key is a plain column. -/
structure Edge.IsKeyed (keys : List (String × String)) (e : Edge) : Prop where
  key : (e.table, e.target.id.column) ∈ keys
  plain : ∀ fk, e.columns = [fk] → nameParts fk = [fk]
  present : ∀ t ∈ e.target.nodes, t.isNull = false

namespace ForeignKey

variable {id : Value} {fk table : String} {e : Edge} {db : Database} {done es : List Edge}

/-- Linking reaches the rows that have the ID of a target and are free. -/
theorem linking_meets_any (hkey : (db (nameParts e.table)).HasColumn e.target.id.column)
    (hpresent : ∀ t ∈ e.target.nodes, t.isNull = false)
    (hnames : ∀ n ∈ (linking id fk e).names, db.knows e.table n = true) (r : Tuple) :
    db.meets E e.table (linking id fk e).predicate r =
      (e.target.nodes.any (E.equal (r e.target.id.column)) && (r (columnName fk)).isNull) := by
  have hknown : db.knows e.table fk = true :=
    hnames fk (by simp [Update.names, linking, Update.filter, Update.set, Update.ofTable])
  have hpredicate : (linking id fk e).predicate = some (Predicate.conjoin
      (some (.oneOf e.target.id.column e.target.nodes)) (.isNull fk)) := rfl
  rw [hpredicate, meets_conjoin, meets_oneOf_of_present hkey.knows hpresent, meets_isNull hknown,
    columnName_plain hkey.plain]

theorem linking_meets_targets (he : e.IsKeyed keys) (hfk : e.columns = [fk])
    (hkey : (db (nameParts e.table)).HasKey E e.target.id.column)
    (hnames : ∀ n ∈ (linking id fk e).names, db.knows e.table n = true) (r : Tuple) :
    db.meets E e.table (linking id fk e).predicate r =
      (e.target.nodes.any (E.equal (r e.target.id.column)) && (r fk).isNull) := by
  rw [linking_meets_any hkey.toHasColumn he.present hnames, columnName_plain (he.plain fk hfk)]

/-- A table's rows whose foreign key has a value are those of the targets of some edges. -/
def Linked (E : Engine) (table fk : String) (id : Value) (es : List Edge) (db : Database) : Prop :=
  ∀ r ∈ (db (nameParts table)).rows, E.equal (r fk) id = true ↔
    ∃ e ∈ es, e.table = table ∧ e.columns = [fk] ∧
      ∃ t ∈ e.target.nodes, E.equal (r e.target.id.column) t = true

/-- Among the rows of a key it does not matter whether a target is there. -/
theorem linking_meets_stored (hkey : (db (nameParts e.table)).HasKey E e.target.id.column)
    (hnames : ∀ n ∈ (linking id fk e).names, db.knows e.table n = true) {r : Tuple}
    (hr : r ∈ (db (nameParts e.table)).rows) :
    db.meets E e.table (linking id fk e).predicate r =
      (e.target.nodes.any (E.equal (r e.target.id.column)) && (r (columnName fk)).isNull) := by
  have hknown : db.knows e.table fk = true :=
    hnames fk (by simp [Update.names, linking, Update.filter, Update.set, Update.ofTable])
  have hpresent := hkey.present r hr
  rw [← columnName_plain hkey.plain] at hpresent
  have hpredicate : (linking id fk e).predicate = some (Predicate.conjoin
      (some (.oneOf e.target.id.column e.target.nodes)) (.isNull fk)) := rfl
  rw [hpredicate, meets_conjoin, meets_oneOf hkey.knows hpresent, meets_isNull hknown,
    columnName_plain hkey.plain]

/-- A row that is reached gets the node. -/
theorem linking_rowAfter (hplain : nameParts fk = [fk]) {r : Tuple}
    (hmeets : db.meets E e.table (linking id fk e).predicate r = true) :
    (linking id fk e).rowAfter E db r = Function.update r fk id := by
  have hassigned : (linking id fk e).assigned E r = Function.update r (columnName fk) id := rfl
  rw [Update.rowAfter, hassigned, columnName_plain hplain]
  exact if_pos hmeets

/-- If as many rows are reached as there are targets, each target has a row that is free and gets
the node. -/
theorem exists_linked (hplain : nameParts fk = [fk])
    (hkey : (db (nameParts e.table)).HasKey E e.target.id.column)
    (hnames : ∀ n ∈ (linking id fk e).names, db.knows e.table n = true)
    (hcount : e.target.nodes.length ≤ ((linking id fk e).reached E db).length) {t : Value}
    (ht : t ∈ e.target.nodes) :
    ∃ r ∈ (db (nameParts e.table)).rows, E.equal (r e.target.id.column) t = true ∧
      (r fk).isNull = true ∧ (linking id fk e).rowAfter E db r = Function.update r fk id := by
  have hreached : ∀ r ∈ (linking id fk e).reached E db, r ∈ (db (nameParts e.table)).rows ∧
      (∃ t ∈ e.target.nodes, E.equal (r e.target.id.column) t = true) ∧ (r fk).isNull = true := by
    intro r hr
    obtain ⟨hr, hmeets⟩ := List.mem_filter.mp hr
    have hmeets := (linking_meets_stored hkey hnames hr).symm.trans hmeets
    rw [columnName_plain hplain, Bool.and_eq_true, List.any_eq_true] at hmeets
    exact ⟨hr, hmeets⟩
  have hunique : ((linking id fk e).reached E db).Pairwise fun r s =>
      E.equal (r e.target.id.column) (s e.target.id.column) = false := hkey.unique.filter _
  obtain ⟨r, hr, hequal⟩ :=
    exists_equal_of_length_le hunique (fun r hr => (hreached r hr).2.1) hcount ht
  exact ⟨r, (hreached r hr).1, hequal, (hreached r hr).2.2,
    linking_rowAfter hplain (List.mem_filter.mp hr).2⟩

/-- Linking an edge adds its targets to those that are linked. -/
theorem linked_of_link (h : Linked E table fk id done s.current) (hid : E.equal id id = true)
    (hdone : ∀ f ∈ done, f.IsKeyed keys) (he : e.IsKeyed keys) (hs : s.current.Obeys E keys)
    (hlink : (link conn id e).Leads E keys s () s') :
    Linked E table fk id (done ++ [e]) s'.current := by
  obtain ⟨fk', hfk', hnames, hcurrent, hcount, -⟩ := leads_link hlink
  have hplain := columnName_plain (he.plain fk' hfk')
  have hkey := hs _ he.key
  intro r' hr'
  rw [hcurrent, Update.applied_rows] at hr'
  obtain ⟨r, hr, rfl⟩ := List.mem_map.mp hr'
  have hkept : ∀ f ∈ done ++ [e], f.table = table →
      (linking id fk' e).rowIn E s.current (nameParts table) r f.target.id.column =
        r f.target.id.column := by
    intro f hf htable
    refine linking_rowIn_keeps hnames r (.inr ?_)
    have hkeyed : f.IsKeyed keys := by
      rcases List.mem_append.mp hf with hf | hf
      · exact hdone f hf
      · rwa [List.mem_singleton.mp hf]
    subst htable
    exact (hs _ hkeyed.key).present r hr
  have htargets : (∃ f ∈ done ++ [e], f.table = table ∧ f.columns = [fk] ∧ ∃ t ∈ f.target.nodes,
      E.equal ((linking id fk' e).rowIn E s.current (nameParts table) r f.target.id.column) t =
        true) ↔
      E.equal (r fk) id = true ∨ e.table = table ∧ fk' = fk ∧
        ∃ t ∈ e.target.nodes, E.equal (r e.target.id.column) t = true := by
    rw [h r hr]
    constructor
    · rintro ⟨f, hf, htable, hcolumns, t, ht, hequal⟩
      rw [hkept f hf htable] at hequal
      rcases List.mem_append.mp hf with hf | hf
      · exact .inl ⟨f, hf, htable, hcolumns, t, ht, hequal⟩
      · obtain rfl := List.mem_singleton.mp hf
        exact .inr ⟨htable, by simpa using hfk'.symm.trans hcolumns, t, ht, hequal⟩
    · rintro (⟨f, hf, htable, hcolumns, t, ht, hequal⟩ | ⟨htable, rfl, t, ht, hequal⟩)
      · refine ⟨f, List.mem_append_left _ hf, htable, hcolumns, t, ht, ?_⟩
        rwa [hkept f (List.mem_append_left _ hf) htable]
      · refine ⟨e, by simp, htable, hfk', t, ht, ?_⟩
        rwa [hkept e (by simp) htable]
  rw [htargets]
  by_cases hhere : e.table = table ∧ fk' = fk
  · obtain ⟨rfl, rfl⟩ := hhere
    have hmeets := linking_meets_targets (E := E) he hfk' hkey hnames r
    have hrow : (linking id fk' e).rowIn E s.current (nameParts e.table) r =
        if e.target.nodes.any (E.equal (r e.target.id.column)) && (r fk').isNull then
          Function.update r fk' id
        else r := by
      have hassigned : (linking id fk' e).assigned E r = Function.update r (columnName fk') id :=
        rfl
      rw [hplain] at hassigned
      have htable : nameParts (linking id fk' e).table = nameParts e.table := rfl
      rw [Update.rowIn, if_pos htable, Update.rowAfter, hassigned]
      exact ite_congr (congrArg (· = true) hmeets) (fun _ => rfl) fun _ => rfl
    rw [hrow]
    split
    case isTrue hreached =>
      rw [Bool.and_eq_true, List.any_eq_true] at hreached
      rw [Function.update_self]
      exact iff_of_true hid (.inr ⟨rfl, rfl, hreached.1⟩)
    case isFalse hspared =>
      refine ⟨.inl, ?_⟩
      rintro (hlinked | ⟨-, -, t, ht, hequal⟩)
      · exact hlinked
      -- the row that was free and has this ID is no other one
      obtain ⟨q, hq, hqt, hfree, -⟩ :=
        exists_linked (he.plain fk' hfk') hkey hnames hcount ht
      obtain rfl := hkey.eq_of_picks hr hq (Engine.picks_of_equal hequal)
        (Engine.picks_of_equal hqt)
      exact absurd (Bool.and_eq_true_iff.mpr ⟨List.any_eq_true.mpr ⟨t, ht, hequal⟩, hfree⟩) hspared
  · have hsame : (linking id fk' e).rowIn E s.current (nameParts table) r fk = r fk := by
      by_cases htable : e.table = table
      · refine linking_rowIn_keeps hnames r (.inl ?_)
        rw [hplain]
        exact fun hfk => hhere ⟨htable, hfk.symm⟩
      · have hname : nameParts (linking id fk' e).table ≠ nameParts table :=
          fun hparts => htable (nameParts_injective hparts)
        rw [Update.rowIn, if_neg hname]
    rw [hsame]
    refine ⟨.inl, ?_⟩
    rintro (hlinked | ⟨htable, hfk, -⟩)
    · exact hlinked
    · exact absurd ⟨htable, hfk⟩ hhere

/-- Linking edges one after the other adds the targets of them all. -/
theorem linked_of_links (h : Linked E table fk id done s.current) (hid : E.equal id id = true)
    (hdone : ∀ f ∈ done, f.IsKeyed keys) (hes : ∀ e ∈ es, e.IsKeyed keys)
    (hs : s.current.Obeys E keys) (hlinks : (es.forM (link conn id)).Leads E keys s () s') :
    Linked E table fk id (done ++ es) s'.current := by
  induction es generalizing done s with
  | nil =>
    obtain rfl := leads_forM_nil.mp hlinks
    rwa [List.append_nil]
  | cons e es ih =>
    obtain ⟨he, hes⟩ := List.forall_mem_cons.mp hes
    obtain ⟨mid, hlink, hrest⟩ := leads_forM_cons.mp hlinks
    obtain ⟨-, -, -, -, -, hobeys⟩ := leads_link hlink
    have hmid := linked_of_link h hid hdone he hs hlink
    have hdone' : ∀ f ∈ done ++ [e], f.IsKeyed keys := by
      intro f hf
      rcases List.mem_append.mp hf with hf | hf
      · exact hdone f hf
      · rwa [List.mem_singleton.mp hf]
    have hall := ih hmid hdone' hes hobeys hrest
    rwa [List.append_assoc, List.singleton_append] at hall

/-- The foreign key over which targets have been linked is no key: it was absent in their rows. -/
theorem not_key_of_links (hes : ∀ e ∈ es, e.IsKeyed keys) (hs : s.current.Obeys E keys)
    (hlinks : (es.forM (link conn id)).Leads E keys s () s') (he : e ∈ es)
    (hfk : e.columns = [fk]) (hnodes : e.target.nodes ≠ []) : (e.table, fk) ∉ keys := by
  induction es generalizing s with
  | nil => cases he
  | cons f es ih =>
    obtain ⟨hf, hes⟩ := List.forall_mem_cons.mp hes
    obtain ⟨mid, hlink, hrest⟩ := leads_forM_cons.mp hlinks
    obtain ⟨fk', hfk', hnames, -, hcount, hobeys⟩ := leads_link hlink
    rcases List.mem_cons.mp he with rfl | he
    · obtain rfl : fk = fk' := by simpa using hfk.symm.trans hfk'
      obtain ⟨t, ht⟩ := List.exists_mem_of_ne_nil _ hnodes
      obtain ⟨r, hr, -, hfree, -⟩ :=
        exists_linked (hf.plain fk hfk) (hs _ hf.key) hnames hcount ht
      intro hkey
      rw [(hs _ hkey).present r hr] at hfree
      cases hfree
    · exact ih hes hobeys hrest he

end ForeignKey

end EntityGraph
