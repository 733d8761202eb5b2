import Mathlib.Data.List.Induction
import Mathlib.Data.List.Perm.Basic
import EntityGraph.Proofs.Relational.Keys
import EntityGraph.Step

/-!
# Selections of named columns

A column is named by its bare name or with the name of its table. What a selection of such columns
selects is said in terms of the rows of the table alone: the rows that meet its condition, or that
have a partner among the rows of a joined selection, each with the values of the columns.
-/

set_option autoImplicit false

namespace EntityGraph

variable {E : Engine} {db : Database} {table name c : String} {r : Tuple}

/-- A name stands for a column of a table. -/
structure Database.Denotes (db : Database) (table name c : String) : Prop where
  knows : db.knows table name = true
  column : columnName name = c
  notStar : c ≠ "*"

theorem Table.HasColumn.denotes (h : (db (nameParts table)).HasColumn c) :
    db.Denotes table c c :=
  ⟨h.knows, columnName_plain h.plain, h.notStar⟩

theorem Table.HasColumn.denotes_qualified (h : (db (nameParts table)).HasColumn c) :
    db.Denotes table (Step.qualify table c) c := by
  have hparts : nameParts (Step.qualify table c) = nameParts table ++ [c] := by
    rw [Step.qualify, nameParts_qualified, h.plain]
  have hcolumn : columnName (Step.qualify table c) = c := by
    rw [columnName, hparts, List.getLastD_concat]
  refine ⟨?_, hcolumn, h.notStar⟩
  have hmem := h.mem
  simp [Database.knows, hcolumn, hparts, hmem]

/-- The selected column of the only row at hand. -/
theorem projected_of_denotes (h : db.Denotes table name c) :
    projected [] [⟨nameParts table, (db (nameParts table)).columns, r⟩] (nameParts name) =
      [(c, r c)] := by
  have hcolumn : (nameParts name).getLastD "" = c := h.column
  have hlookup := lookup_row (r := r) h.knows
  rw [h.column] at hlookup
  rw [projected, hcolumn, if_neg h.notStar, hlookup]

/-- The selection of columns of a table. -/
theorem outRows_columns {columns : List String} {f : String → String} (hne : columns ≠ [])
    (h : ∀ c ∈ columns, db.Denotes table (f c) c) (p : Option Predicate) :
    Selector.outRows E db
        ⟨columns.map f, .table table none, [], p, [], none, none, false, false⟩ [] =
      ((db (nameParts table)).rows.filter (db.meets E table p)).map fun r =>
        columns.map fun c => (c, r c) := by
  rw [outRows_table]
  refine List.map_congr_left fun r _ => ?_
  have hnames : Selector.columnNames (columns.map f) = columns.map fun c => nameParts (f c) := by
    cases columns with
    | nil => exact absurd rfl hne
    | cons c rest => simp [Selector.columnNames]
  rw [hnames, List.flatMap_map]
  clear hne hnames
  induction columns with
  | nil => rfl
  | cons c rest ih =>
    obtain ⟨hc, hrest⟩ := List.forall_mem_cons.mp h
    rw [List.flatMap_cons, projected_of_denotes hc, ih hrest]
    rfl

/-! ## Joined selections -/

section Linked

variable {goal key column asName : String} {o : Tuple}

/-- A row of a table beside one of a selection of one column. -/
def linkedLevel (db : Database) (goal asName column : String) (r o : Tuple) : Level :=
  [⟨nameParts goal, (db (nameParts goal)).columns, r⟩,
    OutRow.frame [(column, o column)] (nameParts asName)]

theorem lookup_goal (hkey : (db (nameParts goal)).HasColumn key) :
    Env.lookup [linkedLevel db goal asName column r o] (nameParts (Step.qualify goal key)) =
      r key := by
  have hparts : nameParts (Step.qualify goal key) = nameParts goal ++ [key] := by
    rw [Step.qualify, nameParts_qualified, hkey.plain]
  have hmem := hkey.mem
  rw [hparts]
  simp [Env.lookup, linkedLevel, Frame.value?, hmem]

theorem lookup_linked (halias : ¬nameParts asName <:+ nameParts goal)
    (hplain : nameParts column = [column]) :
    Env.lookup [linkedLevel db goal asName column r o] (nameParts (Step.qualify asName column)) =
      o column := by
  have hparts : nameParts (Step.qualify asName column) = nameParts asName ++ [column] := by
    rw [Step.qualify, nameParts_qualified, hplain]
  rw [hparts]
  simp [Env.lookup, linkedLevel, Frame.value?, OutRow.frame, halias]

section Joined

variable {links : Selector} {found : List Tuple}
  (hlinks : links.outRows E db [] = found.map fun o => [(column, o column)])
  (hkey : (db (nameParts goal)).HasColumn key) (halias : ¬nameParts asName <:+ nameParts goal)
  (hplain : nameParts column = [column])
include hlinks hkey halias hplain

/-- The rows of a table beside those of a selection of one column to which they are linked. -/
theorem joined_linked :
    joined E [] (((db (nameParts goal)).frames (nameParts goal)).map fun f => [f])
      ((links.outRows E db []).map fun r => r.frame (nameParts asName))
      (nameParts (Step.qualify goal key)) (nameParts (Step.qualify asName column)) =
      (db (nameParts goal)).rows.flatMap fun r =>
        (found.filter fun o => E.equal (r key) (o column)).map
          (linkedLevel db goal asName column r) := by
  rw [hlinks, joined, Table.frames]
  simp only [List.map_map, List.flatMap_map]
  refine List.flatMap_congr fun r _ => ?_
  rw [List.filter_map]
  have hmeets : ∀ o, (E.compare .eq
      (Env.lookup [linkedLevel db goal asName column r o] (nameParts (Step.qualify goal key)))
      (Env.lookup [linkedLevel db goal asName column r o]
        (nameParts (Step.qualify asName column)))).isYes = E.equal (r key) (o column) := by
    intro o
    rw [Engine.compare_eq_isYes, lookup_goal hkey, lookup_linked halias hplain]
  exact congrArg (List.map (linkedLevel db goal asName column r))
    (List.filter_congr fun o _ => hmeets o)

/-- A selection from a table joined with a selection of one column selects a row once for each of
the other rows that it is linked to, with what is selected of the two. -/
theorem outRows_joined (columns : List String) :
    Selector.outRows E db
        ⟨columns, .table goal none,
          [⟨.select links asName, Step.qualify goal key, Step.qualify asName column⟩], none, [],
          none, none, false, false⟩ [] =
      (db (nameParts goal)).rows.flatMap fun r =>
        (found.filter fun o => E.equal (r key) (o column)).map fun o =>
          (Selector.columnNames columns).flatMap
            (projected [] (linkedLevel db goal asName column r o)) := by
  have hall : ∀ levels : List Level, levels.filter (fun _ => Truth.yes.isYes) = levels :=
    List.filter_true
  rw [Selector.outRows]
  simp only [joinsLevels, TableRef.frames, joined_linked hlinks hkey halias hplain, Shape.result,
    Selector.shape, Selector.projection, Shape.window, List.map_nil, mergeSort_unordered,
    conditionTruth, hall, Option.or_none, Option.map_none, Option.getD_none, List.drop_zero]
  rw [List.map_flatMap]
  refine List.flatMap_congr fun r _ => ?_
  rw [List.map_map]
  rfl

/-- If only the key is selected, the other rows show in the repetitions alone. -/
theorem outRows_linked :
    Selector.outRows E db
        ⟨[Step.qualify goal key], .table goal none,
          [⟨.select links asName, Step.qualify goal key, Step.qualify asName column⟩], none, [],
          none, none, false, false⟩ [] =
      ((db (nameParts goal)).rows.flatMap fun r =>
        (found.filter fun o => E.equal (r key) (o column)).map fun _ => r).map fun r =>
          [(key, r key)] := by
  have hrow : ∀ r o, (Selector.columnNames [Step.qualify goal key]).flatMap
      (projected [] (linkedLevel db goal asName column r o)) = [(key, r key)] := by
    intro r o
    have hcolumn : (nameParts (Step.qualify goal key)).getLastD "" = key :=
      hkey.denotes_qualified.column
    have hnames : Selector.columnNames [Step.qualify goal key] =
        [nameParts (Step.qualify goal key)] := rfl
    rw [hnames, List.flatMap_singleton, projected, hcolumn, if_neg hkey.notStar, lookup_goal hkey]
  rw [outRows_joined hlinks hkey halias hplain, List.map_flatMap]
  refine List.flatMap_congr fun r _ => ?_
  rw [List.map_map]
  exact List.map_congr_left fun o _ => hrow r o

end Joined

end Linked

/-! ## Repeated rows -/

theorem outRows_distinct {columns : List String} {source : TableRef} {joins : List Join}
    {p : Option Predicate} {outer : Env} :
    Selector.outRows E db ⟨columns, source, joins, p, [], none, none, true, false⟩ outer =
      distinctRows E
        (Selector.outRows E db ⟨columns, source, joins, p, [], none, none, false, false⟩ outer) := by
  rw [Selector.outRows, Selector.outRows]
  simp [Shape.result, Selector.shape, Selector.projection, Shape.window]

/-- Where rows are alike if they have one key, leaving out repeated rows leaves one of each key. -/
theorem distinctRows_map_key {α κ : Type} {f : α → OutRow} (key : α → κ) {l : List α}
    (h : ∀ a ∈ l, ∀ b ∈ l, OutRow.alike E (f a) (f b) = true ↔ key a = key b) :
    ∃ kept ⊆ l, (kept.map key).Nodup ∧ (∀ a ∈ l, key a ∈ kept.map key) ∧
      distinctRows E (l.map f) = kept.map f := by
  induction l using List.reverseRecOn with
  | nil => exact ⟨[], List.Subset.refl [], List.nodup_nil, fun _ => List.not_mem_nil.elim, rfl⟩
  | append_singleton l a ih =>
    obtain ⟨kept, hsub, hnodup, hkeys, hdistinct⟩ := ih fun b hb c hc =>
      h b (List.mem_append_left _ hb) c (List.mem_append_left _ hc)
    have hany : (kept.map f).any (OutRow.alike E (f a)) = true ↔ key a ∈ kept.map key := by
      rw [List.any_map, List.any_eq_true, List.mem_map]
      refine exists_congr fun b => and_congr_right fun hb => ?_
      exact (h a (by simp) b (List.mem_append_left [a] (hsub hb))).trans eq_comm
    have hstep : distinctRows E ((l ++ [a]).map f) =
        if (kept.map f).any (OutRow.alike E (f a)) then kept.map f
        else kept.map f ++ [f a] := by
      rw [← hdistinct, distinctRows, distinctRows, List.map_append, List.foldl_append]
      rfl
    rw [hstep]
    split
    case isTrue hkept =>
      refine ⟨kept, List.Subset.trans hsub (List.subset_append_left l [a]), hnodup, fun b hb => ?_, rfl⟩
      rcases List.mem_append.mp hb with hb | hb
      · exact hkeys b hb
      · rw [List.mem_singleton.mp hb]
        exact hany.mp hkept
    case isFalse hnew =>
      refine ⟨kept ++ [a], fun b hb => ?_, ?_, fun b hb => ?_, by simp⟩
      · exact List.mem_append.mpr ((List.mem_append.mp hb).imp_left fun hb => hsub hb)
      · have hperm : (kept ++ [a]).Perm (a :: kept) := List.perm_append_comm
        rw [(hperm.map key).nodup_iff, List.map_cons, List.nodup_cons]
        exact ⟨fun ha => hnew (hany.mpr ha), hnodup⟩
      · rw [List.map_append, List.mem_append]
        rcases List.mem_append.mp hb with hb | hb
        · exact .inl (hkeys b hb)
        · rw [List.mem_singleton.mp hb]
          exact .inr (by simp)

/-- Leaving out repeated rows leaves one of each, where only the same rows are alike. -/
theorem distinctRows_map {α : Type} {f : α → OutRow} {l : List α}
    (h : ∀ a ∈ l, ∀ b ∈ l, OutRow.alike E (f a) (f b) = true ↔ a = b) :
    ∃ kept : List α, kept.Nodup ∧ (∀ a, a ∈ kept ↔ a ∈ l) ∧
      distinctRows E (l.map f) = kept.map f := by
  obtain ⟨kept, hsub, hnodup, hkeys, hdistinct⟩ := distinctRows_map_key id h
  rw [List.map_id] at hnodup hkeys
  exact ⟨kept, hnodup, fun a => ⟨fun ha => hsub ha, hkeys a⟩, hdistinct⟩

/-! ## Rows in some order -/

theorem exists_perm_map {α β : Type} {f : α → β} {l : List α} {out : List β}
    (h : out.Perm (l.map f)) : ∃ found : List α, found.Perm l ∧ out = found.map f := by
  have hforall : List.Forall₂ (fun b a => b = f a) (l.map f) l := by
    rw [List.forall₂_map_left_iff]
    exact List.forall₂_same.mpr fun _ _ => rfl
  obtain ⟨found, hfound, hperm⟩ := List.perm_comp_forall₂ h hforall
  refine ⟨found, hperm, ?_⟩
  clear h hforall hperm
  induction hfound with
  | nil => rfl
  | cons hb _ ih => rw [hb, ih, List.map_cons]

end EntityGraph
