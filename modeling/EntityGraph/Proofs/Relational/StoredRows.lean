import EntityGraph.Proofs.Relational.Performed

/-!
# Rows of INSERTs that are put together

What an INSERT stores depends on its table, its columns and its conflict clause, and on the rows that
it stores one after the other: two INSERTs of the same shape store what one with the rows of both
would store. If every column that the database could fill in is written, and stored rows are never
changed, then the rows that the table has afterwards are determined but for their order.
-/

set_option autoImplicit false

namespace EntityGraph

namespace InsertStatement

variable {E : Engine} {S : Schema} {i j : InsertStatement} {v : List Value} {x y : Tuple}
  {rows rows' rows₁ rows₂ mid before reported reported' : List Tuple}
  {values values' : List (List Value)} {o o' : Option Tuple}

/-! ## The shape of an INSERT -/

/-- The INSERTs differ in their rows, and in what they report of them. -/
structure SameShape (i j : InsertStatement) : Prop where
  table : i.table = j.table
  columns : i.columns = j.columns
  conflict : i.conflict = j.conflict

theorem Proposes.congr (h : i.SameShape j) (hx : i.Proposes E S rows v x) :
    j.Proposes E S rows v x where
  written := by
    rw [← h.columns]
    exact hx.written
  unwritten := by
    rw [← h.columns, ← h.table]
    exact hx.unwritten
  fresh := by
    rw [← h.columns, ← h.table]
    exact hx.fresh

theorem StoresRow.congr (h : i.SameShape j) (hx : i.StoresRow E S x rows rows' o) :
    j.StoresRow E S x rows rows' o := by
  cases hx with
  | added free perm =>
    rw [h.table] at free
    exact .added free perm
  | skipped key_mem mem agree conflict about resolve =>
    rw [h.table] at key_mem
    rw [h.conflict] at conflict
    exact .skipped key_mem mem agree conflict about resolve
  | changed key_mem agree conflict about resolve =>
    rw [h.table] at key_mem
    rw [h.conflict] at conflict
    exact .changed key_mem agree conflict about resolve

theorem StoresRows.congr (h : i.SameShape j) (hx : i.StoresRows E S values rows rows' reported) :
    j.StoresRows E S values rows rows' reported := by
  induction hx with
  | nil => exact .nil
  | cons proposes stores _ ih => exact .cons (proposes.congr h) (stores.congr h) ih

/-- Rows that are stored after others are stored together with them. -/
theorem StoresRows.append (h : i.StoresRows E S values rows mid reported)
    (h' : i.StoresRows E S values' mid rows' reported') :
    i.StoresRows E S (values ++ values') rows rows' (reported ++ reported') := by
  induction h with
  | nil => exact h'
  | cons proposes stores _ ih =>
    rw [List.cons_append, List.append_assoc]
    exact .cons proposes stores (ih h')

/-! ## Determined rows -/

/-- The database fills in no column: the one that it could fill in is written. -/
def WritesIdentity (S : Schema) (i : InsertStatement) : Prop :=
  ∀ c, S.identity i.table = some c → c ∈ i.columns

/-- A row has the values that an INSERT writes, and no others. -/
structure IsRow (i : InsertStatement) (v : List Value) (x : Tuple) : Prop where
  written : ∀ p ∈ i.columns.zip v, x p.1 = p.2
  unwritten : ∀ c, c ∉ i.columns → x c = .null

/-- It is what the database makes of them. -/
theorem IsRow.proposes (h : i.IsRow v x) (hfilled : i.WritesIdentity S) :
    i.Proposes E S rows v x where
  written := h.written
  unwritten := fun c hc _ => h.unwritten c hc
  fresh := fun c hc hidentity => absurd (hfilled c hidentity) hc

theorem Proposes.eq (hfilled : i.WritesIdentity S) (hlength : v.length = i.columns.length)
    (hx : i.Proposes E S rows v x) (hy : i.Proposes E S rows' v y) : x = y := by
  funext c
  by_cases hc : c ∈ i.columns
  · obtain ⟨k, hk, rfl⟩ := List.mem_iff_getElem.mp hc
    have hzip : k < (i.columns.zip v).length := by
      rw [List.length_zip, hlength]
      omega
    have hmem : (i.columns[k], v[k]) ∈ i.columns.zip v := by
      rw [← List.getElem_zip (h := hzip)]
      exact List.getElem_mem hzip
    rw [hx.written _ hmem, hy.written _ hmem]
  · have hidentity : S.identity i.table ≠ some c := fun h => hc (hfilled c h)
    rw [hx.unwritten c hc hidentity, hy.unwritten c hc hidentity]

/-- Where stored rows are not changed, a row is added or it is not. -/
theorem StoresRow.added_or_kept (hinert : ∀ clause, i.conflict = some clause → clause.IsInert)
    (h : i.StoresRow E S x rows rows' o) :
    ((∀ key ∈ S.uniques i.table, ∀ r ∈ rows, ¬Agree E key r x) ∧ rows'.Perm (x :: rows)) ∨
      (rows' = rows ∧ ∃ key ∈ S.uniques i.table, ∃ r ∈ rows, Agree E key r x) := by
  cases h with
  | added free perm => exact .inl ⟨free, perm⟩
  | skipped key_mem mem agree => exact .inr ⟨rfl, _, key_mem, _, mem, agree⟩
  | @changed before after key r r' clause key_mem agree conflict _ resolve =>
    right
    rcases hinert clause conflict r x with hnone | hsome
    · rw [hnone] at resolve
      cases resolve
    · obtain rfl : r = r' := Option.some.inj (hsome.symm.trans resolve)
      exact ⟨rfl, key, key_mem, r, List.mem_append_right _ List.mem_cons_self, agree⟩

theorem StoresRow.perm (hinert : ∀ clause, i.conflict = some clause → clause.IsInert)
    (hrows : rows.Perm rows') (h : i.StoresRow E S x rows rows₁ o)
    (h' : i.StoresRow E S x rows' rows₂ o') : rows₁.Perm rows₂ := by
  rcases h.added_or_kept hinert with ⟨hfree, hadded⟩ | ⟨rfl, key, hkey, r, hr, hagree⟩
  · rcases h'.added_or_kept hinert with ⟨-, hadded'⟩ | ⟨-, key, hkey, r, hr, hagree⟩
    · exact hadded.trans ((hrows.cons x).trans hadded'.symm)
    · exact absurd hagree (hfree key hkey r (hrows.mem_iff.mpr hr))
  · rcases h'.added_or_kept hinert with ⟨hfree', -⟩ | ⟨rfl, -⟩
    · exact absurd hagree (hfree' key hkey r (hrows.mem_iff.mp hr))
    · exact hrows

/-- The rows that are stored do not depend on the database but for their order. -/
theorem StoresRows.perm (hinert : ∀ clause, i.conflict = some clause → clause.IsInert)
    (hfilled : i.WritesIdentity S) (hlength : ∀ v ∈ values, v.length = i.columns.length)
    (hrows : rows.Perm rows') (h : i.StoresRows E S values rows rows₁ reported)
    (h' : i.StoresRows E S values rows' rows₂ reported') : rows₁.Perm rows₂ := by
  induction h generalizing rows' rows₂ reported' with
  | nil =>
    cases h'
    exact hrows
  | @cons v rest before mid after x o others proposes stores _ ih =>
    obtain ⟨hv, hrest⟩ := List.forall_mem_cons.mp hlength
    cases h' with
    | cons proposes' stores' rest_stored' =>
      obtain rfl := proposes.eq hfilled hv proposes'
      exact ih hrest (stores.perm hinert hrows stores') rest_stored'

/-- Rows that agree with no other in a unique key can be stored, and come before the others. -/
theorem storesRows_of_apart {added : List Tuple} (hfilled : i.WritesIdentity S)
    (hvalues : List.Forall₂ i.IsRow values added)
    (hapart : ∀ key ∈ S.uniques i.table,
      (added ++ rows).Pairwise fun r x => ¬Agree E key r x) :
    i.StoresRows E S values rows (added.reverse ++ rows) added := by
  induction hvalues generalizing rows with
  | nil => exact .nil
  | @cons v x values added hv _ ih =>
    have hperm : (x :: added ++ rows).Perm (added ++ x :: rows) := List.perm_middle.symm
    have hstored : i.StoresRows E S values (x :: rows) (added.reverse ++ x :: rows) added :=
      ih fun key hkey => (pairwise_agree_perm hperm).mp (hapart key hkey)
    rw [List.reverse_cons, List.append_assoc]
    refine .cons (hv.proposes hfilled) (.added ?_ (List.Perm.refl _)) hstored
    intro key hkey r hr hagree
    have hfirst := (List.pairwise_cons.mp (hapart key hkey)).1
    exact hfirst r (List.mem_append_right _ hr) hagree.symm

/-- An INSERT leaves a table with its rows, if that table keeps its keys. -/
theorem inserts_of_isSound {db db' : Database} {added : List Tuple}
    (hknown : ∀ c ∈ i.columns, (db (nameParts i.table)).HasColumn c)
    (hfilled : i.WritesIdentity S) (hvalues : List.Forall₂ i.IsRow i.proposals added)
    (htable : db' (nameParts i.table) = ⟨(db (nameParts i.table)).columns,
      added.reverse ++ (db (nameParts i.table)).rows⟩)
    (hsound : db'.IsSound E S) : i.Inserts E S db db' added where
  columns := hknown
  sameColumns := by rw [htable]
  stored := by
    have hperm := added.reverse_perm.append_right (db (nameParts i.table)).rows
    have hrows := (hsound i.table).uniques
    rw [htable] at hrows ⊢
    exact storesRows_of_apart hfilled hvalues fun key hkey =>
      (pairwise_agree_perm hperm).mp (hrows key hkey)

end InsertStatement

end EntityGraph
