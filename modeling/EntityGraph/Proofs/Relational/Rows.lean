import EntityGraph.Proofs.Relational.Keys

/-!
# What an UPDATE makes of single rows

An UPDATE changes the rows of its table one by one, so what it does to a table is a function on
rows. What the function does to a column depends on the assignments to that column only.
-/

set_option autoImplicit false

namespace EntityGraph

variable {E : Engine} {db db' : Database} {name : List String} {c : String}

namespace Update

/-- What an UPDATE makes of a row of a table, which may be another than its own. -/
def rowIn (E : Engine) (db : Database) (name : List String) (u : Update) (r : Tuple) : Tuple :=
  if nameParts u.table = name then u.rowAfter E db r else r

theorem applied_rows (u : Update) :
    (u.applied E db name).rows = (db name).rows.map (u.rowIn E db name) := by
  by_cases h : nameParts u.table = name
  · subst h
    rw [applied_table]
    apply List.map_congr_left
    intro r _
    rw [rowIn, if_pos rfl]
  · rw [applied_of_ne (Ne.symm h)]
    have hrow : u.rowIn E db name = id := by
      funext r
      rw [rowIn, if_neg h, id]
    rw [hrow, List.map_id]

/-- What becomes of a stored row is stored. -/
theorem mem_applied {u : Update} {r : Tuple} (hr : r ∈ (db name).rows) :
    u.rowIn E db name r ∈ (u.applied E db name).rows := by
  rw [applied_rows]
  exact List.mem_map_of_mem hr

theorem mem_applied_own {u : Update} {r : Tuple} (hr : r ∈ (db (nameParts u.table)).rows) :
    u.rowAfter E db r ∈ (u.applied E db (nameParts u.table)).rows := by
  rw [applied_table]
  exact List.mem_map_of_mem hr

theorem applied_columns (u : Update) : (u.applied E db name).columns = (db name).columns := by
  by_cases h : nameParts u.table = name
  · subst h
    rw [applied_table]
  · rw [applied_of_ne (Ne.symm h)]

/-! ## Assignments to one column -/

theorem foldl_assign_of_ne {l : List (String × Assignment)} (h : ∀ a ∈ l, columnName a.1 ≠ c)
    (old new : Tuple) : l.foldl (assign E old) new c = new c := by
  induction l generalizing new with
  | nil => rfl
  | cons a l ih =>
    have ha := h a List.mem_cons_self
    rw [List.foldl_cons, ih (fun b hb => h b (List.mem_cons_of_mem a hb)), assign,
      Function.update_of_ne (Ne.symm ha)]

/-- The assignments to a column all have one value, which is then in the row unless there is no such
assignment. -/
theorem foldl_assign_value {l : List (String × Assignment)} {v : Value}
    (h : ∀ a ∈ l, columnName a.1 = c → a.2 = .value v) (old new : Tuple) :
    (l.foldl (assign E old) new c = v ∧ ∃ a ∈ l, columnName a.1 = c) ∨
      (l.foldl (assign E old) new c = new c ∧ ∀ a ∈ l, columnName a.1 ≠ c) := by
  induction l generalizing new with
  | nil => exact .inr ⟨rfl, fun a ha => by cases ha⟩
  | cons a l ih =>
    rw [List.foldl_cons]
    rcases ih (fun b hb => h b (List.mem_cons_of_mem a hb)) (assign E old new a) with
      ⟨hv, b, hb, hc⟩ | ⟨hnew, hne⟩
    · exact .inl ⟨hv, b, List.mem_cons_of_mem a hb, hc⟩
    · by_cases ha : columnName a.1 = c
      · refine .inl ⟨?_, a, List.mem_cons_self, ha⟩
        rw [hnew, assign, ha, Function.update_self, h a List.mem_cons_self ha]
        rfl
      · refine .inr ⟨?_, fun b hb => ?_⟩
        · rw [hnew, assign, Function.update_of_ne (Ne.symm ha)]
        · rcases List.mem_cons.mp hb with rfl | hb
          · exact ha
          · exact hne b hb

end Update

/-! ## Statements that only take values away -/

namespace Command

/-- What a statement makes of a row of a table: nothing, if it deletes the row. -/
def rowIn (E : Engine) (db : Database) (name : List String) : Command → Tuple → Option Tuple
  | .update u, r => some (u.rowIn E db name r)
  | .delete x, r =>
    if nameParts x.table = name ∧ db.meets E x.table x.predicate r = true then none else some r
  | _, r => some r

/-- What several statements, one after the other, make of a row of a table. -/
def rowThrough (E : Engine) (db : Database) (name : List String) (cs : List Command)
    (r : Tuple) : Option Tuple :=
  cs.foldlM (fun r c => c.rowIn E db name r) r

/-- On a table that has the columns that it has in `db`, the statement does to each row what it
would do in `db`: it deletes the row, or takes values from it and writes none. -/
structure Unlinks (E : Engine) (db : Database) (name : List String) (c : Command) : Prop where
  columns : ∀ {s s'}, c.Carried E s s' → (s' name).columns = (s name).columns
  rows : ∀ {s s'}, c.Carried E s s' → (s name).columns = (db name).columns →
    (s' name).rows = (s name).rows.filterMap (c.rowIn E db name)
  keeps : ∀ {r r'}, c.rowIn E db name r = some r' → ∀ k, r' k = r k ∨ (r' k).isNull = true

theorem rowThrough_cons (c : Command) (cs : List Command) (r : Tuple) :
    rowThrough E db name (c :: cs) r = (c.rowIn E db name r).bind (rowThrough E db name cs) := rfl

theorem rowThrough_append (cs cs' : List Command) (r : Tuple) :
    rowThrough E db name (cs ++ cs') r =
      (rowThrough E db name cs r).bind (rowThrough E db name cs') :=
  List.foldlM_append

theorem rowThrough_keeps {cs : List Command} (h : ∀ c ∈ cs, c.Unlinks E db name) {r r' : Tuple}
    (hr : rowThrough E db name cs r = some r') (k : String) :
    r' k = r k ∨ (r' k).isNull = true := by
  induction cs generalizing r with
  | nil =>
    obtain rfl : r = r' := Option.some.inj hr
    exact .inl rfl
  | cons c cs ih =>
    rw [rowThrough_cons] at hr
    obtain ⟨mid, hmid, hrest⟩ := Option.bind_eq_some_iff.mp hr
    rcases ih (fun d hd => h d (List.mem_cons_of_mem c hd)) hrest with hsame | hnull
    · rw [hsame]
      exact (h c List.mem_cons_self).keeps hmid k
    · exact .inr hnull

end Command

section Local

/-- The truth of the condition depends on the rows around it only. -/
def Predicate.IsLocal (E : Engine) (p : Predicate) : Prop :=
  ∀ db db' env, p.truth E db env = p.truth E db' env

variable {p : Predicate}

theorem Predicate.IsLocal.meets (hp : p.IsLocal E) {table : String}
    (hcolumns : (db (nameParts table)).columns = (db' (nameParts table)).columns) (r : Tuple) :
    db.meets E table (some p) r = db'.meets E table (some p) r := by
  rw [Database.meets, Database.meets, conditionTruth, conditionTruth, hcolumns, hp db db']

theorem isLocal_disj {ps : List Predicate} (h : ∀ p ∈ ps, p.IsLocal E) :
    (Predicate.disj ps).IsLocal E := by
  intro db db' env
  rw [Predicate.truth, Predicate.truth]
  induction ps with
  | nil => rw [disjTruth, disjTruth]
  | cons p ps ih =>
    rw [disjTruth, disjTruth, h p List.mem_cons_self db db',
      ih fun q hq => h q (List.mem_cons_of_mem p hq)]

theorem Predicate.IsLocal.and {q : Predicate} (hp : p.IsLocal E) (hq : q.IsLocal E) :
    (p.and q).IsLocal E := by
  intro db db' env
  rw [truth_and, truth_and, hp db db', hq db db']

/-- An UPDATE under such a condition that only sets columns to NULL. -/
theorem unlinks_update {u : Update} (hp : p.IsLocal E) (hu : u.predicate = some p)
    (hassigned : ∀ r k, u.assigned E r k = r k ∨ (u.assigned E r k).isNull = true) :
    (Command.update u).Unlinks E db name where
  columns := by
    rintro s s' ⟨-, rfl⟩
    exact u.applied_columns
  rows := by
    rintro s s' ⟨-, rfl⟩ hcolumns
    rw [Update.applied_rows, ← List.filterMap_eq_map]
    apply List.filterMap_congr
    intro r _
    have hrow : u.rowIn E s name r = u.rowIn E db name r := by
      unfold Update.rowIn
      split
      case isTrue htable =>
        subst htable
        rw [Update.rowAfter, Update.rowAfter, hu, hp.meets hcolumns]
      case isFalse => rfl
    exact congrArg some hrow
  keeps := by
    intro r r' hr k
    obtain rfl : u.rowIn E db name r = r' := Option.some.inj hr
    unfold Update.rowIn Update.rowAfter
    split
    case isTrue =>
      split
      case isTrue => exact hassigned r k
      case isFalse => exact .inl rfl
    case isFalse => exact .inl rfl

theorem unlinks_delete {x : Delete} (hp : p.IsLocal E) (hx : x.predicate = some p) :
    (Command.delete x).Unlinks E db name where
  columns := by
    rintro s s' rfl
    by_cases hname : nameParts x.table = name
    · subst hname
      simp [Delete.applied]
    · rw [Delete.applied_of_ne (Ne.symm hname)]
  rows := by
    rintro s s' rfl hcolumns
    by_cases hname : nameParts x.table = name
    · subst hname
      simp only [Delete.applied, Function.update_self]
      rw [← List.filterMap_eq_filter]
      apply List.filterMap_congr
      intro r _
      rw [Option.guard, hx, hp.meets hcolumns, Command.rowIn, hx]
      cases db.meets E x.table (some p) r <;> simp
    · rw [Delete.applied_of_ne (Ne.symm hname)]
      have hrow : (Command.delete x).rowIn E db name = some := by
        funext r
        rw [Command.rowIn, if_neg fun h => hname h.1]
      rw [hrow, List.filterMap_some]
  keeps := by
    intro r r' hr k
    unfold Command.rowIn at hr
    dsimp only at hr
    split at hr
    case isTrue => cases hr
    case isFalse =>
      obtain rfl := Option.some.inj hr
      exact .inl rfl

end Local

/-! ## Statements that leave a column as it is -/

/-- The rows of a table have changed in place, but not in a column, and in no column in which they
had a value. -/
def Table.Keeps (c : String) (t t' : Table) : Prop :=
  t'.columns = t.columns ∧ ∃ g : Tuple → Tuple, t'.rows = t.rows.map g ∧
    ∀ r, g r c = r c ∧ ∀ k, (r k).isNull = false → g r k = r k

theorem Table.Keeps.refl (t : Table) : t.Keeps c t :=
  ⟨rfl, id, (List.map_id _).symm, fun _ => ⟨rfl, fun _ _ => rfl⟩⟩

theorem Table.Keeps.trans {t t' t'' : Table} (h : t.Keeps c t') (h' : t'.Keeps c t'') :
    t.Keeps c t'' := by
  obtain ⟨hcolumns, g, hrows, hg⟩ := h
  obtain ⟨hcolumns', g', hrows', hg'⟩ := h'
  refine ⟨hcolumns'.trans hcolumns, g' ∘ g, ?_, fun r => ⟨?_, fun k hk => ?_⟩⟩
  · rw [hrows', hrows, List.map_map]
  · exact (hg' (g r)).1.trans (hg r).1
  · have hgk := (hg r).2 k hk
    exact ((hg' (g r)).2 k (by rw [hgk, hk])).trans hgk

end EntityGraph
