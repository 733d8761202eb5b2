import EntityGraph.Proofs.Program.Maintained
import EntityGraph.Proofs.Relational.Insertion
import EntityGraph.Proofs.Relational.Rows

/-!
# Columns that link rows

A foreign key column of a table whose rows are told apart by an ID. `LinkColumn.Preserves` says that
rows stay, each with its ID and with its link, if it has one; a row without a link may have got one.
What a statement has to do with the column is said of its text, by `Command.Spares` and
`Command.KeepsIds`, and shown for its effect on every database.
-/

set_option autoImplicit false

namespace EntityGraph

variable {E : Engine} {S : Schema} {db db' : Database}

/-- A column of a table with the column of the IDs of its rows. -/
structure LinkColumn where
  table : String
  id : String
  column : String

/-- The databases before and after a statement that is carried out. -/
structure Command.Effect (E : Engine) (S : Schema) (c : Command) (db db' : Database) : Prop where
  carried : c.Carried E db db'
  obeys : db'.Obeys E S.keys
  stores : ∀ i, c = .insert i → ∃ reported, i.Inserts E S db db' reported

/-- A statement that is answered has had its effect. -/
theorem Call.Records.effect {call : Call} {c : Command} {r : call.Reply} {s s' : Session}
    (h : call.Records E S r s s') (hc : call.statement? = some c) (hr : call.succeeds r = true) :
    c.Effect E S s.current s'.current := by
  obtain ⟨hanswers, hstores⟩ := h
  cases call with
  | exec inside c' =>
    obtain rfl : c' = c := Option.some.inj hc
    cases r with
    | failed f => cases hr
    | interrupted why => cases hr
    | done r =>
      refine ⟨hanswers.1, hanswers.2.2.1, ?_⟩
      rintro i rfl
      obtain ⟨reported, hinserts, -⟩ := hstores
      exact ⟨reported, hinserts⟩
  | query inside c' =>
    obtain rfl : c' = c := Option.some.inj hc
    cases r with
    | failed f => cases hr
    | interrupted why => cases hr
    | done rows =>
      refine ⟨hanswers.1, hanswers.2.2.1, ?_⟩
      rintro i rfl
      obtain ⟨reported, hinserts, -⟩ := hstores
      exact ⟨reported, hinserts⟩
  | _ => cases hc

namespace LinkColumn

variable {f : LinkColumn} {r r' r'' : Tuple} {t v old new : Value}

/-- The rows that the column is in. -/
def rows (f : LinkColumn) (db : Database) : List Tuple := (db (nameParts f.table)).rows

/-- The column is in a table that keeps its IDs apart. -/
structure IsDeclared (S : Schema) (f : LinkColumn) : Prop where
  key : (f.table, f.id) ∈ S.keys
  plain : nameParts f.column = [f.column]

/-- A row has become another and has kept its ID. -/
def SameId (E : Engine) (f : LinkColumn) (r r' : Tuple) : Prop :=
  r' f.id = r f.id ∨ E.equal (r f.id) (r' f.id) = true

/-- Rows that are both one of a node are the same. -/
theorem eq_of_equal (hf : f.IsDeclared S) (h : db.Obeys E S.keys) (hr : r ∈ f.rows db)
    (hr' : r' ∈ f.rows db) (ht : E.equal (r f.id) t = true) (ht' : E.equal (r' f.id) t = true) :
    r = r' :=
  (h _ hf.key).eq_of_picks hr hr' (Engine.picks_of_equal ht) (Engine.picks_of_equal ht')

theorem SameId.refl (r : Tuple) : f.SameId E r r := .inl rfl

theorem SameId.equal (h : f.SameId E r r') (ht : E.equal (r f.id) t = true) :
    E.equal (r' f.id) t = true := by
  rcases h with h | h
  · rwa [h]
  · exact Engine.equal_trans (Engine.equal_symm h) ht

theorem SameId.trans (h : f.SameId E r r') (h' : f.SameId E r' r'') : f.SameId E r r'' := by
  rcases h with h | h
  · rcases h' with h' | h'
    · exact .inl (h'.trans h)
    · rw [h] at h'
      exact .inr h'
  · rcases h' with h' | h'
    · exact .inr (by rwa [h'])
    · exact .inr (Engine.equal_trans h h')

/-- The row of a node has a link. -/
def HasLink (E : Engine) (f : LinkColumn) (db : Database) (t v : Value) : Prop :=
  ∃ r ∈ f.rows db, E.equal (r f.id) t = true ∧ r f.column = v

/-- The link in the row of a node has changed. -/
def Changes (E : Engine) (f : LinkColumn) (db db' : Database) (t old new : Value) : Prop :=
  f.HasLink E db t old ∧ f.HasLink E db' t new ∧ old ≠ new

/-- A row of a node has been added. -/
def Adds (E : Engine) (f : LinkColumn) (db db' : Database) (t : Value) : Prop :=
  (∀ r ∈ f.rows db, E.equal (r f.id) t = false) ∧ ∃ r ∈ f.rows db', E.equal (r f.id) t = true

/-- Rows have stayed, with their IDs and their links. -/
def Preserves (E : Engine) (f : LinkColumn) (db db' : Database) : Prop :=
  ∀ r ∈ f.rows db, ∃ r' ∈ f.rows db', f.SameId E r r' ∧
    (r' f.column = r f.column ∨ (r f.column).isNull = true)

/-- A link that a node has stays. -/
theorem Preserves.hasLink (h : f.Preserves E db db') (hv : v.isNull = false)
    (hlink : f.HasLink E db t v) : f.HasLink E db' t v := by
  obtain ⟨r, hr, ht, rfl⟩ := hlink
  obtain ⟨r', hr', hsame, hkept | hnull⟩ := h r hr
  · exact ⟨r', hr', hsame.equal ht, hkept⟩
  · rw [hv] at hnull
    cases hnull

/-- A node has one link at most. -/
theorem HasLink.unique (hf : f.IsDeclared S) (h : db.Obeys E S.keys) (hold : f.HasLink E db t old)
    (hnew : f.HasLink E db t new) : old = new := by
  obtain ⟨r, hr, ht, rfl⟩ := hold
  obtain ⟨r', hr', ht', rfl⟩ := hnew
  rw [eq_of_equal hf h hr hr' ht ht']

/-- Only rows without a link get another one. -/
theorem Preserves.isNull (h : f.Preserves E db db') (hf : f.IsDeclared S)
    (hobeys : db'.Obeys E S.keys) (hchanges : f.Changes E db db' t old new) :
    old.isNull = true := by
  obtain ⟨hold, hnew, hne⟩ := hchanges
  by_contra hnull
  have hkept := h.hasLink (Bool.eq_false_iff.mpr hnull) hold
  exact hne (hkept.unique hf hobeys hnew)

/-- Each row has become one that keeps its ID and its link. -/
def Keeps (E : Engine) (f : LinkColumn) (rows rows' : List Tuple) : Prop :=
  ∀ r ∈ rows, ∃ r' ∈ rows', f.SameId E r r' ∧ r' f.column = r f.column

theorem Keeps.refl (rows : List Tuple) : f.Keeps E rows rows := fun r hr => ⟨r, hr, .refl r, rfl⟩

theorem Keeps.trans {rows rows' rows'' : List Tuple} (h : f.Keeps E rows rows')
    (h' : f.Keeps E rows' rows'') : f.Keeps E rows rows'' := by
  intro r hr
  obtain ⟨r', hr', hsame, hcolumn⟩ := h r hr
  obtain ⟨r'', hr'', hsame', hcolumn'⟩ := h' r' hr'
  exact ⟨r'', hr'', hsame.trans hsame', hcolumn'.trans hcolumn⟩

theorem Keeps.preserves (h : f.Keeps E (f.rows db) (f.rows db')) : f.Preserves E db db' := by
  intro r hr
  obtain ⟨r', hr', hsame, hcolumn⟩ := h r hr
  exact ⟨r', hr', hsame, .inl hcolumn⟩

end LinkColumn

/-! ## Conflict clauses -/

namespace ConflictClause

/-- What a conflict clause assigns to the stored row. -/
def assignments : ConflictClause → List ConflictAssignment
  | .doNothing _ => []
  | .doUpdate _ as | .onDuplicateKey as => as

theorem assigned_of_ne {as : List ConflictAssignment} {k : String}
    (h : ∀ a ∈ as, a.value = .proposed → columnName a.column ≠ k) (stored proposed : Tuple) :
    assigned as stored proposed k = stored k := by
  have hfold : ∀ new : Tuple, new k = stored k → as.foldl (fun new a =>
      Function.update new (columnName a.column) (a.value.result (stored (columnName a.column))
        (proposed (columnName a.column)))) new k = stored k := by
    induction as with
    | nil => exact fun _ hnew => hnew
    | cons a as ih =>
      intro new hnew
      refine ih (fun b hb => h b (List.mem_cons_of_mem a hb)) _ ?_
      dsimp only
      by_cases hk : k = columnName a.column
      · rw [hk, Function.update_self]
        cases hvalue : a.value with
        | proposed => exact absurd hk.symm (h a List.mem_cons_self hvalue)
        | itself | stored | reported => rfl
      · rw [Function.update_of_ne hk, hnew]
  exact hfold stored rfl

/-- What a conflict clause does not set to a proposed value stays. -/
theorem resolve_of_ne {clause : ConflictClause} {k : String} {stored proposed r : Tuple}
    (h : ∀ a ∈ clause.assignments, a.value = .proposed → columnName a.column ≠ k)
    (hr : clause.resolve stored proposed = some r) : r k = stored k := by
  cases clause with
  | doNothing target => cases hr
  | doUpdate target as =>
    obtain rfl := Option.some.inj hr
    exact assigned_of_ne h stored proposed
  | onDuplicateKey as =>
    obtain rfl := Option.some.inj hr
    exact assigned_of_ne h stored proposed

end ConflictClause

/-! ## Statements -/

namespace Command

variable {f : LinkColumn}

/-- The statement does not assign to the column in stored rows, and deletes none of these. -/
def Spares (f : LinkColumn) : Command → Prop
  | .select _ | .anyRow _ => True
  | .insert i => i.table = f.table → ∀ clause, i.conflict = some clause →
      ∀ stored proposed r, clause.resolve stored proposed = some r → r f.column = stored f.column
  | .update u => u.table = f.table → ∀ c ∈ u.nulls ++ u.sets.map (·.1), columnName c ≠ f.column
  | .delete x => x.table ≠ f.table

/-- The statement gives no stored row of the table another ID, whatever the database. -/
def KeepsIds (E : Engine) (S : Schema) (f : LinkColumn) : Command → Prop
  | .select _ | .anyRow _ => True
  | .insert i => i.table = f.table → ∀ clause, i.conflict = some clause →
      ∀ key ∈ S.uniques i.table, clause.IsAbout key → ∀ stored proposed r,
        Agree E key stored proposed → clause.resolve stored proposed = some r →
          f.SameId E stored r
  | .update u => u.table = f.table → ∀ (db : Database) (r : Tuple),
      db.meets E u.table u.predicate r = true → f.SameId E r (u.assigned E r)
  | .delete _ => True

end Command

section Effects

variable {f : LinkColumn} {c : Command} {i : InsertStatement} {x : Tuple}
  {rows rows' reported : List Tuple} {values : List (List Value)} {o : Option Tuple}

/-- What an UPDATE does not assign to stays. -/
theorem Update.assigned_of_ne {u : Update} {k : String}
    (h : ∀ c ∈ u.nulls ++ u.sets.map (·.1), columnName c ≠ k) (r : Tuple) :
    u.assigned E r k = r k := by
  refine Update.foldl_assign_of_ne (fun a ha => h a.1 ?_) r r
  rcases List.mem_append.mp ha with ha | ha
  · rcases List.mem_append.mp ha with ha | ha
    · obtain ⟨column, hcolumn, rfl⟩ := List.mem_map.mp ha
      exact List.mem_append_left _ hcolumn
    · exact List.mem_append_right _ (List.mem_map_of_mem (List.mem_of_mem_filter ha))
  · exact List.mem_append_right _ (List.mem_map_of_mem (List.mem_of_mem_filter ha))

/-- An UPDATE that spares the column. -/
theorem Update.keeps {u : Update} (hspares : (Command.update u).Spares f)
    (hids : (Command.update u).KeepsIds E S f) :
    f.Keeps E (f.rows db) (f.rows (u.applied E db)) := by
  intro r hr
  refine ⟨_, Update.mem_applied hr, ?_⟩
  unfold Update.rowIn Update.rowAfter
  split
  case isFalse => exact ⟨.refl r, rfl⟩
  case isTrue hname =>
    have htable := nameParts_injective hname
    split
    case isFalse => exact ⟨.refl r, rfl⟩
    case isTrue hmeets =>
      exact ⟨hids htable db r hmeets, Update.assigned_of_ne (hspares htable) r⟩

/-- A row of an INSERT that spares the column. -/
theorem InsertStatement.StoresRow.keeps (htable : i.table = f.table)
    (hspares : (Command.insert i).Spares f) (hids : (Command.insert i).KeepsIds E S f)
    (h : i.StoresRow E S x rows rows' o) : f.Keeps E rows rows' := by
  cases h with
  | added _ perm =>
    exact fun r hr => ⟨r, perm.mem_iff.mpr (List.mem_cons_of_mem x hr), .refl r, rfl⟩
  | skipped => exact .refl rows
  | @changed before after key stored r clause key_mem agree conflict about resolve =>
    intro q hq
    have hother : q ∈ before ∨ q ∈ after → ∃ q' ∈ before ++ r :: after,
        f.SameId E q q' ∧ q' f.column = q f.column := by
      intro hq
      refine ⟨q, List.mem_append.mpr (hq.imp_right (List.mem_cons_of_mem r)), .refl q, rfl⟩
    rcases List.mem_append.mp hq with hq | hq
    · exact hother (.inl hq)
    · rcases List.mem_cons.mp hq with rfl | hq
      · exact ⟨r, List.mem_append_right _ List.mem_cons_self,
          hids htable clause conflict key key_mem about _ _ _ agree resolve,
          hspares htable clause conflict _ _ _ resolve⟩
      · exact hother (.inr hq)

theorem InsertStatement.StoresRows.keeps (htable : i.table = f.table)
    (hspares : (Command.insert i).Spares f) (hids : (Command.insert i).KeepsIds E S f)
    (h : i.StoresRows E S values rows rows' reported) : f.Keeps E rows rows' := by
  induction h with
  | nil => exact .refl _
  | cons _ stores _ ih => exact (stores.keeps htable hspares hids).trans ih

/-- A statement that spares the column and keeps the IDs preserves links. -/
theorem Command.Effect.preserves (h : c.Effect E S db db') (hspares : c.Spares f)
    (hids : c.KeepsIds E S f) : f.Preserves E db db' := by
  have hsame : db' (nameParts f.table) = db (nameParts f.table) → f.Preserves E db db' := by
    intro hsame
    apply LinkColumn.Keeps.preserves
    unfold LinkColumn.rows
    rw [hsame]
    exact .refl _
  have hcarried := h.carried
  cases c with
  | select s | anyRow s =>
    obtain rfl : db' = db := hcarried
    exact hsame rfl
  | insert i =>
    by_cases htable : i.table = f.table
    · obtain ⟨reported, hinserts⟩ := h.stores i rfl
      have hkeeps := hinserts.stored.keeps htable hspares hids
      rw [htable] at hkeeps
      exact LinkColumn.Keeps.preserves hkeeps
    · exact hsame (hcarried _ fun hname => htable (nameParts_injective hname.symm))
  | update u =>
    obtain rfl : db' = u.applied E db := hcarried.2
    exact LinkColumn.Keeps.preserves (Update.keeps hspares hids)
  | delete x =>
    obtain rfl : db' = x.applied E db := hcarried
    exact hsame (Delete.applied_of_ne fun hname => hspares (nameParts_injective hname.symm))

end Effects

end EntityGraph
