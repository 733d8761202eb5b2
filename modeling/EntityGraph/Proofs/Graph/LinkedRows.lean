import EntityGraph.Proofs.Graph.ForeignKeyLinks
import EntityGraph.Proofs.Relational.Performed

/-!
# Links that can be postponed

A link is a function on rows that only fills them in, and it leaves rows alone that are not its
targets'. So a database into which new rows and links have gone is known by these rows and by the
links in their order, however the two took turns: `Database.Grown`. A link that has been made among
some of the new rows can be made among all of them.
-/

set_option autoImplicit false

namespace EntityGraph

open Program ForeignKey

variable {E : Engine} {S : Schema} {s s' : Session} {conn : Connection} {db db' : Database}
  {db'' : Database} {e : Edge} {id : Value} {fk table : String} {name : List String} {r x : Tuple}
  {links : List (Value × Edge)} {added : List Tuple} {joins : List String → Prop}

/-! ## Links as functions on rows -/

namespace Edge

/-- Linking the targets of an edge reaches a row: it is one of theirs, and free. -/
def linksRow (E : Engine) (e : Edge) (fk : String) (r : Tuple) : Bool :=
  e.target.nodes.any (E.equal (r e.target.id.column)) && (r (columnName fk)).isNull

/-- What linking the targets of an edge to a node makes of a row of a table. -/
def linkRow (E : Engine) (name : List String) (id : Value) (e : Edge) (r : Tuple) : Tuple :=
  match e.columns with
  | [fk] =>
    if nameParts e.table = name ∧ e.linksRow E fk r = true then
      Function.update r (columnName fk) id
    else r
  | _ => r

theorem linkRow_eq (hfk : e.columns = [fk]) : e.linkRow E name id r =
    if nameParts e.table = name ∧ e.linksRow E fk r = true then
      Function.update r (columnName fk) id
    else r := by
  unfold linkRow
  rw [hfk]

theorem linkRow_cases : e.linkRow E name id r = r ∨ ∃ fk, (r (columnName fk)).isNull = true ∧
    e.linkRow E name id r = Function.update r (columnName fk) id := by
  unfold linkRow
  split
  case h_2 => exact .inl rfl
  case h_1 fk _ =>
    split
    case isFalse => exact .inl rfl
    case isTrue hreached => exact .inr ⟨fk, (Bool.and_eq_true_iff.mp hreached.2).2, rfl⟩

theorem fills_linkRow : Fills r (e.linkRow E name id r) := by
  intro k hk
  rcases linkRow_cases with hsame | ⟨fk, hfree, hlinked⟩
  · rw [hsame]
  · rw [hlinked]
    apply Function.update_of_ne
    rintro rfl
    rw [hk] at hfree
    cases hfree

/-- Rows that are not a target's stay as they are. -/
theorem linkRow_of_not_target
    (h : nameParts e.table = name → e.target.nodes.any (E.equal (r e.target.id.column)) = false) :
    e.linkRow E name id r = r := by
  unfold linkRow
  split
  case h_2 => rfl
  case h_1 =>
    apply if_neg
    rintro ⟨hname, hreached⟩
    rw [linksRow, h hname] at hreached
    cases hreached

/-- An UPDATE that links the targets of an edge does so. -/
theorem linking_rowIn_eq (hfk : e.columns = [fk])
    (hkey : (db (nameParts e.table)).HasColumn e.target.id.column)
    (hpresent : ∀ t ∈ e.target.nodes, t.isNull = false)
    (hnames : ∀ n ∈ (linking id fk e).names, db.knows e.table n = true) (r : Tuple) :
    (linking id fk e).rowIn E db name r = e.linkRow E name id r := by
  have hassigned : (linking id fk e).assigned E r = Function.update r (columnName fk) id := rfl
  have hmeets := linking_meets_any (E := E) hkey hpresent hnames r
  rw [linkRow_eq hfk, Update.rowIn]
  by_cases hname : nameParts e.table = name
  · rw [if_pos (show nameParts (linking id fk e).table = name from hname), Update.rowAfter,
      hassigned]
    refine ite_congr ?_ (fun _ => rfl) fun _ => rfl
    rw [linksRow, ← hmeets]
    simp [hname, linking, Update.filter, Update.set, Update.ofTable]
  · rw [if_neg (show ¬nameParts (linking id fk e).table = name from hname),
      if_neg fun h => hname h.1]

end Edge

/-- What several links, one after the other, make of a row of a table. -/
def linkRows (E : Engine) (name : List String) (links : List (Value × Edge)) (r : Tuple) : Tuple :=
  links.foldl (fun r l => l.2.linkRow E name l.1 r) r

theorem linkRows_append (links' : List (Value × Edge)) : linkRows E name (links ++ links') r =
    linkRows E name links' (linkRows E name links r) :=
  List.foldl_append

theorem fills_linkRows : Fills r (linkRows E name links r) := by
  induction links generalizing r with
  | nil => exact .refl r
  | cons l links ih =>
    intro k hk
    have hfirst : l.2.linkRow E name l.1 r k = r k := Edge.fills_linkRow k hk
    have hpresent : (l.2.linkRow E name l.1 r k).isNull = false := by rwa [hfirst]
    exact (ih k hpresent).trans hfirst

/-! ## New rows and links -/

/-- The targets of an edge that is stored in their rows are there, told apart by their IDs. -/
structure Edge.HasTargets (E : Engine) (S : Schema) (db : Database) (e : Edge) : Prop where
  key : (e.table, e.target.id.column) ∈ S.keys
  stored : ∀ t ∈ e.target.nodes, (db (nameParts e.table)).Holds E e.target.id.column t

theorem Edge.HasTargets.present (h : e.HasTargets E S db) : ∀ t ∈ e.target.nodes, t.isNull = false :=
  fun t ht => (h.stored t ht).isNull

/-- The new rows of a table, if it is the one that has them. -/
def newRows (table : String) (added : List Tuple) (name : List String) : List Tuple :=
  if name = nameParts table then added else []

/-- A database has grown by new rows of a table and by links. Of join tables only the columns are
spoken of. -/
structure Database.Grown (E : Engine) (joins : List String → Prop) (table : String)
    (added : List Tuple) (links : List (Value × Edge)) (db db' : Database) : Prop where
  columns : ∀ name, (db' name).columns = (db name).columns
  rows : ∀ name, ¬joins name → (db' name).rows.Perm
    (newRows table added name ++ (db name).rows.map (linkRows E name links))

namespace Database.Grown

theorem refl (db : Database) : db.Grown E joins table [] [] db where
  columns _ := rfl
  rows name _ := by
    have hnone : newRows table [] name = [] := ite_self []
    have hsame : linkRows E name [] = id := rfl
    rw [hnone, hsame, List.map_id, List.nil_append]

/-- A row that has been there is still there, filled in. -/
theorem exists_filled (h : db.Grown E joins table added links db') (hname : ¬joins name)
    (hr : r ∈ (db name).rows) : ∃ r' ∈ (db' name).rows, Fills r r' := by
  refine ⟨linkRows E name links r, ?_, fills_linkRows⟩
  exact (h.rows name hname).mem_iff.mpr (List.mem_append_right _ (List.mem_map_of_mem hr))

theorem knows_eq (h : db.Grown E joins table added links db') (t n : String) :
    db'.knows t n = db.knows t n := by
  unfold Database.knows
  rw [h.columns]

/-- Further new rows. -/
theorem inserted (h : db.Grown E joins table added links db') {more : List Tuple}
    (hothers : ∀ name, name ≠ nameParts table → db'' name = db' name)
    (hcolumns : (db'' (nameParts table)).columns = (db' (nameParts table)).columns)
    (hrows : (db'' (nameParts table)).rows.Perm (more ++ (db' (nameParts table)).rows)) :
    db.Grown E joins table (added ++ more) links db'' where
  columns name := by
    by_cases hname : name = nameParts table
    · subst hname
      exact hcolumns.trans (h.columns _)
    · rw [hothers name hname, h.columns]
  rows name hjoin := by
    have hbefore := h.rows name hjoin
    unfold newRows at hbefore ⊢
    by_cases hname : name = nameParts table
    · subst hname
      rw [if_pos rfl] at hbefore ⊢
      rw [List.append_assoc]
      exact hrows.trans ((hbefore.append_left more).trans (List.perm_append_comm_assoc _ _ _))
    · rw [if_neg hname] at hbefore ⊢
      rwa [hothers name hname]

/-- What join tables have gained is not spoken of. -/
theorem joined (h : db.Grown E joins table added links db')
    (hcolumns : ∀ name, (db'' name).columns = (db' name).columns)
    (hothers : ∀ name, ¬joins name → db'' name = db' name) :
    db.Grown E joins table added links db'' where
  columns name := (hcolumns name).trans (h.columns name)
  rows name hjoin := by
    rw [hothers name hjoin]
    exact h.rows name hjoin

/-- New rows are not those of targets that were there before. -/
theorem not_target (h : db.Grown E joins table added links db') (he : e.HasTargets E S db)
    (hjoin : ¬joins (nameParts e.table)) (hs : db'.IsSound E S)
    (hx : x ∈ newRows table added (nameParts e.table)) :
    e.target.nodes.any (E.equal (x e.target.id.column)) = false := by
  rw [List.any_eq_false]
  intro t ht hequal
  obtain ⟨r, hr, hrt⟩ := he.stored t ht
  have hkey := (hs e.table).hasKey he.key
  have hunique : (newRows table added (nameParts e.table) ++ (db (nameParts e.table)).rows.map
      (linkRows E (nameParts e.table) links)).Pairwise fun r s =>
        E.equal (r e.target.id.column) (s e.target.id.column) = false := by
    refine ((h.rows _ hjoin).pairwise_iff fun {r s} hne => ?_).mp hkey.unique
    rwa [Engine.equal_comm]
  have hapart := (List.pairwise_append.mp hunique).2.2 x hx _ (List.mem_map_of_mem hr)
  rw [fills_linkRows _ (Engine.isNull_of_equal hrt)] at hapart
  rw [Engine.equal_trans hequal (Engine.equal_symm hrt)] at hapart
  cases hapart

/-- Links leave new rows as they are. -/
theorem linkRows_new (h : db.Grown E joins table added links db') (hs : db'.IsSound E S)
    {ls : List (Value × Edge)}
    (hls : ∀ l ∈ ls, l.2.HasTargets E S db ∧ ¬joins (nameParts l.2.table))
    (hx : x ∈ newRows table added name) : linkRows E name ls x = x := by
  induction ls with
  | nil => rfl
  | cons l ls ih =>
    obtain ⟨⟨hl, hjoin⟩, hls⟩ := List.forall_mem_cons.mp hls
    have hfirst : l.2.linkRow E name l.1 x = x := by
      apply Edge.linkRow_of_not_target
      rintro rfl
      exact h.not_target hl hjoin hs hx
    refine Eq.trans ?_ (ih hls)
    rw [linkRows, List.foldl_cons, hfirst]
    rfl

theorem map_linkRows_new (h : db.Grown E joins table added links db') (hs : db'.IsSound E S)
    {ls : List (Value × Edge)}
    (hls : ∀ l ∈ ls, l.2.HasTargets E S db ∧ ¬joins (nameParts l.2.table)) :
    (newRows table added name).map (linkRows E name ls) = newRows table added name := by
  have hsame : ∀ x ∈ newRows table added name, linkRows E name ls x = id x :=
    fun x hx => h.linkRows_new hs hls hx
  rw [List.map_congr_left hsame, List.map_id]

/-- The rows of a table, new and old, have all been linked. -/
theorem rows_eq_map (h : db.Grown E joins table added links db') (hs : db'.IsSound E S)
    {ls : List (Value × Edge)}
    (hls : ∀ l ∈ ls, l.2.HasTargets E S db ∧ ¬joins (nameParts l.2.table)) :
    newRows table added name ++ (db name).rows.map (linkRows E name ls) =
      (newRows table added name ++ (db name).rows).map (linkRows E name ls) := by
  rw [List.map_append, h.map_linkRows_new hs hls]

/-- A table keeps its keys before the last links, if it does after them. -/
theorem isSound_of_append {rest : List (Value × Edge)}
    (h : db.Grown E joins table added (links ++ rest) db')
    (hls : ∀ l ∈ links ++ rest, l.2.HasTargets E S db ∧ ¬joins (nameParts l.2.table))
    (hdb : db.IsSound E S) (hs : db'.IsSound E S)
    (h'' : db.Grown E joins table added links db'') {t : String} (ht : ¬joins (nameParts t)) :
    (db'' (nameParts t)).IsSound E S t := by
  have hfirst := fun l hl => hls l (List.mem_append_left rest hl)
  have hrows := h''.rows _ ht
  have hrows' := h.rows _ ht
  rw [h.rows_eq_map hs hfirst] at hrows
  rw [h.rows_eq_map hs hls] at hrows'
  refine (hs t).of_fills ((h.columns _).trans (h''.columns _).symm) hrows hrows' (fun r _ => ?_) ?_
  · rw [linkRows_append]
    exact fills_linkRows
  · intro k hk r hr
    rcases List.mem_append.mp hr with hr | hr
    · have hmem := (h.rows _ ht).mem_iff.mpr (List.mem_append_left _ hr)
      rw [h.linkRows_new hs hfirst hr]
      exact (hs t).present k hk r hmem
    · have hpresent := (hdb t).present k hk r hr
      rwa [fills_linkRows k hpresent]

/-- A further link. -/
theorem applied (h : db.Grown E joins table added links db') (he : e.HasTargets E S db)
    (hjoin : ¬joins (nameParts e.table)) (hs : db'.IsSound E S) (hfk : e.columns = [fk])
    (hnames : ∀ n ∈ (linking id fk e).names, db'.knows e.table n = true) :
    db.Grown E joins table added (links ++ [(id, e)]) ((linking id fk e).applied E db') where
  columns name := (Update.applied_columns _).trans (h.columns name)
  rows name hname := by
    have hrow : (linking id fk e).rowIn E db' name = e.linkRow E name id := by
      funext r
      exact Edge.linking_rowIn_eq hfk ((hs e.table).columns _ he.key) he.present hnames r
    rw [Update.applied_rows, hrow]
    refine ((h.rows name hname).map _).trans ?_
    have hlink : ∀ l ∈ [(id, e)], l.2.HasTargets E S db ∧ ¬joins (nameParts l.2.table) := by
      simpa using ⟨he, hjoin⟩
    have hnew : (newRows table added name).map (e.linkRow E name id) = newRows table added name :=
      h.map_linkRows_new hs hlink
    rw [List.map_append, hnew, List.map_map]
    refine List.Perm.of_eq (congrArg _ (List.map_congr_left fun r _ => ?_))
    rw [linkRows_append]
    rfl

/-- New rows are not counted by a link. -/
theorem reached_length (h : db.Grown E joins table added links db') (he : e.HasTargets E S db)
    (hjoin : ¬joins (nameParts e.table)) (hs : db'.IsSound E S)
    (hnames : ∀ n ∈ (linking id fk e).names, db'.knows e.table n = true) :
    ((linking id fk e).reached E db').length =
      ((db (nameParts e.table)).rows.map (linkRows E (nameParts e.table) links)).countP
        (e.linksRow E fk) := by
  have hmeets : ∀ r, db'.meets E (linking id fk e).table (linking id fk e).predicate r =
      e.linksRow E fk r :=
    linking_meets_any ((hs e.table).columns _ he.key) he.present hnames
  have hnone : (newRows table added (nameParts e.table)).countP (e.linksRow E fk) = 0 := by
    rw [List.countP_eq_zero]
    intro x hx hreached
    rw [Edge.linksRow, h.not_target he hjoin hs hx] at hreached
    cases hreached
  unfold Update.reached
  rw [← List.countP_eq_length_filter, List.countP_congr fun r _ => by rw [hmeets r],
    show (linking id fk e).table = e.table from rfl, (h.rows _ hjoin).countP_eq,
    List.countP_append, hnone, Nat.zero_add]

end Database.Grown

/-! ## Making a link -/

/-- The next link after some others finds each of its targets free. -/
structure Edge.CanLink (E : Engine) (db : Database) (links : List (Value × Edge)) (id : Value)
    (fk : String) (e : Edge) : Prop where
  column : e.columns = [fk]
  names : ∀ n ∈ (linking id fk e).names, db.knows e.table n = true
  count : e.target.nodes.length ≤ ((db (nameParts e.table)).rows.map
    (linkRows E (nameParts e.table) links)).countP (e.linksRow E fk)

/-- Each of some links can be made, in their order and after others. -/
def CanLinkAll (E : Engine) (db : Database) (before links : List (Value × Edge)) : Prop :=
  ∀ done l rest, links = done ++ l :: rest → ∃ fk, l.2.CanLink E db (before ++ done) l.1 fk

theorem canLinkAll_nil {before : List (Value × Edge)} : CanLinkAll E db before [] := by
  intro done l rest hsplit
  simp at hsplit

theorem CanLinkAll.append {before after : List (Value × Edge)} (h : CanLinkAll E db before links)
    (h' : CanLinkAll E db (before ++ links) after) : CanLinkAll E db before (links ++ after) := by
  intro done l rest hsplit
  rcases List.append_eq_append_iff.mp hsplit with ⟨done', rfl, hrest⟩ | ⟨rest', rfl, hrest⟩
  · rw [← List.append_assoc]
    exact h' done' l rest hrest
  · cases rest' with
    | nil =>
      have hfirst := h' [] l rest (by simpa using hrest.symm)
      simpa using hfirst
    | cons l' rest' =>
      obtain ⟨rfl, -⟩ := List.cons.inj (List.cons_append ▸ hrest)
      exact h done l rest' rfl

theorem CanLinkAll.of_append {before done rest : List (Value × Edge)}
    (h : CanLinkAll E db before (done ++ links ++ rest)) : CanLinkAll E db (before ++ done) links := by
  intro done' l rest' hsplit
  rw [List.append_assoc before]
  exact h (done ++ done') l (rest' ++ rest) (by simp [hsplit])

/-- After a link that has been made the keys hold. -/
theorem ForeignKey.isSound_of_link (h : (link conn id e).Reaches (Call.Performs E S) s () s') :
    s'.current.IsSound E S := by
  obtain ⟨fk, start, hlift, hrest⟩ := reaches_bind.mp h
  obtain ⟨result, mid, hexec, hcheck⟩ := reaches_bind.mp hrest
  obtain ⟨-, -, -, -, hsound⟩ := reaches_exec.mp hexec
  split at hcheck
  case isTrue => exact absurd hcheck reaches_fail
  case isFalse =>
    obtain ⟨-, rfl⟩ := reaches_done.mp hcheck
    exact hsound

namespace Database.Grown

/-- A link that has been made could be made. -/
theorem reaches_link (h : db.Grown E joins table added links s.current)
    (he : e.HasTargets E S db) (hjoin : ¬joins (nameParts e.table)) (hs : s.current.IsSound E S)
    (hlink : (link conn id e).Reaches (Call.Performs E S) s () s') :
    (∃ fk, e.CanLink E db links id fk) ∧
      db.Grown E joins table added (links ++ [(id, e)]) s'.current ∧
        ∀ name, joins name → s'.current name = s.current name := by
  obtain ⟨fk, hfk, hnames, hcurrent, hcount, -⟩ :=
    ForeignKey.leads_link (hlink.leads fun _ _ _ _ h => h.answers)
  refine ⟨⟨fk, hfk, fun n hn => ?_, ?_⟩, ?_, fun name hname => ?_⟩
  · rw [← h.knows_eq]
    exact hnames n hn
  · rwa [h.reached_length he hjoin hs hnames] at hcount
  · rw [hcurrent]
    exact h.applied he hjoin hs hfk hnames
  · rw [hcurrent]
    apply Update.applied_of_ne
    rintro rfl
    exact hjoin hname

theorem reaches_links {es : List Edge} (h : db.Grown E joins table added links s.current)
    (hes : ∀ e ∈ es, e.HasTargets E S db ∧ ¬joins (nameParts e.table))
    (hs : s.current.IsSound E S)
    (hlinks : (es.forM (link conn id)).Reaches (Call.Performs E S) s () s') :
    CanLinkAll E db links (es.map fun e => (id, e)) ∧
      db.Grown E joins table added (links ++ es.map fun e => (id, e)) s'.current ∧
        (∀ name, joins name → s'.current name = s.current name) ∧ s'.current.IsSound E S := by
  induction es generalizing links s with
  | nil =>
    obtain rfl := reaches_forM_nil.mp hlinks
    rw [List.map_nil, List.append_nil]
    exact ⟨canLinkAll_nil, h, fun _ _ => rfl, hs⟩
  | cons e es ih =>
    obtain ⟨⟨he, hjoin⟩, hes⟩ := List.forall_mem_cons.mp hes
    obtain ⟨mid, hlink, hrest⟩ := reaches_forM_cons.mp hlinks
    obtain ⟨hcan, hmid, hsame⟩ := h.reaches_link he hjoin hs hlink
    obtain ⟨hcans, hgrown, hsames, hsound⟩ := ih hmid hes (isSound_of_link hlink) hrest
    rw [List.map_cons, List.append_cons]
    refine ⟨?_, hgrown, fun name hname => (hsames name hname).trans (hsame name hname), hsound⟩
    have hfirst : CanLinkAll E db links [(id, e)] := by
      intro done l rest hsplit
      obtain ⟨rfl, rfl, -⟩ : done = [] ∧ (id, e) = l ∧ rest = [] := by
        cases done with
        | nil => simpa [eq_comm] using hsplit
        | cons => simp at hsplit
      rwa [List.append_nil]
    exact hfirst.append hcans

/-- A link that can be made is made. -/
theorem ensures_link (h : db.Grown E joins table added links s.current)
    (he : e.HasTargets E S db) (hjoin : ¬joins (nameParts e.table)) (hs : s.current.IsSound E S)
    (hcan : e.CanLink E db links id fk) (hid : id.isNull = false)
    (hsound : ∀ db', db.Grown E joins table added (links ++ [(id, e)]) db' →
      (∀ name, joins name → db' name = s.current name) → db'.IsSound E S) :
    (link conn id e).Ensures (Call.Performs E S) s fun _ s' =>
      db.Grown E joins table added (links ++ [(id, e)]) s'.current ∧
        (∀ name, joins name → s'.current name = s.current name) ∧ s'.current.IsSound E S := by
  have hnames : ∀ n ∈ (linking id fk e).names, s.current.knows e.table n = true := by
    intro n hn
    rw [h.knows_eq]
    exact hcan.names n hn
  have hgrown := h.applied he hjoin hs hcan.column hnames
  have hothers : ∀ name, joins name → (linking id fk e).applied E s.current name =
      s.current name := by
    intro name hname
    apply Update.applied_of_ne
    rintro rfl
    exact hjoin hname
  have hafter := hsound _ hgrown hothers
  unfold link
  refine ensures_bind.mpr (ensures_ofExcept (Edge.foreignKey_eq_ok.mpr hcan.column) ?_)
  refine ensures_bind.mpr (ensures_update hnames hafter fun result hcounts => ?_)
  have hchanges : ∀ r ∈ (linking id fk e).reached E s.current,
      (linking id fk e).assigned E r ≠ r := by
    intro r hr hsame
    have hmeets := (List.mem_filter.mp hr).2
    have hreached : e.linksRow E fk r = true :=
      (linking_meets_any ((hs e.table).columns _ he.key) he.present hnames r).symm.trans hmeets
    have hfree : (r (columnName fk)).isNull = true := (Bool.and_eq_true_iff.mp hreached).2
    have hvalue : (linking id fk e).assigned E r (columnName fk) = id := Function.update_self _ _ _
    rw [hsame] at hvalue
    rw [hvalue, hid] at hfree
    cases hfree
  have hall : e.target.nodes.length ≤ result.rowsAffected := by
    rw [hcounts hchanges, h.reached_length he hjoin hs hnames]
    exact hcan.count
  rw [if_neg (by omega)]
  exact ⟨hgrown, hothers, hafter⟩

/-- Links that can be made in their order are made, if the keys hold after each of them. -/
theorem ensures_links {es : List Edge} (h : db.Grown E joins table added links s.current)
    (hes : ∀ e ∈ es, e.HasTargets E S db ∧ ¬joins (nameParts e.table))
    (hs : s.current.IsSound E S) (hcan : CanLinkAll E db links (es.map fun e => (id, e)))
    (hid : id.isNull = false)
    (hsound : ∀ done rest db', es = done ++ rest →
      db.Grown E joins table added (links ++ done.map fun e => (id, e)) db' →
        (∀ name, joins name → db' name = s.current name) → db'.IsSound E S) :
    (es.forM (link conn id)).Ensures (Call.Performs E S) s fun _ s' =>
      db.Grown E joins table added (links ++ es.map fun e => (id, e)) s'.current ∧
        (∀ name, joins name → s'.current name = s.current name) ∧ s'.current.IsSound E S := by
  refine ensures_forM (fun (done : List Edge) (t : Session) =>
    db.Grown E joins table added (links ++ done.map fun e => (id, e)) t.current ∧
      (∀ name, joins name → t.current name = s.current name) ∧ t.current.IsSound E S)
    ?_ ⟨by simpa using h, fun _ _ => rfl, hs⟩
  rintro done e rest hsplit t ⟨hgrown, hsame, ht⟩
  obtain ⟨he, hjoin⟩ := hes e (by simp [hsplit])
  obtain ⟨fk, hlink⟩ := hcan (done.map fun e => (id, e)) (id, e) (rest.map fun e => (id, e))
    (by simp [hsplit])
  have hnext : links ++ (done ++ [e]).map (fun e => (id, e)) =
      links ++ done.map (fun e => (id, e)) ++ [(id, e)] := by simp
  rw [hnext]
  refine (hgrown.ensures_link he hjoin ht hlink hid fun db' hdb' hothers => ?_).mono ?_
  · refine hsound (done ++ [e]) rest db' (by simp [hsplit]) (hnext ▸ hdb') fun name hname => ?_
    exact (hothers name hname).trans (hsame name hname)
  · rintro _ t' ⟨hgrown', hothers, ht'⟩
    exact ⟨hgrown', fun name hname => (hothers name hname).trans (hsame name hname), ht'⟩

end Database.Grown

end EntityGraph
