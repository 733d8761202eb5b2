import EntityGraph.Proofs.Graph.EdgeRows
import EntityGraph.Proofs.Relational.History
import EntityGraph.Proofs.Sql.Statements

/-!
# Updates on a database

What each part of an update that has a result has done to a table of the database: the probes have
found no partner, the own row has been updated, foreign keys have been cleared and then linked, and
rows of join tables have changed in other tables only.
-/

set_option autoImplicit false

namespace EntityGraph

open Program

variable {E : Engine} {keys : List (String × String)} {s s' : Session} {conn : Connection}

/-! ## Single statements -/

theorem leads_update {u : Update} {r : ExecResult}
    (h : (conn.exec (.update u)).Leads E keys s r s') :
    (∀ name ∈ u.names, s.current.knows u.table name = true) ∧
      s'.current = u.applied E s.current ∧ r.rowsAffected ≤ (u.reached E s.current).length ∧
        s'.current.Obeys E keys := by
  obtain ⟨⟨hnames, hcurrent⟩, hcount, hobeys, -⟩ := leads_exec.mp h
  exact ⟨hnames, hcurrent, hcount, hobeys⟩

/-- A loop keeps what each of its rounds keeps. -/
theorem leads_forM_invariant {α : Type} {f : α → Program PUnit} {xs : List α}
    (keep : Database → Prop)
    (hf : ∀ x ∈ xs, ∀ s s', (f x).Leads E keys s () s' → keep s.current → keep s'.current)
    (h : (xs.forM f).Leads E keys s () s') (hs : keep s.current) : keep s'.current :=
  reaches_forM_invariant (fun s => keep s.current)
    (fun x hx s s' hx' => hf x hx s s' (leads_iff_reaches.mpr hx')) (leads_iff_reaches.mp h) hs

theorem leads_mapM_ofExcept {α β : Type} {g : α → Except Error β} {l : List α} {out : List β}
    (h : (l.mapM fun x => ofExcept (g x)).Leads E keys s out s') :
    List.Forall₂ (fun x b => g x = .ok b) l out ∧ s' = s := by
  induction l generalizing s s' out with
  | nil =>
    obtain ⟨rfl, rfl⟩ := leads_done.mp h
    exact ⟨.nil, rfl⟩
  | cons x l ih =>
    rw [List.mapM_cons] at h
    obtain ⟨b, mid, hx, hrest⟩ := leads_bind.mp h
    obtain ⟨hb, rfl⟩ := leads_ofExcept.mp hx
    obtain ⟨bs, mid', hl, hdone⟩ := leads_bind.mp hrest
    obtain ⟨hforall, rfl⟩ := ih hl
    obtain ⟨rfl, rfl⟩ := leads_done.mp hdone
    exact ⟨.cons hb hforall, rfl⟩

/-- What a loop of statements that only take values away makes of the rows of a table. -/
theorem leads_forM_unlink {α β : Type} {f : α → Except Error β} {statement : β → Command}
    {xs : List α} {db : Database} {name : List String}
    (hf : ∀ x ∈ xs, ∀ b, f x = .ok b → (statement b).Unlinks E db name)
    (h : (xs.forM fun x => ofExcept (f x) >>= fun b => discard (conn.exec (statement b))).Leads E
      keys s () s')
    (hcolumns : (s.current name).columns = (db name).columns) (hs : s.current.Obeys E keys) :
    (s'.current name).columns = (db name).columns ∧
      (s'.current name).rows = (s.current name).rows.filterMap
        (Command.rowThrough E db name (xs.filterMap fun x => (f x).toOption.map statement)) ∧
      s'.current.Obeys E keys := by
  induction xs generalizing s with
  | nil =>
    obtain rfl := leads_forM_nil.mp h
    exact ⟨hcolumns, List.filterMap_some.symm, hs⟩
  | cons x xs ih =>
    obtain ⟨mid, hx, hxs⟩ := leads_forM_cons.mp h
    obtain ⟨b, _, hlift, hdiscard⟩ := leads_bind.mp hx
    obtain ⟨hb, rfl⟩ := leads_ofExcept.mp hlift
    obtain ⟨r, hexec⟩ := leads_discard.mp hdiscard
    obtain ⟨hcarried, -, hobeys, -⟩ := leads_exec.mp hexec
    have hunlinks := hf x List.mem_cons_self b hb
    obtain ⟨hcolumns', hrows', hobeys'⟩ := ih (fun y hy => hf y (List.mem_cons_of_mem x hy)) hxs
      ((hunlinks.columns hcarried).trans hcolumns) hobeys
    have hcons : (x :: xs).filterMap (fun x => (f x).toOption.map statement) =
        statement b :: xs.filterMap fun x => (f x).toOption.map statement := by
      rw [List.filterMap_cons, hb]
      rfl
    refine ⟨hcolumns', ?_, hobeys'⟩
    rw [hrows', hunlinks.rows hcarried hcolumns, List.filterMap_filterMap, hcons]
    rfl

/-! ## Join tables -/

theorem mem_insertName {name n : String} {names : List String} :
    n ∈ insertName name names ↔ n = name ∨ n ∈ names := by
  induction names with
  | nil => simp [insertName]
  | cons m rest ih =>
    unfold insertName
    split
    case isTrue => rw [List.mem_cons]
    case isFalse =>
      split
      case isTrue hname =>
        subst hname
        simp
      case isFalse => rw [List.mem_cons, ih, List.mem_cons, or_left_comm]

theorem mem_sortedNames {n : String} {names : List String} : n ∈ sortedNames names ↔ n ∈ names := by
  induction names with
  | nil => exact Iff.rfl
  | cons m names ih =>
    rw [List.mem_cons, ← ih]
    exact mem_insertName

theorem pairwise_insertName {name : String} {names : List String} (h : names.Pairwise (· < ·)) :
    (insertName name names).Pairwise (· < ·) := by
  induction names with
  | nil => exact List.pairwise_singleton _ _
  | cons n rest ih =>
    obtain ⟨hn, hrest⟩ := List.pairwise_cons.mp h
    unfold insertName
    split
    case isTrue hless =>
      refine List.pairwise_cons.mpr ⟨fun m hm => ?_, h⟩
      rcases List.mem_cons.mp hm with rfl | hm
      · exact hless
      · exact String.lt_trans hless (hn m hm)
    case isFalse hless =>
      split
      case isTrue => exact h
      case isFalse hne =>
        refine List.pairwise_cons.mpr ⟨fun m hm => ?_, ih hrest⟩
        rcases mem_insertName.mp hm with rfl | hm
        · by_contra hnot
          exact hne (String.le_antisymm (String.not_lt.mp hnot) (String.not_lt.mp hless))
        · exact hn m hm

/-- The names of a list stand in order. -/
theorem pairwise_sortedNames (names : List String) : (sortedNames names).Pairwise (· < ·) := by
  induction names with
  | nil => exact .nil
  | cons n names ih => exact pairwise_insertName ih

/-- The names of a list stand in order, so each is there once. -/
theorem nodup_sortedNames (names : List String) : (sortedNames names).Nodup := by
  refine (pairwise_sortedNames names).imp fun {m n} hless hsame => ?_
  subst hsame
  exact String.lt_irrefl m hless

/-- The groups of a list are those of the names of its items. -/
theorem mem_groupByName {α : Type} {name : α → String} {items : List α} {g : String × List α} :
    g ∈ groupByName name items ↔
      (∃ item ∈ items, name item = g.1) ∧ g.2 = items.filter fun item => name item == g.1 := by
  unfold groupByName
  rw [List.mem_map]
  constructor
  · rintro ⟨n, hn, rfl⟩
    exact ⟨List.mem_map.mp (mem_sortedNames.mp hn), rfl⟩
  · rintro ⟨hname, hitems⟩
    exact ⟨g.1, mem_sortedNames.mpr (List.mem_map.mpr hname), by rw [← hitems]⟩

/-- The group of a name has all items of that name, of which there are some. -/
theorem mem_of_groupByName {α : Type} {name : α → String} {p : α → Bool} {items : List α}
    {g : String × List α} (hg : g ∈ groupByName name (items.filter p)) :
    g.2 ≠ [] ∧ ∀ a, a ∈ g.2 ↔ a ∈ items ∧ p a = true ∧ name a = g.1 := by
  obtain ⟨⟨a, ha, hname⟩, hgroup⟩ := mem_groupByName.mp hg
  rw [hgroup]
  refine ⟨List.ne_nil_of_mem (List.mem_filter.mpr ⟨ha, beq_iff_eq.mpr hname⟩), fun a => ?_⟩
  rw [List.mem_filter, List.mem_filter, beq_iff_eq, and_assoc]

theorem nodup_groupByName {α : Type} (name : α → String) (items : List α) :
    ((groupByName name items).map (·.1)).Nodup := by
  unfold groupByName
  rw [List.map_map]
  exact (List.map_id' _).symm ▸ nodup_sortedNames _

namespace JoinTable

/-- What clearing edges of many to many makes of the rows of a table. -/
theorem leads_clear {ids : List Value} {edges : List Edge} {name : List String} {db : Database}
    (hids : ids ≠ []) (h : (JoinTable.clear conn ids edges).Leads E keys s () s')
    (hcolumns : (s.current name).columns = (db name).columns) (hs : s.current.Obeys E keys) :
    (s'.current name).columns = (db name).columns ∧
      (s'.current name).rows =
        (s.current name).rows.filterMap (Command.rowThrough E db name (clearings ids edges)) ∧
      s'.current.Obeys E keys := by
  unfold JoinTable.clear at h
  split at h
  case isTrue hempty => exact absurd (List.isEmpty_iff.mp hempty) hids
  case isFalse =>
    exact leads_forM_unlink (f := fun g : String × List Edge => clearing g.1 ids g.2)
      (fun g _ x hx => unlinks_clearing hx) h hcolumns hs

theorem insertOf_table {table : String} {links : List (List Value × Edge)} {i : Insert}
    (h : insertOf table links = .ok i) : i.table = table := by
  obtain ⟨rows, -, hrows⟩ := bind_eq_ok.mp h
  obtain rfl := Except.ok.inj hrows
  cases links with
  | nil => rfl
  | cons l links =>
    show (insertFor table l.2).table = table
    unfold insertFor
    split <;> rfl

theorem compile_table {d : Dialect} {i : Insert} {statement : InsertStatement}
    (h : i.compile d = .ok statement) : statement.table = i.table := by
  obtain ⟨-, _, -, rfl⟩ := Sql.compile_eq_ok.mp h
  rfl

/-- Writing edges of many to many keeps what the INSERT into each of the join tables keeps. -/
theorem reaches_add_invariant {R : Answering Session} {links : List (List Value × Edge)}
    (hR : ∀ c r s s', R c r s s' → c.Answers E keys r s s') (keep : Session → Prop)
    (hinsert : ∀ g ∈ groupByName (fun link => link.2.table)
      (links.filter fun link => link.2.isManyToMany), ∀ i r s s', insertOf g.1 g.2 = .ok i →
        (conn.execInsert i).Reaches R s r s' → keep s → keep s')
    (h : (JoinTable.add conn links).Reaches R s () s') (hs : keep s) : keep s' := by
  unfold JoinTable.add at h
  obtain ⟨inserts, mid, hmapM, hforM⟩ := reaches_bind.mp h
  obtain ⟨hinserts, rfl⟩ := leads_mapM_ofExcept (hmapM.leads hR)
  refine reaches_forM_invariant keep (fun i hi t t' ht hkeep => ?_) hforM hs
  split at ht
  case isTrue =>
    obtain ⟨-, rfl⟩ := reaches_done.mp ht
    exact hkeep
  case isFalse =>
    obtain ⟨r, hexec⟩ := reaches_discard.mp ht
    obtain ⟨g, hg, hi⟩ := exists_of_forall₂ hinserts.flip hi
    exact hinsert g hg i r t t' hi hexec hkeep

/-- Writing edges of many to many leaves tables that are no join tables of them as they are. -/
theorem leads_add {links : List (List Value × Edge)} {name : List String}
    (hedges : ∀ link ∈ links, link.2.isManyToMany = true → nameParts link.2.table ≠ name)
    (h : (JoinTable.add conn links).Leads E keys s () s') (hs : s.current.Obeys E keys) :
    s'.current name = s.current name ∧ s'.current.Obeys E keys := by
  refine reaches_add_invariant (fun _ _ _ _ hc => hc)
    (fun t => t.current name = s.current name ∧ t.current.Obeys E keys)
    (fun g hg i r t t' hinsert hrun hkeep => ?_) (leads_iff_reaches.mp h) ⟨rfl, hs⟩
  obtain ⟨statement, mid, hlift, hexec⟩ := leads_bind.mp (leads_iff_reaches.mpr hrun)
  obtain ⟨hcompile, rfl⟩ := leads_ofExcept.mp hlift
  obtain ⟨hcarried, -, hobeys, -⟩ := leads_exec.mp hexec
  have hne : name ≠ nameParts statement.table := by
    obtain ⟨hsome, hmem⟩ := mem_of_groupByName hg
    obtain ⟨link, hlink⟩ := List.exists_mem_of_ne_nil _ hsome
    obtain ⟨hlink, hmany, hname⟩ := (hmem link).mp hlink
    rw [compile_table hcompile, insertOf_table hinsert, ← hname]
    exact Ne.symm (hedges link hlink hmany)
  have hother : t'.current name = mid.current name := hcarried name hne
  exact ⟨hother.trans hkeep.1, hobeys⟩

end JoinTable

/-! ## Foreign keys -/

namespace ForeignKey

/-- What clearing foreign keys makes of the rows of a table. -/
theorem leads_clear {ids : List Value} {edges : List Edge} {name : List String} {db : Database}
    (hids : ids ≠ []) (h : (ForeignKey.clear conn ids edges).Leads E keys s () s')
    (hcolumns : (s.current name).columns = (db name).columns) (hs : s.current.Obeys E keys) :
    (s'.current name).columns = (db name).columns ∧
      (s'.current name).rows =
        (s.current name).rows.filterMap (Command.rowThrough E db name (clearings ids edges)) ∧
      s'.current.Obeys E keys := by
  unfold ForeignKey.clear at h
  split at h
  case isTrue hempty => exact absurd (List.isEmpty_iff.mp hempty) hids
  case isFalse =>
    exact leads_forM_unlink (f := clearing ids)
      (fun e _ u hu => unlinks_clearing hu) h hcolumns hs

/-- What linking the targets of an edge has done. -/
theorem leads_link {id : Value} {e : Edge} (h : (link conn id e).Leads E keys s () s') :
    ∃ fk, e.columns = [fk] ∧
      (∀ n ∈ (linking id fk e).names, s.current.knows e.table n = true) ∧
      s'.current = (linking id fk e).applied E s.current ∧
      e.target.nodes.length ≤ ((linking id fk e).reached E s.current).length ∧
      s'.current.Obeys E keys := by
  obtain ⟨fk, _, hlift, hrest⟩ := leads_bind.mp h
  obtain ⟨hfk, rfl⟩ := leads_ofExcept.mp hlift
  obtain ⟨r, mid, hexec, hcheck⟩ := leads_bind.mp hrest
  obtain ⟨hnames, hcurrent, hcount, hobeys⟩ := leads_update hexec
  split at hcheck
  case isTrue => exact absurd hcheck leads_fail
  case isFalse hfew =>
    obtain ⟨-, rfl⟩ := leads_done.mp hcheck
    exact ⟨fk, Edge.foreignKey_eq_ok.mp hfk, hnames, hcurrent, by omega, hobeys⟩

/-- Linking over edges that are not stored in a column leaves the column as it is. -/
theorem leads_links_keep {id : Value} {es : List Edge} {table c : String}
    (hes : ∀ e ∈ es, e.table = table → ∀ fk, e.columns = [fk] → c ≠ columnName fk)
    (h : (es.forM (link conn id)).Leads E keys s () s') (hs : s.current.Obeys E keys) :
    (s.current (nameParts table)).Keeps c (s'.current (nameParts table)) ∧
      s'.current.Obeys E keys := by
  refine leads_forM_invariant
    (fun db => (s.current (nameParts table)).Keeps c (db (nameParts table)) ∧ db.Obeys E keys)
    (fun e he t t' ht hkeep => ?_) h ⟨Table.Keeps.refl _, hs⟩
  obtain ⟨fk, hfk, hnames, hcurrent, -, hobeys⟩ := leads_link ht
  refine ⟨hkeep.1.trans ?_, hobeys⟩
  rw [hcurrent]
  refine ⟨Update.applied_columns _, _, Update.applied_rows _, fun r => ⟨?_, fun k hk => ?_⟩⟩
  · by_cases htable : e.table = table
    · exact linking_rowIn_keeps hnames r (.inl (hes e he htable fk hfk))
    · have hne : nameParts (linking id fk e).table ≠ nameParts table :=
        fun hparts => htable (nameParts_injective hparts)
      rw [Update.rowIn, if_neg hne]
  · exact linking_rowIn_keeps hnames r (.inr hk)

theorem leads_add {ids : List Value} {edges : List Edge}
    (h : (ForeignKey.add conn ids edges).Leads E keys s () s') :
    ((edges.filter fun e => e.isForeignKeyEdge && !e.target.nodes.isEmpty) = [] ∧ s' = s) ∨
      ∃ id, ids = [id] ∧
        ((edges.filter fun e => e.isForeignKeyEdge && !e.target.nodes.isEmpty).forM
          (link conn id)).Leads E keys s () s' := by
  unfold ForeignKey.add at h
  split at h
  case h_1 hlinks =>
    obtain ⟨-, rfl⟩ := leads_done.mp h
    exact .inl ⟨hlinks, rfl⟩
  case h_2 id _ => exact .inr ⟨id, rfl, h⟩
  case h_3 => exact absurd h leads_fail

end ForeignKey

/-! ## Probes -/

/-- A loop of questions leaves the database as it is. -/
theorem leads_forM_ask {α : Type} {f : α → Program PUnit} {xs : List α} {P : α → Prop}
    (hf : ∀ x ∈ xs, ∀ s', (f x).Leads E keys s () s' → s' = s ∧ P x)
    (h : (xs.forM f).Leads E keys s () s') : s' = s ∧ ∀ x ∈ xs, P x := by
  induction xs with
  | nil => exact ⟨leads_forM_nil.mp h, fun x hx => by cases hx⟩
  | cons x xs ih =>
    obtain ⟨mid, hx, hxs⟩ := leads_forM_cons.mp h
    obtain ⟨rfl, hP⟩ := hf x List.mem_cons_self mid hx
    obtain ⟨hs', hall⟩ := ih (fun y hy => hf y (List.mem_cons_of_mem x hy)) hxs
    exact ⟨hs', List.forall_mem_cons.mpr ⟨hP, hall⟩⟩

/-- The partners of an edge have been looked for, and none has been found. -/
def Partner.Unclaimed (E : Engine) (db : Database) (node : Node) (id? : Option Value)
    (e : Edge) : Prop :=
  ∀ target rest fk, e.target.nodes = target :: rest → e.columns = [fk] →
    ∀ q ∈ Partner.questions node id? e fk target, (q.rows.outRows E db []).isEmpty = true

theorem Partner.leads_checkEdge {node : Node} {id? : Option Value} {e : Edge}
    (h : (Partner.checkEdge conn node id? e).Leads E keys s () s') :
    s' = s ∧ Partner.Unclaimed E s.current node id? e := by
  unfold Partner.checkEdge at h
  split at h
  case h_1 hnodes =>
    obtain ⟨-, rfl⟩ := leads_done.mp h
    refine ⟨rfl, fun target rest fk htarget => ?_⟩
    rw [hnodes] at htarget
    cases htarget
  case h_2 target rest hnodes =>
    obtain ⟨fk, mid, hlift, hforM⟩ := leads_bind.mp h
    obtain ⟨hok, rfl⟩ := leads_ofExcept.mp hlift
    have hfk : e.columns = [fk] := Edge.foreignKey_eq_ok.mp hok
    have hask : ∀ q ∈ questions node id? e fk target, ∀ t : Session,
        (do if ← conn.probe q.rows then throw q.conflict.toError : Program Unit).Leads E keys mid
          () t → t = mid ∧ (q.rows.outRows E mid.current []).isEmpty = true := by
      intro q _ t ht
      obtain ⟨b, _, hprobe, hthrow⟩ := leads_bind.mp ht
      obtain ⟨hb, rfl⟩ := leads_probe hprobe
      cases b with
      | true => exact absurd hthrow leads_fail
      | false =>
        obtain ⟨-, rfl⟩ := leads_done.mp hthrow
        refine ⟨rfl, ?_⟩
        simpa using hb
    obtain ⟨hs', hall⟩ := leads_forM_ask hask hforM
    refine ⟨hs', fun target' rest' fk' hnodes' hfk' => ?_⟩
    obtain ⟨rfl, -⟩ := List.cons.inj (hnodes.symm.trans hnodes')
    obtain rfl : fk = fk' := by simpa using hfk.symm.trans hfk'
    exact hall

/-- The partners of added edges have been looked for, unless an edge of the same relation is
cleared. -/
theorem Partner.leads_check {node : Node} {id? : Option Value} {add clear : List Edge}
    (h : (Partner.check conn node id? add clear).Leads E keys s () s') :
    s' = s ∧ ∀ e ∈ add, e.isOneToOne = true → (clear.any fun f => f.sameRelation e) = false →
      Partner.Unclaimed E s.current node id? e := by
  obtain ⟨hs', hall⟩ := leads_forM_ask (fun e _ t ht => leads_checkEdge ht) h
  refine ⟨hs', fun e he hone hclear => hall e (List.mem_filter.mpr ⟨he, ?_⟩)⟩
  rw [hone, hclear]
  rfl

/-! ## Updates -/

/-- What changing edges has done before foreign keys are linked: it has cleared edges. -/
theorem ExternalEdges.leads_change {ids : List Value} {changes : EdgeChanges} {table : String}
    {db : Database} (hids : ids ≠ [])
    (hjoins : ∀ e ∈ changes.add, e.isManyToMany = true → e.table ≠ table)
    (h : (ExternalEdges.change conn ids changes).Leads E keys s () s')
    (hcolumns : (s.current (nameParts table)).columns = (db (nameParts table)).columns)
    (hs : s.current.Obeys E keys) :
    ∃ cleared : Session,
      (cleared.current (nameParts table)).rows = (s.current (nameParts table)).rows.filterMap
        (Command.rowThrough E db (nameParts table) (clearings ids changes.clear)) ∧
      cleared.current.Obeys E keys ∧
      (ForeignKey.add conn ids changes.add).Leads E keys cleared () s' := by
  obtain ⟨_, dropped, hdrop, hrest⟩ := leads_bind.mp h
  obtain ⟨_, joined, hjoin, hforeign⟩ := leads_bind.mp hrest
  obtain ⟨_, cleared, hclear, hadd⟩ := leads_bind.mp hforeign
  obtain ⟨hcolumns', hdropped, hobeys⟩ := JoinTable.leads_clear hids hdrop hcolumns hs
  obtain ⟨hjoined, hobeys'⟩ := JoinTable.leads_add (fun link hlink => by
    obtain ⟨e, he, rfl⟩ := List.mem_map.mp hlink
    intro hmany hname
    exact hjoins e he hmany (nameParts_injective hname)) hjoin hobeys
  have hjoinedcolumns : (joined.current (nameParts table)).columns =
      (db (nameParts table)).columns := by rw [hjoined, hcolumns']
  obtain ⟨-, hcleared, hobeys''⟩ := ForeignKey.leads_clear hids hclear hjoinedcolumns hobeys'
  refine ⟨cleared, ?_, hobeys'', hadd⟩
  have hthrough : Command.rowThrough E db (nameParts table) (clearings ids changes.clear) =
      fun r => (Command.rowThrough E db (nameParts table)
        (JoinTable.clearings ids changes.clear) r).bind
          (Command.rowThrough E db (nameParts table) (ForeignKey.clearings ids changes.clear)) := by
    funext r
    exact Command.rowThrough_append _ _ r
  rw [hcleared, hjoined, hdropped, List.filterMap_filterMap, hthrough]

namespace NodeUpdate

variable {u : NodeUpdate} {R : Answering Session}

/-- The UPDATE of the row of a node, if the row meets a condition. -/
def touching (u : NodeUpdate) (p : Option Predicate) (own : Update) (id : Value) : Update :=
  (own.filter (.eq u.node.id.column id)).filterOpt p

theorem touching_fields (u : NodeUpdate) (p : Option Predicate) (own : Update) (id : Value) :
    (u.touching p own id).table = own.table ∧ (u.touching p own id).isEmpty = own.isEmpty ∧
      (u.touching p own id).assigned E = own.assigned E := by
  unfold touching
  cases p <;> exact ⟨rfl, rfl, rfl⟩

theorem leads_writeOwnRow {id : Value} {n : Nat}
    (h : (u.writeOwnRow conn id).Leads E keys s n s') (hs : s.current.Obeys E keys) :
    ∃ own, u.ownUpdate = .ok own ∧
      s'.current = (u.touching u.predicate own id).applied E s.current ∧
      s'.current.Obeys E keys := by
  obtain ⟨own, mid, hlift, hrest⟩ := leads_bind.mp h
  obtain ⟨hown, rfl⟩ := leads_ofExcept.mp hlift
  refine ⟨own, hown, ?_⟩
  split at hrest
  case isTrue hempty =>
    obtain ⟨-, rfl⟩ := leads_done.mp hrest
    have hempty : (u.touching u.predicate own id).isEmpty = true :=
      (u.touching_fields (E := E) u.predicate own id).2.1.trans hempty
    rw [Update.applied_of_isEmpty hempty]
    exact ⟨rfl, hs⟩
  case isFalse =>
    obtain ⟨result, written, hexec, hdone⟩ := leads_bind.mp hrest
    obtain ⟨-, rfl⟩ := leads_done.mp hdone
    obtain ⟨-, hcurrent, -, hobeys⟩ := leads_update hexec
    exact ⟨hcurrent, hobeys⟩

theorem leads_readBack {id : Value} (h : (u.readBack conn id).Leads E keys s () s') :
    s'.current = s.current := by
  obtain ⟨rows, mid, hquery, hrest⟩ := leads_bind.mp h
  obtain ⟨hcarried, -⟩ := leads_query.mp hquery
  have hmid : mid.current = s.current := hcarried
  split at hrest
  case h_1 => exact absurd hrest leads_fail
  case h_2 =>
    obtain ⟨types, _, htypes, hread⟩ := leads_bind.mp hrest
    obtain ⟨-, rfl⟩ := leads_ofExcept.mp htypes
    obtain ⟨values, _, hvalues, hdeliver⟩ := leads_bind.mp hread
    obtain ⟨-, rfl⟩ := leads_ofExcept.mp hvalues
    obtain ⟨reply, _, hanswer, hreply⟩ := (leads_request (c := .deliver _)).mp hdeliver
    obtain rfl := hanswer
    obtain ⟨-, rfl⟩ := leads_ofExcept.mp hreply
    exact hmid

/-- What an update of one node has done: it has looked for partners, updated the node's row and
changed edges. -/
theorem reaches_writeOne (hR : ∀ c r s s', R c r s s' → c.Answers E keys r s s') {id : Value}
    (h : (u.writeOne conn id).Reaches R s () s') (hs : s.current.Obeys E keys) :
    (∀ e ∈ u.edges.add, e.isOneToOne = true →
      (u.edges.clear.any fun f => f.sameRelation e) = false →
        Partner.Unclaimed E s.current u.node (some id) e) ∧
    ∃ own, ∃ written changed : Session, u.ownUpdate = .ok own ∧
      written.current = (u.touching u.predicate own id).applied E s.current ∧
      written.current.Obeys E keys ∧
      (ExternalEdges.change conn [id] u.edges).Reaches R written () changed ∧
      s'.current = changed.current := by
  obtain ⟨_, mid, hcheck, hrest⟩ := reaches_bind.mp h
  obtain ⟨rfl, hpartners⟩ := Partner.leads_check (hcheck.leads hR)
  refine ⟨hpartners, ?_⟩
  obtain ⟨n, written, hwrite, hrest'⟩ := reaches_bind.mp hrest
  obtain ⟨own, hown, hwritten, hobeys⟩ := leads_writeOwnRow (hwrite.leads hR) hs
  have hafter : ∀ t : Session,
      (ExternalEdges.change conn [id] u.edges >>= fun _ =>
        if u.delivers = true then u.readBack conn id else Program.done ()).Reaches R t () s' →
      ∃ changed, (ExternalEdges.change conn [id] u.edges).Reaches R t () changed ∧
        s'.current = changed.current := by
    intro t ht
    obtain ⟨_, changed, hchange, hend⟩ := reaches_bind.mp ht
    refine ⟨changed, hchange, ?_⟩
    split at hend
    case isTrue => exact leads_readBack (hend.leads hR)
    case isFalse =>
      obtain ⟨-, rfl⟩ := reaches_done.mp hend
      rfl
  dsimp only at hrest'
  split at hrest'
  case isTrue =>
    obtain ⟨present, _, hprobe, hend⟩ := reaches_bind.mp hrest'
    obtain ⟨-, rfl⟩ := leads_probe (hprobe.leads hR)
    cases present with
    | false => exact absurd hend reaches_fail
    | true =>
      obtain ⟨changed, hchange, hs'⟩ := hafter _ hend
      exact ⟨own, _, changed, hown, hwritten, hobeys, hchange, hs'⟩
  case isFalse =>
    obtain ⟨changed, hchange, hs'⟩ := hafter _ hrest'
    exact ⟨own, written, changed, hown, hwritten, hobeys, hchange, hs'⟩

theorem leads_writeOne {id : Value} (h : (u.writeOne conn id).Leads E keys s () s')
    (hs : s.current.Obeys E keys) :
    (∀ e ∈ u.edges.add, e.isOneToOne = true →
      (u.edges.clear.any fun f => f.sameRelation e) = false →
        Partner.Unclaimed E s.current u.node (some id) e) ∧
    ∃ own, ∃ written changed : Session, u.ownUpdate = .ok own ∧
      written.current = (u.touching u.predicate own id).applied E s.current ∧
      written.current.Obeys E keys ∧
      (ExternalEdges.change conn [id] u.edges).Leads E keys written () changed ∧
      s'.current = changed.current := by
  simp only [leads_iff_reaches] at h ⊢
  exact reaches_writeOne (fun _ _ _ _ hc => hc) h hs

/-- The node of a row is one that an update of many nodes finds, under this ID. -/
def Finds (E : Engine) (u : NodeUpdate) (db : Database) (r : Tuple) (id : Value) : Prop :=
  r ∈ (db (nameParts u.node.table)).rows ∧ db.meets E u.node.table u.predicate r = true ∧
    u.node.readId (r u.node.id.column) = .ok id

theorem leads_matchedIds {ids : List Value}
    (hid : (s.current (nameParts u.node.table)).HasColumn u.node.id.column)
    (h : (u.matchedIds conn).Leads E keys s ids s') :
    s'.current = s.current ∧ s'.current.Obeys E keys ∧
      ∀ id, id ∈ ids ↔ ∃ r, u.Finds E s.current r id := by
  obtain ⟨rows, mid, hquery, hlift⟩ := leads_bind.mp h
  obtain ⟨hcarried, hreturns, hobeys, -⟩ := leads_query.mp hquery
  have hcurrent : mid.current = s.current := hcarried
  obtain ⟨hids, rfl⟩ := leads_ofExcept.mp hlift
  have hread : List.Forall₂ (fun v id => u.node.readId v = .ok id)
      (rows.rows.filterMap List.head?) ids := mapM_eq_ok.mp hids
  have hselector : ((Selector.ofTable u.node.table).withColumns [u.node.id.column]).filterOpt
      u.predicate = ⟨[u.node.id.column], .table u.node.table none, [], u.predicate, [], none, none,
        false, false⟩ := by
    cases u.predicate <;> rfl
  have hreturns : rows.rows.Perm ((Selector.outRows E s.current
      (((Selector.ofTable u.node.table).withColumns [u.node.id.column]).filterOpt u.predicate)
        []).map fun r => r.map (·.2)) := hreturns
  rw [hselector, outRows_table, List.map_map] at hreturns
  have hhead : ∀ r : Tuple, (((Selector.columnNames [u.node.id.column]).flatMap (projected []
      [⟨nameParts u.node.table, (s.current (nameParts u.node.table)).columns, r⟩])).map
        (·.2)).head? = some (r u.node.id.column) := by
    intro r
    have hlookup := lookup_row (r := r) hid.knows
    rw [columnName_plain hid.plain, hid.plain] at hlookup
    simp [Selector.columnNames, projected, hid.plain, hid.notStar, hlookup]
  refine ⟨hcurrent, hobeys, fun id => ⟨fun hmem => ?_, ?_⟩⟩
  · obtain ⟨v, hv, hok⟩ := exists_of_forall₂ hread.flip hmem
    obtain ⟨row, hrow, hrowhead⟩ := List.mem_filterMap.mp hv
    obtain ⟨r, hr, rfl⟩ := List.mem_map.mp (hreturns.mem_iff.mp hrow)
    obtain ⟨hr, hmeets⟩ := List.mem_filter.mp hr
    obtain rfl : r u.node.id.column = v := Option.some.inj ((hhead r).symm.trans hrowhead)
    exact ⟨r, hr, hmeets, hok⟩
  · rintro ⟨r, hr, hmeets, hok⟩
    have hrow := hreturns.mem_iff.mpr (List.mem_map_of_mem (List.mem_filter.mpr ⟨hr, hmeets⟩))
    have hv := List.mem_filterMap.mpr ⟨_, hrow, hhead r⟩
    obtain ⟨id', hid', hok'⟩ := exists_of_forall₂ hread hv
    rw [hok'] at hok
    rwa [← Except.ok.inj hok]

theorem leads_checkPartners {ids : List Value}
    (h : (u.checkPartners conn ids).Leads E keys s () s') :
    s' = s ∧ ∀ e ∈ u.edges.add, e.isOneToOne = true → ids.length ≤ 1 ∧
      ((u.edges.clear.any fun f => f.sameRelation e) = false →
        Partner.Unclaimed E s.current u.node ids.head? e) := by
  unfold checkPartners at h
  split at h
  case isTrue =>
    split at h
    case isTrue => exact absurd h leads_fail
    case isFalse hfew =>
      obtain ⟨hs', hall⟩ := Partner.leads_check h
      exact ⟨hs', fun e he hone => ⟨by omega, hall e he hone⟩⟩
  case isFalse hnone =>
    obtain ⟨-, rfl⟩ := leads_done.mp h
    refine ⟨rfl, fun e he hone => ?_⟩
    exact absurd (List.any_eq_true.mpr ⟨e, he, hone⟩) hnone

/-- What an update of several nodes has done, unless it has found none: it has looked for partners,
updated the nodes' rows and changed edges. -/
theorem reaches_writeMany (hR : ∀ c r s s', R c r s s' → c.Answers E keys r s s') {n : Nat}
    (hid : (s.current (nameParts u.node.table)).HasColumn u.node.id.column)
    (h : (u.writeMany conn).Reaches R s n s') :
    ∃ ids, (∀ id, id ∈ ids ↔ ∃ r, u.Finds E s.current r id) ∧
      (ids = [] ∧ s'.current = s.current ∨
        ids ≠ [] ∧
        (∀ e ∈ u.edges.add, e.isOneToOne = true → ids.length ≤ 1 ∧
          ((u.edges.clear.any fun f => f.sameRelation e) = false →
            Partner.Unclaimed E s.current u.node ids.head? e)) ∧
        ∃ own, ∃ written changed : Session, u.ownUpdate = .ok own ∧
          written.current = (own.filter (.oneOf u.node.id.column ids)).applied E s.current ∧
          written.current.Obeys E keys ∧
          (ExternalEdges.change conn ids u.edges).Reaches R written () changed ∧
          s'.current = changed.current) := by
  obtain ⟨ids, found, hmatched, hrest⟩ := reaches_bind.mp h
  obtain ⟨hfound, hobeys, hids⟩ := leads_matchedIds hid (hmatched.leads hR)
  refine ⟨ids, hids, ?_⟩
  split at hrest
  case isTrue hempty =>
    obtain ⟨-, rfl⟩ := reaches_done.mp hrest
    exact .inl ⟨List.isEmpty_iff.mp hempty, hfound⟩
  case isFalse hsome =>
    have hne : ids ≠ [] := by
      rintro rfl
      exact hsome rfl
    obtain ⟨_, checked, hcheck, hrest'⟩ := reaches_bind.mp hrest
    obtain ⟨rfl, hpartners⟩ := leads_checkPartners (hcheck.leads hR)
    obtain ⟨own, _, hlift, hwrite⟩ := reaches_bind.mp hrest'
    obtain ⟨hown, rfl⟩ := reaches_ofExcept.mp hlift
    rw [hfound] at hpartners
    refine .inr ⟨hne, hpartners, own, ?_⟩
    have hafter : ∀ t : Session,
        (ExternalEdges.change conn ids u.edges >>= fun _ =>
          Program.done ids.length).Reaches R t n s' →
        ∃ changed, (ExternalEdges.change conn ids u.edges).Reaches R t () changed ∧
          s'.current = changed.current := by
      intro t ht
      obtain ⟨_, changed, hchange, hend⟩ := reaches_bind.mp ht
      obtain ⟨-, rfl⟩ := reaches_done.mp hend
      exact ⟨_, hchange, rfl⟩
    dsimp only at hwrite
    split at hwrite
    case isTrue =>
      obtain ⟨_, written, hdiscard, hend⟩ := reaches_bind.mp hwrite
      obtain ⟨r, hexec⟩ := leads_discard.mp (hdiscard.leads hR)
      obtain ⟨-, hcurrent, -, hobeys'⟩ := leads_update hexec
      obtain ⟨changed, hchange, hs'⟩ := hafter _ hend
      rw [hfound] at hcurrent
      exact ⟨written, changed, hown, hcurrent, hobeys', hchange, hs'⟩
    case isFalse hempty =>
      obtain ⟨changed, hchange, hs'⟩ := hafter _ hwrite
      have hempty : own.isEmpty = true := by simpa using hempty
      have hnothing : (own.filter (.oneOf u.node.id.column ids)).applied E s.current = s.current :=
        Update.applied_of_isEmpty (by exact hempty)
      exact ⟨_, changed, hown, hfound.trans hnothing.symm, hobeys, hchange, hs'⟩

theorem leads_writeMany {n : Nat}
    (hid : (s.current (nameParts u.node.table)).HasColumn u.node.id.column)
    (h : (u.writeMany conn).Leads E keys s n s') :
    ∃ ids, (∀ id, id ∈ ids ↔ ∃ r, u.Finds E s.current r id) ∧
      (ids = [] ∧ s'.current = s.current ∨
        ids ≠ [] ∧
        (∀ e ∈ u.edges.add, e.isOneToOne = true → ids.length ≤ 1 ∧
          ((u.edges.clear.any fun f => f.sameRelation e) = false →
            Partner.Unclaimed E s.current u.node ids.head? e)) ∧
        ∃ own, ∃ written changed : Session, u.ownUpdate = .ok own ∧
          written.current = (own.filter (.oneOf u.node.id.column ids)).applied E s.current ∧
          written.current.Obeys E keys ∧
          (ExternalEdges.change conn ids u.edges).Leads E keys written () changed ∧
          s'.current = changed.current) := by
  simp only [leads_iff_reaches] at h ⊢
  exact reaches_writeMany (fun _ _ _ _ hc => hc) hid h

theorem leads_writeRows {n : Nat} (h : (u.writeRows conn).Leads E keys s n s') :
    ∃ own, u.ownUpdate = .ok own ∧
      s'.current = (own.filterOpt u.predicate).applied E s.current := by
  obtain ⟨own, _, hlift, hrest⟩ := leads_bind.mp h
  obtain ⟨hown, rfl⟩ := leads_ofExcept.mp hlift
  refine ⟨own, hown, ?_⟩
  split at hrest
  case isTrue hempty =>
    obtain ⟨-, rfl⟩ := leads_done.mp hrest
    have hempty : (own.filterOpt u.predicate).isEmpty = true := by
      unfold Update.filterOpt
      split <;> exact hempty
    rw [Update.applied_of_isEmpty hempty]
  case isFalse =>
    obtain ⟨result, written, hexec, hdone⟩ := leads_bind.mp hrest
    obtain ⟨-, rfl⟩ := leads_done.mp hdone
    exact (leads_update hexec).2.1

/-! ### Operations -/

variable {d : Dialect}

/-- An update of one node that has a result has passed its checks and written the node. -/
theorem reaches_runOne (hR : ∀ c r s s', R c r s s' → c.Answers E keys r s s') {id : Value}
    (hid : u.node.id.bindValue = .ok id) (h : (u.runOne d).Reaches R s () s') :
    id.isNull = false ∧ u.check = .ok () ∧ ∃ inside start mid, start.current = s.current ∧
      (u.writeOne ⟨d, inside⟩ id).Reaches R start () mid ∧ s'.current = mid.current := by
  obtain ⟨id', start, hlift, hrest⟩ := reaches_bind.mp h
  obtain ⟨hid', hstart⟩ := reaches_ofExcept.mp hlift
  obtain rfl : id = id' := Except.ok.inj (hid.symm.trans hid')
  rw [hstart] at hrest
  split at hrest
  case isTrue => exact absurd hrest reaches_fail
  case isFalse hnull =>
    obtain ⟨_, started, hlift', htransaction⟩ := reaches_bind.mp hrest
    obtain ⟨hcheck, hstarted⟩ := reaches_ofExcept.mp hlift'
    rw [hstarted] at htransaction
    exact ⟨by simpa using hnull, hcheck, reaches_connection hR htransaction⟩

/-- An update of many nodes that has a result has passed its checks; it has written the nodes that it
has found, or only their rows where it needs no IDs. -/
theorem reaches_runMany (hR : ∀ c r s s', R c r s s' → c.Answers E keys r s s') {n : Nat}
    (h : (u.runMany d).Reaches R s n s') :
    u.check = .ok () ∧ ∃ inside start mid, start.current = s.current ∧
      (u.needsIds = true ∧ (u.writeMany ⟨d, inside⟩).Reaches R start n mid ∨
        u.needsIds = false ∧ (u.writeRows ⟨d, inside⟩).Reaches R start n mid) ∧
      s'.current = mid.current := by
  obtain ⟨_, started, hlift, hrest⟩ := reaches_bind.mp h
  obtain ⟨hcheck, hstarted⟩ := reaches_ofExcept.mp hlift
  rw [hstarted] at hrest
  refine ⟨hcheck, ?_⟩
  split at hrest
  case isTrue hneeds =>
    obtain ⟨inside, start, mid, hstart, hbody, hs'⟩ := reaches_connection hR hrest
    exact ⟨inside, start, mid, hstart, .inl ⟨hneeds, hbody⟩, hs'⟩
  case isFalse hneeds =>
    obtain ⟨inside, start, mid, hstart, hbody, hs'⟩ := reaches_connection hR hrest
    exact ⟨inside, start, mid, hstart, .inr ⟨Bool.eq_false_iff.mpr hneeds, hbody⟩, hs'⟩

end NodeUpdate

end EntityGraph
