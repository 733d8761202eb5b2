import EntityGraph.Proofs.Graph.UpdateRuns
import EntityGraph.Proofs.Relational.Insertion
import EntityGraph.Proofs.Sql.Statements

/-!
# The pairs of a join table

A join table is seen as the set of the pairs in its two columns. What an edge of some nodes stands
for is said in terms of pairs alone, and then clearing edges takes away the pairs that they clear,
and adding edges adds the pairs that they link. Pairs with an absent value are none.
-/

set_option autoImplicit false

namespace EntityGraph

open Program

variable {E : Engine} {S : Schema} {a b : Value} {c₁ c₂ : String}

/-- Both values of two pairs are the same. -/
def Engine.SamePair (E : Engine) (p q : Value × Value) : Prop :=
  E.equal p.1 q.1 = true ∧ E.equal p.2 q.2 = true

theorem Engine.SamePair.symm {p q : Value × Value} (h : E.SamePair p q) : E.SamePair q p :=
  ⟨by rw [equal_comm]; exact h.1, by rw [equal_comm]; exact h.2⟩

theorem Engine.SamePair.trans {p q r : Value × Value} (h : E.SamePair p q) (h' : E.SamePair q r) :
    E.SamePair p r :=
  ⟨equal_trans h.1 h'.1, equal_trans h.2 h'.2⟩

theorem Engine.SamePair.swap {p q : Value × Value} (h : E.SamePair p q) :
    E.SamePair p.swap q.swap :=
  ⟨h.2, h.1⟩

/-- The values of two columns of a row. -/
def pairOf (c₁ c₂ : String) (r : Tuple) : Value × Value := (r c₁, r c₂)

/-- A row of the table has a pair of values in two columns. -/
def Table.HasPair (E : Engine) (t : Table) (c₁ c₂ : String) (p : Value × Value) : Prop :=
  ∃ r ∈ t.rows, E.SamePair (pairOf c₁ c₂ r) p

namespace Edge

/-- The pair of a node and a target over the edge, the first column's value first. -/
def pair (e : Edge) (node target : Value) : Value × Value :=
  if e.inverse then (target, node) else (node, target)

/-- The node's end of a pair. -/
def ownEnd (e : Edge) (p : Value × Value) : Value := if e.inverse then p.2 else p.1

/-- The edge links a pair: it is one of the nodes with one of the targets, or such a pair with its
ends exchanged if the edge serves both directions. -/
def Links (E : Engine) (e : Edge) (nodes : Value → Prop) (p : Value × Value) : Prop :=
  ∃ i, nodes i ∧ ∃ t ∈ e.target.nodes,
    E.SamePair p (e.pair i t) ∨ e.bidi = true ∧ E.SamePair p.swap (e.pair i t)

/-- Clearing the edge clears a pair: the edge links it or, where the edge has no targets, one of the
nodes is at the nodes' end of the pair, or at either end if the edge serves both directions. -/
def Clears (E : Engine) (e : Edge) (nodes : Value → Prop) (p : Value × Value) : Prop :=
  e.Links E nodes p ∨ e.target.nodes = [] ∧ ∃ i, nodes i ∧
    (E.equal (e.ownEnd p) i = true ∨ e.bidi = true ∧ E.equal (e.ownEnd p.swap) i = true)

variable {e : Edge} {nodes : Value → Prop} {p q : Value × Value}

theorem samePair_pair {i t : Value} : E.SamePair p (e.pair i t) ↔
    E.equal (e.ownEnd p) i = true ∧ E.equal (e.ownEnd p.swap) t = true := by
  unfold Engine.SamePair pair ownEnd
  cases e.inverse with
  | true => exact And.comm
  | false => exact Iff.rfl

theorem equal_ownEnd {i : Value} (h : E.equal (e.ownEnd p) i = true) (hpq : E.SamePair q p) :
    E.equal (e.ownEnd q) i = true := by
  unfold ownEnd at h ⊢
  cases hinverse : e.inverse with
  | true =>
    rw [hinverse] at h
    exact Engine.equal_trans hpq.2 h
  | false =>
    rw [hinverse] at h
    exact Engine.equal_trans hpq.1 h

theorem Links.congr (h : e.Links E nodes p) (hpq : E.SamePair q p) : e.Links E nodes q := by
  obtain ⟨i, hi, t, ht, h | ⟨hbidi, h⟩⟩ := h
  · exact ⟨i, hi, t, ht, .inl (hpq.trans h)⟩
  · exact ⟨i, hi, t, ht, .inr ⟨hbidi, hpq.swap.trans h⟩⟩

theorem Clears.congr (h : e.Clears E nodes p) (hpq : E.SamePair q p) : e.Clears E nodes q := by
  rcases h with h | ⟨hnone, i, hi, h⟩
  · exact .inl (h.congr hpq)
  · refine .inr ⟨hnone, i, hi, ?_⟩
    exact h.imp (equal_ownEnd · hpq) (And.imp_right (equal_ownEnd · hpq.swap))

/-- An edge that serves both directions links a pair together with the exchanged one. -/
theorem Links.swap (h : e.Links E nodes p) (hbidi : e.bidi = true) : e.Links E nodes p.swap := by
  obtain ⟨i, hi, t, ht, h | ⟨-, h⟩⟩ := h
  · exact ⟨i, hi, t, ht, .inr ⟨hbidi, h⟩⟩
  · exact ⟨i, hi, t, ht, .inl h⟩

theorem Clears.swap (h : e.Clears E nodes p) (hbidi : e.bidi = true) : e.Clears E nodes p.swap := by
  rcases h with h | ⟨hnone, i, hi, h | ⟨-, h⟩⟩
  · exact .inl (h.swap hbidi)
  · exact .inr ⟨hnone, i, hi, .inr ⟨hbidi, h⟩⟩
  · exact .inr ⟨hnone, i, hi, .inl h⟩

end Edge

/-! ## Clearing -/

namespace JoinTable

variable {db : Database} {table : String} {ids : List Value} {r r' : Tuple}

/-- The conditions of an edge delete a row if clearing the edge clears its pair. -/
theorem any_meets_clearedRows {e : Edge} {ps : List Predicate} (hps : clearedRows ids e = .ok ps)
    (hcolumns : e.columns = [c₁, c₂]) (h₁ : (db (nameParts table)).HasColumn c₁)
    (h₂ : (db (nameParts table)).HasColumn c₂) (hr₁ : (r c₁).isNull = false)
    (hr₂ : (r c₂).isNull = false) :
    (ps.any fun p => db.meets E table (some p) r) = true ↔
      e.Clears E (· ∈ ids) (pairOf c₁ c₂ r) := by
  obtain ⟨⟨own, other⟩, hjoin, hrows⟩ := bind_eq_ok.mp hps
  have hone : ∀ c, c = c₁ ∨ c = c₂ → ∀ vs, db.meets E table (some (.oneOf c vs)) r =
      vs.any (E.equal (r c)) := by
    rintro c (rfl | rfl) vs
    · rw [meets_oneOf h₁.knows, columnName_plain h₁.plain]
      rwa [columnName_plain h₁.plain]
    · rw [meets_oneOf h₂.knows, columnName_plain h₂.plain]
      rwa [columnName_plain h₂.plain]
  have hends : (own = c₁ ∨ own = c₂) ∧ (other = c₁ ∨ other = c₂) ∧
      e.ownEnd (pairOf c₁ c₂ r) = r own ∧ e.ownEnd (pairOf c₁ c₂ r).swap = r other := by
    unfold Edge.joinColumns at hjoin
    rw [hcolumns] at hjoin
    unfold Edge.ownEnd pairOf
    cases hinverse : e.inverse with
    | true =>
      rw [hinverse] at hjoin
      cases hjoin
      exact ⟨.inr rfl, .inl rfl, rfl, rfl⟩
    | false =>
      rw [hinverse] at hjoin
      cases hjoin
      exact ⟨.inl rfl, .inr rfl, rfl, rfl⟩
  obtain ⟨hown, hother, hownEnd, hotherEnd⟩ := hends
  have hboth : ∀ c c', c = c₁ ∨ c = c₂ → c' = c₁ ∨ c' = c₂ →
      (db.meets E table (some (.bothOneOf c ids c' e.target.nodes)) r = true ↔
        ∃ i, i ∈ ids ∧ ∃ t ∈ e.target.nodes, E.equal (r c) i = true ∧ E.equal (r c') t = true) := by
    intro c c' hc hc'
    rw [Predicate.bothOneOf, meets_and, hone c hc, hone c' hc']
    simp only [Bool.and_eq_true, List.any_eq_true]
    constructor
    · rintro ⟨⟨i, hi, hci⟩, t, ht, hct⟩
      exact ⟨i, hi, t, ht, hci, hct⟩
    · rintro ⟨i, hi, t, ht, hci, hct⟩
      exact ⟨⟨i, hi, hci⟩, t, ht, hct⟩
  unfold Edge.Clears Edge.Links
  simp only [Edge.samePair_pair, Prod.swap_swap, hownEnd, hotherEnd]
  dsimp only at hrows
  split at hrows
  case isTrue hempty =>
    obtain rfl := Except.ok.inj hrows
    rw [List.isEmpty_iff] at hempty
    cases e.bidi <;> simp [hempty, hone own hown, hone other hother, ← exists_or, ← and_or_left]
  case isFalse hempty =>
    obtain rfl := Except.ok.inj hrows
    rw [List.isEmpty_iff] at hempty
    have hown' := hboth own other hown hother
    have hother' := hboth other own hother hown
    cases e.bidi <;> simp [hempty, hown', hother', and_or_left, exists_or]

theorem clearing_eq_ok {edges : List Edge} {x : Delete} :
    clearing table ids edges = .ok x ↔
      ∃ pss, List.Forall₂ (fun e ps => clearedRows ids e = .ok ps) edges pss ∧
        x = { table, predicate := some (.disj pss.flatten) } := by
  unfold clearing
  rw [bind_eq_ok]
  constructor
  · rintro ⟨pss, hpss, ⟨⟩⟩
    exact ⟨pss, mapM_eq_ok.mp hpss, rfl⟩
  · rintro ⟨pss, hpss, rfl⟩
    exact ⟨pss, mapM_eq_ok.mpr hpss, rfl⟩

/-- The DELETE of the edges of a join table deletes a row if clearing one of them clears its
pair. -/
theorem meets_clearing {edges : List Edge} {x : Delete} (hx : clearing table ids edges = .ok x)
    (hcolumns : ∀ e ∈ edges, e.columns = [c₁, c₂]) (h₁ : (db (nameParts table)).HasColumn c₁)
    (h₂ : (db (nameParts table)).HasColumn c₂) (hr₁ : (r c₁).isNull = false)
    (hr₂ : (r c₂).isNull = false) :
    db.meets E x.table x.predicate r = true ↔
      ∃ e ∈ edges, e.Clears E (· ∈ ids) (pairOf c₁ c₂ r) := by
  obtain ⟨pss, hpss, rfl⟩ := clearing_eq_ok.mp hx
  dsimp only
  rw [meets_disj, List.any_flatten, List.any_eq_true]
  constructor
  · rintro ⟨ps, hps, hany⟩
    obtain ⟨e, he, hrows⟩ := exists_of_forall₂ hpss.flip hps
    exact ⟨e, he, (any_meets_clearedRows hrows (hcolumns e he) h₁ h₂ hr₁ hr₂).mp hany⟩
  · rintro ⟨e, he, hclears⟩
    obtain ⟨ps, hps, hrows⟩ := exists_of_forall₂ hpss he
    exact ⟨ps, hps, (any_meets_clearedRows hrows (hcolumns e he) h₁ h₂ hr₁ hr₂).mpr hclears⟩

theorem exists_clearing {edges : List Edge} (hcolumns : ∀ e ∈ edges, e.columns = [c₁, c₂]) :
    ∃ x, clearing table ids edges = .ok x := by
  have hrows : ∃ pss, List.Forall₂ (fun e ps => clearedRows ids e = .ok ps) edges pss := by
    induction edges with
    | nil => exact ⟨[], .nil⟩
    | cons e edges ih =>
      obtain ⟨he, hrest⟩ := List.forall_mem_cons.mp hcolumns
      obtain ⟨pss, hpss⟩ := ih hrest
      obtain ⟨ends, hends⟩ : ∃ ends, e.joinColumns = .ok ends := by
        unfold Edge.joinColumns
        rw [he]
        exact ⟨_, rfl⟩
      obtain ⟨ps, hps⟩ : ∃ ps, clearedRows ids e = .ok ps := by
        by_cases hempty : e.target.nodes.isEmpty = true
        · exact ⟨_, bind_eq_ok.mpr ⟨ends, hends, if_pos hempty⟩⟩
        · exact ⟨_, bind_eq_ok.mpr ⟨ends, hends, if_neg hempty⟩⟩
      exact ⟨ps :: pss, .cons hps hpss⟩
  obtain ⟨pss, hpss⟩ := hrows
  exact ⟨_, clearing_eq_ok.mpr ⟨pss, hpss, rfl⟩⟩

/-- A row stays as it is through several DELETEs unless one of them reaches it. -/
theorem rowThrough_deletes {name : List String} {xs : List Delete} :
    Command.rowThrough E db name (xs.map .delete) r = some r' ↔
      r' = r ∧ ∀ x ∈ xs, nameParts x.table = name → ¬db.meets E x.table x.predicate r = true := by
  induction xs with
  | nil =>
    constructor
    · rintro ⟨⟩
      exact ⟨rfl, by simp⟩
    · rintro ⟨rfl, -⟩
      rfl
  | cons x xs ih =>
    rw [List.map_cons, Command.rowThrough_cons, Command.rowIn, List.forall_mem_cons]
    split
    case isTrue hreached =>
      refine iff_of_false (by simp) ?_
      rintro ⟨-, hspared, -⟩
      exact hspared hreached.1 hreached.2
    case isFalse hspared =>
      rw [Option.bind_some, ih]
      refine and_congr_right fun _ => ?_
      exact (and_iff_right fun hname hmeets => hspared ⟨hname, hmeets⟩).symm

/-- The DELETEs that clear edges delete a row of a join table if clearing one of the edges on that
table clears its pair. -/
theorem rowThrough_clearings {edges : List Edge}
    (hcolumns : ∀ e ∈ edges, e.isManyToMany = true → e.table = table → e.columns = [c₁, c₂])
    (h₁ : (db (nameParts table)).HasColumn c₁) (h₂ : (db (nameParts table)).HasColumn c₂)
    (hr₁ : (r c₁).isNull = false) (hr₂ : (r c₂).isNull = false) :
    Command.rowThrough E db (nameParts table) (clearings ids edges) r = some r' ↔
      r' = r ∧ ¬∃ e ∈ edges, e.isManyToMany = true ∧ e.table = table ∧
        e.Clears E (· ∈ ids) (pairOf c₁ c₂ r) := by
  have hdeletes : clearings ids edges =
      ((groupByName Edge.table (edges.filter Edge.isManyToMany)).filterMap fun g =>
        (clearing g.1 ids g.2).toOption).map .delete := by
    rw [clearings, List.map_filterMap]
  rw [hdeletes, rowThrough_deletes]
  refine and_congr_right fun _ => ?_
  have hgroup : ∀ g ∈ groupByName Edge.table (edges.filter Edge.isManyToMany), g.1 = table →
      ∀ e, e ∈ g.2 ↔ e ∈ edges ∧ e.isManyToMany = true ∧ e.table = table := by
    intro g hg hname e
    rw [(mem_of_groupByName hg).2, hname]
  have hcleared : ∀ g ∈ groupByName Edge.table (edges.filter Edge.isManyToMany), g.1 = table →
      ∀ e ∈ g.2, e.columns = [c₁, c₂] := by
    intro g hg hname e he
    obtain ⟨he, hmany, htable⟩ := (hgroup g hg hname e).mp he
    exact hcolumns e he hmany htable
  constructor
  · rintro hspared ⟨e, he, hmany, htable, hclears⟩
    have hg : (table, (edges.filter Edge.isManyToMany).filter fun f => f.table == table) ∈
        groupByName Edge.table (edges.filter Edge.isManyToMany) :=
      mem_groupByName.mpr ⟨⟨e, List.mem_filter.mpr ⟨he, hmany⟩, htable⟩, rfl⟩
    obtain ⟨x, hx⟩ : ∃ x, clearing table ids _ = .ok x := exists_clearing (hcleared _ hg rfl)
    have hname : x.table = table := by
      obtain ⟨_, _, rfl⟩ := clearing_eq_ok.mp hx
      rfl
    refine hspared x (List.mem_filterMap.mpr ⟨_, hg, by rw [hx]; rfl⟩) (by rw [hname]) ?_
    exact (meets_clearing hx (hcleared _ hg rfl) h₁ h₂ hr₁ hr₂).mpr
      ⟨e, (hgroup _ hg rfl e).mpr ⟨he, hmany, htable⟩, hclears⟩
  · rintro hnone x hx hname hmeets
    obtain ⟨g, hg, hgx⟩ := List.mem_filterMap.mp hx
    have hgx : clearing g.1 ids g.2 = .ok x := by
      cases hclearing : clearing g.1 ids g.2 with
      | error e => rw [hclearing] at hgx; cases hgx
      | ok y => rw [hclearing] at hgx; exact congrArg _ (Option.some.inj hgx)
    have htable : g.1 = table := by
      obtain ⟨_, _, rfl⟩ := clearing_eq_ok.mp hgx
      exact nameParts_injective hname
    obtain ⟨e, he, hclears⟩ := (meets_clearing (htable ▸ hgx) (hcleared g hg htable) h₁ h₂ hr₁
      hr₂).mp hmeets
    obtain ⟨he, hmany, htable⟩ := (hgroup g hg htable e).mp he
    exact hnone ⟨e, he, hmany, htable, hclears⟩

end JoinTable

/-! ## Adding -/

/-- Rows of a join table are in each other's way only if they have the same pair: each of its unique
keys has both columns, or the ID column that the database fills in. -/
def Schema.IsJoinTable (S : Schema) (table c₁ c₂ : String) : Prop :=
  ∀ key ∈ S.uniques table, c₁ ∈ key ∧ c₂ ∈ key ∨
    ∃ c ∈ key, S.identity table = some c ∧ c ≠ c₁ ∧ c ≠ c₂

/-- The pairs of a join table after an INSERT that leaves stored rows as they are. -/
theorem InsertStatement.Inserts.hasPair {db db' : Database} {i : InsertStatement}
    {reported : List Tuple} {extra : List String} {p : Value × Value}
    (h : i.Inserts E S db db' reported) (hcolumns : i.columns = c₁ :: c₂ :: extra)
    (hrows : ∀ row ∈ i.rows, ∃ v w rest, row = v :: w :: rest)
    (hinert : ∀ clause, i.conflict = some clause → clause.IsInert)
    (hextra : i.conflict.isSome = true → extra = []) (hS : S.IsJoinTable i.table c₁ c₂) :
    (db' (nameParts i.table)).HasPair E c₁ c₂ p ↔
      (db (nameParts i.table)).HasPair E c₁ c₂ p ∨
        ∃ v w rest, v :: w :: rest ∈ i.rows ∧ E.SamePair (v, w) p := by
  have hproposals : i.proposals = i.rows := by
    rw [proposals, hcolumns]
    rfl
  have hproposed : ∀ {rows row x}, i.Proposes E S rows row x → ∀ {v w rest},
      row = v :: w :: rest → pairOf c₁ c₂ x = (v, w) := by
    rintro rows _ x hx v w rest rfl
    have hwritten := hx.written
    rw [hcolumns] at hwritten
    exact Prod.ext (hwritten (c₁, v) (by simp)) (hwritten (c₂, w) (by simp))
  have hstored := h.stored
  rw [hproposals] at hstored
  constructor
  · rintro ⟨r, hr, hp⟩
    rcases hstored.mem_or_proposed hinert hr with hr | ⟨row, hrow, before, hproposes⟩
    · exact .inl ⟨r, hr, hp⟩
    · obtain ⟨v, w, rest, rfl⟩ := hrows row hrow
      rw [hproposed hproposes rfl] at hp
      exact .inr ⟨v, w, rest, hrow, hp⟩
  · rintro (⟨r, hr, hp⟩ | ⟨v, w, rest, hrow, hp⟩)
    · exact ⟨r, hstored.subset hinert hr, hp⟩
    · obtain ⟨x, before, hbefore, hproposes, hx | ⟨hconflict, key, hkey, r, hr, hagree⟩⟩ :=
        hstored.stored_or_agree hinert hrow
      · exact ⟨x, hx, by rwa [hproposed hproposes rfl]⟩
      · rcases hS key hkey with ⟨hc₁, hc₂⟩ | ⟨c, hc, hidentity, hne₁, hne₂⟩
        · refine ⟨r, hbefore hr, ?_⟩
          have hsame : E.SamePair (pairOf c₁ c₂ r) (pairOf c₁ c₂ x) :=
            ⟨hagree c₁ hc₁, hagree c₂ hc₂⟩
          rw [hproposed hproposes rfl] at hsame
          exact hsame.trans hp
        · -- the ID that the database fills in is a new one
          exfalso
          have hunwritten : c ∉ i.columns := by
            rw [hcolumns, hextra hconflict]
            simp [hne₁, hne₂]
          have hagrees := hagree c hc
          rw [hproposes.fresh c hunwritten hidentity r hr] at hagrees
          cases hagrees

/-- An INSERT that skips rows which are there already leaves stored rows as they are. -/
theorem inert_of_compile {d : Dialect} {i : Insert} {statement : InsertStatement}
    (h : i.compile d = .ok statement)
    (hpolicy : i.policy = none ∨ i.policy = some ⟨[], .doNothing⟩) (hid : i.reportedId = none)
    {clause : ConflictClause} (hclause : statement.conflict = some clause) :
    i.policy = some ⟨[], .doNothing⟩ ∧ clause.IsInert := by
  obtain ⟨-, conflict, hcompiled, rfl⟩ := Sql.compile_eq_ok.mp h
  obtain rfl : conflict = some clause := hclause
  unfold Sql.compiledClause at hcompiled
  rcases hpolicy with hnone | hsome
  · rw [hnone] at hcompiled
    cases hcompiled
  · refine ⟨hsome, ?_⟩
    rw [hsome] at hcompiled
    have hskip : i.conflictClause ⟨[], .doNothing⟩ = .ok (.doNothing []) := by
      unfold Insert.conflictClause
      split <;> rfl
    cases d with
    | postgres | sqlite =>
      dsimp only at hcompiled
      rw [hskip] at hcompiled
      obtain rfl : ConflictClause.doNothing [] = clause := Option.some.inj (Except.ok.inj hcompiled)
      exact fun _ _ => .inl rfl
    | mysql =>
      dsimp only at hcompiled
      unfold Insert.duplicateClause Insert.reportAssignments Insert.duplicateAssignments at hcompiled
      rw [hid] at hcompiled
      cases hcolumns : i.columns with
      | nil =>
        rw [hcolumns] at hcompiled
        cases hcompiled
      | cons first rest =>
        rw [hcolumns] at hcompiled
        obtain rfl : ConflictClause.onDuplicateKey [⟨first, .itself⟩] = clause :=
          Option.some.inj (Except.ok.inj hcompiled)
        exact fun stored _ => .inr (congrArg some (Function.update_eq_self _ stored))

namespace JoinTable

variable {conn : Connection} {s s' : Session} {table : String} {p : Value × Value}

/-- The shape of an insert into a join table. -/
theorem insertFor_eq (table : String) (e : Edge) :
    insertFor table e =
      { Insert.into table with
        columns := e.columns ++ e.target.fields.map Field.column
        policy := if e.target.fields.isEmpty then some ⟨[], .doNothing⟩ else none } := by
  unfold insertFor
  split <;> rfl

/-- The rows of an edge of some nodes: its pairs, each with the same further values. -/
theorem mem_edgeRows {ids : List Value} {e : Edge} {rows : List (List Value)}
    (h : edgeRows ids e = .ok rows) : ∃ extra, ∀ row, row ∈ rows ↔
      ∃ i ∈ ids, ∃ t ∈ e.target.nodes, row = (e.pair i t).1 :: (e.pair i t).2 :: extra ∨
        e.bidi = true ∧ row = (e.pair i t).2 :: (e.pair i t).1 :: extra := by
  obtain ⟨extra, -, hrows⟩ := bind_eq_ok.mp h
  refine ⟨extra, fun row => ?_⟩
  unfold Edge.pair
  have hsplit : ∀ x y : Value,
      (row ∈ (x :: y :: extra) :: if e.bidi then [y :: x :: extra] else []) ↔
        row = x :: y :: extra ∨ e.bidi = true ∧ row = y :: x :: extra := by
    intro x y
    cases e.bidi <;> simp
  cases hinverse : e.inverse with
  | true =>
    rw [hinverse] at hrows
    obtain rfl := Except.ok.inj hrows
    simp only [List.mem_flatMap, hsplit]
    constructor
    · rintro ⟨t, ht, i, hi, h⟩
      exact ⟨i, hi, t, ht, h⟩
    · rintro ⟨i, hi, t, ht, h⟩
      exact ⟨t, ht, i, hi, h⟩
  | false =>
    rw [hinverse] at hrows
    obtain rfl := Except.ok.inj hrows
    simp only [List.mem_flatMap, hsplit]
    rfl

/-- The insert of edges of a join table: it has the shape of the first and the rows of all. -/
theorem insertOf_eq_ok {links : List (List Value × Edge)} {i : Insert}
    (h : insertOf table links = .ok i) (hne : links ≠ []) :
    ∃ first ∈ links, ∃ rowss,
      List.Forall₂ (fun link rows => edgeRows link.1 link.2 = .ok rows) links rowss ∧
        i = { Insert.into table with
              columns := first.2.columns ++ first.2.target.fields.map Field.column
              policy := if first.2.target.fields.isEmpty then some ⟨[], .doNothing⟩ else none
              rows := rowss.flatten } := by
  obtain ⟨rowss, hrowss, hi⟩ := bind_eq_ok.mp h
  cases links with
  | nil => exact absurd rfl hne
  | cons first links =>
    refine ⟨first, List.mem_cons_self, rowss, mapM_eq_ok.mp hrowss, ?_⟩
    rw [← Except.ok.inj hi]
    dsimp only
    rw [insertFor_eq]

/-- The rows of an insert start with the pairs that its edges link. -/
theorem exists_row_iff_links {links : List (List Value × Edge)} {rowss : List (List (List Value))}
    (h : List.Forall₂ (fun link rows => edgeRows link.1 link.2 = .ok rows) links rowss) :
    (∃ v w rest, v :: w :: rest ∈ rowss.flatten ∧ E.SamePair (v, w) p) ↔
      ∃ link ∈ links, link.2.Links E (· ∈ link.1) p := by
  constructor
  · rintro ⟨v, w, rest, hrow, hp⟩
    obtain ⟨rows, hrows, hrow⟩ := List.mem_flatten.mp hrow
    obtain ⟨link, hlink, hedge⟩ := exists_of_forall₂ h.flip hrows
    obtain ⟨extra, hextra⟩ := mem_edgeRows hedge
    obtain ⟨i, hi, t, ht, heq | ⟨hbidi, heq⟩⟩ := (hextra _).mp hrow
    · obtain ⟨rfl, rfl, -⟩ : v = _ ∧ w = _ ∧ rest = _ := by simpa using heq
      exact ⟨link, hlink, i, hi, t, ht, .inl hp.symm⟩
    · obtain ⟨rfl, rfl, -⟩ : v = _ ∧ w = _ ∧ rest = _ := by simpa using heq
      exact ⟨link, hlink, i, hi, t, ht, .inr ⟨hbidi, hp.symm.swap⟩⟩
  · rintro ⟨link, hlink, i, hi, t, ht, hp⟩
    obtain ⟨rows, hrows, hedge⟩ := exists_of_forall₂ h hlink
    obtain ⟨extra, hextra⟩ := mem_edgeRows hedge
    rcases hp with hp | ⟨hbidi, hp⟩
    · exact ⟨_, _, extra, List.mem_flatten.mpr ⟨rows, hrows,
        (hextra _).mpr ⟨i, hi, t, ht, .inl rfl⟩⟩, hp.symm⟩
    · exact ⟨_, _, extra, List.mem_flatten.mpr ⟨rows, hrows,
        (hextra _).mpr ⟨i, hi, t, ht, .inr ⟨hbidi, rfl⟩⟩⟩, hp.symm.swap⟩

/-- The insert of edges of one join table adds the pairs that they link, and it leaves other tables
as they are. -/
theorem reaches_insert {links : List (List Value × Edge)} {i : Insert}
    (hi : insertOf table links = .ok i) (hne : links ≠ [])
    (h : (if i.rows.isEmpty then pure () else discard (conn.execInsert i) :
      Program Unit).Reaches (Call.Records E S) s () s') :
    (∀ name, name ≠ nameParts table → s'.current name = s.current name) ∧
      ∀ c₁ c₂ p, (∀ link ∈ links, link.2.columns = [c₁, c₂]) → S.IsJoinTable table c₁ c₂ →
        ((s'.current (nameParts table)).HasPair E c₁ c₂ p ↔
          (s.current (nameParts table)).HasPair E c₁ c₂ p ∨
            ∃ link ∈ links, link.2.Links E (· ∈ link.1) p) := by
  obtain ⟨first, hfirst, rowss, hrowss, heq⟩ := insertOf_eq_ok hi hne
  simp only [← exists_row_iff_links hrowss]
  split at h
  case isTrue hempty =>
    obtain ⟨-, rfl⟩ := reaches_done.mp h
    rw [heq] at hempty
    have hempty : rowss.flatten = [] := List.isEmpty_iff.mp hempty
    refine ⟨fun _ _ => rfl, fun _ _ _ _ _ => ?_⟩
    simp [hempty]
  case isFalse =>
    subst heq
    obtain ⟨r, hexec⟩ := reaches_discard.mp h
    obtain ⟨statement, hcompile, ⟨hcarried, -⟩, reported, hinserts, -⟩ :=
      reaches_execInsert.mp hexec
    have hinert : ∀ clause, statement.conflict = some clause →
        first.2.target.fields = [] ∧ clause.IsInert := by
      intro clause hclause
      have hpolicy := inert_of_compile hcompile (by dsimp only; split <;> simp) rfl hclause
      refine ⟨?_, hpolicy.2⟩
      by_contra hsome
      simp [hsome] at hpolicy
    obtain ⟨-, conflict, -, rfl⟩ := Sql.compile_eq_ok.mp hcompile
    refine ⟨hcarried, fun c₁ c₂ p hcolumns hS => ?_⟩
    have hwritten : first.2.columns ++ first.2.target.fields.map Field.column =
        c₁ :: c₂ :: first.2.target.fields.map Field.column := by
      rw [hcolumns first hfirst]
      rfl
    refine hinserts.hasPair hwritten ?_ (fun clause hclause => (hinert clause hclause).2) ?_ hS
    · intro row hrow
      obtain ⟨rows, hrows, hrow⟩ := List.mem_flatten.mp hrow
      obtain ⟨link, -, hedge⟩ := exists_of_forall₂ hrowss.flip hrows
      obtain ⟨extra, hextra⟩ := mem_edgeRows hedge
      obtain ⟨_, -, _, -, heq | ⟨-, heq⟩⟩ := (hextra row).mp hrow
      · exact ⟨_, _, _, heq⟩
      · exact ⟨_, _, _, heq⟩
    · intro hconflict
      obtain ⟨clause, hclause⟩ := Option.isSome_iff_exists.mp hconflict
      rw [(hinert clause hclause).1, List.map_nil]

/-- The inserts of several join tables, one after the other. -/
theorem reaches_inserts {groups : List (String × List (List Value × Edge))} {inserts : List Insert}
    (hinserts : List.Forall₂ (fun g i => insertOf g.1 g.2 = .ok i) groups inserts)
    (hne : ∀ g ∈ groups, g.2 ≠ [])
    (hcolumns : ∀ g ∈ groups, g.1 = table → ∀ link ∈ g.2, link.2.columns = [c₁, c₂])
    (hS : S.IsJoinTable table c₁ c₂)
    (h : (inserts.forM fun i => (if i.rows.isEmpty then pure () else discard (conn.execInsert i) :
      Program Unit)).Reaches (Call.Records E S) s () s') :
    (s'.current (nameParts table)).HasPair E c₁ c₂ p ↔
      (s.current (nameParts table)).HasPair E c₁ c₂ p ∨
        ∃ g ∈ groups, g.1 = table ∧ ∃ link ∈ g.2, link.2.Links E (· ∈ link.1) p := by
  induction hinserts generalizing s with
  | nil =>
    obtain rfl := reaches_forM_nil.mp h
    simp
  | @cons g i groups inserts hi _ ih =>
    obtain ⟨hg, hgroups⟩ := List.forall_mem_cons.mp hne
    obtain ⟨hcolumn, hcolumns⟩ := List.forall_mem_cons.mp hcolumns
    obtain ⟨mid, hfirst, hrest⟩ := reaches_forM_cons.mp h
    obtain ⟨hothers, hpairs⟩ := reaches_insert hi hg hfirst
    rw [ih hgroups hcolumns hrest]
    simp only [List.exists_mem_cons_iff]
    by_cases htable : g.1 = table
    · subst htable
      rw [hpairs c₁ c₂ p (hcolumn rfl) hS, or_assoc]
      simp
    · rw [hothers _ fun hname => htable (nameParts_injective hname.symm)]
      simp [htable]

/-- Adding edges of many to many adds the pairs that they link. -/
theorem reaches_add {links : List (List Value × Edge)}
    (hcolumns : ∀ link ∈ links, link.2.isManyToMany = true → link.2.table = table →
      link.2.columns = [c₁, c₂])
    (hS : S.IsJoinTable table c₁ c₂)
    (h : (JoinTable.add conn links).Reaches (Call.Records E S) s () s') :
    (s'.current (nameParts table)).HasPair E c₁ c₂ p ↔
      (s.current (nameParts table)).HasPair E c₁ c₂ p ∨
        ∃ link ∈ links, link.2.isManyToMany = true ∧ link.2.table = table ∧
          link.2.Links E (· ∈ link.1) p := by
  unfold JoinTable.add at h
  obtain ⟨inserts, mid, hmapM, hforM⟩ := reaches_bind.mp h
  obtain ⟨hinserts, rfl⟩ := leads_mapM_ofExcept (hmapM.leads fun _ _ _ _ => Call.Records.answers)
  rw [reaches_inserts hinserts ?_ ?_ hS hforM]
  · refine or_congr Iff.rfl ⟨?_, ?_⟩
    · rintro ⟨g, hg, rfl, link, hlink, hp⟩
      obtain ⟨hlink, hmany, htable⟩ := ((mem_of_groupByName hg).2 link).mp hlink
      exact ⟨link, hlink, hmany, htable, hp⟩
    · rintro ⟨link, hlink, hmany, htable, hp⟩
      refine ⟨(table, (links.filter fun link => link.2.isManyToMany).filter fun link =>
        link.2.table == table), mem_groupByName.mpr
          ⟨⟨link, List.mem_filter.mpr ⟨hlink, hmany⟩, htable⟩, rfl⟩, rfl, link, ?_, hp⟩
      simp [hlink, hmany, htable]
  · exact fun g hg => (mem_of_groupByName hg).1
  · intro g hg htable link hlink
    obtain ⟨hlink, hmany, hname⟩ := ((mem_of_groupByName hg).2 link).mp hlink
    exact hcolumns link hlink hmany (hname.trans htable)

end JoinTable

end EntityGraph
