import EntityGraph.Proofs.Program.Ensured
import EntityGraph.Proofs.Program.Maintained
import EntityGraph.Proofs.Relational.References

/-!
# A database that carries out what it can

`Call.Performs` answers a call as a database does that never fails for other reasons than its own
keys: it carries each statement out, keeps its unique keys, and counts the rows that it changes. A
program is bound to a result on such a database if each of its statements can be carried out.

`Call.Records` says nothing of a call that is not carried out. `Call.Happens` says what may have
become of it, and so a property of the database that is there and of the one that a rollback goes
back to is known after every run, whatever its result.
-/

set_option autoImplicit false

namespace EntityGraph

open Program

variable {E : Engine} {S : Schema} {s s' : Session} {conn : Connection} {α : Type}
  {key : List String} {table : String} {r x r' x' : Tuple} {t t' : Table}

/-! ## Keys -/

/-- A row has all the values of another, and may have further ones. -/
def Fills (r r' : Tuple) : Prop := ∀ c, (r c).isNull = false → r' c = r c

theorem Fills.refl (r : Tuple) : Fills r r := fun _ _ => rfl

instance : Decidable (Agree E key r x) :=
  inferInstanceAs (Decidable (∀ c ∈ key, E.equal (r c) (x c) = true))

theorem Agree.symm (h : Agree E key r x) : Agree E key x r := by
  intro c hc
  exact Engine.equal_symm (h c hc)

theorem Agree.fills (h : Agree E key r x) (hr : Fills r r') (hx : Fills x x') :
    Agree E key r' x' := by
  intro c hc
  have hequal := h c hc
  rw [hr c (Engine.isNull_of_equal hequal), hx c (Engine.isNull_of_equal_right hequal)]
  exact hequal

/-- A name that the table does not know stands for nothing. -/
theorem lookup_unknown {db : Database} {name : String} (h : db.knows table name = false) :
    Env.lookup [[⟨nameParts table, (db (nameParts table)).columns, r⟩]] (nameParts name) = .null := by
  have hvalue : Frame.value? ⟨nameParts table, (db (nameParts table)).columns, r⟩
      (nameParts name).dropLast ((nameParts name).getLastD "") = none := by
    unfold Frame.value?
    exact if_neg (by simpa [Database.knows, columnName] using h)
  simp only [Env.lookup, List.flatten_cons, List.flatten_nil, List.append_nil,
    List.findSome?_cons, hvalue, List.findSome?_nil, Option.getD_none]

/-- A row that has a value in a column has it there when it is filled in. -/
theorem meets_eq_of_fills {db db' : Database} {name : String} {v : Value} (h : Fills r r')
    (hcolumns : (db' (nameParts table)).columns = (db (nameParts table)).columns)
    (hv : v.isNull = false) (hmeets : db.meets E table (some (.eq name v)) r = true) :
    db'.meets E table (some (.eq name v)) r' = true := by
  have hknows : db'.knows table name = db.knows table name := by
    unfold Database.knows
    rw [hcolumns]
  cases hknown : db.knows table name with
  | true =>
    rw [meets_eq hknown, Engine.picks_of_value hv] at hmeets
    rw [meets_eq (hknows.trans hknown), h _ (Engine.isNull_of_equal hmeets)]
    exact Engine.picks_of_equal hmeets
  | false =>
    rw [Database.meets, conditionTruth, truth_eq_isYes, lookup_unknown hknown,
      Engine.picks_of_value hv] at hmeets
    cases Engine.isNull_of_equal hmeets

/-- Rows that agree in no unique key, whatever their order. -/
theorem pairwise_agree_perm {rows rows' : List Tuple} (h : rows.Perm rows') :
    (rows.Pairwise fun r x => ¬Agree E key r x) ↔ rows'.Pairwise fun r x => ¬Agree E key r x :=
  h.pairwise_iff fun hne hagree => hne hagree.symm

namespace Table

/-- The rows of a table keep its unique keys, and each has its ID columns. -/
structure IsSound (E : Engine) (S : Schema) (table : String) (t : Table) : Prop where
  uniques : ∀ key ∈ S.uniques table, t.rows.Pairwise fun r x => ¬Agree E key r x
  columns : ∀ k, (table, k) ∈ S.keys → t.HasColumn k
  present : ∀ k, (table, k) ∈ S.keys → ∀ r ∈ t.rows, (r k).isNull = false

theorem IsSound.hasKey {k : String} (h : t.IsSound E S table) (hk : (table, k) ∈ S.keys) :
    t.HasKey E k where
  toHasColumn := h.columns k hk
  present := h.present k hk
  unique := by
    refine (h.uniques [k] (S.key_mem_uniques _ hk)).imp fun {r x} hne => ?_
    rw [Bool.eq_false_iff]
    intro hequal
    apply hne
    intro c hc
    rwa [List.mem_singleton.mp hc]

/-- A table whose rows become those of a sound table by being filled in is sound. -/
theorem IsSound.of_fills (h : t'.IsSound E S table) {A : List Tuple} {f g : Tuple → Tuple}
    (hcolumns : t'.columns = t.columns) (hrows : t.rows.Perm (A.map f))
    (hrows' : t'.rows.Perm (A.map g)) (hfills : ∀ r ∈ A, Fills (f r) (g r))
    (hpresent : ∀ k, (table, k) ∈ S.keys → ∀ r ∈ A, (f r k).isNull = false) :
    t.IsSound E S table where
  uniques := by
    intro key hkey
    have hall := (pairwise_agree_perm hrows').mp (h.uniques key hkey)
    rw [pairwise_agree_perm hrows, List.pairwise_map]
    refine (List.pairwise_map.mp hall).imp_of_mem fun {r x} hr hx hne hagree => ?_
    exact hne (hagree.fills (hfills r hr) (hfills x hx))
  columns := by
    intro k hk
    have hcolumn := h.columns k hk
    exact ⟨hcolumn.plain, hcolumn.notStar, hcolumns ▸ hcolumn.mem⟩
  present := by
    intro k hk r hr
    obtain ⟨a, ha, rfl⟩ := List.mem_map.mp (hrows.mem_iff.mp hr)
    exact hpresent k hk a ha

theorem IsSound.of_perm (h : t'.IsSound E S table) (hcolumns : t'.columns = t.columns)
    (hrows : t.rows.Perm t'.rows) : t.IsSound E S table := by
  have hsame : t'.rows.map id = t'.rows := List.map_id _
  refine h.of_fills hcolumns (hsame.symm ▸ hrows) (hsame.symm ▸ List.Perm.refl _)
    (fun r _ => .refl r) ?_
  exact fun k hk r hr => h.present k hk r hr

end Table

/-- Every table keeps its keys. -/
def Database.IsSound (E : Engine) (S : Schema) (db : Database) : Prop :=
  ∀ table, (db (nameParts table)).IsSound E S table

theorem Database.IsSound.obeys {db : Database} (h : db.IsSound E S) : db.Obeys E S.keys :=
  fun k hk => (h k.1).hasKey hk

/-! ## Calls -/

/-- A statement names each column that it inserts once. -/
def Command.NamesOnce : Command → Prop
  | .insert i => i.columns.Nodup
  | _ => True

/-- An UPDATE that changes all rows that it reaches is said to have changed them. -/
def Command.Counts (E : Engine) : Command → Database → Nat → Prop
  | .update u, db, n =>
    (∀ r ∈ u.reached E db, u.assigned E r ≠ r) → n = (u.reached E db).length
  | _, _, _ => True

/-- A statement is carried out by a database that keeps its keys and counts rows. -/
def Call.Completes (E : Engine) (S : Schema) : Answering Session
  | .exec _ c, (.done r : Outcome ExecResult), s, s' =>
    c.NamesOnce ∧ c.Counts E s.current r.rowsAffected ∧ s'.current.IsSound E S
  | .query _ c, (.done _ : Outcome Rows), _, s' => c.NamesOnce ∧ s'.current.IsSound E S
  | _, _, _, _ => True

/-- A database with a schema does what a call asks for. -/
def Call.Performs (E : Engine) (S : Schema) : Answering Session := fun c r s s' =>
  c.IsDone r ∧ c.Records E S r s s' ∧ c.Completes E S r s s'

theorem Call.Performs.records {c : Call} {r : c.Reply} (h : c.Performs E S r s s') :
    c.Records E S r s s' :=
  h.2.1

theorem Call.Performs.answers {c : Call} {r : c.Reply} (h : c.Performs E S r s s') :
    c.Answers E S.keys r s s' :=
  h.records.answers

theorem performs_succeeds : Answering.Succeeds (Call.Performs E S) := fun _ _ _ _ h => h.1

section

variable {db db' : Database} {saved : Option Database} {inside : Bool}

/-- An INSERT is carried out by storing its rows. -/
theorem performs_insert {i : InsertStatement} {n : Nat} {reported : List Tuple}
    (hnames : i.columns.Nodup) (hinserts : i.Inserts E S db db' reported)
    (hothers : ∀ name, name ≠ nameParts i.table → db' name = db name)
    (hsound : db'.IsSound E S) :
    (Call.exec inside (.insert i)).Performs E S (.done ⟨n, none⟩ : Outcome ExecResult)
      ⟨db, saved⟩ ⟨db', saved⟩ := by
  refine ⟨trivial, ⟨⟨hothers, trivial, hsound.obeys, rfl⟩, ?_⟩, hnames, trivial, hsound⟩
  exact ⟨reported, hinserts, fun _ _ c _ _ n x hlast => by cases hlast⟩

/-- An UPDATE is carried out by assigning to the rows that it reaches. -/
theorem performs_update {u : Update} {n : Nat}
    (hnames : ∀ name ∈ u.names, db.knows u.table name = true)
    (hcount : n = (u.reached E db).length) (hsound : (u.applied E db).IsSound E S) :
    (Call.exec inside (.update u)).Performs E S (.done ⟨n, none⟩ : Outcome ExecResult)
      ⟨db, saved⟩ ⟨u.applied E db, saved⟩ := by
  refine ⟨trivial, ⟨⟨⟨hnames, rfl⟩, Nat.le_of_eq hcount, hsound.obeys, rfl⟩, trivial⟩, trivial, ?_, hsound⟩
  exact fun _ => hcount

end

namespace Program

/-- What an operation is bound to do does not depend on a transaction around it. -/
theorem ensures_connection {d : Dialect} {transactional : Bool} {body : Connection → Program α}
    {Q : α → Session → Prop}
    (h : ∀ inside start, start.current = s.current →
      (body ⟨d, inside⟩).Ensures (Call.Performs E S) start fun a mid =>
        ∀ s', s'.current = mid.current → Q a s') :
    (Connection.run d transactional body).Ensures (Call.Performs E S) s Q := by
  cases transactional with
  | false => exact (h false s rfl).mono fun a mid hQ => hQ mid rfl
  | true =>
    refine ensures_transaction performs_succeeds
      ⟨{ s with saved := some s.current }, trivial, ⟨rfl, trivial⟩, trivial⟩ ?_
    intro opened hopened
    have hopened : opened = { s with saved := some s.current } := hopened.answers
    subst hopened
    refine (h true ⟨s.current, some s.current⟩ rfl).mono fun a written hQ => ?_
    refine ⟨⟨written, trivial, ⟨rfl, trivial⟩, trivial⟩, fun mid hmid => ?_⟩
    have hmid : mid = written := hmid.answers
    subst hmid
    refine ⟨⟨{ mid with saved := none }, trivial, ⟨rfl, trivial⟩, trivial⟩, fun s' hs' => ?_⟩
    have hs' : s' = { mid with saved := none } := hs'.answers
    exact hQ s' (by rw [hs'])

theorem ensures_revise {position : Nat} {revision : Revision} {Q : Unit → Session → Prop}
    (h : Q () s) : (revise position revision).Ensures (Call.Performs E S) s Q := by
  refine ⟨⟨(), s, trivial, ⟨rfl, trivial⟩, trivial⟩, fun _ s' hanswer => ?_⟩
  have hs' : s' = s := hanswer.answers
  rw [hs']
  exact h

/-- Asking whether a selection has a row tells it. -/
theorem ensures_probe {q : Selector} {Q : Bool → Session → Prop} (hs : s.current.IsSound E S)
    (h : Q (!(q.outRows E s.current []).isEmpty) s) :
    (conn.probe q).Ensures (Call.Performs E S) s Q := by
  refine ensures_bind.mpr ((ensures_query performs_succeeds).mpr ⟨?_, fun rows s' hanswer => ?_⟩)
  · refine ⟨⟨[], [[.bool !(q.outRows E s.current []).isEmpty]]⟩, s, trivial, ?_, trivial, hs⟩
    exact ⟨⟨rfl, rfl, hs.obeys, rfl⟩, trivial⟩
  · obtain ⟨hcarried, hreturns, -, hsaved⟩ := hanswer.answers
    have hreturns : rows.firstValue?.bind Value.asBool? =
      some !(q.outRows E s.current []).isEmpty := hreturns
    have hs' : s' = s := Session.eq_of_current hcarried hsaved
    rw [hreturns, hs']
    exact h

/-- An UPDATE whose columns are there is carried out if the keys hold afterwards. -/
theorem ensures_update {u : Update} {Q : ExecResult → Session → Prop}
    (hnames : ∀ name ∈ u.names, s.current.knows u.table name = true)
    (hsound : (u.applied E s.current).IsSound E S)
    (h : ∀ result : ExecResult,
      ((∀ r ∈ u.reached E s.current, u.assigned E r ≠ r) →
        result.rowsAffected = (u.reached E s.current).length) →
        Q result ⟨u.applied E s.current, s.saved⟩) :
    (conn.exec (.update u)).Ensures (Call.Performs E S) s Q := by
  refine (ensures_exec performs_succeeds).mpr ⟨?_, fun result s' hanswer => ?_⟩
  · exact ⟨_, _, performs_update hnames rfl hsound⟩
  · obtain ⟨-, hrecords, -, hcounts, -⟩ := hanswer
    obtain ⟨⟨-, hcurrent⟩, -, -, hsaved⟩ := hrecords.answers
    have hs' : s' = ⟨u.applied E s.current, s.saved⟩ := Session.eq_of_current hcurrent hsaved
    rw [hs']
    exact h result hcounts

/-- An INSERT is carried out if its rows can be stored and the keys hold afterwards. -/
theorem ensures_insert {i : Insert} {statement : InsertStatement} {Q : Unit → Session → Prop}
    (hcompile : i.compile conn.dialect = .ok statement) (hnames : statement.columns.Nodup)
    (hexists : ∃ db reported, statement.Inserts E S s.current db reported ∧
      (∀ name, name ≠ nameParts statement.table → db name = s.current name) ∧ db.IsSound E S)
    (h : ∀ s' reported, statement.Inserts E S s.current s'.current reported →
      (∀ name, name ≠ nameParts statement.table → s'.current name = s.current name) →
        s'.current.IsSound E S → Q () s') :
    (discard (conn.execInsert i)).Ensures (Call.Performs E S) s Q := by
  refine ensures_discard.mpr (ensures_bind.mpr (ensures_ofExcept hcompile ?_))
  refine (ensures_exec performs_succeeds).mpr ⟨?_, fun result s' hanswer => ?_⟩
  · obtain ⟨db, reported, hinserts, hothers, hsound⟩ := hexists
    exact ⟨⟨0, none⟩, _, performs_insert hnames hinserts hothers hsound⟩
  · obtain ⟨-, ⟨hanswers, hstores⟩, -, -, hsound⟩ := hanswer
    obtain ⟨reported, hinserts, -⟩ := hstores
    exact h s' reported hinserts hanswers.1 hsound

end Program

/-! ## Calls that fail -/

variable {P Q : Database → Prop}

/-- The database that there is after a transaction has been given up. -/
def Session.rolledBack (s : Session) : Session :=
  { current := s.saved.getD s.current, saved := none }

/-- A database with a schema answers a call. If the reply tells of a failure, nothing has happened,
or the transaction has been given up, or the call has been carried out all the same. -/
def Call.Happens (E : Engine) (S : Schema) : Answering Session := fun c r s s' =>
  c.Records E S r s s' ∧
    (c.succeeds r = true ∨ s' = s ∨ s' = s.rolledBack ∨
      ∃ r', c.succeeds r' = true ∧ c.Records E S r' s s')

/-- A call that does not fail is answered. -/
theorem Call.Records.happens {c : Call} {r : c.Reply} (h : c.Records E S r s s')
    (hdone : c.IsDone r) : c.Happens E S r s s' := by
  refine ⟨h, ?_⟩
  cases c with
  | begin | exec | query => cases r <;> first | exact .inl rfl | cases hdone
  | commit | rollback => cases r <;> first | exact .inl rfl | cases hdone
  | check | draw | revise | deliver => exact .inr (.inl h.answers)

namespace Session

/-- The database that is there has a property, and so has the one that a rollback goes back to. -/
def All (P : Database → Prop) (s : Session) : Prop := P s.current ∧ ∀ db ∈ s.saved, P db

theorem All.mono (h : s.All P) (hPQ : ∀ db, P db → Q db) : s.All Q :=
  ⟨hPQ _ h.1, fun db hdb => hPQ db (h.2 db hdb)⟩

theorem All.rolledBack (h : s.All P) : s.rolledBack.All P := by
  refine ⟨?_, by rintro db ⟨⟩⟩
  unfold Session.rolledBack
  cases hsaved : s.saved with
  | none => exact h.1
  | some db => exact h.2 db hsaved

end Session

/-- What a call that is carried out takes from the one property to the other, so does one that
fails, if the first property implies the second. -/
theorem Call.Happens.all {c : Call} {r : c.Reply} (h : c.Happens E S r s s') (hs : s.All P)
    (hPQ : ∀ db, P db → Q db)
    (hrecords : ∀ r', c.succeeds r' = true → c.Records E S r' s s' → s'.All Q) : s'.All Q := by
  obtain ⟨hanswer, hsucceeds | rfl | rfl | ⟨r', hsucceeds, hrecords'⟩⟩ := h
  · exact hrecords r hsucceeds hanswer
  · exact hs.mono hPQ
  · exact (hs.mono hPQ).rolledBack
  · exact hrecords r' hsucceeds hrecords'

/-- A statement that is carried out takes the one property to the other. -/
theorem maintains_statement {conn : Connection} {c : Command} (hPQ : ∀ db, P db → Q db)
    (h : ∀ (r : ExecResult) s s',
      (Call.exec conn.inside c).Records E S (.done r : Outcome ExecResult) s s' →
        P s.current → Q s'.current) :
    (conn.exec c).Maintains (Call.Happens E S) (Session.All P) (Session.All Q) := by
  refine maintains_exec fun reply s s' hanswer hs => hanswer.all hs hPQ fun r hsucceeds hr => ?_
  cases r with
  | failed f => cases hsucceeds
  | interrupted why => cases hsucceeds
  | done r =>
    obtain ⟨-, -, -, hsaved⟩ := hr.answers
    exact ⟨h r s s' hr hs.1, fun db hdb => hPQ db (hs.2 db (hsaved ▸ hdb))⟩

/-- A query that changes no rows. -/
theorem maintains_read {conn : Connection} {c : Command}
    (hread : ∀ db db', c.Carried E db db' → db' = db) :
    (conn.query c).Maintains (Call.Happens E S) (Session.All P) (Session.All P) := by
  refine maintains_query fun reply s s' hanswer hs =>
    hanswer.all hs (fun _ hdb => hdb) fun r hsucceeds hr => ?_
  cases r with
  | failed f => cases hsucceeds
  | interrupted why => cases hsucceeds
  | done r =>
    obtain ⟨hcarried, -, -, hsaved⟩ := hr.answers
    rwa [Session.eq_of_current (hread _ _ hcarried) hsaved]

theorem maintains_probe {conn : Connection} {q : Selector} :
    (conn.probe q).Maintains (Call.Happens E S) (Session.All P) (Session.All P) :=
  (maintains_read (c := .anyRow q) fun _ _ h => h).bind
    (fun _ => maintains_done _ fun _ hs => hs) fun _ hs => hs

theorem maintains_deliver {d : Delivery} :
    (deliver d).Maintains (Call.Happens E S) (Session.All P) (Session.All P) := by
  have hkeeps : ∀ reply s s', (Call.deliver d).Happens E S reply s s' → s.All P → s'.All P := by
    intro reply s s' hanswer hs
    have hsame : s' = s := hanswer.1.answers
    rwa [hsame]
  exact maintains_call hkeeps fun reply => maintains_lift reply fun _ hs => hs

/-- The beginning and the end of a transaction have no effect of their own. -/
theorem maintains_connection {d : Dialect} {body : Connection → Program α}
    (hbody : (body ⟨d, true⟩).Maintains (Call.Happens E S) (Session.All P) (Session.All Q))
    (hPQ : ∀ db, P db → Q db) :
    (Connection.run d true body).Maintains (Call.Happens E S) (Session.All P) (Session.All Q) := by
  refine maintains_transaction (fun reply s s' hanswer hs => ?_) hbody
    (fun s hs => hs.mono hPQ) fun c hc reply s s' hanswer hs => ?_
  · refine hanswer.all hs (fun _ hdb => hdb) fun r hsucceeds hr => ?_
    cases r with
    | failed f => cases hsucceeds
    | interrupted why => cases hsucceeds
    | done r =>
      obtain rfl : s' = { s with saved := some s.current } := hr.answers
      exact ⟨hs.1, fun db hdb => Option.some.inj hdb ▸ hs.1⟩
  · refine hanswer.all hs (fun _ hdb => hdb) fun r hsucceeds hr => ?_
    rcases hc with rfl | rfl | rfl
    · cases hsucceeds
    · cases r with
      | error f => cases hsucceeds
      | ok _ =>
        obtain rfl : s' = { s with saved := none } := hr.answers
        exact ⟨hs.1, by rintro db ⟨⟩⟩
    · cases r with
      | error f => cases hsucceeds
      | ok _ =>
        obtain rfl : s' = s.rolledBack := hr.answers
        exact hs.rolledBack

end EntityGraph
