import EntityGraph.Proofs.Graph.AddedEdges
import EntityGraph.Proofs.Graph.CreationTurns
import EntityGraph.Proofs.Transaction.Leftovers

/-!
# Updates of nodes that are missing

An update of one node learns from replies only whether there is a row with its ID that meets its
condition. The UPDATE of the row tells so if it reports a row. If it reports none, which some
databases do for a row that they leave as it is, or if there is nothing to assign, the database is
asked for the row. `NodeUpdate.LooksFor` collects these ways to learn it. The statements on edges
come after them, so a missing node costs no more than a rollback.
-/

set_option autoImplicit false

namespace EntityGraph

open Program

variable {conn : Connection} {log : List Exchange}

/-! ## Replies -/

/-- What the reply to the question whether a selection has a row says; no answer counts as no. -/
def Rows.answer (r : Rows) : Bool := (r.firstValue?.bind Value.asBool?).getD false

namespace Call

/-- The call is one that the driver replies to. -/
def isDriven : Call → Bool
  | .begin | .exec _ _ | .query _ _ | .commit | .rollback => true
  | .check | .draw _ | .revise _ _ | .deliver _ => false

/-- The reply says that a selection has a row. -/
def confirms : (c : Call) → c.Reply → Bool
  | .query _ _, (.done rows : Outcome Rows) => rows.answer
  | _, _ => false

/-- The database counts the rows that an UPDATE changes. It may leave out those that it reaches and
leaves as they are. -/
def CountsChanges (E : Engine) : (c : Call) → c.Reply → Session → Prop
  | .exec _ (.update w), (.done r : Outcome ExecResult), s =>
    r.rowsAffected = 0 → ∀ t ∈ w.reached E s.current, w.assigned E t = t
  | _, _, _ => True

end Call

/-- The driver carries out all that it is told. -/
def DriverSucceeds (log : List Exchange) : Prop :=
  ∀ x ∈ log, x.call.isDriven = true → x.succeeds = true

instance : Decidable (DriverSucceeds log) :=
  inferInstanceAs (Decidable (∀ x ∈ log, x.call.isDriven = true → x.succeeds = true))

theorem DriverSucceeds.carriedOut (h : DriverSucceeds log) : CarriedOut log := by
  intro x hx hstatement
  refine h x hx ?_
  unfold Call.isStatement at hstatement
  unfold Call.isDriven
  split at hstatement
  case h_1 heq | h_2 heq => rw [heq]
  case h_3 => cases hstatement

theorem DriverSucceeds.mono {part : List Exchange} (h : DriverSucceeds log) (hpart : part ⊆ log) :
    DriverSucceeds part :=
  fun x hx => h x (hpart hx)

/-- A transaction that the driver opens is run to its end. -/
theorem DriverSucceeds.run_connection {α : Type} {d : Dialect} {body : Connection → Program α}
    {result : Except Error α} (hdone : DriverSucceeds log)
    (h : (Connection.run d true body).Run log result) :
    ∃ live inner ending outcome,
      log = ⟨.begin, live, (.done () : Outcome Unit)⟩ :: (inner ++ ending) ∧
        (body ⟨d, true⟩).Run inner outcome ∧ (Connection.finish d outcome).Run ending result := by
  rcases EntityGraph.run_connection.mp h with ⟨live, r, e, rfl, hbegin, -⟩ | h
  · have hopened := hdone _ List.mem_cons_self rfl
    cases r with
    | done _ => cases hbegin
    | failed f => cases hopened
    | interrupted why => cases hopened
  · exact h

/-! ## Questions -/

/-- A question that is answered has the answer for its result. -/
theorem run_probe_carriedOut {q : Selector} {result : Except Error Bool}
    (h : (conn.probe q).Run log result) (hlog : CarriedOut log) :
    ∃ live rows, log = [⟨.query conn.inside (.anyRow q), live, (.done rows : Outcome Rows)⟩] ∧
      result = .ok rows.answer := by
  rcases run_bind.mp h with ⟨e, hquery, rfl⟩ | ⟨rows, before, after, rfl, hquery, hdone⟩
  · obtain ⟨_, _, -, ⟨⟩⟩ := run_query_carriedOut hquery hlog
  · obtain ⟨rfl, rfl⟩ := run_done.mp hdone
    rw [List.append_nil] at hlog ⊢
    obtain ⟨live, rows', rfl, hrows⟩ := run_query_carriedOut hquery hlog
    obtain rfl := Except.ok.inj hrows
    exact ⟨live, rows, rfl, rfl⟩

theorem sends_probe (conn : Connection) (q : Selector) :
    (conn.probe q).Sends [.ok (.query conn.inside (.anyRow q))] := by
  have h := (sends_query conn (.anyRow q)).bind fun rows => sends_done rows.answer
  rwa [List.append_nil] at h

namespace Partner

/-- The selections that must have no row for edges of one to one to be added. -/
def asked (node : Node) (id? : Option Value) (add clear : List Edge) : List Selector :=
  (add.filter fun e => e.isOneToOne && !clear.any fun c => c.sameRelation e).flatMap fun e =>
    match e.target.nodes, e.foreignKey with
    | target :: _, .ok fk => (questions node id? e fk target).map Question.rows
    | _, _ => []

variable {node : Node} {id? : Option Value} {add clear : List Edge}

/-- Partners are checked by asking for these selections in their order. -/
theorem sends_check : (check conn node id? add clear).Sends
    ((asked node id? add clear).map fun q => .ok (.query conn.inside (.anyRow q))) := by
  unfold asked
  rw [List.map_flatMap]
  refine sends_forM fun e _ => ?_
  unfold checkEdge
  split
  case h_1 hnone =>
    rw [hnone]
    exact sends_done _
  case h_2 target _ htargets =>
    refine sends_lift_bind fun fk hfk => ?_
    rw [htargets, hfk]
    dsimp only
    rw [List.map_map, ← List.flatMap_singleton' (List.map _ _), List.flatMap_map]
    refine sends_forM fun q _ => ?_
    have hask := (sends_probe conn q.rows).bind (f := fun taken =>
      if taken then Program.fail q.conflict.toError else Program.done PUnit.unit) fun taken => by
        split
        case isTrue => exact sends_fail _ []
        case isFalse => exact sends_done _
    rwa [List.append_nil] at hask

/-- Where no selection has a row, the check lets the edges pass. -/
theorem run_check_ok {result : Except Error Unit}
    (h : (check conn node id? add clear).Run log result) (hlog : CarriedOut log)
    (hfree : ∀ x ∈ log, x.call.confirms x.reply = false)
    (hkeys : ∀ e ∈ add, e.isOneToOne = true → ∃ fk, e.foreignKey = .ok fk) : result = .ok () := by
  refine run_forM_ok (P := fun x => (x.call.isStatement = true → x.succeeds = true) ∧
    x.call.confirms x.reply = false) ?_ h fun x hx => ⟨hlog x hx, hfree x hx⟩
  intro e he log result hround hx
  obtain ⟨he, hone⟩ := List.mem_filter.mp he
  obtain ⟨fk, hfk⟩ := hkeys e he (Bool.and_eq_true_iff.mp hone).1
  unfold checkEdge at hround
  split at hround
  case h_1 => exact (run_done.mp hround).2
  case h_2 target _ _ =>
    rw [hfk] at hround
    refine run_forM_ok ?_ hround hx
    intro q _ log result hask hx
    rcases run_bind.mp hask with ⟨e, hprobe, rfl⟩ | ⟨taken, before, after, rfl, hprobe, hend⟩
    · obtain ⟨_, _, -, ⟨⟩⟩ := run_probe_carriedOut hprobe fun x hmem => (hx x hmem).1
    · obtain ⟨live, rows, rfl, htaken⟩ := run_probe_carriedOut hprobe fun x hmem =>
        (hx x (List.mem_append_left _ hmem)).1
      have hno : rows.answer = false := (hx _ (List.mem_append_left _ List.mem_cons_self)).2
      obtain rfl : taken = false := (Except.ok.inj htaken).trans hno
      exact (run_done.mp hend).2

end Partner

/-! ## Statements on edges -/

theorem JoinTable.clearing_malformed (table : String) (ids : List Value) (edges : List Edge) :
    FailsOnly Error.IsMalformed (clearing table ids edges) := by
  refine (failsOnly_mapM fun e => ?_).bind fun _ => failsOnly_ok _
  exact e.joinColumns_malformed.bind fun _ => failsOnly_ite (failsOnly_ok _) (failsOnly_ok _)

theorem JoinTable.insertOf_malformed (table : String) (links : List (List Value × Edge)) :
    FailsOnly Error.IsMalformed (insertOf table links) := by
  refine (failsOnly_mapM fun link => ?_).bind fun _ => failsOnly_ok _
  exact (failsOnly_mapM Field.bindValue_malformed).bind fun _ => failsOnly_ok _

theorem ForeignKey.clearing_malformed (ids : List Value) (e : Edge) :
    FailsOnly Error.IsMalformed (clearing ids e) :=
  e.foreignKey_malformed.bind fun _ => failsOnly_ok _

namespace ExternalEdges

/-- The statements that change the edges of a node. In each kind of storage edges are cleared before
others are added. -/
def changing (conn : Connection) (id : Value) (changes : EdgeChanges) : List (Except Error Call) :=
  ((JoinTable.clearings [id] changes.clear).map fun c => .ok (.exec conn.inside c)) ++
    (JoinTable.statements conn (changes.add.map fun e => ([id], e)) ++
      (((ForeignKey.clearings [id] changes.clear).map fun c => .ok (.exec conn.inside c)) ++
        ForeignKey.statements conn id changes.add))

variable {id : Value} {changes : EdgeChanges}

theorem sends_change : (change conn [id] changes).Sends (changing conn id changes) := by
  have hjoins : (JoinTable.clear conn [id] changes.clear).Sends
      ((JoinTable.clearings [id] changes.clear).map fun c => .ok (.exec conn.inside c)) :=
    sends_forM_exec (f := fun g : String × List Edge => JoinTable.clearing g.1 [id] g.2)
  have hkeys : (ForeignKey.clear conn [id] changes.clear).Sends
      ((ForeignKey.clearings [id] changes.clear).map fun c => .ok (.exec conn.inside c)) :=
    sends_forM_exec (f := ForeignKey.clearing [id])
  refine hjoins.bind fun _ => (JoinTable.sends_add conn _).bind fun _ => ?_
  exact hkeys.bind fun _ => ForeignKey.sends_add conn id changes.add

/-- Where all statements are carried out, edges are changed unless one of them is refused. -/
theorem change_concludes : (change conn [id] changes).Concludes Error.IsRefusal := by
  have hclear : ∀ {α β : Type} {f : α → Except Error β} {statement : β → Command} {l : List α},
      (∀ a, FailsOnly Error.IsMalformed (f a)) → (l.forM fun a => ofExcept (f a) >>= fun b =>
        discard (conn.exec (statement b))).Concludes Error.IsRefusal := fun hf =>
    concludes_forM fun a _ =>
      (concludes_ofExcept (hf a).refused).bind fun b => (concludes_exec conn _).discard
  refine Concludes.bind (hclear fun g => JoinTable.clearing_malformed g.1 [id] g.2) fun _ => ?_
  refine Concludes.bind ?_ fun _ =>
    Concludes.bind (hclear (ForeignKey.clearing_malformed [id])) fun _ => ?_
  · unfold JoinTable.add
    dsimp only
    rw [mapM_liftM fun g : String × List (List Value × Edge) => JoinTable.insertOf g.1 g.2]
    refine Concludes.bind (concludes_ofExcept (failsOnly_mapM fun g => ?_)) fun inserts => ?_
    · exact (JoinTable.insertOf_malformed g.1 g.2).refused
    · refine concludes_forM fun i _ => concludes_ite (concludes_done _) (Concludes.discard ?_)
      exact (concludes_ofExcept (i.compile_refused _)).bind fun _ => concludes_exec conn _
  · unfold ForeignKey.add
    split
    case h_1 => exact concludes_done _
    case h_2 =>
      refine concludes_forM fun e _ => ?_
      refine (concludes_ofExcept e.foreignKey_malformed.refused).bind fun fk => ?_
      refine (concludes_exec conn _).bind fun result => concludes_ite ?_ (concludes_done _)
      exact concludes_fail trivial
    case h_3 => exact concludes_fail trivial

end ExternalEdges

/-! ## Looking for the node -/

namespace NodeUpdate

variable {u : NodeUpdate} {own : Update} {id : Value} {outcome : Except Error Unit}

/-- The update passes all checks that need no reply: it has an ID, its edges and fields fit together
and its columns can be bound. -/
structure IsAccepted (u : NodeUpdate) (id : Value) (own : Update) : Prop where
  bound : u.node.id.bindValue = .ok id
  given : id.isNull = false
  checked : u.check = .ok ()
  assigned : u.ownUpdate = .ok own

/-- The selections that must have no row for the update to go on. -/
def partnersAsked (u : NodeUpdate) (id : Value) : List Selector :=
  Partner.asked u.node (some id) u.edges.add u.edges.clear

/-- The calls by which an update learns whether its node is there, and what it learns. -/
inductive LooksFor (conn : Connection) (u : NodeUpdate) (own : Update) (id : Value) :
    List Exchange → Bool → Prop
  /-- The UPDATE of the row reports a row. -/
  | reported (live : Bool) (r : ExecResult) :
    own.isEmpty = false → 0 < r.rowsAffected →
      LooksFor conn u own id
        [⟨.exec conn.inside (.update (u.touching u.predicate own id)), live,
          (.done r : Outcome ExecResult)⟩] true
  /-- The UPDATE reports no row, so the database is asked for it. -/
  | unreported (live live' : Bool) (r : ExecResult) (rows : Rows) :
    own.isEmpty = false → r.rowsAffected = 0 →
      LooksFor conn u own id
        [⟨.exec conn.inside (.update (u.touching u.predicate own id)), live,
          (.done r : Outcome ExecResult)⟩,
        ⟨.query conn.inside (.anyRow (u.presence id)), live', (.done rows : Outcome Rows)⟩]
        rows.answer
  /-- There is nothing to assign, so the database is asked at once. -/
  | unassigned (live : Bool) (rows : Rows) :
    own.isEmpty = true →
      LooksFor conn u own id
        [⟨.query conn.inside (.anyRow (u.presence id)), live, (.done rows : Outcome Rows)⟩]
        rows.answer

/-- What an update does on a connection once it has found its node. All statements on its edges are
sent, unless one of the edges is refused; then the node is read back if that is asked for. -/
inductive Proceeds (conn : Connection) (u : NodeUpdate) (id : Value) :
    List Exchange → Except Error Unit → Prop
  | refused {changes : List Exchange} {why : Error} :
    callsOf changes <+: ExternalEdges.changing conn id u.edges → why.IsRefusal →
      Proceeds conn u id changes (.error why)
  | changed {changes back : List Exchange} {outcome : Except Error Unit} :
    callsOf changes = ExternalEdges.changing conn id u.edges →
      (if u.delivers then u.readBack conn id else pure ()).Run back outcome →
        Proceeds conn u id (changes ++ back) outcome

/-- The update of the own row is one statement, unless there is nothing to assign. -/
theorem run_writeOwnRow {changed : Except Error Nat} (hown : u.ownUpdate = .ok own)
    (h : (u.writeOwnRow conn id).Run log changed) (hlog : CarriedOut log) :
    own.isEmpty = true ∧ log = [] ∧ changed = .ok 0 ∨
      own.isEmpty = false ∧ ∃ live r,
        log = [⟨.exec conn.inside (.update (u.touching u.predicate own id)), live,
          (.done r : Outcome ExecResult)⟩] ∧ changed = .ok r.rowsAffected := by
  unfold writeOwnRow at h
  rw [hown] at h
  have h : (if own.isEmpty then Program.done 0 else
      conn.exec (.update (u.touching u.predicate own id)) >>= fun r =>
        Program.done r.rowsAffected).Run log changed := h
  split at h
  case isTrue hempty =>
    obtain ⟨rfl, rfl⟩ := run_done.mp h
    exact .inl ⟨hempty, rfl, rfl⟩
  case isFalse hassigns =>
    refine .inr ⟨Bool.eq_false_iff.mpr hassigns, ?_⟩
    rcases run_bind.mp h with ⟨e, hexec, rfl⟩ | ⟨r, before, after, rfl, hexec, hdone⟩
    · obtain ⟨_, _, -, ⟨⟩⟩ := run_exec_carriedOut hexec hlog
    · obtain ⟨rfl, rfl⟩ := run_done.mp hdone
      rw [List.append_nil] at hlog ⊢
      obtain ⟨live, r', rfl, hr⟩ := run_exec_carriedOut hexec hlog
      obtain rfl := Except.ok.inj hr
      exact ⟨live, r, rfl, rfl⟩

/-- The partners are asked about by the first calls, and as many as there are selections. -/
theorem run_checkPartners (h : u.IsAccepted id own)
    (hrun : (Partner.check conn u.node (some id) u.edges.add u.edges.clear).Run log outcome)
    (hlog : CarriedOut log) {rest : List Exchange}
    (hfree : ∀ x ∈ (log ++ rest).take (u.partnersAsked id).length,
      x.call.confirms x.reply = false) :
    outcome = .ok () ∧ callsOf log =
      (u.partnersAsked id).map fun q => .ok (.query conn.inside (.anyRow q)) := by
  obtain ⟨hfront, hall⟩ := Partner.sends_check log outcome hrun
  have hlength : log.length ≤ (u.partnersAsked id).length := by
    have hle := hfront.length_le
    simpa [callsOf, partnersAsked] using hle
  obtain ⟨_, hadd, -⟩ := bind_eq_ok.mp h.checked
  have hkeys : ∀ e ∈ u.edges.add, e.isOneToOne = true → ∃ fk, e.foreignKey = .ok fk := by
    intro e he hone
    have hmany : e.isManyToMany = false := by
      unfold Edge.isManyToMany
      rw [eq_of_beq hone]
      rfl
    obtain ⟨fk, hfk⟩ :=
      (Edge.isComplete_of_check (forM_eq_ok.mp hadd e he)).exists_foreignKey hmany
    exact ⟨fk, Edge.foreignKey_eq_ok.mpr hfk⟩
  have hok := Partner.run_check_ok hrun hlog (fun x hx => hfree x ?_) hkeys
  · exact ⟨hok, hall () hok⟩
  · rw [List.take_append, List.take_of_length_le hlength]
    exact List.mem_append_left _ hx

/-- Once the node has been found its edges are changed. -/
theorem run_proceeds
    (hrun : (ExternalEdges.change conn [id] u.edges >>= fun _ =>
      if u.delivers then u.readBack conn id else pure ()).Run log outcome)
    (hlog : CarriedOut log) : u.Proceeds conn id log outcome := by
  rcases run_bind.mp hrun with ⟨e, hchange, rfl⟩ | ⟨_, changes, back, rfl, hchange, hback⟩
  · exact .refused (ExternalEdges.sends_change log _ hchange).1
      (ExternalEdges.change_concludes log e hchange hlog)
  · exact .changed ((ExternalEdges.sends_change changes _ hchange).2 () rfl) hback

/-- Where the database is asked for the row of the node, its answer decides. -/
theorem run_presence
    (hrun : (conn.probe (u.presence id) >>= fun present =>
      if !present then Program.fail (.notFound u.node.label) else
        ExternalEdges.change conn [id] u.edges >>= fun _ =>
          if u.delivers then u.readBack conn id else pure ()).Run log outcome)
    (hlog : CarriedOut log) :
    ∃ live rows rest, log = ⟨.query conn.inside (.anyRow (u.presence id)), live,
        (.done rows : Outcome Rows)⟩ :: rest ∧
      (rows.answer = false → rest = [] ∧ outcome = .error (.notFound u.node.label)) ∧
      (rows.answer = true → u.Proceeds conn id rest outcome) := by
  rcases run_bind.mp hrun with ⟨e, hask, -⟩ | ⟨present, before, rest, rfl, hask, hrest⟩
  · obtain ⟨_, _, -, ⟨⟩⟩ := run_probe_carriedOut hask hlog
  · obtain ⟨hbefore, hafter⟩ := carriedOut_append.mp hlog
    obtain ⟨live, rows, rfl, hpresent⟩ := run_probe_carriedOut hask hbefore
    obtain rfl := Except.ok.inj hpresent
    refine ⟨live, rows, rest, rfl, fun hno => ?_, fun hyes => ?_⟩
    · rw [hno] at hrest
      exact run_fail.mp hrest
    · rw [hyes] at hrest
      exact run_proceeds hrest hafter

/-- Whatever the replies, an update looks for its node before it changes an edge. It fails at once
if the node is missing, and proceeds otherwise. -/
theorem run_writeOne (h : u.IsAccepted id own) (hrun : (u.writeOne conn id).Run log outcome)
    (hlog : CarriedOut log)
    (hfree : ∀ x ∈ log.take (u.partnersAsked id).length, x.call.confirms x.reply = false) :
    ∃ asked found rest present, log = asked ++ found ++ rest ∧
      callsOf asked = ((u.partnersAsked id).map fun q => .ok (.query conn.inside (.anyRow q))) ∧
      u.LooksFor conn own id found present ∧
      (present = false → rest = [] ∧ outcome = .error (.notFound u.node.label)) ∧
      (present = true → u.Proceeds conn id rest outcome) := by
  rcases run_bind.mp hrun with ⟨e, hcheck, rfl⟩ | ⟨_, asked, found, rfl, hcheck, hfind⟩
  · rw [← List.append_nil log] at hfree
    cases (run_checkPartners h hcheck hlog hfree).1
  obtain ⟨hasked, hfound⟩ := carriedOut_append.mp hlog
  obtain ⟨-, hcalls⟩ := run_checkPartners h hcheck hasked hfree
  rcases run_bind.mp hfind with ⟨e, hwrite, -⟩ | ⟨changed, written, rest, rfl, hwrite, hrest⟩
  · rcases run_writeOwnRow h.assigned hwrite hfound with ⟨-, -, ⟨⟩⟩ | ⟨-, _, _, -, ⟨⟩⟩
  obtain ⟨hwritten, hafter⟩ := carriedOut_append.mp hfound
  dsimp only at hrest
  rcases run_writeOwnRow h.assigned hwrite hwritten with
    ⟨hempty, rfl, hnone⟩ | ⟨hassigns, live, r, rfl, hcount⟩
  · obtain rfl := Except.ok.inj hnone
    rw [if_pos rfl] at hrest
    obtain ⟨live, rows, rest, rfl, hno, hyes⟩ := run_presence hrest hafter
    refine ⟨asked, _, rest, _, ?_, hcalls, .unassigned live rows hempty, hno, hyes⟩
    simp
  · obtain rfl := Except.ok.inj hcount
    split at hrest
    case isTrue hzero =>
      obtain ⟨live', rows, rest, rfl, hno, hyes⟩ := run_presence hrest hafter
      refine ⟨asked, _, rest, _, ?_, hcalls,
        .unreported live live' r rows hassigns hzero, hno, hyes⟩
      simp
    case isFalse hsome =>
      refine ⟨asked, _, rest, true, ?_, hcalls,
        .reported live r hassigns (Nat.pos_of_ne_zero hsome), nofun, fun _ => ?_⟩
      · simp
      · exact run_proceeds hrest hafter

/-! ## What is found -/

variable {found : List Exchange} {present : Bool}

/-- Looking for a node changes no row but that of the node. -/
theorem LooksFor.writes (h : u.LooksFor conn own id found present) :
    ∀ x ∈ found, x.call.isWrite = true →
      x.call = .exec conn.inside (.update (u.touching u.predicate own id)) := by
  intro x hx hwrite
  cases h with
  | reported live r _ _ =>
    rw [List.mem_singleton.mp hx]
  | unreported live live' r rows _ _ =>
    rcases List.mem_pair.mp hx with rfl | rfl
    · rfl
    · cases hwrite
  | unassigned live rows _ =>
    rw [List.mem_singleton.mp hx] at hwrite
    cases hwrite

/-- Asking about partners changes no row. -/
theorem not_isWrite_of_asked {asked : List Exchange} {qs : List Selector}
    (h : callsOf asked = qs.map fun q => .ok (.query conn.inside (.anyRow q))) :
    ∀ x ∈ asked, x.call.isWrite = false := by
  intro x hx
  have hcall : .ok x.call ∈ callsOf asked := List.mem_map_of_mem hx
  rw [h] at hcall
  obtain ⟨q, -, hq⟩ := List.mem_map.mp hcall
  rw [← Except.ok.inj hq]
  rfl

/-- On a database that counts the rows that it changes the node is found exactly if there is a row
with its ID that meets the condition. An UPDATE that counts no row has left the database as it was,
so the question that follows is about the same rows. -/
theorem LooksFor.reached_iff {E : Engine} {keys : List (String × String)} {s s' : Session}
    (h : u.LooksFor conn own id found present) (hown : u.ownUpdate = .ok own)
    (hfound : AnsweredBy (fun c r s s' => c.Answers E keys r s s' ∧ c.CountsChanges E r s) s
      found s') :
    present = true ↔ (u.touching u.predicate own id).reached E s.current ≠ [] := by
  have hanswer : ∀ {rows : Rows}, (Command.anyRow (u.presence id)).Returns E s.current rows →
      (rows.answer = true ↔ (u.touching u.predicate own id).reached E s.current ≠ []) := by
    intro rows hreturns
    have hreturns : rows.firstValue?.bind Value.asBool? =
      some !((u.presence id).outRows E s.current []).isEmpty := hreturns
    rw [Rows.answer, hreturns, Option.getD_some, Bool.not_eq_true', ← Bool.not_eq_true]
    exact not_congr (isEmpty_presence hown)
  cases h with
  | reported live r _ hcount =>
    obtain ⟨mid, ⟨⟨-, hreports, -⟩, -⟩, -⟩ := hfound
    refine iff_of_true rfl fun hnone => ?_
    have hreports : r.rowsAffected ≤ ((u.touching u.predicate own id).reached E s.current).length :=
      hreports
    rw [hnone] at hreports
    exact absurd hcount (Nat.not_lt.mpr hreports)
  | unreported live live' r rows _ hzero =>
    obtain ⟨mid, ⟨⟨⟨-, hcurrent⟩, -⟩, hcounts⟩, last, ⟨⟨-, hreturns, -⟩, -⟩, -⟩ := hfound
    rw [hcurrent, Update.applied_of_unchanged (hcounts hzero)] at hreturns
    exact hanswer hreturns
  | unassigned live rows _ =>
    obtain ⟨mid, ⟨⟨-, hreturns, -⟩, -⟩, -⟩ := hfound
    exact hanswer hreturns

/-- Once the node has been found, only reading it back can report it missing, after all statements
on its edges. -/
theorem Proceeds.of_not_found {changes : List Exchange} {label : String}
    (h : u.Proceeds conn id changes (.error (.notFound label))) :
    u.delivers = true ∧ ExternalEdges.changing conn id u.edges <+: callsOf changes := by
  cases h with
  | refused _ hrefusal => exact hrefusal.elim
  | @changed changes back _ hchanges hback =>
    cases hdelivers : u.delivers with
    | false =>
      rw [hdelivers] at hback
      cases (run_done.mp hback).2
    | true =>
      rw [callsOf_append, hchanges]
      exact ⟨rfl, List.prefix_append _ _⟩

/-! ## The operation -/

/-- The end of a transaction does not report that something was not found. -/
theorem run_finish_not_found {d : Dialect} {ending : List Exchange} {label : String}
    (h : (Connection.finish d outcome).Run ending (.error (.notFound label))) :
    outcome = .error (.notFound label) := by
  cases outcome with
  | error e =>
    obtain ⟨_, r, -, heq⟩ := run_finish_error.mp h
    cases r with
    | ok _ => exact heq.symm
    | error f => cases heq
  | ok a =>
    rcases run_finish_ok.mp h with ⟨_, why, _, r, -, heq⟩ | ⟨_, _, r, -, heq⟩
    · cases r <;> cases heq
    · cases r with
      | ok _ => cases heq
      | error f =>
        rw [committed, Failure.classify] at heq
        split at heq <;> cases heq

/-- An accepted update of one node is run inside a transaction. -/
theorem run_runOne {d : Dialect} {result : Except Error Unit} (h : u.IsAccepted id own)
    (hrun : (u.runOne d).Run log result) :
    (Connection.run d true fun conn => u.writeOne conn id).Run log result := by
  unfold runOne at hrun
  rw [h.bound, h.checked] at hrun
  have hrun : (if id.isNull then Program.fail (.validation u.node.id.column .updateWithoutId) else
      Connection.run d true fun conn => u.writeOne conn id).Run log result := hrun
  rwa [if_neg (by simp [h.given])] at hrun

/-- An update of one node reports its node missing exactly if it is, and changes no edge of a
missing node. Take an update that passes its checks, and any replies with which the driver carries
out what it is told and confirms no partner. After the questions about partners the update looks for
the row of the node: it is found if the UPDATE of the row reports a row or, where it reports none or
there is nothing to assign, if the question for the row is answered with yes. If it is not found, a
rollback follows at once and the result says so; then nothing but the own UPDATE can have changed
rows. If it is found, the statements on the edges follow, and only reading the node back can report
it missing. On a database that counts the rows that it changes, the row is found exactly if there is
one with the node's ID that meets the condition, whether or not the UPDATE has changed it. -/
theorem edges_follow_found_node {d : Dialect} {result : Except Error Unit}
    (h : u.IsAccepted id own) (hrun : (u.runOne d).Run log result) (hdone : DriverSucceeds log)
    (hfree : ∀ x ∈ (log.drop 1).take (u.partnersAsked id).length,
      x.call.confirms x.reply = false) :
    ∃ start asked found rest present, log = start :: (asked ++ found ++ rest) ∧
      start.call = .begin ∧
      callsOf asked = ((u.partnersAsked id).map fun q => .ok (.query true (.anyRow q))) ∧
      u.LooksFor ⟨d, true⟩ own id found present ∧
      (present = false →
        (∃ live, rest = [⟨.rollback, live, (.ok () : Except Failure Unit)⟩]) ∧
        result = .error (.notFound u.node.label) ∧
        ∀ x ∈ log, x.call.isWrite = true →
          x.call = .exec true (.update (u.touching u.predicate own id))) ∧
      (present = true →
        (∃ changes ending outcome, rest = changes ++ ending ∧
          u.Proceeds ⟨d, true⟩ id changes outcome ∧
          (Connection.finish d outcome).Run ending result) ∧
        ∀ label, result = .error (.notFound label) → u.delivers = true ∧
          ExternalEdges.changing ⟨d, true⟩ id u.edges <+: callsOf rest) ∧
      ∀ E keys s s', AnsweredBy (fun c r s s' => c.Answers E keys r s s' ∧ c.CountsChanges E r s) s
          found s' →
        (present = true ↔ (u.touching u.predicate own id).reached E s.current ≠ []) := by
  obtain ⟨live, inner, ending, outcome, rfl, hinner, hfinish⟩ :=
    hdone.run_connection (run_runOne h hrun)
  have hcarried : CarriedOut inner := (hdone.mono fun x hx => by simp [hx]).carriedOut
  obtain ⟨asked, found, rest, present, rfl, hasked, hlooks, hmissing, hthere⟩ :=
    run_writeOne h hinner hcarried fun x hx => hfree x (by
      rw [List.drop_one, List.tail_cons, List.take_append]
      exact List.mem_append_left _ hx)
  refine ⟨⟨.begin, live, (.done () : Outcome Unit)⟩, asked, found, rest ++ ending, present, ?_, rfl,
    hasked, hlooks, ?_, ?_, ?_⟩
  · rw [List.append_assoc]
  · intro hpresent
    obtain ⟨rfl, rfl⟩ := hmissing hpresent
    obtain ⟨live', r, rfl, rfl⟩ := run_finish_error.mp hfinish
    have hback := hdone ⟨.rollback, live', r⟩ (by simp) rfl
    cases r with
    | error f => cases hback
    | ok _ =>
      refine ⟨⟨live', rfl⟩, rfl, fun x hx hwrite => ?_⟩
      simp only [List.append_nil, List.mem_cons, List.mem_append, List.not_mem_nil, or_false] at hx
      rcases hx with rfl | (hx | hx) | rfl
      · cases hwrite
      · cases (not_isWrite_of_asked hasked x hx).symm.trans hwrite
      · exact hlooks.writes x hx hwrite
      · cases hwrite
  · intro hpresent
    have hproceeds := hthere hpresent
    refine ⟨⟨rest, ending, outcome, rfl, hproceeds, hfinish⟩, ?_⟩
    rintro label rfl
    obtain rfl := run_finish_not_found hfinish
    obtain ⟨hdelivers, hsent⟩ := hproceeds.of_not_found
    rw [callsOf_append]
    exact ⟨hdelivers, hsent.trans (List.prefix_append _ _)⟩
  · intro E keys s s' hfound
    exact hlooks.reached_iff h.assigned hfound

end NodeUpdate

/-! ## A user whose age stays the same -/

/-- A user with a name gets an age and the second card. -/
def giveAge : NodeUpdate :=
  { NodeUpdate.ofNode (.ofTable "users" { column := "id", type := .int, value := .int 1 }) with
    fields := ⟨[⟨"age", .int, .int 30⟩], [], []⟩, edges := ⟨[cardEdge [.int 2]], []⟩
    predicate := some (.notNull "name") }

/-- The UPDATE of the user's row, without a condition. -/
def setAge : Update := (Update.ofTable "users").set "age" (.int 30)

theorem giveAge_isAccepted : giveAge.IsAccepted (.int 1) setAge := ⟨rfl, rfl, rfl, rfl⟩

/-- The UPDATE counts no row, and the question for the user is answered with a value. -/
def giveAgeSearch (v : Value) : List Exchange :=
  [⟨.exec true (.update (giveAge.touching giveAge.predicate setAge (.int 1))), true,
      (.done ⟨0, none⟩ : Outcome ExecResult)⟩,
    ⟨.query true (.anyRow (giveAge.presence (.int 1))), true,
      (.done ⟨["exists"], [[v]]⟩ : Outcome Rows)⟩]

/-- A run of the update on replies that tell of no other card. -/
def giveAgeRun (v : Value) (rest : List Exchange) : List Exchange :=
  ⟨.begin, true, (.done () : Outcome Unit)⟩ ::
    ((giveAge.partnersAsked (.int 1)).map (fun q => ⟨.query true (.anyRow q), true,
      (.done ⟨["exists"], [[.int 0]]⟩ : Outcome Rows)⟩) ++ giveAgeSearch v ++ rest)

/-- The card is linked and the transaction committed. -/
def cardGiven : List Exchange :=
  [⟨.exec true (.update (ForeignKey.linking (.int 1) "user_id" (cardEdge [.int 2]))), true,
      (.done ⟨1, none⟩ : Outcome ExecResult)⟩,
    ⟨.check, true, (.ok () : Except Interruption Unit)⟩,
    ⟨.commit, true, (.ok () : Except Failure Unit)⟩]

/-- The transaction is rolled back. -/
def givenUp : List Exchange := [⟨.rollback, true, (.ok () : Except Failure Unit)⟩]

/-- A named user who has the age already. -/
def agedUsers : Database := fun name =>
  let row : Tuple := fun c =>
    if c = "id" then .int 1 else if c = "name" then .string "a8m"
    else if c = "age" then .int 30 else .null
  if name = ["users"] then ⟨["id", "name", "age"], [row]⟩ else ⟨[], []⟩

theorem agedUsers_unchanged :
    ∀ r ∈ (giveAge.touching giveAge.predicate setAge (.int 1)).reached keyEngine agedUsers,
      (giveAge.touching giveAge.predicate setAge (.int 1)).assigned keyEngine r = r := by
  intro r hr
  have hname : nameParts "users" = ["users"] := by decide
  have hrow : r ∈ (agedUsers (nameParts "users")).rows := List.mem_of_mem_filter hr
  rw [hname] at hrow
  obtain rfl := List.mem_singleton.mp hrow
  have hassigned : ∀ r : Tuple, (giveAge.touching giveAge.predicate setAge (.int 1)).assigned
      keyEngine r = Function.update r (columnName "age") (.int 30) := fun _ => rfl
  have hcolumn : columnName "age" = "age" := by decide
  rw [hassigned, hcolumn]
  exact Function.update_eq_self "age" _

/-- What the parts of such a run are. -/
theorem giveAge_parts {v : Value} {rest after asked found : List Exchange} {start : Exchange}
    {present : Bool} (hlog : giveAgeRun v rest = start :: (asked ++ found ++ after))
    (hasked : callsOf asked =
      (giveAge.partnersAsked (.int 1)).map fun q => .ok (.query true (.anyRow q)))
    (hlooks : giveAge.LooksFor ⟨.mysql, true⟩ setAge (.int 1) found present) :
    found = giveAgeSearch v ∧ after = rest ∧
      present = (⟨["exists"], [[v]]⟩ : Rows).answer := by
  have hlength : asked.length = 1 := by
    have hcount := congrArg List.length hasked
    rwa [callsOf, List.length_map, List.length_map] at hcount
  obtain ⟨probe, rfl⟩ := List.length_eq_one_iff.mp hlength
  have hafter : giveAgeSearch v ++ rest = found ++ after := (List.cons.inj (List.cons.inj hlog).2).2
  cases hlooks with
  | reported live r _ hcount =>
    injection (List.cons.inj hafter).1 with _ _ hreply
    obtain rfl : (⟨0, none⟩ : ExecResult) = r := by simpa using hreply
    cases hcount
  | unreported live live' r rows _ _ =>
    obtain ⟨hwrite, hrest⟩ := List.cons.inj hafter
    obtain ⟨hask, rfl⟩ := List.cons.inj hrest
    have hreply := hask
    injection hreply with _ _ hreply
    obtain rfl : (⟨["exists"], [[v]]⟩ : Rows) = rows := by simpa using hreply
    exact ⟨congrArg₂ (fun x y => [x, y]) hwrite.symm hask.symm, rfl, rfl⟩
  | unassigned live rows hempty => cases hempty

/-- The answer decides, though the UPDATE counts no row. If it is yes, what follows is the link to
the card; this is so if the user is there and has the age already. If it is no, what follows is the
rollback, and only the UPDATE of the user can have changed rows. -/
theorem edges_follow_found_node_give_age :
    ((giveAge.runOne .mysql).Run (giveAgeRun (.int 1) cardGiven) (.ok ()) ∧
      (∃ changes ending outcome, cardGiven = changes ++ ending ∧
        giveAge.Proceeds ⟨.mysql, true⟩ (.int 1) changes outcome) ∧
      (giveAge.touching giveAge.predicate setAge (.int 1)).reached keyEngine agedUsers ≠ []) ∧
    (giveAge.runOne .mysql).Run (giveAgeRun (.int 0) givenUp) (.error (.notFound "users")) ∧
      ∀ x ∈ giveAgeRun (.int 0) givenUp, x.call.isWrite = true →
        x.call = .exec true (.update (giveAge.touching giveAge.predicate setAge (.int 1))) := by
  have hfound : (giveAge.runOne .mysql).Run (giveAgeRun (.int 1) cardGiven) (.ok ()) := by
    repeat apply Run.call
    exact .done _
  have hmissing : (giveAge.runOne .mysql).Run (giveAgeRun (.int 0) givenUp)
      (.error (.notFound "users")) := by
    repeat apply Run.call
    exact .fail _
  refine ⟨⟨hfound, ?_⟩, hmissing, ?_⟩
  · obtain ⟨start, asked, found, rest, present, hlog, -, hasked, hlooks, -, hthere, hdatabase⟩ :=
      NodeUpdate.edges_follow_found_node giveAge_isAccepted hfound (by decide) (by decide)
    obtain ⟨rfl, rfl, rfl⟩ := giveAge_parts hlog hasked hlooks
    obtain ⟨⟨changes, ending, outcome, hrest, hproceeds, -⟩, -⟩ := hthere rfl
    refine ⟨⟨changes, ending, outcome, hrest, hproceeds⟩, ?_⟩
    refine (hdatabase keyEngine [] ⟨agedUsers, none⟩ ⟨agedUsers, none⟩ ?_).mp rfl
    have hsame := (Update.applied_of_unchanged agedUsers_unchanged).symm
    have hpresent : (Command.anyRow (giveAge.presence (.int 1))).Returns keyEngine agedUsers
        ⟨["exists"], [[.int 1]]⟩ := by
      have hsome :
          ((giveAge.presence (.int 1)).outRows keyEngine agedUsers []).isEmpty = false := by
        rw [Bool.eq_false_iff]
        intro hempty
        have hnone := (NodeUpdate.isEmpty_presence giveAge_isAccepted.assigned).mp hempty
        exact absurd (congrArg List.length hnone) (by decide)
      show some true = some !_
      rw [hsome]
      rfl
    have hkeys : agedUsers.Obeys keyEngine [] := fun k hk => absurd hk List.not_mem_nil
    exact ⟨⟨agedUsers, none⟩,
      ⟨⟨⟨by decide, hsame⟩, Nat.zero_le _, hkeys, rfl⟩, fun _ => agedUsers_unchanged⟩,
      ⟨agedUsers, none⟩, ⟨⟨rfl, hpresent, hkeys, rfl⟩, trivial⟩, rfl⟩
  · obtain ⟨start, asked, found, rest, present, hlog, -, hasked, hlooks, hgone, -, -⟩ :=
      NodeUpdate.edges_follow_found_node giveAge_isAccepted hmissing (by decide) (by decide)
    obtain ⟨rfl, rfl, rfl⟩ := giveAge_parts hlog hasked hlooks
    exact (hgone rfl).2.2

end EntityGraph
