import EntityGraph.Proofs.Graph.LinkingOperations

/-!
# Runs of operations that link rows

What a run has done, for arbitrary replies. If it has a result, then all links that it asks for have
been made, and nothing has been taken back. A commit that succeeds is its last call and gives it a
result, so a run that has committed has made all of its links.
-/

set_option autoImplicit false

namespace EntityGraph

open Program

variable {conn : Connection} {d : Dialect} {v w : Value} {e : Edge} {log : List Exchange}

/-! ## Links -/

/-- The rounds of a loop that has a result. -/
theorem Program.run_of_mem_forM {α : Type} {body : α → Program PUnit} {l : List α} {a : α}
    (h : (l.forM body).Run log (.ok ⟨⟩)) (ha : a ∈ l) :
    ∃ round, round ⊆ log ∧ (body a).Run round (.ok ⟨⟩) := by
  induction l generalizing log with
  | nil => cases ha
  | cons b l ih =>
    obtain ⟨_, before, after, rfl, hbefore, hafter⟩ := run_bind_ok.mp h
    rcases List.mem_cons.mp ha with rfl | ha
    · exact ⟨before, List.subset_append_left _ _, hbefore⟩
    · obtain ⟨round, hround, hrun⟩ := ih hafter ha
      exact ⟨round, List.subset_append_of_subset_right _ hround, hrun⟩

namespace ForeignKey

/-- Linking the targets of an edge has a result if their number is reported. -/
theorem run_link (h : (link conn v e).Run log (.ok ())) : ∃ x ∈ log, x.Links v e := by
  obtain ⟨fk, before, after, rfl, hlift, hexec⟩ := run_bind_ok.mp h
  obtain ⟨rfl, hfk⟩ := run_ofExcept.mp hlift
  obtain ⟨result, sent, rest, rfl, hsent, hcount⟩ := run_bind_ok.mp hexec
  obtain ⟨live, r, rfl, hr⟩ := run_exec hsent
  obtain rfl := (hr result).mp rfl
  refine ⟨_, List.mem_append_right _ List.mem_cons_self, fk, _, live, result,
    Edge.foreignKey_eq_ok.mp hfk.symm, ?_, rfl⟩
  by_contra hless
  rw [if_pos (Nat.lt_of_not_le hless)] at hcount
  cases (run_fail.mp hcount).2

/-- All edges that are stored in the rows of their targets are linked. -/
theorem run_add {edges : List Edge} (h : (add conn [v] edges).Run log (.ok ()))
    (he : e ∈ edges) (hforeign : e.isForeignKeyEdge = true) (hnodes : e.target.nodes ≠ []) :
    ∃ x ∈ log, x.Links v e := by
  have hmem : e ∈ edges.filter fun e => e.isForeignKeyEdge && !e.target.nodes.isEmpty := by
    refine List.mem_filter.mpr ⟨he, ?_⟩
    simpa [hforeign] using hnodes
  unfold add at h
  cases hlinks : edges.filter fun e => e.isForeignKeyEdge && !e.target.nodes.isEmpty with
  | nil =>
    rw [hlinks] at hmem
    cases hmem
  | cons first rest =>
    rw [hlinks] at h hmem
    obtain ⟨round, hround, hlink⟩ := run_of_mem_forM h hmem
    obtain ⟨x, hx, hxlinks⟩ := run_link hlink
    exact ⟨x, hround hx, hxlinks⟩

end ForeignKey

/-! ## The ID of the node -/

/-- An ID to insert a node with is there if drawn ones are. -/
theorem Node.Supplies.isNull {node : Node} (h : node.Supplies log (some v))
    (htells : ∀ x ∈ log, x.call.TellsId x.reply) : v.isNull = false := by
  cases h with
  | given hid hbind => exact Field.isNull_of_bindValue hbind hid
  | drawn _ _ hdraw hbind => exact Field.isNull_of_bindValue hbind (htells _ hdraw)

/-- An ID that a node gets is there if the supplied and the returned ones are. -/
theorem Node.Obtains.isNull {node : Node} {supplied : Option Value} {own : Exchange}
    (h : node.Obtains supplied own v) (htells : own.call.TellsId own.reply)
    (hown : ∀ inside c, own.call = .query inside c → ∃ i, c = .insert i)
    (hsupplied : ∀ id, supplied = some id → id.isNull = false) : v.isNull = false := by
  cases h with
  | @returned _ _ _ rows _ _ hfirst hread =>
    obtain ⟨i, rfl⟩ := hown _ _ rfl
    exact (isNull_of_readId hread).trans (htells _ hfirst)
  | unreturned _ hsome => exact hsupplied v hsome
  | supplied hsome => exact hsupplied v hsome
  | reported _ _ _ hread => exact isNull_of_readId hread

namespace NodeCreation

variable {c : NodeCreation} {supplied : Option Value}

/-- The own row of a node is written by an INSERT. -/
theorem insert_of_ownCall {call : Call} (h : c.ownCall conn supplied = .ok call) (inside : Bool)
    (statement : Command) (hcall : call = .query inside statement) :
    ∃ i, statement = .insert i := by
  have hmap : ∀ {i : Insert} {send : InsertStatement → Call},
      (i.compile conn.dialect).map send = .ok call → ∃ s, call = send s := by
    intro i send hsent
    cases hcompile : i.compile conn.dialect with
    | error e =>
      rw [hcompile] at hsent
      cases hsent
    | ok s =>
      rw [hcompile] at hsent
      exact ⟨s, (Except.ok.inj hsent).symm⟩
  obtain ⟨i, -, hsent⟩ := bind_eq_ok.mp h
  split at hsent
  all_goals
    obtain ⟨s, rfl⟩ := hmap hsent
    cases hcall
  exact ⟨s, rfl⟩

/-- Writing a node that has a result has made its links, and the node has an ID. -/
theorem run_write_ok {position : Nat} (h : (write conn position c).Run log (.ok v)) :
    (∀ e ∈ c.edges, e.isForeignKeyEdge = true → e.target.nodes ≠ [] → ∃ x ∈ log, x.Links v e) ∧
      ((∀ x ∈ log, x.call.TellsId x.reply) → v.isNull = false) := by
  rw [write_eq] at h
  obtain ⟨_, probes, _, rfl, -, hfound⟩ := run_bind_ok.mp h
  obtain ⟨supplied, draws, _, rfl, hsupply, hinsert⟩ := run_bind_ok.mp hfound
  obtain ⟨i, none, _, rfl, hlift, hwritten⟩ := run_bind_ok.mp hinsert
  obtain ⟨id, row, _, rfl, hrow, hread⟩ := run_bind_ok.mp hwritten
  obtain ⟨_, _, _, rfl, hrevised⟩ := run_request.mp hread
  obtain ⟨_, edges, done, rfl, hedges, hdone⟩ := run_bind_ok.mp hrevised
  obtain ⟨-, hid⟩ := run_done.mp hdone
  obtain rfl := Except.ok.inj hid
  obtain ⟨_, joins, keys, rfl, -, hkeys⟩ := run_bind_ok.mp hedges
  constructor
  · intro e he hforeign hnodes
    obtain ⟨x, hx, hlinks⟩ := ForeignKey.run_add hkeys he hforeign hnodes
    exact ⟨x, by simp [hx], hlinks⟩
  · intro htells
    rcases run_insertRow (run_ofExcept.mp hlift).2.symm hrow with
      ⟨-, e, hfail⟩ | ⟨own, rfl, hcall, -, hobtains⟩
    · cases hfail
    · refine (hobtains v rfl).isNull (htells own (by simp)) (insert_of_ownCall hcall) ?_
      rintro id rfl
      exact (run_supplyId hsupply).isNull fun x hx => htells x (by simp [hx])

end NodeCreation

namespace NodeUpdate

variable {u : NodeUpdate}

/-- An update of one node that has a result has changed its edges. -/
theorem run_writeOne_change (h : (u.writeOne conn v).Run log (.ok ())) :
    ∃ part ⊆ log, (ExternalEdges.change conn [v] u.edges).Run part (.ok ()) := by
  have hedges : ∀ {log : List Exchange}, ((ExternalEdges.change conn [v] u.edges >>= fun _ =>
      if u.delivers then u.readBack conn v else pure ()).Run log (.ok ())) →
      ∃ part ⊆ log, (ExternalEdges.change conn [v] u.edges).Run part (.ok ()) := by
    intro log hrest
    obtain ⟨_, change, _, rfl, hchange, -⟩ := run_bind_ok.mp hrest
    exact ⟨change, List.subset_append_left _ _, hchange⟩
  obtain ⟨_, _, _, rfl, -, hfound⟩ := run_bind_ok.mp h
  obtain ⟨changed, _, _, rfl, -, hwritten⟩ := run_bind_ok.mp hfound
  dsimp only at hwritten
  split at hwritten
  case isTrue =>
    obtain ⟨present, _, _, rfl, -, hpresent⟩ := run_bind_ok.mp hwritten
    cases present with
    | false => cases (run_fail.mp hpresent).2
    | true =>
      obtain ⟨part, hpart, hrun⟩ := hedges hpresent
      exact ⟨part, fun x hx => by simp [hpart hx], hrun⟩
  case isFalse =>
    obtain ⟨part, hpart, hrun⟩ := hedges hwritten
    exact ⟨part, fun x hx => by simp [hpart hx], hrun⟩

/-- An update of one node that has a result has made its links. -/
theorem run_writeOne_ok (h : (u.writeOne conn v).Run log (.ok ())) (he : e ∈ u.edges.add)
    (hforeign : e.isForeignKeyEdge = true) (hnodes : e.target.nodes ≠ []) :
    ∃ x ∈ log, x.Links v e := by
  obtain ⟨part, hpart, hchange⟩ := run_writeOne_change h
  obtain ⟨_, _, _, rfl, -, hjoins⟩ := run_bind_ok.mp hchange
  obtain ⟨_, _, _, rfl, -, hcleared⟩ := run_bind_ok.mp hjoins
  obtain ⟨_, _, _, rfl, -, hadd⟩ := run_bind_ok.mp hcleared
  obtain ⟨x, hx, hlinks⟩ := ForeignKey.run_add hadd he hforeign hnodes
  exact ⟨x, hpart (by simp [hx]), hlinks⟩

end NodeUpdate

/-! ## Operations -/

namespace LinkingOperation

variable {o : LinkingOperation} {result : Except Error Value}

/-- An operation ends its transaction last. -/
theorem endsLast (h : (o.program d).Run log result) : EndsLast log result := by
  cases o with
  | create c => exact Mutation.endsLast (m := .createNode c) h
  | update u =>
    rcases run_bind.mp h with ⟨e, hbind, -⟩ | ⟨id, _, after, rfl, hbind, hupdate⟩
    · rw [(run_ofExcept.mp hbind).1]
      exact endsLast_nil
    rw [(run_ofExcept.mp hbind).1, List.nil_append]
    rcases run_bind.mp hupdate with ⟨e, hfails, rfl⟩ | ⟨_, sent, none, rfl, hsent, hdone⟩
    · exact (Mutation.endsLast (m := .updateNode u) hfails).congr (fun _ => ⟨e, rfl⟩) nofun
    · obtain ⟨rfl, rfl⟩ := run_done.mp hdone
      rw [List.append_nil]
      exact (Mutation.endsLast (m := .updateNode u) hsent).congr nofun fun _ => ⟨id, rfl⟩

/-- An operation that has a result has made its links, and its node has an ID. -/
theorem run_ok (h : (o.program d).Run log (.ok v)) :
    (∀ e ∈ o.added, e.isForeignKeyEdge = true → e.target.nodes ≠ [] → ∃ x ∈ log, x.Links v e) ∧
      ((∀ x ∈ log, x.call.TellsId x.reply) → v.isNull = false) := by
  cases o with
  | create c =>
    obtain ⟨p, conn, inner, hplan, -, hinner, hbody⟩ := Mutation.run_ok (m := .createNode c) h
    obtain ⟨-⟩ := Mutation.planned hplan
    obtain ⟨hlinks, hid⟩ := NodeCreation.run_write_ok hbody
    refine ⟨fun e he hforeign hnodes => ?_, fun htells => hid fun x hx => htells x (hinner hx)⟩
    obtain ⟨x, hx, hxlinks⟩ := hlinks e he hforeign hnodes
    exact ⟨x, hinner hx, hxlinks⟩
  | update u =>
    obtain ⟨id, none, after, rfl, hbind, hupdate⟩ := run_bind_ok.mp h
    obtain ⟨_, sent, rest, rfl, hsent, hdone⟩ := run_bind_ok.mp hupdate
    obtain rfl : v = id := Except.ok.inj (run_done.mp hdone).2
    obtain ⟨p, conn, inner, hplan, -, hinner, hbody⟩ := Mutation.run_ok (m := .updateNode u) hsent
    cases Mutation.planned hplan with
    | updateNode hid hpresent =>
      obtain rfl := Except.ok.inj ((run_ofExcept.mp hbind).2.trans hid)
      refine ⟨fun e he hforeign hnodes => ?_, fun _ => hpresent⟩
      obtain ⟨x, hx, hlinks⟩ := NodeUpdate.run_writeOne_ok hbody he hforeign hnodes
      exact ⟨x, by simp [hinner hx], hlinks⟩

end LinkingOperation

end EntityGraph
