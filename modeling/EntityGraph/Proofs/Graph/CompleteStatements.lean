import EntityGraph.Proofs.Graph.QuerySelections
import EntityGraph.Proofs.Graph.SentStatements
import EntityGraph.Proofs.Sql.FilledLists
import EntityGraph.Proofs.Transaction.Provenance

/-!
# Statements are complete and guarded

The builders of statements write what they are given, so it is left to the operations to send no
statement without assignments, rows or a condition. `statements_complete` says that none does: each
statement of every operation has an element in each of its lists, and an UPDATE or DELETE goes
without a WHERE only where all nodes are to be changed and no edge is.
-/

set_option autoImplicit false

namespace EntityGraph

open Program

variable {d : Dialect}

/-! ## Complete statements -/

namespace Command

/-- The condition that a statement has by itself. -/
def condition? : Command → Option Predicate
  | .update u => u.predicate
  | .delete x => x.predicate
  | .select _ | .anyRow _ | .insert _ => none

/-- The statement changes rows that are there. -/
def ChangesRows : Command → Prop
  | .update _ | .delete _ => True
  | .select _ | .anyRow _ | .insert _ => False

/-- Every list of a statement has an element: in its text those after IN, SET, RETURNING, ON
CONFLICT and ON DUPLICATE KEY UPDATE, in its tree the assignments of an UPDATE and the rows of an
INSERT that names columns, each of which has a value for each column. -/
structure IsComplete (d : Dialect) (c : Command) : Prop where
  lists : ∃ ts, Sql.tokens d (c.statement d) = some ts ∧ Sql.ListsFilled ts
  sets : ∀ u, c = .update u → u.setGroups ≠ []
  rows : ∀ i, c = .insert i → i.columns ≠ [] → i.rows ≠ [] ∧ Sql.HasFullRows i

/-- The statement has a condition, and its text ends with WHERE and that condition. -/
def IsGuarded (d : Dialect) (c : Command) : Prop :=
  ∃ p before, c.condition? = some p ∧ Sql.tokens d (c.statement d) =
    some (before ++ .word "WHERE" :: Sql.tokensOf d (p.pieces d))

theorem readable (d : Dialect) (c : Command) : Sql.Readable d (c.pieces d) := by
  cases c with
  | select s => exact Sql.selector_readable d s
  | anyRow s =>
    exact ((Sql.selector_readable d s).before (by cases d <;> rfl)).after (by cases d <;> rfl)
  | insert i => exact Sql.insert_readable d i
  | update u => exact Sql.update_readable d u
  | delete x => exact Sql.delete_readable d x

theorem tokens_statement (d : Dialect) (c : Command) :
    Sql.tokens d (c.statement d) = some (Sql.tokensOf d (c.pieces d)) :=
  Sql.tokens_ofPieces (c.readable d)

theorem lists_of_fills {c : Command} (h : Sql.Fills d (c.pieces d)) :
    ∃ ts, Sql.tokens d (c.statement d) = some ts ∧ Sql.ListsFilled ts :=
  ⟨_, c.tokens_statement d, h.listsFilled⟩

/-- A statement that only reads is complete, whatever it selects. -/
theorem IsRead.complete {c : Command} (h : c.IsRead) : c.IsComplete d := by
  cases c with
  | select s => exact ⟨lists_of_fills (Sql.selector_fills d s).fills, nofun, nofun⟩
  | anyRow s =>
    have hfills : Sql.Fills d (s.existsPieces d) :=
      ((Sql.selector_fills d s).fills.before (by cases d <;> rfl)).after (by cases d <;> rfl)
    exact ⟨lists_of_fills hfills, nofun, nofun⟩
  | insert _ | update _ | delete _ => cases h

theorem complete_update {u : Update} (h : u.setGroups ≠ []) : (update u).IsComplete d := by
  refine ⟨lists_of_fills (Sql.update_fills h), fun u' hu => ?_, nofun⟩
  obtain rfl := Command.update.inj hu
  exact h

theorem complete_delete (x : Delete) : (delete x).IsComplete d :=
  ⟨lists_of_fills (Sql.delete_fills d x), nofun, nofun⟩

/-- An INSERT is complete if there is a row for the columns that it names. -/
theorem complete_insert {i : Insert} {statement : InsertStatement}
    (h : i.compile d = .ok statement) (hrows : i.columns ≠ [] → i.rows ≠ []) :
    (insert statement).IsComplete d := by
  obtain ⟨hsame, hfull⟩ := Sql.compile_rows h
  have hcolumns : statement.columns = i.columns := by
    obtain ⟨-, conflict, -, rfl⟩ := Sql.compile_eq_ok.mp h
    rfl
  refine ⟨lists_of_fills (Sql.insert_fills fun _ => Sql.compile_setsSome h), nofun, fun j hj => ?_⟩
  obtain rfl := Command.insert.inj hj
  rw [hcolumns, hsame]
  exact fun hne => ⟨hrows hne, hfull⟩

theorem guarded_update {u : Update} {p : Predicate} (h : u.predicate = some p) :
    (update u).IsGuarded d := by
  have htokens : Sql.tokensOf d (u.pieces d) = Sql.tokensOf d (.raw "UPDATE " ::
      (Piece.ofName u.table ++ .raw " SET " :: Piece.separated ", " u.setGroups)) ++
        .word "WHERE" :: Sql.tokensOf d (p.pieces d) := by
    unfold Update.pieces
    rw [h]
    simp [conditionPieces]
  exact ⟨p, _, h, (tokens_statement d (update u)).trans (congrArg some htokens)⟩

theorem guarded_delete {x : Delete} {p : Predicate} (h : x.predicate = some p) :
    (delete x).IsGuarded d := by
  have htokens : Sql.tokensOf d (x.pieces d) =
      Sql.tokensOf d (.raw "DELETE FROM " :: Piece.ofName x.table) ++
        .word "WHERE" :: Sql.tokensOf d (p.pieces d) := by
    unfold Delete.pieces
    rw [h]
    simp [conditionPieces]
  exact ⟨p, _, h, (tokens_statement d (delete x)).trans (congrArg some htokens)⟩

end Command

/-! ## Inquiries -/

section Inquiries

theorem issues_select {conn : Connection} (s : Selector) :
    (conn.query (.select s)).Issues Command.IsRead :=
  issues_query rfl

theorem EdgeLoad.MaySend.isRead {l : EdgeLoad} {c : Command} (h : l.MaySend c) : c.IsRead := by
  cases h with
  | pairs => rfl
  | targets => rfl

/-- A question about a query sends nothing but questions. -/
theorem Inquiry.issues_of_query {i : Inquiry} {q : NodeQuery} {s : Selector}
    (hq : i.query? = some q) (hs : i.selection? = some s) :
    (i.program d).Issues Command.IsRead := by
  refine (opens_selection hq hs).issues rfl fun c hc => ?_
  obtain ⟨l, -, hsends⟩ := hc
  exact hsends.isRead

theorem NodeQuery.issues_exist (q : NodeQuery) : (q.exist d).Issues Command.IsRead :=
  issues_connection fun _ => issues_probe rfl

/-- An inquiry sends nothing but questions. -/
theorem Inquiry.issues (d : Dialect) (i : Inquiry) : (i.program d).Issues Command.IsRead := by
  cases i with
  | exist q => exact q.issues_exist
  | edges q =>
    refine issues_ite (fun _ => issues_fail _) fun _ => issues_connection fun inside => ?_
    refine issues_lift_bind fun columns _ => (issues_select _).bind fun rows => ?_
    refine Issues.bind ?_ fun _ => issues_done _
    refine maintains_forM fun row _ => ?_
    unfold EdgeQuery.deliverRow
    split
    case h_1 => exact issues_lift_bind fun _ _ => issues_deliver _
    case h_2 => exact issues_fail _
  | load l keys => exact l.issues_maySend (fun _ hc => hc.isRead) keys
  | _ => exact issues_of_query rfl rfl

end Inquiries

/-! ## Mutations -/

/-- An UPDATE that writes a column has an assignment. -/
theorem Update.setGroups_ne_nil {u : Update} (h : u.isEmpty = false) : u.setGroups ≠ [] := by
  unfold isEmpty at h
  unfold setGroups
  cases hnulls : u.nulls with
  | cons column nulls => simp
  | nil =>
    cases hsets : u.sets with
    | nil => simp [hnulls, hsets] at h
    | cons s sets =>
      obtain ⟨column, v | v⟩ := s
      · simp [valuePieces?]
      · simp [addPieces?]

namespace Command

/-- The statement is complete, and has a condition if it changes rows. -/
def IsSafe (d : Dialect) (c : Command) : Prop := c.IsComplete d ∧ (c.ChangesRows → c.IsGuarded d)

theorem IsRead.safe {c : Command} (h : c.IsRead) : c.IsSafe d := by
  refine ⟨h.complete, fun hchanges => ?_⟩
  cases c with
  | select _ | anyRow _ | insert _ => cases hchanges
  | update _ | delete _ => cases h

theorem safe_insert {i : Insert} {statement : InsertStatement}
    (h : i.compile d = .ok statement) (hrows : i.columns ≠ [] → i.rows ≠ []) :
    (insert statement).IsSafe d :=
  ⟨complete_insert h hrows, nofun⟩

theorem safe_update {u : Update} {p : Predicate} (hsome : u.isEmpty = false)
    (h : u.predicate = some p) : (update u).IsSafe d :=
  ⟨complete_update (Update.setGroups_ne_nil hsome), fun _ => guarded_update h⟩

theorem safe_delete {x : Delete} {p : Predicate} (h : x.predicate = some p) :
    (delete x).IsSafe d :=
  ⟨complete_delete x, fun _ => guarded_delete h⟩

end Command

/-- An UPDATE of some columns with a condition keeps it when another may follow. -/
theorem safe_filterOpt {u : Update} (hsome : u.isEmpty = false) {p : Predicate}
    (hp : u.predicate = some p) (condition : Option Predicate) :
    (Command.update (u.filterOpt condition)).IsSafe d := by
  cases condition with
  | none => exact Command.safe_update hsome hp
  | some q => exact Command.safe_update (u := u.filter q) hsome rfl

/-- Writes of edges are safe: each has a condition that names the edges' ends. -/
theorem EdgeChanges.MaySend.safe {changes : EdgeChanges} {c : Command}
    (h : changes.MaySend d c) : c.IsSafe d := by
  cases h with
  | ask s => exact Command.IsRead.safe rfl
  | addPairs _ _ hrows hcompile => exact Command.safe_insert hcompile fun _ => hrows
  | clearPairs _ _ _ hclearing =>
    obtain ⟨_, -, hx⟩ := bind_eq_ok.mp hclearing
    obtain rfl := Except.ok.inj hx
    exact Command.safe_delete rfl
  | link id _ _ _ _ => exact Command.safe_update rfl rfl
  | clearLinks _ _ hclearing =>
    obtain ⟨_, -, hu⟩ := bind_eq_ok.mp hclearing
    obtain rfl := Except.ok.inj hu
    exact Command.safe_update rfl rfl

theorem NodeCreation.MaySend.safe {n : NodeCreation} {c : Command} (h : n.MaySend d c) :
    c.IsSafe d := by
  cases h with
  | edges h => exact h.safe
  | row _ hinsertion hcompile =>
    obtain ⟨own, -, -, hcolumns, hrows, -⟩ := NodeCreation.insertion_ok hinsertion
    refine Command.safe_insert hcompile fun hne => ?_
    -- a node that writes no column has no row, but then its INSERT names no columns
    dsimp only at hne ⊢
    rw [hcolumns] at hne
    rw [hrows, if_neg (by simpa using hne)]
    exact List.cons_ne_nil _ _

theorem BatchCreation.MaySend.safe {b : BatchCreation} {c : Command} (h : b.MaySend d c) :
    c.IsSafe d := by
  cases h with
  | edges h => exact h.safe
  | read s => exact Command.IsRead.safe rfl
  | chained _ h => exact h.safe
  | single _ _ _ h => exact h.safe
  | rows _ hrows _ hcompile =>
    exact Command.safe_insert hcompile fun _ => by simpa [insertOf] using hrows

namespace Operation

/-- The statements that go without a condition: the update of all nodes that writes none of their
edges outside their own rows, and the deletion of all nodes. The operation has no condition
either. -/
inductive ChangesAll : Operation → Command → Prop
  | update {u : NodeUpdate} {own : Update} (unconditional : u.predicate = none)
      (plain : u.needsIds = false) (columns : u.ownUpdate = .ok own) :
      ChangesAll (.change (.updateNodes u)) (.update own)
  | delete {x : NodeDeletion} (unconditional : x.predicate = none) :
      ChangesAll (.change (.deleteNodes x)) (.delete (.ofTable x.node.table))

/-- A statement of an operation is safe, or it changes all nodes and is complete. -/
def Permits (d : Dialect) (o : Operation) (c : Command) : Prop :=
  c.IsSafe d ∨ c.IsComplete d ∧ o.ChangesAll c

end Operation

theorem NodeUpdate.MaySend.permitted {u : NodeUpdate} {named : Bool} {c : Command}
    (h : u.MaySend d named c) :
    c.IsSafe d ∨ named = false ∧ c.IsComplete d ∧
      (Operation.change (.updateNodes u)).ChangesAll c := by
  cases h with
  | edges h => exact .inl h.safe
  | read s => exact .inl (Command.IsRead.safe rfl)
  | @namedRow own id _ hsome =>
    exact .inl (safe_filterOpt (u := own.filter (.eq u.node.id.column id)) hsome rfl _)
  | foundRows ids _ hsome => exact .inl (Command.safe_update hsome rfl)
  | @rows own hplain hcolumns hsome =>
    cases hcondition : u.predicate with
    | some p => exact .inl (Command.safe_update (u := own.filter p) hsome rfl)
    | none =>
      refine .inr ⟨rfl, ?_, .update hcondition hplain hcolumns⟩
      exact Command.complete_update (u := own) (Update.setGroups_ne_nil hsome)

theorem Mutation.MaySend.permitted {m : Mutation} {c : Command} (h : m.MaySend d c) :
    (Operation.change m).Permits d c := by
  cases m with
  | createNode n => exact .inl (NodeCreation.MaySend.safe h)
  | batchCreate b => exact .inl (BatchCreation.MaySend.safe h)
  | updateNode u =>
    rcases NodeUpdate.MaySend.permitted h with h | ⟨hnamed, -⟩
    · exact .inl h
    · cases hnamed
  | updateNodes u =>
    rcases NodeUpdate.MaySend.permitted h with h | ⟨-, h⟩
    · exact .inl h
    · exact .inr h
  | deleteNode x =>
    obtain ⟨id, rfl⟩ := h
    cases x.predicate with
    | none => exact .inl (Command.safe_delete rfl)
    | some p => exact .inl (Command.safe_delete rfl)
  | deleteNodes x =>
    obtain rfl := h
    cases hcondition : x.predicate with
    | none => exact .inr ⟨Command.complete_delete _, .delete hcondition⟩
    | some p => exact .inl (Command.safe_delete rfl)

/-- No operation sends an incomplete statement or an unguarded one. Whatever the replies are, each
statement that an operation sends is complete, and where it updates or deletes rows it has a WHERE,
unless it is the one statement of an operation without a condition that updates the own rows of all
nodes of a type or deletes all of them. -/
theorem statements_complete {o : Operation} {log : List Exchange}
    {result : Except Error o.Result} (hrun : (o.program d).Run log result) {x : Exchange}
    (hx : x ∈ log) {c : Command} (hsent : x.call.statement? = some c) :
    c.IsComplete d ∧ (c.ChangesRows → c.IsGuarded d ∨ o.ChangesAll c) := by
  have hpermitted : o.Permits d c := by
    cases o with
    | change m => exact ((Mutation.issues d m).onlySends hrun x hx c hsent).permitted
    | ask i => exact .inl ((Inquiry.issues d i).onlySends hrun x hx c hsent).safe
  rcases hpermitted with ⟨hcomplete, hguarded⟩ | ⟨hcomplete, hall⟩
  · exact ⟨hcomplete, fun hchanges => .inl (hguarded hchanges)⟩
  · exact ⟨hcomplete, fun _ => .inr hall⟩

/-- The UPDATE that links the pet of a new user has an assignment and a condition. -/
theorem statements_complete_user_with_pet : ∃ u, ∃ x ∈ userWithPetRun,
    x.call.statement? = some (.update u) ∧
      ((Operation.change (.createNode userWithPet)).program .sqlite).Run userWithPetRun
        (.ok (.int 1)) ∧
      u.setGroups ≠ [] ∧ (Command.update u).IsGuarded .sqlite := by
  obtain ⟨hcomplete, hguarded⟩ := statements_complete (o := .change (.createNode userWithPet))
    userWithPet_runs (x := userWithPetRun[3]) (by simp [userWithPetRun]) rfl
  refine ⟨_, userWithPetRun[3], by simp [userWithPetRun], rfl, userWithPet_runs,
    hcomplete.sets _ rfl, ?_⟩
  rcases hguarded trivial with h | h
  · exact h
  · cases h

end EntityGraph
