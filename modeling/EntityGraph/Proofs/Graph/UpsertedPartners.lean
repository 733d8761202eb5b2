import EntityGraph.Proofs.Graph.AddedLinks
import EntityGraph.Proofs.Graph.AttributedIds
import EntityGraph.Proofs.Graph.OneToOneCreations
import EntityGraph.Proofs.Graph.OneToOneUpdates
import EntityGraph.Proofs.Graph.UpsertedIds

/-!
# Partners of upserted nodes

A creation under a conflict policy may turn out to be that of a stored node. Its probes come before
its INSERT, when the ID of that node is not known, so they ask for the targets that are linked in the
node's own row but not for the partner that the node may have in another one. The INSERT itself gives
the column of a relation of one to one no value twice, under any policy. Linking a target to the node
does so if and only if a row refers to the node by then.
-/

set_option autoImplicit false

namespace EntityGraph

open Program

variable {E : Engine} {S : Schema} {s s' : Session} {conn : Connection} {d : Dialect}
  {f : Reference} {c : NodeCreation} {x v : Value} {i : InsertStatement}

/-! ## One row of an upsert -/

/-- What a conflict clause makes of a stored row has its values and those of the proposed one. -/
theorem ConflictClause.stored_or_proposed {clause : ConflictClause} {stored proposed r : Tuple}
    (h : clause.resolve stored proposed = some r) (k : String) :
    r k = stored k ∨ r k = proposed k := by
  have hassigned : ∀ as, assigned as stored proposed k = stored k ∨
      assigned as stored proposed k = proposed k := by
    intro as
    refine List.foldlRecOn (motive := fun new : Tuple => new k = stored k ∨ new k = proposed k) as _
      (.inl rfl) fun new hnew a _ => ?_
    by_cases hk : k = columnName a.column
    · rw [hk, Function.update_self]
      cases a.value with
      | itself | stored | reported => exact .inl rfl
      | proposed => exact .inr rfl
    · rwa [Function.update_of_ne hk]
  cases clause with
  | doNothing target => cases h
  | doUpdate target as | onDuplicateKey as =>
    obtain rfl := Option.some.inj h
    exact hassigned as

namespace InsertStatement

variable {rows rows' : List Tuple} {r : Tuple} {o : Option Tuple} {k : String}

/-- A row whose value is new leaves the values of a column apart, whatever its conflicts. -/
theorem StoresRow.unique (hunique : rows.Pairwise fun r q => E.equal (r k) (q k) = false)
    (hnew : ∀ q ∈ rows, E.equal (q k) (r k) = false) (h : i.StoresRow E S r rows rows' o) :
    rows'.Pairwise fun r q => E.equal (r k) (q k) = false := by
  have hsymm : ∀ {p q : Tuple}, E.equal (p k) (q k) = false → E.equal (q k) (p k) = false := by
    intro p q hpq
    rwa [Engine.equal_comm]
  cases h with
  | added _ perm =>
    rw [perm.pairwise_iff hsymm]
    exact List.pairwise_cons.mpr ⟨fun q hq => hsymm (hnew q hq), hunique⟩
  | skipped => exact hunique
  | @changed before after _ q q' _ _ _ _ _ resolve =>
    rw [List.perm_middle.pairwise_iff hsymm, List.pairwise_cons] at hunique ⊢
    refine ⟨fun p hp => ?_, hunique.2⟩
    rcases ConflictClause.stored_or_proposed resolve k with hkept | htaken
    · rw [hkept]
      exact hunique.1 p hp
    · rw [htaken]
      apply hsymm
      apply hnew p
      exact List.perm_middle.mem_iff.mpr (List.mem_cons_of_mem q hp)

/-- A column that is absent in a row, and that no conflict clause changes, has the values of before. -/
theorem StoresRow.holds_iff (habsent : (r k).isNull = true)
    (hkept : ∀ clause, i.conflict = some clause →
      ∀ stored proposed q, clause.resolve stored proposed = some q → q k = stored k)
    (h : i.StoresRow E S r rows rows' o) :
    (∃ q ∈ rows', E.equal (q k) v = true) ↔ ∃ q ∈ rows, E.equal (q k) v = true := by
  constructor
  · rintro ⟨q, hq, hequal⟩
    rcases h.reported_or_mem hq with rfl | hq
    · rcases h.added_or_resolved with ⟨rfl, -⟩ | ⟨key, p, hp, hresolves⟩
      · have hpresent := Engine.isNull_of_equal hequal
        rw [habsent] at hpresent
        cases hpresent
      · obtain ⟨clause, hclause, -, hresolve⟩ := hresolves.clause
        exact ⟨p, hp, hkept clause hclause p r q hresolve ▸ hequal⟩
    · exact ⟨q, hq, hequal⟩
  · rintro ⟨q, hq, hequal⟩
    obtain ⟨q', hq', hsame⟩ := h.keeps_column hkept q hq
    exact ⟨q', hq', hsame ▸ hequal⟩

end InsertStatement

/-! ## One target that is linked -/

namespace ForeignKey

variable {es : List Edge}

/-- The targets of edges are linked, at most one of which is stored in a column that has no value
twice. It still has none twice if and only if no row refers to the node before. -/
theorem leads_links_unique_iff
    (hcolumn : (s.current (nameParts f.table)).HasColumn f.column)
    (hunique : (s.current (nameParts f.table)).Unique E f.column) (hs : s.current.Obeys E S.keys)
    (honce : (es.filter (Edge.isStoredThere f)).length ≤ 1)
    (hstored : ∀ e ∈ es, e.isStoredThere f = true → e.columns = [f.column] ∧
      (f.table, e.target.id.column) ∈ S.keys ∧ ∃ t, e.target.nodes = [t])
    (hlinks : (es.forM (link conn x)).Leads E S.keys s () s') :
    (s'.current (nameParts f.table)).Unique E f.column ↔
      ∀ e ∈ es, e.isStoredThere f = true → ¬f.Holds E s.current x := by
  cases hfound : es.filter (Edge.isStoredThere f) with
  | nil =>
    have hnone : ∀ e ∈ es, e.isStoredThere f = false := fun e he => by
      simpa using List.filter_eq_nil_iff.mp hfound e he
    refine iff_of_true ((leads_links_other hnone hlinks hs).unique hunique) fun e he hthere => ?_
    rw [hnone e he] at hthere
    cases hthere
  | cons e rest =>
    obtain rfl : rest = [] := by
      rw [hfound, List.length_cons] at honce
      exact List.length_eq_zero_iff.mp (by omega)
    obtain ⟨before, after, rfl, hbefore, he, hafter⟩ := List.filter_eq_cons_iff.mp hfound
    obtain ⟨hcolumns, hkey, t, ht⟩ := hstored e (by simp) he
    have htable : e.table = f.table := by
      simp only [Edge.isStoredThere, Bool.and_eq_true, beq_iff_eq] at he
      exact he.1
    have hkeyed : (s.current (nameParts f.table)).HasKey E e.target.id.column := hs _ hkey
    have hothers : ∀ g ∈ before ++ after, g.table = f.table → ∀ fk, g.columns = [fk] →
        f.column ≠ columnName fk := by
      intro g hg hsame fk hfk hname
      have hnot : g.isStoredThere f = false := by
        rcases List.mem_append.mp hg with hg | hg
        · simpa using hbefore g hg
        · simpa using List.filter_eq_nil_iff.mp hafter g hg
      simp [Edge.isStoredThere, hsame, hfk, hname] at hnot
    obtain ⟨g, hrows, hg, q, hq, hreached⟩ := leads_links_one hothers htable hcolumns ht
      (columnName_plain hcolumn.plain) hkeyed hlinks hs
    unfold Table.Unique
    rw [hrows]
    constructor
    · -- the row of the target and one that refers to the node already would be two
      rintro hafterwards - - - ⟨r, hr, hequal⟩
      have hkept : g r f.column = r f.column := by
        rw [hg r hr, Engine.isNull_of_equal hequal, Bool.and_false]
        rfl
      have hne : r ≠ q := by
        rintro rfl
        rw [Engine.isNull_of_equal hequal, Bool.and_false] at hreached
        cases hreached
      have hapart := not_equal_of_pairwise (List.pairwise_map.mp hafterwards) hr hq hne
      rw [hkept, hg q hq, if_pos hreached, hequal] at hapart
      cases hapart
    · intro hnone
      have hnew : ¬f.Holds E s.current x := hnone e (by simp) he
      refine hkeyed.unique_linked hunique hg fun _ _ _ r hr => ?_
      rw [Bool.eq_false_iff]
      exact fun hequal => hnew ⟨r, hr, hequal⟩

end ForeignKey

/-! ## A creation under any policy -/

namespace NodeCreation

/-- The INSERT of a node's own row has one row of values: the columns that are set. -/
theorem InsertsRow.proposals (h : c.InsertsRow d (.insert i)) :
    ∃ supplied columns, c.node.ownColumns c.fields c.edges = .ok columns ∧
      i.table = c.node.table ∧ i.columns = (c.insertedColumns supplied columns).map (·.1) ∧
      i.proposals = [(c.insertedColumns supplied columns).map (·.2)] := by
  obtain ⟨supplied, j, returning, _, hinsertion, hcompile, ⟨⟩⟩ := h
  obtain ⟨columns, hown, htable, hcolumns, hrows, -⟩ := insertion_ok hinsertion
  obtain ⟨-, conflict, -, rfl⟩ := Sql.compile_eq_ok.mp hcompile
  refine ⟨supplied, columns, hown, htable, hcolumns, ?_⟩
  unfold InsertStatement.proposals Sql.compiledAs
  dsimp only
  rw [hcolumns, hrows]
  cases c.insertedColumns supplied columns <;> rfl

/-- In a conflict it takes proposed values for columns that it writes only. -/
theorem InsertsRow.proposes_written (h : c.InsertsRow d (.insert i)) :
    ∀ clause, i.conflict = some clause → ∀ a ∈ clause.assignments, a.value = .proposed →
      a.column ∈ i.columns := by
  obtain ⟨supplied, j, returning, _, -, hcompile, ⟨⟩⟩ := h
  obtain ⟨-, conflict, hconflict, rfl⟩ := Sql.compile_eq_ok.mp hcompile
  intro clause hclause a ha hvalue
  obtain rfl : conflict = some clause := hclause
  obtain ⟨policy, -, hwarrants⟩ := Insert.warrants_of_compiledClause hconflict
  exact (hwarrants a ha hvalue).1

/-- Inserting a row sends its INSERT, which takes effect. -/
theorem reaches_insertRow_effect {supplied : Option Value} {j : Insert}
    (hinsertion : c.insertion conn.dialect supplied = .ok j)
    (h : (insertRow conn c supplied j).Reaches (Call.Records E S) s x s') :
    ∃ i, c.InsertsRow conn.dialect (.insert i) ∧
      (Command.insert i).Effect E S s.current s'.current := by
  have hexec : ∀ {r : ExecResult} {mid : Session},
      (conn.execInsert j).Reaches (Call.Records E S) s r mid → ∃ i,
        c.InsertsRow conn.dialect (.insert i) ∧
          (Command.insert i).Effect E S s.current mid.current := by
    intro r mid hsent
    obtain ⟨i, hcompile, hanswer⟩ := reaches_execInsert.mp hsent
    exact ⟨i, ⟨supplied, j, j.returning, i, hinsertion, hcompile, rfl⟩, hanswer.effect rfl rfl⟩
  have hread : (insertedId conn c.node j supplied).Reaches (Call.Records E S) s x s' → ∃ i,
      c.InsertsRow conn.dialect (.insert i) ∧
        (Command.insert i).Effect E S s.current s'.current := by
    intro hinserted
    unfold insertedId at hinserted
    split at hinserted
    case isTrue =>
      obtain ⟨rows, mid, hquery, hid⟩ := reaches_bind.mp hinserted
      obtain ⟨i, hcompile, hanswer⟩ := reaches_queryInsert.mp hquery
      have hmid : s' = mid := by
        split at hid
        case h_1 => exact (reaches_ofExcept.mp hid).2
        case h_2 => exact (reaches_done.mp hid).2
        case h_3 => exact absurd hid reaches_fail
      rw [hmid]
      exact ⟨i, ⟨supplied, j, _, i, hinsertion, hcompile, rfl⟩, hanswer.effect rfl rfl⟩
    case isFalse =>
      obtain ⟨r, mid, hsent, hid⟩ := reaches_bind.mp hinserted
      have hmid : s' = mid := by
        split at hid
        case h_1 => exact (reaches_done.mp hid).2
        case h_2 =>
          obtain ⟨_, checked, hcheck, hlast⟩ := reaches_bind.mp hid
          obtain ⟨-, rfl⟩ := reaches_ofExcept.mp hcheck
          split at hlast
          case h_1 =>
            split at hlast
            case isTrue => exact (reaches_ofExcept.mp hlast).2
            case isFalse => exact absurd hlast reaches_fail
          case h_2 => exact absurd hlast reaches_fail
      rw [hmid]
      exact hexec hsent
  unfold insertRow at h
  split at h
  case h_1 =>
    obtain ⟨_, mid, hdiscard, hdone⟩ := reaches_bind.mp h
    obtain ⟨-, rfl⟩ := reaches_done.mp hdone
    obtain ⟨r, hsent⟩ := reaches_discard.mp hdiscard
    exact hexec hsent
  case h_2 => exact hread h

/-- What a creation under any policy does, step by step: its edges are complete and their targets are
unclaimed; the INSERT of the node's own row takes effect; then the join tables are written, and then
the foreign keys in other rows. -/
structure Upserts (E : Engine) (S : Schema) (c : NodeCreation) (conn : Connection) (x : Value)
    (i : InsertStatement) (s inserted joined s' : Session) : Prop where
  complete : ∀ e ∈ c.edges, e.IsComplete
  unclaimed : ∀ e ∈ c.edges, e.isOneToOne = true → Partner.Unclaimed E s.current c.node none e
  row : c.InsertsRow conn.dialect (.insert i)
  effect : (Command.insert i).Effect E S s.current inserted.current
  joins : (JoinTable.add conn (c.edges.map fun e => ([x], e))).Reaches (Call.Records E S) inserted
    () joined
  links : ((c.edges.filter fun e => e.isForeignKeyEdge && !e.target.nodes.isEmpty).forM
    (ForeignKey.link conn x)).Leads E S.keys joined () s'

/-- A creation that has a result goes through these steps. -/
theorem reaches_run_upserts (h : (c.run d).Reaches (Call.Records E S) s x s') :
    ∃ conn i start inserted joined mid, conn.dialect = d ∧ start.current = s.current ∧
      c.Upserts E S conn x i start inserted joined mid ∧ s'.current = mid.current := by
  have hanswers : ∀ c r s s', Call.Records E S c r s s' → c.Answers E S.keys r s s' :=
    fun _ _ _ _ => Call.Records.answers
  obtain ⟨_, checked, hlift, hrun⟩ := reaches_bind.mp h
  obtain ⟨hchecks, hchecked⟩ := reaches_ofExcept.mp hlift
  rw [hchecked] at hrun
  obtain ⟨inside, start, mid, hstart, hwrite, hs'⟩ := reaches_connection hanswers hrun
  obtain ⟨probed, supplied, drawn, j, inserted, revised, hcheck, hsupply, hinsertion, hinserted,
    hrevise, hcreate⟩ := reaches_write hwrite
  obtain ⟨hprobed, hunclaimed⟩ := Partner.leads_check (hcheck.leads hanswers)
  have hdrawn := leads_supplyId (hsupply.leads hanswers)
  rw [hdrawn.trans hprobed] at hinserted
  obtain ⟨i, hrow, heffect⟩ := reaches_insertRow_effect hinsertion hinserted
  have hrevised : revised = inserted := hrevise.answers
  rw [hrevised] at hcreate
  obtain ⟨_, joined, hjoin, hadd⟩ := reaches_bind.mp hcreate
  refine ⟨⟨d, inside⟩, i, start, inserted, joined, mid, rfl, hstart, ?_, hs'⟩
  exact
    { complete := fun e he => Edge.isComplete_of_check (forM_eq_ok.mp hchecks e he)
      unclaimed := fun e he hone => hunclaimed e he hone rfl
      row := hrow
      effect := heffect
      joins := hjoin
      links := ForeignKey.leads_links_of_add (hadd.leads hanswers) }

namespace Upserts

variable {inserted joined : Session}

/-- What the INSERT makes of the node's own row before a conflict is resolved. -/
theorem exists_proposed (w : c.Upserts E S conn x i s inserted joined s') :
    ∃ supplied columns own o, c.node.ownColumns c.fields c.edges = .ok columns ∧
      i.table = c.node.table ∧ i.columns = (c.insertedColumns supplied columns).map (·.1) ∧
      (∀ p ∈ c.insertedColumns supplied columns, nameParts p.1 = [p.1] ∧ own p.1 = p.2) ∧
      (∀ k, k ∉ i.columns → S.identity i.table ≠ some k → own k = .null) ∧
      i.StoresRow E S own (s.current (nameParts i.table)).rows
        (inserted.current (nameParts i.table)).rows o := by
  obtain ⟨supplied, columns, hown, htable, hcolumns, hproposals⟩ := w.row.proposals
  obtain ⟨reported, hinserts⟩ := w.effect.stores i rfl
  obtain ⟨own, o, hproposes, -, hstores⟩ := hinserts.stores_one hproposals
  refine ⟨supplied, columns, own, o, hown, htable, hcolumns, fun p hp => ⟨?_, ?_⟩,
    hproposes.unwritten, hstores⟩
  · have hp : p.1 ∈ i.columns := hcolumns ▸ List.mem_map_of_mem hp
    exact (hinserts.columns p.1 hp).plain
  · apply hproposes.written
    rwa [hcolumns, ← List.zip_of_prod rfl rfl]

theorem inserted_others (w : c.Upserts E S conn x i s inserted joined s')
    (hnode : c.node.table ≠ f.table) :
    inserted.current (nameParts f.table) = s.current (nameParts f.table) := by
  obtain ⟨_, _, -, htable, -⟩ := w.row.proposals
  refine w.effect.carried _ fun hname => hnode ?_
  exact htable.symm.trans (nameParts_injective hname.symm)

theorem inserted_hasColumn (w : c.Upserts E S conn x i s inserted joined s') {name k : String}
    (hcolumn : (s.current (nameParts name)).HasColumn k) :
    (inserted.current (nameParts name)).HasColumn k := by
  obtain ⟨reported, hinserts⟩ := w.effect.stores i rfl
  refine ⟨hcolumn.plain, hcolumn.notStar, ?_⟩
  by_cases hname : nameParts name = nameParts i.table
  · rw [hname, hinserts.sameColumns, ← hname]
    exact hcolumn.mem
  · rw [w.effect.carried _ hname]
    exact hcolumn.mem

/-- The INSERT gives the column no value twice: a target that is linked in the node's own row was in
no row before. -/
theorem inserted_unique (w : c.Upserts E S conn x i s inserted joined s') (hlinks : c.LinksOnce f)
    (hunfilled : S.identity f.table ≠ some f.column)
    (hcolumn : (s.current (nameParts f.table)).HasColumn f.column)
    (hunique : (s.current (nameParts f.table)).Unique E f.column) :
    (inserted.current (nameParts f.table)).Unique E f.column := by
  by_cases hnode : c.node.table = f.table
  · obtain ⟨supplied, columns, own, o, hcolumns, htable, hwritten, hvalues, hunwritten, hstores⟩ :=
      w.exists_proposed
    rw [htable, hnode] at hstores hunwritten
    have hrefers : c.Refers f own :=
      hlinks.refers hnode hcolumns (fun p hp => (hvalues p hp).1) (fun p hp => (hvalues p hp).2)
        fun hnone => hunwritten f.column (by
          rw [hwritten, List.mem_map]
          rintro ⟨p, hp, hname⟩
          exact hnone p hp hname) hunfilled
    have hnew := hrefers.not_holds (fun e he hone => (w.complete e he).single (.inl hone))
      w.unclaimed hcolumn
    refine hstores.unique hunique fun q hq => ?_
    rw [Bool.eq_false_iff]
    exact fun hequal => hnew ⟨q, hq, hequal⟩
  · rw [w.inserted_others hnode]
    exact hunique

/-- Without an edge in the node's own row the INSERT leaves the values of the column as they are. -/
theorem inserted_holds_iff (w : c.Upserts E S conn x i s inserted joined s')
    (hlinks : c.LinksOnce f) (hunfilled : S.identity f.table ≠ some f.column)
    (hown : c.node.table = f.table → ∀ e ∈ c.edgesIn f, e.writesOwnColumn = false) :
    f.Holds E inserted.current v ↔ f.Holds E s.current v := by
  unfold Reference.Holds
  by_cases hnode : c.node.table = f.table
  · obtain ⟨supplied, columns, own, o, hcolumns, htable, hwritten, hvalues, hunwritten, hstores⟩ :=
      w.exists_proposed
    rw [htable, hnode] at hstores hunwritten
    have hnone : f.column ∉ i.columns := by
      rw [hwritten, List.mem_map]
      rintro ⟨p, hp, hname⟩
      obtain ⟨e, he, hwrites, -⟩ := hlinks.exists_edge_of_inserted hnode hcolumns hp hname
        (columnName_plain (hvalues p hp).1)
      rw [hown hnode e he] at hwrites
      cases hwrites
    refine hstores.holds_iff (by rw [hunwritten _ hnone hunfilled]; rfl) ?_
    intro clause hclause stored proposed r hr
    refine ConflictClause.resolve_of_ne (fun a ha hvalue hname => hnone ?_) hr
    have hmem := w.row.proposes_written clause hclause a ha hvalue
    obtain ⟨p, hp, hsame⟩ := List.mem_map.mp (hwritten ▸ hmem)
    rw [← hname, ← hsame, columnName_plain (hvalues p hp).1, hsame]
    exact hmem
  · rw [w.inserted_others hnode]

/-- The links that are stored in a column are those of the edges whose targets have it. -/
theorem mem_links_iff {e : Edge} (w : c.Upserts E S conn x i s inserted joined s')
    (hlinks : c.LinksOnce f) (hplain : nameParts f.column = [f.column]) :
    (e ∈ c.edges.filter fun e => e.isForeignKeyEdge && !e.target.nodes.isEmpty) ∧
      e.isStoredThere f = true ↔ e ∈ c.edgesIn f ∧ e.isForeignKeyEdge = true := by
  rw [List.mem_filter, Bool.and_eq_true]
  constructor
  · rintro ⟨⟨he, hforeign, -⟩, hthere⟩
    exact ⟨mem_edgesIn.mpr ⟨he, Edge.isStoredIn_of_foreignKey hforeign hthere⟩, hforeign⟩
  · rintro ⟨hstored, hforeign⟩
    have he := (mem_edgesIn.mp hstored).1
    obtain ⟨-, htable, hcolumns⟩ := hlinks.relation e hstored
    have hnodes := (w.complete e he).nodes
    refine ⟨⟨he, hforeign, by simpa [List.isEmpty_iff] using hnodes⟩, ?_⟩
    simp [Edge.isStoredThere, htable, hcolumns, columnName_plain hplain]

/-- The column has no value twice in the end if and only if no row refers to the node when a target
is linked to it. -/
theorem unique_iff (w : c.Upserts E S conn x i s inserted joined s') (hlinks : c.LinksOnce f)
    (htargets : ∀ e ∈ c.edgesIn f, e.isForeignKeyEdge = true →
      (f.table, e.target.id.column) ∈ S.keys)
    (hcolumn : (inserted.current (nameParts f.table)).HasColumn f.column)
    (hunique : (inserted.current (nameParts f.table)).Unique E f.column) :
    (s'.current (nameParts f.table)).Unique E f.column ↔
      ∀ e ∈ c.edgesIn f, e.isForeignKeyEdge = true → ¬f.Holds E inserted.current x := by
  have hjoined : joined.current (nameParts f.table) = inserted.current (nameParts f.table) := by
    refine (JoinTable.leads_add (fun link hlink => ?_)
      (w.joins.leads fun _ _ _ _ => Call.Records.answers) w.effect.obeys).1
    obtain ⟨e, he, rfl⟩ := List.mem_map.mp hlink
    exact fun hmany hname => hlinks.joins e he hmany (nameParts_injective hname)
  have hobeys : joined.current.Obeys E S.keys :=
    (JoinTable.reaches_add_keeps w.effect.obeys w.joins).1
  have hiff := ForeignKey.leads_links_unique_iff (hjoined ▸ hcolumn) (hjoined ▸ hunique) hobeys
    hlinks.links_once (fun e he hthere => ?_) w.links
  · unfold Reference.Holds at hiff
    rw [hiff, hjoined]
    refine forall_congr' fun e => ?_
    rw [← and_imp, w.mem_links_iff hlinks hcolumn.plain, and_imp]
    rfl
  · obtain ⟨hstored, hforeign⟩ := (w.mem_links_iff hlinks hcolumn.plain).mp ⟨he, hthere⟩
    obtain ⟨hone, -, hcolumns⟩ := hlinks.relation e hstored
    refine ⟨hcolumns, htargets e hstored hforeign, ?_⟩
    exact (w.complete e (mem_edgesIn.mp hstored).1).single (.inl hone)

end Upserts

/-- After a creation that has a result, under any policy, no two rows have the same value in the
column of a relation of one to one that it writes by one edge, and that had no value twice before, if
and only if no row refers to the node when a target is linked to it. That is asked of the database to
which the INSERT of the node's own row leads; the INSERT itself never breaks it. If the edge is not
stored in the node's own row as well, the rows that refer to the node then are those that did so
before: the node gets a second partner exactly if it has one. -/
theorem upsert_unique_iff (h : (c.run d).Reaches (Call.Records E S) s x s') (hlinks : c.LinksOnce f)
    (htargets : ∀ e ∈ c.edgesIn f, e.isForeignKeyEdge = true →
      (f.table, e.target.id.column) ∈ S.keys)
    (hunfilled : S.identity f.table ≠ some f.column)
    (hcolumn : (s.current (nameParts f.table)).HasColumn f.column)
    (hunique : (s.current (nameParts f.table)).Unique E f.column) :
    ∃ i inserted, c.InsertsRow d (.insert i) ∧ (Command.insert i).Effect E S s.current inserted ∧
      (inserted (nameParts f.table)).Unique E f.column ∧
      ((s'.current (nameParts f.table)).Unique E f.column ↔
        ∀ e ∈ c.edgesIn f, e.isForeignKeyEdge = true → ¬f.Holds E inserted x) ∧
      ((c.node.table = f.table → ∀ e ∈ c.edgesIn f, e.writesOwnColumn = false) →
        ∀ v, f.Holds E inserted v ↔ f.Holds E s.current v) := by
  obtain ⟨conn, i, start, inserted, joined, mid, rfl, hstart, w, hs'⟩ := reaches_run_upserts h
  rw [← hstart] at hcolumn hunique ⊢
  rw [hs']
  have hinserted := w.inserted_unique hlinks hunfilled hcolumn hunique
  refine ⟨i, inserted.current, w.row, w.effect, hinserted, ?_, fun hown v => ?_⟩
  · exact w.unique_iff hlinks htargets (w.inserted_hasColumn hcolumn) hinserted
  · exact w.inserted_holds_iff hlinks hunfilled hown

end NodeCreation

/-! ## A card for a user who has one -/

/-- No two users share an email. The database generates their IDs. -/
def walletSchema : Schema where
  keys := cardKeys
  uniques table := if table = "users" then [["id"], ["email"]] else [["id"]]
  identity table := if table = "users" then some "id" else none
  reportsIds := false
  key_mem_uniques := by decide
  identity_mem_keys table c h := List.mem_append_left _ (identity_mem_users table c h)

/-- The row of a card. -/
def cardRow (id user : Value) : Tuple := fun c =>
  if c = "id" then id else if c = "user_id" then user else .null

/-- The row of the user. -/
def walletOwner : Tuple := emailRow (.int 1) (.string "ann") .null

/-- A database with one user and some cards. -/
def walletDatabase (cards : List Tuple) : Database := fun name =>
  if name = ["users"] then ⟨["id", "email", "name"], [walletOwner]⟩
  else if name = ["cards"] then ⟨["id", "user_id"], cards⟩
  else ⟨[], []⟩

/-- The database in which the second card has been linked to the user. -/
def walletAfter (cards : List Tuple) : Database := linkCard.applied keyEngine (walletDatabase cards)

/-- A user with the second card, under a policy that overwrites the user with the same email. -/
def upsertedOwner : NodeCreation :=
  { emailUser .null (.string "ann") [] with
    policy := some ⟨["email"], .updateNewValues⟩
    edges := [cardEdge [.int 2]] }

/-- The INSERT of the user. -/
def upsertedInsert : InsertStatement :=
  { table := "users", columns := ["email"], rows := [[.string "ann"]]
    conflict := some (.doUpdate ["email"] [⟨"email", .proposed⟩]), returning := ["id"] }

/-- The run that finds the user and links the card. -/
def upsertedRun : List Exchange :=
  [⟨.begin, true, (.done () : Outcome Unit)⟩,
    ⟨.query true (.insert upsertedInsert), true, (.done ⟨["id"], [[.int 1]]⟩ : Outcome Rows)⟩,
    ⟨.revise 0 (.id (.int 1)), true, ()⟩,
    ⟨.exec true (.update linkCard), true, (.done ⟨1, none⟩ : Outcome ExecResult)⟩,
    ⟨.check, true, .ok ()⟩, ⟨.commit, true, .ok ()⟩]

theorem walletDatabase_users (cards : List Tuple) :
    walletDatabase cards (nameParts "users") = ⟨["id", "email", "name"], [walletOwner]⟩ := by
  have hname : nameParts "users" = ["users"] := by decide
  rw [hname]
  rfl

/-- The INSERT finds the user, whose row stays as it is. -/
theorem upsertedInsert_inserts {cards : List Tuple} :
    upsertedInsert.Inserts keyEngine walletSchema (walletDatabase cards) (walletDatabase cards)
      [walletOwner] := by
  have husers : walletDatabase cards (nameParts upsertedInsert.table) =
      ⟨["id", "email", "name"], [walletOwner]⟩ := walletDatabase_users cards
  refine ⟨?_, rfl, ?_⟩
  · rw [husers]
    decide
  rw [husers]
  have hproposes : upsertedInsert.Proposes keyEngine walletSchema [walletOwner] [.string "ann"]
      (emailRow (.int 2) (.string "ann") .null) := by
    refine ⟨by simp [upsertedInsert, emailRow], fun k hk hidentity => ?_, ?_⟩
    · have hid : k ≠ "id" := fun h => hidentity (h ▸ rfl)
      have hemail : k ≠ "email" := fun h => hk (h ▸ List.mem_singleton_self _)
      simp [emailRow, hid, hemail]
    · intro k _ hidentity
      obtain rfl : "id" = k := Option.some.inj hidentity
      decide
  have hkept : Function.update walletOwner (columnName "email") (.string "ann") = walletOwner := by
    have hemail : columnName "email" = "email" := by decide
    rw [hemail]
    exact Function.update_eq_self "email" walletOwner
  have hagree : Agree keyEngine ["email"] walletOwner (emailRow (.int 2) (.string "ann") .null) := by
    decide
  have hstores : upsertedInsert.StoresRow keyEngine walletSchema
      (emailRow (.int 2) (.string "ann") .null) ([] ++ [walletOwner]) ([] ++ [walletOwner])
      (some walletOwner) :=
    .changed (by decide) hagree rfl (.inr fun k => Iff.rfl) (congrArg some hkept)
  exact .cons hproposes hstores .nil

theorem upsertedOwner_reaches (cards : List Tuple)
    (hbefore : (walletDatabase cards).Obeys keyEngine cardKeys)
    (hlinked : ∀ name ∈ linkCard.names, (walletDatabase cards).knows "cards" name = true)
    (hone : 1 ≤ (linkCard.reached keyEngine (walletDatabase cards)).length)
    (hafter : (walletAfter cards).Obeys keyEngine cardKeys) :
    (upsertedOwner.run .sqlite).Reaches (Call.Records keyEngine walletSchema)
      ⟨walletDatabase cards, none⟩ (.int 1) ⟨walletAfter cards, none⟩ := by
  refine ⟨upsertedRun, ?_, ?_⟩
  · repeat apply Run.call
    exact .done _
  · refine ⟨_, ⟨rfl, trivial⟩, ⟨walletDatabase cards, some (walletDatabase cards)⟩,
      ⟨⟨fun _ _ => rfl, trivial, hbefore, rfl⟩, _, upsertedInsert_inserts, rfl⟩, ?_⟩
    refine ⟨_, ⟨rfl, trivial⟩, ⟨walletAfter cards, some (walletDatabase cards)⟩,
      ⟨⟨⟨hlinked, rfl⟩, hone, hafter, rfl⟩, trivial⟩, ?_⟩
    exact ⟨_, ⟨rfl, trivial⟩, _, ⟨rfl, trivial⟩, rfl⟩

/-- A card refers to its user. -/
def cardReference : Reference := ⟨"cards", "user_id", "users", "id"⟩

/-- A user without a card gets one. -/
theorem upsert_unique_iff_free_cards :
    (upsertedOwner.run .sqlite).Reaches (Call.Records keyEngine walletSchema)
        ⟨walletDatabase [cardRow (.int 1) .null, cardRow (.int 2) .null], none⟩ (.int 1)
        ⟨walletAfter [cardRow (.int 1) .null, cardRow (.int 2) .null], none⟩ ∧
      (walletAfter [cardRow (.int 1) .null, cardRow (.int 2) .null]
        (nameParts "cards")).Unique keyEngine "user_id" := by
  have hrun := upsertedOwner_reaches [cardRow (.int 1) .null, cardRow (.int 2) .null]
    (by decide) (by decide) (by decide) (by decide)
  have hlinks : upsertedOwner.LinksOnce cardReference :=
    ⟨by decide, by decide, by decide, by decide, by decide⟩
  refine ⟨hrun, ?_⟩
  obtain ⟨i, inserted, -, -, -, hiff, hholds⟩ := NodeCreation.upsert_unique_iff hrun hlinks
    (by decide) (by decide) (by decide) (by decide)
  refine hiff.mpr fun e _ _ => ?_
  rw [hholds (fun h => absurd h (by decide))]
  rintro ⟨r, hr, hequal⟩
  revert r
  decide

/-- A user who has the first card gets the second as well. -/
theorem second_card_by_upsert :
    (walletDatabase [cardRow (.int 1) (.int 1), cardRow (.int 2) .null]
        (nameParts "cards")).Unique keyEngine "user_id" ∧
      (∃ r ∈ (walletDatabase [cardRow (.int 1) (.int 1), cardRow (.int 2) .null]
        (nameParts "users")).rows, r "id" = .int 1) ∧
      (upsertedOwner.run .sqlite).Reaches (Call.Records keyEngine walletSchema)
        ⟨walletDatabase [cardRow (.int 1) (.int 1), cardRow (.int 2) .null], none⟩ (.int 1)
        ⟨walletAfter [cardRow (.int 1) (.int 1), cardRow (.int 2) .null], none⟩ ∧
      ¬(walletAfter [cardRow (.int 1) (.int 1), cardRow (.int 2) .null]
        (nameParts "cards")).Unique keyEngine "user_id" := by
  refine ⟨by decide, ⟨walletOwner, ?_, rfl⟩, ?_, by decide⟩
  · rw [walletDatabase_users]
    exact List.mem_singleton_self _
  · exact upsertedOwner_reaches _ (by decide) (by decide) (by decide) (by decide)

end EntityGraph
