import EntityGraph.Entity.Query
import EntityGraph.Proofs.Graph.CountedRows

/-!
# Asking whether a query has a row

Whether there is a row is asked of the selection that a query starts from, with the conditions of
the query. This selection may have a window, which is kept; the window of the query itself, which
would take its place, is not. So the answer agrees with what the query delivers, and with its count,
exactly if both windows show a row or none of them does.
-/

set_option autoImplicit false

namespace EntityGraph

open Program

variable {E : Engine} {db : Database}

/-! ## The selections of a query -/

namespace NodeQuery

variable {q : NodeQuery}

/-- What is asked for a row. -/
def prober (q : NodeQuery) : Selector := q.base.withColumns [q.base.qualify q.node.id.column]

/-- The window of the selection that a query starts from shows a row if and only if the window of
the query does, which takes its place. -/
def WindowsAgree (E : Engine) (db : Database) (q : NodeQuery) : Prop :=
  WindowShows q.base.limit q.base.offset (q.prober.rowsInAll E db) ↔
    WindowShows (q.limit.or q.base.limit) (q.offset.or q.base.offset) (q.listing.rowsInAll E db)

/-- There are rows to ask for if there are rows to deliver. -/
theorem rowsInAll_prober_eq_zero : q.prober.rowsInAll E db = 0 ↔ q.listing.rowsInAll E db = 0 := by
  have hcount : q.listing.count = q.prober.count := by
    rw [listing, selector_eq]
    rfl
  have hlevels : q.listing.levels E db [] = q.prober.levels E db [] := levels_selector
  rw [Selector.rowsInAll_eq_zero, Selector.rowsInAll_eq_zero, hcount, hlevels]

/-- If the selection that a query starts from has no window, then the windows agree unless that of
the query hides all of its rows. -/
theorem windowsAgree_iff (hbase : q.base.hasWindow = false) : q.WindowsAgree E db ↔
    (q.listing.rowsInAll E db = 0 ∨ WindowShows q.limit q.offset (q.listing.rowsInAll E db)) := by
  simp only [Selector.hasWindow, Bool.or_eq_false_iff, Option.isSome_eq_false_iff,
    Option.isNone_iff_eq_none] at hbase
  have hprobed : WindowShows q.base.limit q.base.offset (q.prober.rowsInAll E db) ↔
      q.listing.rowsInAll E db ≠ 0 := by
    rw [hbase.1, hbase.2]
    exact windowShows_none.trans (not_congr rowsInAll_prober_eq_zero)
  have hnone : q.listing.rowsInAll E db = 0 →
      ¬WindowShows q.limit q.offset (q.listing.rowsInAll E db) := by
    intro hzero hshows
    rw [hzero] at hshows
    exact absurd hshows.2 (Nat.not_lt_zero _)
  rw [WindowsAgree, hprobed, hbase.1, hbase.2, Option.or_none, Option.or_none]
  tauto

theorem outRows_prober_pos : 0 < (q.prober.outRows E db []).length ↔
    WindowShows q.base.limit q.base.offset (q.prober.rowsInAll E db) :=
  Selector.outRows_pos

theorem outRows_listing_pos : 0 < (q.listing.outRows E db []).length ↔
    WindowShows (q.limit.or q.base.limit) (q.offset.or q.base.offset)
      (q.listing.rowsInAll E db) := by
  have hwindow : q.listing.limit = q.limit.or q.base.limit ∧
      q.listing.offset = q.offset.or q.base.offset := by
    rw [listing, selector_eq]
    exact ⟨rfl, rfl⟩
  rw [Selector.outRows_pos, hwindow.1, hwindow.2]

/-! ## Runs -/

variable {S : Schema} {s : Session} {d : Dialect}

/-- The programs that ask whether a query has a row: of nodes, or of entities. -/
inductive Asks (d : Dialect) (q : NodeQuery) : Program Bool → Prop
  | nodes : Asks d q (q.exist d)
  | entities {T : Type} (t : EntityQuery T) (ht : t.nodeQuery = q) : Asks d q (t.exist d)

theorem Asks.eq_probe {ask : Program Bool} (h : Asks d q ask) :
    ask = Connection.probe ⟨d, false⟩ q.prober := by
  cases h with
  | nodes => rfl
  | entities t ht =>
    subst ht
    rfl

/-- The answer whether there is a row agrees with what the query delivers if and only if the windows
agree, and so it agrees with its count. -/
theorem exist_agrees_with_query_iff {ask : Program Bool} (hask : q.Asks d ask)
    (hs : s.current.IsSound E S) :
    ask.Ensures (Call.Performs E S) s fun b s' => s' = s ∧
      (∀ keys log m after, (q.all d).Run log (.ok m) →
        AnsweredBy (Call.Answers E keys) s log after →
          ((b = true ↔ 0 < m) ↔ q.WindowsAgree E s.current)) ∧
      (E.Reflexive → q.IsIdentified E s.current → q.IsCountable s.current →
        (q.listing.outRows E s.current []).length < 2 ^ 63 →
          (q.count d).Ensures (Call.Performs E S) s fun n _ =>
            ((b = true ↔ 0 < n) ↔ q.WindowsAgree E s.current)) := by
  have hasked : ((!(q.prober.outRows E s.current []).isEmpty) = true) ↔
      WindowShows q.base.limit q.base.offset (q.prober.rowsInAll E s.current) := by
    rw [← outRows_prober_pos, List.length_pos_iff]
    simp
  rw [hask.eq_probe]
  refine ensures_probe hs ⟨rfl, fun keys log m after hrun hlog => ?_, fun hE hid hq hsmall => ?_⟩
  · rw [hasked, (run_all hrun hlog).1, outRows_listing_pos]
    rfl
  · refine (ensures_count hs hsmall (outRows_counter hE hid hq)).mono ?_
    rintro n s' ⟨-, rfl⟩
    rw [hasked, outRows_listing_pos]
    rfl

end NodeQuery

/-! ## Asking for a page of users -/

theorem userPage_windowsAgree : userPage.WindowsAgree keyEngine strangersSession.current := by
  have hpositive :
      0 < (userPage.listing.outRows keyEngine strangersSession.current []).length := by
    rw [userPage_listing]
    exact Nat.one_pos
  exact (NodeQuery.windowsAgree_iff rfl).mpr (.inr (NodeQuery.outRows_listing_pos.mp hpositive))

/-- There is a user on the page, where one is delivered and counted. -/
theorem exist_agrees_with_query_page :
    (userPage.exist .sqlite).Ensures (Call.Performs keyEngine friendsSchema) strangersSession
      fun b s' => s' = strangersSession ∧ b = true ∧
        (userPage.count .sqlite).Ensures (Call.Performs keyEngine friendsSchema) strangersSession
          fun n _ => 0 < n := by
  have hrun : (userPage.all .sqlite).Run (oneValueRun userPage (.int 2)) (.ok 1) :=
    .call _ _ (.call _ _ (.done _))
  refine (NodeQuery.exist_agrees_with_query_iff .nodes strangers_isSound).mono ?_
  rintro b s' ⟨rfl, hdelivered, hcounted⟩
  have hagrees := hdelivered _ _ 1 _ hrun (oneValueRun_answered userPage_listing)
  have hexists : b = true := (hagrees.mpr userPage_windowsAgree).mpr Nat.one_pos
  refine ⟨rfl, hexists, ?_⟩
  refine (hcounted keyEngine_byKey.reflexive
    (NodeQuery.isIdentified_of_hasKey rfl strangers_hasKey) userPage_isCountable
    userPage_small).mono fun n _ hn => ?_
  exact (hn.mpr userPage_windowsAgree).mp hexists

/-- A page behind the last user. -/
def pageBehind : NodeQuery :=
  { NodeQuery.ofNode userNode with limit := some 5, offset := some 2 }

/-- There is said to be a user on the page behind the last one, where none is delivered or
counted. -/
theorem user_behind_the_last :
    ((pageBehind.exist .sqlite).Ensures (Call.Performs keyEngine friendsSchema) strangersSession
        fun b _ => b = true) ∧
      (pageBehind.all .sqlite).Run [⟨.query false (.select pageBehind.listing), true,
        (.done ⟨["id"], []⟩ : Outcome Rows)⟩] (.ok 0) ∧
      AnsweredBy (Call.Answers keyEngine friendsSchema.keys) strangersSession
        [⟨.query false (.select pageBehind.listing), true, (.done ⟨["id"], []⟩ : Outcome Rows)⟩]
        strangersSession ∧
      (pageBehind.count .sqlite).Ensures (Call.Performs keyEngine friendsSchema) strangersSession
        fun n _ => n = 0 := by
  have hname : nameParts "users.id" = ["users", "id"] := by decide
  have hprobed : pageBehind.prober.outRows keyEngine strangersSession.current [] =
      [[("id", .int 1)], [("id", .int 2)]] := by
    have hshape : pageBehind.prober.itsShape =
        ⟨.columns false [nameParts "users.id"], [], none, none⟩ := rfl
    rw [Selector.outRows_eq, hshape, Shape.result, mergeSort_unordered, hname]
    rfl
  have hlisted : pageBehind.listing.outRows keyEngine strangersSession.current [] = [] := by
    have hshape : pageBehind.listing.itsShape =
        ⟨.columns false [nameParts "users.id"], [], some 5, some 2⟩ := rfl
    rw [Selector.outRows_eq, hshape, Shape.result, mergeSort_unordered, hname]
    rfl
  refine ⟨ensures_probe strangers_isSound ?_, .call _ _ (.done _), ?_, ?_⟩
  · show (!(pageBehind.prober.outRows keyEngine strangersSession.current []).isEmpty) = true
    rw [hprobed]
    rfl
  · have hreturns : ([] : List (List Value)).Perm
        ((pageBehind.listing.outRows keyEngine strangersSession.current []).map fun r =>
          r.map (·.2)) := by
      rw [hlisted]
      exact List.Perm.refl _
    exact ⟨strangersSession, ⟨rfl, hreturns, strangers_isSound.obeys, rfl⟩, rfl⟩
  · have hcountable : pageBehind.IsCountable strangersSession.current :=
      ⟨fun _ => rfl, fun _ => rfl, fun _ => .inr rfl, fun h => by cases h⟩
    have hcounted := NodeQuery.outRows_counter keyEngine_byKey.reflexive
      (NodeQuery.isIdentified_of_hasKey rfl strangers_hasKey) hcountable
    rw [hlisted] at hcounted
    exact (NodeQuery.ensures_count strangers_isSound (by decide) hcounted).mono fun _ _ hn => hn.2

end EntityGraph
