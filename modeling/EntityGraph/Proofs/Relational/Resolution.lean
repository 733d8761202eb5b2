import EntityGraph.Proofs.Relational.Scope

/-!
# What names stand for

A name in a statement stands for a column of a source: it is looked up in the selection where it is
written, then in the selections around it, and the first that has sources with such a column
decides. If there are several, no database can tell which one is meant. `Selector.scopedNames` lists
all names of a selection, each with the sources at hand. Stars are not names, and neither are the
columns that are compared with an empty list, since nothing is written for them.
-/

set_option autoImplicit false

namespace EntityGraph

/-- The sources with a column of a name, at the first level that has any. -/
def Scope.sources : Scope → String → List Source
  | [], _ => []
  | level :: outer, name =>
    match level.filter fun s => s.has (nameParts name) with
    | [] => sources outer name
    | found => found

/-- A name in a part of a statement, with the sources of the selections of this part around it. -/
structure ScopedName where
  name : String
  scope : Scope

namespace ScopedName

/-- The name in a selection of some sources. -/
def within (level : List Source) (r : ScopedName) : ScopedName := ⟨r.name, r.scope ++ [level]⟩

/-- The sources that the name can stand for, if there are others around. -/
def sources (r : ScopedName) (outer : Scope) : List Source :=
  Scope.sources (r.scope ++ outer) r.name

/-- The name stands for one source. -/
def Resolves (r : ScopedName) (outer : Scope) : Prop := ∃ s, r.sources outer = [s]

/-- The name does not stand for a source of the part where it is written. -/
def IsFree (r : ScopedName) : Prop :=
  ∀ level ∈ r.scope, ∀ s ∈ level, s.has (nameParts r.name) = false

end ScopedName

/-- Among rows, a name that stands for one source has the value that is in the row of this source,
wherever that stands beside the others. -/
theorem lookup_of_sources {env : Env} {name : String} {s : Source}
    (h : Scope.sources env.scope name = [s]) :
    ∃ f ∈ env.flatten, f.source = s ∧
      env.lookup (nameParts name) = f.tuple ((nameParts name).getLastD "") := by
  have hvalue : ∀ f : Frame, ∀ v, f.value? (nameParts name).dropLast
      ((nameParts name).getLastD "") = some v ↔
        f.source.has (nameParts name) = true ∧ f.tuple ((nameParts name).getLastD "") = v := by
    intro f v
    simp [Frame.value?, Source.has, Frame.source]
  have hfound : ∃ f ∈ env.flatten, f.source = s ∧
      (env.flatten.findSome? fun f => f.value? (nameParts name).dropLast
        ((nameParts name).getLastD "")) = some (f.tuple ((nameParts name).getLastD "")) := by
    -- a level without the name is passed over by both lookups
    induction env with
    | nil => cases h
    | cons level env ih =>
      rw [Env.scope, List.map_cons, Scope.sources] at h
      rw [List.flatten_cons, List.findSome?_append]
      cases hlevel : level.findSome? fun f => f.value? (nameParts name).dropLast
          ((nameParts name).getLastD "") with
      | none =>
        have hnone : level.sources.filter (fun s => s.has (nameParts name)) = [] := by
          refine List.filter_eq_nil_iff.mpr fun s hs hhas => ?_
          obtain ⟨f, hf, rfl⟩ := List.mem_map.mp hs
          have habsent := List.findSome?_eq_none_iff.mp hlevel f hf
          rw [(hvalue f _).mpr ⟨hhas, rfl⟩] at habsent
          cases habsent
        rw [hnone] at h
        obtain ⟨f, hf, hsource, hvalue⟩ := ih h
        exact ⟨f, List.mem_append_right _ hf, hsource, hvalue⟩
      | some v =>
        obtain ⟨f, hf, hv⟩ := List.exists_of_findSome?_eq_some hlevel
        obtain ⟨hhas, rfl⟩ := (hvalue f v).mp hv
        have hmem : f.source ∈ level.sources.filter fun s => s.has (nameParts name) :=
          List.mem_filter.mpr ⟨List.mem_map_of_mem hf, hhas⟩
        refine ⟨f, List.mem_append_left _ hf, ?_, rfl⟩
        split at h
        case h_1 hnone =>
          rw [hnone] at hmem
          cases hmem
        case h_2 =>
          rw [h] at hmem
          exact List.mem_singleton.mp hmem
  obtain ⟨f, hf, hsource, hvalue⟩ := hfound
  exact ⟨f, hf, hsource, by rw [Env.lookup, hvalue, Option.getD_some]⟩

/-! ## The names of a statement -/

/-- The name of a column to order by. Except on SQLite a bare name stands first for a column that is
selected. -/
def OrderTerm.resolved (d : Dialect) (columns : List String) (t : OrderTerm) : String :=
  if d = .sqlite then t.column
  else (columns.find? fun c => nameParts t.column == [(nameParts c).getLastD ""]).getD t.column

namespace Selector

/-- The selected columns that a statement names. -/
def namedColumns (columns : List String) (distinct count : Bool) : List String :=
  if count && !distinct then []
  else columns.filter fun c => (nameParts c).getLastD "" != "*"

/-- The names of selected columns and of those to order by. -/
def outputNames (d : Dialect) (columns : List String) (order : List OrderTerm)
    (distinct count : Bool) : List ScopedName :=
  (namedColumns columns distinct count).map (fun c => ⟨c, []⟩) ++
    order.map fun t => ⟨t.resolved d (if count then [] else columns), []⟩

end Selector

mutual

/-- The names in a condition. -/
def Predicate.scopedNames (d : Dialect) (db : Database) : Predicate → List ScopedName
  | .compare column _ _ | .isNull column | .notNull column | .like column _ => [⟨column, []⟩]
  | .isIn _ [] | .notIn _ [] => []
  | .isIn column (_ :: _) | .notIn column (_ :: _) => [⟨column, []⟩]
  | .inSelect column select => ⟨column, []⟩ :: select.scopedNames d db
  | .anyRow select => select.scopedNames d db
  | .conj preds | .disj preds => predicatesScopedNames d db preds
  | .neg pred => pred.scopedNames d db

/-- The names in the conditions of a list. -/
def predicatesScopedNames (d : Dialect) (db : Database) : List Predicate → List ScopedName
  | [] => []
  | p :: rest => p.scopedNames d db ++ predicatesScopedNames d db rest

/-- The names in an optional condition. -/
def conditionScopedNames (d : Dialect) (db : Database) : Option Predicate → List ScopedName
  | some p => p.scopedNames d db
  | none => []

/-- The names in a source. It does not see the sources beside it. -/
def TableRef.scopedNames (d : Dialect) (db : Database) : TableRef → List ScopedName
  | .table _ _ => []
  | .select select _ => select.scopedNames d db

/-- The names in joins to some sources. -/
def joinsScopedNames (d : Dialect) (db : Database) : List Join → List Source → List ScopedName
  | [], _ => []
  | ⟨table, left, right⟩ :: rest, sources =>
    table.scopedNames d db ++ ⟨left, [sources ++ [table.sourceOf db]]⟩ ::
      ⟨right, [sources ++ [table.sourceOf db]]⟩ ::
        joinsScopedNames d db rest (sources ++ [table.sourceOf db])

/-- The names in a selection. -/
def Selector.scopedNames (d : Dialect) (db : Database) : Selector → List ScopedName
  | ⟨columns, source, joins, predicate, order, _, _, distinct, count⟩ =>
    source.scopedNames d db ++ joinsScopedNames d db joins [source.sourceOf db] ++
      (conditionScopedNames d db predicate ++
        Selector.outputNames d columns order distinct count).map
          (ScopedName.within (joinedSources db joins [source.sourceOf db]))

end

namespace Selector

variable (d : Dialect) (db : Database) (s : Selector)

/-- The sources of a selection. -/
def sources : List Source := joinedSources db s.joins [s.source.sourceOf db]

/-- The names in the condition, the columns and the order of a selection. -/
def ownNames : List ScopedName :=
  conditionScopedNames d db s.predicate ++ outputNames d s.columns s.order s.distinct s.count

/-- Every name in a selection stands for one source. -/
def IsResolved : Prop := ∀ r ∈ s.scopedNames d db, r.Resolves []

theorem scopedNames_eq : s.scopedNames d db =
    s.source.scopedNames d db ++ joinsScopedNames d db s.joins [s.source.sourceOf db] ++
      (s.ownNames d db).map (ScopedName.within (s.sources db)) := by
  cases s
  rw [scopedNames]
  rfl

end Selector

/-! ## Names among further sources -/

namespace ScopedName

variable {r : ScopedName} {s t : Source} {level : List Source} {outer : Scope}

theorem sources_within : (r.within level).sources outer = r.sources (level :: outer) := by
  simp [sources, within]

/-- What a name stands for inside of a part of a statement, it stands for wherever this part is. -/
theorem sources_of_not_isFree (h : ¬r.IsFree) (outer outer' : Scope) :
    r.sources outer = r.sources outer' := by
  obtain ⟨name, scope⟩ := r
  unfold sources
  dsimp only
  induction scope with
  | nil => exact absurd (fun level hlevel => by cases hlevel) h
  | cons level scope ih =>
    rw [List.cons_append, List.cons_append, Scope.sources, Scope.sources]
    split
    case h_1 hnone =>
      refine ih fun hfree => h fun l hl => ?_
      rcases List.mem_cons.mp hl with rfl | hl
      · simpa using hnone
      · exact hfree l hl
    case h_2 => rfl

/-- Other names are looked up further out. -/
theorem sources_of_isFree (h : r.IsFree) (outer : Scope) :
    r.sources outer = Scope.sources outer r.name := by
  obtain ⟨name, scope⟩ := r
  unfold sources
  dsimp only
  induction scope with
  | nil => rfl
  | cons level scope ih =>
    obtain ⟨hlevel, hscope⟩ := List.forall_mem_cons.mp h
    have hnone : (level.filter fun s => s.has (nameParts name)) = [] := by simpa using hlevel
    rw [List.cons_append, Scope.sources, hnone]
    exact ih hscope

theorem sources_single (name : String) :
    Scope.sources [level] name = level.filter fun s => s.has (nameParts name) := by
  rw [Scope.sources]
  split
  case h_1 hnone => rw [hnone, Scope.sources]
  case h_2 => rfl

/-- A name that stands for one source stands for the same one beside a further source, if this has
no such column or if the name is not looked up there. Otherwise it can stand for both. -/
theorem resolves_beside_iff (h : r.Resolves [[s]]) :
    r.Resolves [[s, t]] ↔ (r.IsFree → t.has (nameParts r.name) = false) := by
  by_cases hfree : r.IsFree
  case neg =>
    rw [Resolves, sources_of_not_isFree hfree [[s, t]] [[s]]]
    exact iff_of_true h (fun hr => absurd hr hfree)
  case pos =>
    obtain ⟨found, hfound⟩ := h
    rw [sources_of_isFree hfree, sources_single] at hfound
    have hs : s.has (nameParts r.name) = true := by
      by_contra hnot
      simp [hnot] at hfound
    rw [Resolves, sources_of_isFree hfree, sources_single]
    cases ht : t.has (nameParts r.name) with
    | true => simp [hs, ht, hfree]
    | false => simp [hs, ht]

theorem sources_beside (h : r.IsFree → t.has (nameParts r.name) = false) :
    r.sources [[s, t]] = r.sources [[s]] := by
  by_cases hfree : r.IsFree
  case neg => exact sources_of_not_isFree hfree _ _
  case pos =>
    rw [sources_of_isFree hfree, sources_of_isFree hfree, sources_single, sources_single]
    simp [List.filter_cons, h hfree]

end ScopedName

/-! ## Building conditions -/

section Building

variable {d : Dialect} {db : Database}

theorem predicatesScopedNames_append (ps qs : List Predicate) :
    predicatesScopedNames d db (ps ++ qs) =
      predicatesScopedNames d db ps ++ predicatesScopedNames d db qs := by
  induction ps with
  | nil => rw [predicatesScopedNames, List.nil_append, List.nil_append]
  | cons p ps ih =>
    rw [List.cons_append, predicatesScopedNames, predicatesScopedNames, ih, List.append_assoc]

theorem scopedNames_and (p q : Predicate) :
    (p.and q).scopedNames d db = p.scopedNames d db ++ q.scopedNames d db := by
  unfold Predicate.and
  split
  case h_1 ps =>
    rw [Predicate.scopedNames, Predicate.scopedNames, predicatesScopedNames_append,
      predicatesScopedNames, predicatesScopedNames, List.append_nil]
  case h_2 =>
    rw [Predicate.scopedNames, predicatesScopedNames, predicatesScopedNames, predicatesScopedNames,
      List.append_nil]

theorem conditionScopedNames_filterOpt (s : Selector) (p : Option Predicate) :
    conditionScopedNames d db (s.filterOpt p).predicate =
      conditionScopedNames d db s.predicate ++ conditionScopedNames d db p := by
  cases p with
  | none =>
    rw [conditionScopedNames, List.append_nil]
    rfl
  | some p =>
    cases hs : s.predicate with
    | none =>
      simp [Selector.filterOpt, Selector.filter, hs, Predicate.conjoin, conditionScopedNames]
    | some q =>
      simp [Selector.filterOpt, Selector.filter, hs, Predicate.conjoin, conditionScopedNames,
        scopedNames_and]

end Building

end EntityGraph
