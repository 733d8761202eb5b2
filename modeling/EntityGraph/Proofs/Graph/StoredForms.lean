import EntityGraph.Proofs.Graph.EagerLoading

/-!
# Eager loading and the forms in which IDs are stored

The keys of the parents and the IDs of the neighbors have been read as the types of their columns,
the rows of a join table come as the driver reports them. A load therefore follows the rows of a
join table as they read if their values have the keys that they have once they are read, and those
are the values in canonical form (`Value.IsCanonicalAs`). A driver that reports other forms loses
neighbors.
-/

set_option autoImplicit false

namespace EntityGraph

open Program

/-! ## Keys of stored values -/

namespace Value

variable {v w : Value} {type : FieldType}

/-- A stored value has the form that a type gives to what it reads: a truth value is zero or one, an
integer is read without rounding as a number, an identifier, a document and a time are in the text
that they are written in. -/
def IsCanonicalAs (type : FieldType) : Value → Prop
  | .int i => (type = .bool → i = 0 ∨ i = 1) ∧ (type = .float →
      (Binary64.ofInt i.toInt).isIntegral = true ∧ (Binary64.ofInt i.toInt).toInt64 = i)
  | .string s => type ≠ .bytes ∧ (type = .uuid → ∀ u, Uuid.parse? s = some u → s = u.text) ∧
      (type = .json → ∀ j, Json.parse? s = some j → s = j.text) ∧
      (type = .time → ∀ t, Instant.parse? s = some t → s = t.text)
  | .bytes _ => type ≠ .uuid ∧ type ≠ .json
  | _ => True

theorem orError_eq_ok {α : Type} {e : CoercionError} {o : Option α} {f : α → Value} :
    orError e (o.map f) = .ok w ↔ ∃ a, o = some a ∧ f a = w := by
  cases o with
  | none => simp [orError]
  | some a => simp [orError]

theorem bit_eq_iff (i : Int64) : bit (i != 0) = i ↔ i = 0 ∨ i = 1 := by
  by_cases h : i = 0
  · simp [bit, h]
  · simp [bit, h, @eq_comm _ i]

/-- Reading an integer keeps its key if it is in canonical form. -/
theorem key_of_int {i : Int64} (h : (Value.int i).coerce type = .ok w) :
    w.key? = (Value.int i).key? ↔ (Value.int i).IsCanonicalAs type := by
  cases type <;> simp only [coerce, reduceCtorEq, Except.ok.injEq] at h
  case bool =>
    subst h
    simp [key?, IsCanonicalAs, bit_eq_iff]
  case float =>
    subst h
    by_cases hintegral : (Binary64.ofInt i.toInt).isIntegral = true
    · simp [key?, IsCanonicalAs, hintegral]
    · simp [key?, IsCanonicalAs, hintegral]
  all_goals
    subst h
    simp [IsCanonicalAs]

/-- Reading a text keeps its key if it is in canonical form. -/
theorem key_of_string {s : String} (h : (Value.string s).coerce type = .ok w) :
    w.key? = (Value.string s).key? ↔ (Value.string s).IsCanonicalAs type := by
  cases type <;> simp only [coerce, orError_eq_ok, reduceCtorEq, Except.ok.injEq] at h
  case uuid | json | time =>
    obtain ⟨a, ha, rfl⟩ := h
    simp [key?, IsCanonicalAs, ha, eq_comm]
  all_goals
    subst h
    simp [key?, IsCanonicalAs]

/-- Reading bytes keeps their key if they are read as bytes. -/
theorem key_of_bytes {bs : List UInt8} (h : (Value.bytes bs).coerce type = .ok w) :
    w.key? = (Value.bytes bs).key? ↔ (Value.bytes bs).IsCanonicalAs type := by
  cases type <;> simp only [coerce, orError_eq_ok, reduceCtorEq, Except.ok.injEq] at h
  case uuid | json =>
    obtain ⟨a, ha, rfl⟩ := h
    simp [key?, IsCanonicalAs]
  all_goals
    subst h
    simp [IsCanonicalAs]

/-- A stored value has the key that it has once it is read if and only if it is in canonical
form. -/
theorem key_of_coerce (h : v.coerce type = .ok w) :
    w.key? = v.key? ↔ v.IsCanonicalAs type := by
  cases v with
  | int i => exact key_of_int h
  | string s => exact key_of_string h
  | bytes bs => exact key_of_bytes h
  | float x =>
    cases type <;> simp only [coerce, reduceCtorEq, Except.ok.injEq] at h
    case int =>
      split at h
      case isTrue hintegral =>
        obtain rfl := Except.ok.inj h
        simp [key?, IsCanonicalAs, hintegral]
      case isFalse => cases h
    all_goals
      subst h
      simp [IsCanonicalAs]
  | _ =>
    cases type <;> simp only [coerce, reduceCtorEq, Except.ok.injEq] at h
    all_goals
      subst h
      simp [key?, IsCanonicalAs]

/-- Only the absent value is read as absent. -/
theorem isNull_of_coerce (h : v.coerce type = .ok w) : w.isNull = v.isNull := by
  cases v <;> cases type <;>
    simp only [coerce, orError_eq_ok, reduceCtorEq, Except.ok.injEq] at h
  case float.int =>
    split at h
    case isTrue =>
      obtain rfl := Except.ok.inj h
      rfl
    case isFalse => cases h
  case string.uuid | string.json | string.time | bytes.uuid | bytes.json =>
    obtain ⟨a, -, rfl⟩ := h
    rfl
  all_goals
    subst h
    rfl

theorem sameKey_congr {u : Value} (h : w.key? = v.key?) : u.SameKey w ↔ u.SameKey v := by
  unfold SameKey
  rw [h]

theorem sameKey_congr_left {u : Value} (h : w.key? = v.key?) : w.SameKey u ↔ v.SameKey u := by
  unfold SameKey
  rw [h]

theorem isNull_eq_isNone_key (v : Value) : v.isNull = v.key?.isNone := by
  cases v <;> rfl

/-- Values whose keys are the same one by one keep their keys in the same places. -/
theorem firstOfKeys_congr {vs ws : List Value}
    (h : List.Forall₂ (fun v w => w.key? = v.key?) vs ws) :
    List.Forall₂ (fun v w => w.key? = v.key?) (firstOfKeys vs) (firstOfKeys ws) := by
  induction h with
  | nil => exact .nil
  | @cons v w vs ws hkey _ ih =>
    have hnull : w.isNull = v.isNull := by rw [isNull_eq_isNone_key, isNull_eq_isNone_key, hkey]
    unfold firstOfKeys
    rw [hnull]
    split
    · exact ih
    · refine .cons hkey (List.rel_filter ?_ ih)
      intro a b hab
      simp [sameKey_iff, hnull, hkey, hab]

end Value

/-- Only the absent value is read as an absent ID. -/
theorem Node.isNull_of_readId {node : Node} {id v : Value} (h : node.readId id = .ok v) :
    v.isNull = id.isNull :=
  Value.isNull_of_coerce (readColumn_eq_ok.mp h)

theorem Node.readId_null (node : Node) : node.readId .null = .ok .null := by
  apply readColumn_eq_ok.mpr
  cases node.id.type <;> rfl

/-! ## Rows of a join table -/

/-- The first two columns of a row of a join table, read as the types of the IDs that they hold. -/
def ReadEnds (own goal : FieldType) (row read : List Value) : Prop :=
  ∃ v w v' w' rest, row = v :: w :: rest ∧ v.coerce own = .ok v' ∧ w.coerce goal = .ok w' ∧
    read = [v', w']

/-- The first two columns of a row of a join table have forms in which a driver reports the IDs of
their types. -/
def EndsIn (forms : FieldType → Value → Prop) (own goal : FieldType) (row : List Value) : Prop :=
  ∃ v w rest, row = v :: w :: rest ∧ forms own v ∧ forms goal w

/-- The other ends of the rows of a join table whose own end has the key of a parent, each key
once. -/
def endsOf (joins : List (List Value)) (keys : List Value) : List Value :=
  Value.firstOfKeys ((joins.filter fun row =>
    ∃ key ∈ keys, key.SameKey (row[0]?.getD .null)).map fun row => row[1]?.getD .null)

/-- Two rows have the same keys in their first two columns. -/
structure SameEnds (row read : List Value) : Prop where
  own : (read[0]?.getD Value.null).key? = (row[0]?.getD Value.null).key?
  other : (read[1]?.getD Value.null).key? = (row[1]?.getD Value.null).key?

namespace SameEnds

variable {joins read : List (List Value)}

/-- Rows with the same keys link the same parents to the same values. -/
theorem positionsThrough_eq (h : List.Forall₂ SameEnds joins read) (keys : List Value) :
    positionsThrough read keys = positionsThrough joins keys := by
  funext v
  unfold positionsThrough
  congr 1
  funext i
  rw [decide_eq_decide]
  induction h with
  | nil => rfl
  | cons hrow _ ih =>
    simp only [List.mem_cons, exists_eq_or_imp, ih, Value.sameKey_congr hrow.own,
      Value.sameKey_congr_left hrow.other]

theorem endsOf_congr (h : List.Forall₂ SameEnds joins read) (keys : List Value) :
    List.Forall₂ (fun v w => w.key? = v.key?) (endsOf joins keys) (endsOf read keys) := by
  have hlinked : ∀ row row', SameEnds row row' → (decide (∃ key ∈ keys,
      key.SameKey (row[0]?.getD .null)) = true ↔ decide (∃ key ∈ keys,
      key.SameKey (row'[0]?.getD .null)) = true) := by
    intro row row' hrow
    simp only [decide_eq_true_eq, Value.sameKey_congr hrow.own]
  apply Value.firstOfKeys_congr
  rw [List.forall₂_map_left_iff, List.forall₂_map_right_iff]
  exact (List.rel_filter hlinked h).imp fun _ _ hrow => hrow.other

end SameEnds

theorem ReadEnds.sameEnds {own goal : FieldType} {row read : List Value}
    {forms : FieldType → Value → Prop}
    (hforms : ∀ type v, forms type v → v.IsCanonicalAs type) (hrow : EndsIn forms own goal row)
    (h : ReadEnds own goal row read) : SameEnds row read := by
  obtain ⟨v, w, v', w', rest, rfl, hv, hw, rfl⟩ := h
  obtain ⟨_, _, _, hsame, hown, hother⟩ := hrow
  simp only [List.cons.injEq] at hsame
  obtain ⟨rfl, rfl, rfl⟩ := hsame
  exact ⟨(Value.key_of_coerce hv).mpr (hforms _ _ hown),
    (Value.key_of_coerce hw).mpr (hforms _ _ hother)⟩

/-! ## Loads -/

namespace EdgeLoad

variable {l : EdgeLoad} {d : Dialect} {type : FieldType} {keys : List Value} {log : List Exchange}
  {n : Nat}

/-- The query for the rows of the join table that hold a key of a parent in their own column. -/
def joinsQuery (l : EdgeLoad) (own other : String) (keys : List Value) : Selector :=
  ((Selector.ofTable l.edge.table).withColumns [own, other]).filter
    (.oneOf own (Value.firstOfKeys keys))

/-- A load through a join table whose own column holds IDs of a type follows the rows of the join
table as they read: it asks for the neighbors that they link to a parent, and delivers each to
exactly the parents that they link it to. -/
structure JoinsAsRead (l : EdgeLoad) (type : FieldType) (keys : List Value) (log : List Exchange)
    (n : Nat) : Prop where
  /-- Without a key nothing is asked. -/
  nothing : Value.firstOfKeys keys = [] → log = [] ∧ n = 0
  joined : Value.firstOfKeys keys ≠ [] → ∃ own other live joins rest,
    l.edge.joinColumns = .ok (own, other) ∧
    log = ⟨.query false (.select (l.joinsQuery own other keys)), live,
      (.done joins : Outcome Rows)⟩ :: rest ∧
    ∀ read, List.Forall₂ (ReadEnds type l.target.id.type) joins.rows read →
      (endsOf read keys = [] → rest = [] ∧ n = 0) ∧
      (endsOf read keys ≠ [] → ∃ ends,
        List.Forall₂ (fun v w => w.key? = v.key?) ends (endsOf read keys) ∧
        l.Joins l.target.id.column ends (positionsThrough read keys) rest n)

/-- The rows of the join table come in forms in which a driver reports the IDs of the types of their
columns. -/
def IsToldIn (l : EdgeLoad) (forms : FieldType → Value → Prop) (type : FieldType)
    (log : List Exchange) : Prop :=
  ∀ s live joins rest,
    log = ⟨.query false (.select s), live, (.done joins : Outcome Rows)⟩ :: rest →
      ∀ row ∈ joins.rows, EndsIn forms type l.target.id.type row

/-- The rows of the first reply can be read off the log. -/
theorem rows_of_log_eq {c c' : Command} {live live' : Bool} {rows rows' : Rows}
    {rest rest' : List Exchange}
    (h : (⟨.query false c, live, (.done rows : Outcome Rows)⟩ :: rest : List Exchange) =
      ⟨.query false c', live', (.done rows' : Outcome Rows)⟩ :: rest') :
    rows = rows' ∧ rest = rest' := by
  cases h
  exact ⟨rfl, rfl⟩

theorem joinsAsRead_of_canonical {forms : FieldType → Value → Prop}
    (hforms : ∀ type v, forms type v → v.IsCanonicalAs type) (hmany : l.edge.isManyToMany = true)
    (hrun : (l.run d keys).Run log (.ok n)) (htold : l.IsToldIn forms type log) :
    l.JoinsAsRead type keys log n := by
  obtain ⟨log', hlog, hjoins⟩ := reaches_run_recording (reaches_recording hrun [])
  rw [List.nil_append, List.nil_append] at hlog
  subst hlog
  refine ⟨hjoins.nothing, ?_⟩
  intro hkeys
  obtain ⟨own, other, live, joins, rest, hcolumns, rfl, hends⟩ := hjoins.joined hkeys hmany
  refine ⟨own, other, live, joins, rest, hcolumns, rfl, ?_⟩
  intro read hread
  have hsame : List.Forall₂ SameEnds joins.rows read :=
    forall₂_imp_of_mem
      (fun row _ hrow => ReadEnds.sameEnds hforms (htold _ _ _ _ rfl row hrow)) hread
  have hkeysOf := SameEnds.endsOf_congr hsame keys
  obtain ⟨hnone, hsome⟩ := hends (endsOf joins.rows keys) rfl
  constructor
  · intro hempty
    rw [hempty, List.forall₂_nil_right_iff] at hkeysOf
    exact hnone hkeysOf
  · intro hnonempty
    refine ⟨_, hkeysOf, ?_⟩
    rw [SameEnds.positionsThrough_eq hsame]
    apply hsome ?_ _ (List.Perm.refl _)
    intro hempty
    rw [hempty, List.forall₂_nil_left_iff] at hkeysOf
    exact hnonempty hkeysOf

end EdgeLoad

/-! ## Values that are not in canonical form -/

/-- Links between the nodes of one type, whose IDs are of a given type. -/
def linksLoad (type : FieldType) : EdgeLoad :=
  .ofEdge (.manyToMany "links" "from_id" "to_id") (.ofTable "nodes" { column := "id", type })
    fun columns => .ok (columns.map fun _ => .other)

/-- The rows of the links of a parent: one, whose two columns hold the same stored value. -/
def selfLinkReply (type : FieldType) (v w : Value) : List Exchange :=
  [⟨.query false (.select ((linksLoad type).joinsQuery "from_id" "to_id" [w])), true,
    (.done ⟨["from_id", "to_id"], [[v, v]]⟩ : Outcome Rows)⟩]

namespace EdgeLoad

variable {d : Dialect} {type : FieldType} {v w : Value}

theorem firstOfKeys_singleton (hw : w.isNull = false) : Value.firstOfKeys [w] = [w] := by
  simp [Value.firstOfKeys, hw]

/-- A link whose stored value has another key than the parent is passed over. -/
theorem selfLinkReply_run (hw : w.isNull = false) (hkey : w.key? ≠ v.key?) :
    ((linksLoad type).run d [w]).Run (selfLinkReply type v w) (.ok 0) := by
  have hvalues : (Keyed.ofValues [w]).values = [w] := by
    rw [Keyed.values_ofValues, firstOfKeys_singleton hw]
  have hunlinked : ¬w.SameKey v := by
    simp [Value.sameKey_iff, hw, hkey]
  have howners : (([[v, v]] : List (List Value)).foldl (Keyed.ofValues [w]).follow .empty).values =
      [] := by
    rw [Keyed.values_follow]
    simp [Value.firstOfKeys, hunlinked]
  have hquery : (linksLoad type).joinsQuery "from_id" "to_id" [w] =
      (linksLoad type).joinSelector "from_id" "to_id" (Keyed.ofValues [w]) := by
    rw [joinsQuery, joinSelector, hvalues, firstOfKeys_singleton hw]
  unfold run selfLinkReply
  rw [if_neg (by rw [hvalues]; simp), Connection.run, if_neg (by simp),
    if_pos (show (linksLoad type).edge.isManyToMany = true from rfl), hquery]
  apply Run.call
  show Run (if _ then _ else _) _ _
  rw [if_pos (List.isEmpty_iff.mpr howners)]
  exact .done _

/-- As it reads, the link is one from the parent to itself. -/
theorem not_joinsAsRead_selfLink (hread : v.coerce type = .ok w) (hw : w.isNull = false) :
    ¬(linksLoad type).JoinsAsRead type [w] (selfLinkReply type v w) 0 := by
  intro h
  have hne : Value.firstOfKeys [w] ≠ [] := by
    rw [firstOfKeys_singleton hw]
    simp
  obtain ⟨own, goal, live, joins, rest, -, hlog, hends⟩ := h.joined hne
  obtain ⟨rfl, rfl⟩ := rows_of_log_eq hlog
  have hlinked : endsOf [[w, w]] [w] ≠ [] := by
    have hsame : w.SameKey w := Value.sameKey_iff.mpr ⟨hw, rfl⟩
    simp [endsOf, hsame, firstOfKeys_singleton hw]
  obtain ⟨-, hsome⟩ := hends [[w, w]] (.cons ⟨v, v, w, w, [], rfl, hread, hread, rfl⟩ .nil)
  obtain ⟨ends, -, live', rows, found, deliveries, hrest, -⟩ := hsome hlinked
  cases hrest

end EdgeLoad

/-- Loads through a join table follow its rows as they read, for every reply of a driver that
reports IDs in certain forms, if and only if these forms are canonical, and those are the forms in
which a stored value has the key that it has once it is read. -/
theorem joinTable_loads_as_read_iff {d : Dialect} {forms : FieldType → Value → Prop}
    (hforms : ∀ type v, forms type v → ∃ w, v.coerce type = .ok w) :
    (∀ (type : FieldType) (v w : Value), v.coerce type = .ok w →
      (w.key? = v.key? ↔ v.IsCanonicalAs type)) ∧
    ((∀ (l : EdgeLoad) type keys log n, l.edge.isManyToMany = true →
        (l.run d keys).Run log (.ok n) → l.IsToldIn forms type log →
          l.JoinsAsRead type keys log n) ↔
      ∀ type v, forms type v → v.IsCanonicalAs type) := by
  refine ⟨fun _ _ _ => Value.key_of_coerce, ?_, ?_⟩
  · intro hload type v hv
    obtain ⟨w, hread⟩ := hforms type v hv
    rw [← Value.key_of_coerce hread]
    by_contra hkey
    -- a link of the node to itself is lost
    have hw : w.isNull = false := by
      by_contra hnull
      rw [Bool.not_eq_false] at hnull
      have hnull' := (Value.isNull_of_coerce hread).symm.trans hnull
      rw [Value.isNull_eq_isNone_key, Option.isNone_iff_eq_none] at hnull hnull'
      exact hkey (hnull.trans hnull'.symm)
    have htold : (linksLoad type).IsToldIn forms type (selfLinkReply type v w) := by
      intro s live joins rest hlog row hrow
      obtain ⟨rfl, -⟩ := EdgeLoad.rows_of_log_eq hlog
      obtain rfl := List.mem_singleton.mp hrow
      exact ⟨v, v, [], rfl, hv, hv⟩
    exact EdgeLoad.not_joinsAsRead_selfLink hread hw
      (hload _ _ _ _ _ rfl (EdgeLoad.selfLinkReply_run hw hkey) htold)
  · intro hcanonical l type keys log n hmany hrun htold
    exact EdgeLoad.joinsAsRead_of_canonical hcanonical hmany hrun htold

theorem friends_load_as_read :
    friendsLoad.JoinsAsRead .int [.int 1, .null, .int 2, .int 1] friendsReplies 1 := by
  have hforms : ∀ (type : FieldType) (v : Value), (type = .int ∧ (v = .null ∨ ∃ i, v = .int i)) →
      ∃ w, v.coerce type = .ok w := by
    rintro _ _ ⟨rfl, rfl | ⟨i, rfl⟩⟩
    · exact ⟨.null, rfl⟩
    · exact ⟨.int i, rfl⟩
  refine ((joinTable_loads_as_read_iff (d := .sqlite) hforms).2.mpr ?_) _ _ _ _ _ rfl
    friendsReplies_run ?_
  · rintro _ _ ⟨rfl, rfl | ⟨i, rfl⟩⟩
    · trivial
    · exact ⟨nofun, nofun⟩
  · intro s live joins rest hlog row hrow
    obtain ⟨rfl, -⟩ := EdgeLoad.rows_of_log_eq hlog
    have hrows : ∀ row ∈ ([[.int 1, .int 9], [.int 2, .int 9], [.int 1, .int 9], [.int 7, .int 8],
        [.int 2, .null]] : List (List Value)), ∃ i w, row = [.int i, w] ∧
          (w = .null ∨ ∃ j, w = .int j) := by
      simp
    obtain ⟨i, w, rfl, hw⟩ := hrows row hrow
    exact ⟨_, _, [], rfl, ⟨rfl, .inr ⟨i, rfl⟩⟩, ⟨rfl, hw⟩⟩

/-- The ID of a document. -/
def documentId : Uuid :=
  ⟨[0x6b, 0xa7, 0xb8, 0x10, 0x9d, 0xad, 0x11, 0xd1, 0x80, 0xb4, 0x00, 0xc0, 0x4f, 0xd4, 0x30, 0xc8],
    rfl⟩

/-- The ID of the document in capital letters, as a database may hold it that does not tell them
from small ones. -/
def documentText : Value := .string "6BA7B810-9DAD-11D1-80B4-00C04FD430C8"

/-- The load of the tags of documents. -/
def tagsLoad : EdgeLoad :=
  .ofEdge (.manyToMany "doc_tags" "doc_id" "tag_id")
    (.ofTable "tags" { column := "id", type := .int })
    fun columns => .ok (columns.map fun _ => .int)

/-- The rows of the join table for one document: it has a tag. -/
def tagsReply : List Exchange :=
  [⟨.query false (.select (tagsLoad.joinsQuery "doc_id" "tag_id" [.uuid documentId])), true,
    (.done ⟨["doc_id", "tag_id"], [[documentText, .int 7]]⟩ : Outcome Rows)⟩]

theorem coerce_documentText : documentText.coerce .uuid = .ok (.uuid documentId) := by
  have hparse : Uuid.parse? "6BA7B810-9DAD-11D1-80B4-00C04FD430C8" = some documentId := by decide
  simp only [documentText, Value.coerce, hparse, Option.map_some, Value.orError]

/-- The tag of the document is not asked for, although the row of the join table reads as a link
from the document to it. -/
theorem tag_of_document_lost :
    (tagsLoad.run .mysql [.uuid documentId]).Run tagsReply (.ok 0) ∧
      tagsLoad.IsToldIn (fun type v => ∃ w, v.coerce type = .ok w) .uuid tagsReply ∧
      ¬tagsLoad.JoinsAsRead .uuid [.uuid documentId] tagsReply 0 := by
  refine ⟨?_, ?_, ?_⟩
  · apply Run.call
    exact .done _
  · intro s live joins rest hlog row hrow
    obtain ⟨rfl, -⟩ := EdgeLoad.rows_of_log_eq hlog
    obtain rfl := List.mem_singleton.mp hrow
    exact ⟨_, _, [], rfl, ⟨_, coerce_documentText⟩, ⟨.int 7, rfl⟩⟩
  · intro h
    obtain ⟨own, goal, live, joins, rest, -, hlog, hends⟩ := h.joined (by decide)
    obtain ⟨rfl, rfl⟩ := EdgeLoad.rows_of_log_eq hlog
    have hread : ReadEnds .uuid .int [documentText, .int 7] [.uuid documentId, .int 7] :=
      ⟨_, _, _, _, [], rfl, coerce_documentText, rfl, rfl⟩
    obtain ⟨-, hlinked⟩ := hends _ (.cons hread .nil)
    obtain ⟨ends, -, _, _, _, _, hrest, -⟩ := hlinked (by decide)
    cases hrest

end EntityGraph
