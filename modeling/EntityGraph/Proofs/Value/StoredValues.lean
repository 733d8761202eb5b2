import Mathlib
import EntityGraph.Database.Storage
import EntityGraph.Graph.Upsert
import EntityGraph.Proofs.Relational.KeyTypes

/-!
# Values that are read back from their storage class

Truth values, identifiers and documents have no storage class of their own, and the logical type of
a column restores them (`Value.coerce_stored`). So it makes no difference to what a column says
whether a value is bound or read back. To be recognized as the bound one, a document must not hold a
real that is not a number, and none that is read from a text does: rounding ends in a finite number
or an infinite one, literals are read by rounding, and objects are put together from what has been
read (`Json.equals_self_of_parse`).
-/

set_option autoImplicit false

namespace EntityGraph

/-! ## Rounding -/

namespace Binary64

theorem equals_self {x : Binary64} : x.equals x = !x.isNaN := by
  simp [equals]

theorem toNat_ofFields {negative : Bool} {magnitude : Nat} (h : magnitude < 2 ^ 63) :
    (ofFields negative magnitude).bits.toNat = signBits negative + magnitude := by
  unfold ofFields
  rw [UInt64.toNat_ofNat']
  refine Nat.mod_eq_of_lt ?_
  cases negative <;> simp [signBits] <;> omega

/-- A magnitude up to that of infinity is a number. -/
theorem isNaN_ofFields {negative : Bool} {magnitude : Nat} (h : magnitude ≤ 2047 * 2 ^ 52) :
    (ofFields negative magnitude).isNaN = false := by
  have hfields : (ofFields negative magnitude).exponentField = magnitude / 2 ^ 52 ∧
      (ofFields negative magnitude).fractionField = magnitude % 2 ^ 52 := by
    unfold exponentField fractionField
    rw [toNat_ofFields (by omega)]
    cases negative <;> simp [signBits] <;> omega
  simp only [isNaN, hfields]
  simp
  omega

theorem isNaN_infinity (negative : Bool) : (infinity negative).isNaN = false :=
  isNaN_ofFields (by norm_num)

/-- Rounding gives a number, finite or infinite. -/
theorem isNaN_ofRatio (negative : Bool) (num den : Nat) :
    (ofRatio negative num den).isNaN = false := by
  have hround : ∀ magnitude : Nat, (if 2047 * Nat.pow 2 52 ≤ magnitude then infinity negative
      else ofFields negative magnitude).isNaN = false := fun magnitude => by
    split
    case isTrue => exact isNaN_infinity negative
    case isFalse hlt =>
      norm_num at hlt
      exact isNaN_ofFields (by omega)
  unfold ofRatio
  split
  case isTrue => exact isNaN_ofFields (by omega)
  case isFalse => exact hround _

theorem isNaN_ofInt (i : Int) : (ofInt i).isNaN = false := isNaN_ofRatio ..

theorem isNaN_scale (x : Binary64) (num den : Nat) : (x.scale num den).isNaN = false :=
  isNaN_ofRatio ..

/-- The opposite of a number is a number. -/
theorem isNaN_negate (x : Binary64) : x.negate.isNaN = x.isNaN := by
  have hlt : x.bits.toNat % Nat.pow 2 63 < 2 ^ 63 := Nat.mod_lt _ (by decide)
  have hexponent : x.negate.exponentField = x.exponentField := by
    unfold negate exponentField
    rw [toNat_ofFields hlt]
    cases x.isNegative <;> simp [signBits] <;> omega
  have hfraction : x.negate.fractionField = x.fractionField := by
    unfold negate fractionField
    rw [toNat_ofFields hlt]
    cases x.isNegative <;> simp [signBits]
    omega
  simp only [isNaN, hexponent, hfraction]

end Binary64

/-! ## Literals -/

namespace JsonLiteral

/-- Scaling by powers of ten takes a number to a number. -/
theorem isNaN_of_scaled {x y : Binary64} {power : Int} {fuel : Nat}
    (h : scaled? x power fuel = some y) (hx : x.isNaN = false) : y.isNaN = false := by
  fun_induction scaled? x power fuel with
  | case1 | case5 =>
    obtain rfl := Option.some.inj h
    exact hx
  | case2 | case6 => cases h
  | case3 | case4 =>
    obtain rfl := Option.some.inj h
    exact Binary64.isNaN_scale ..
  | case7 _ _ _ _ _ _ _ ih => exact ih h (Binary64.isNaN_scale ..)

theorem isNaN_of_real {l : JsonLiteral} {x : Binary64} (h : l.real? = some x) :
    x.isNaN = false := by
  have hsigned : ∀ {magnitude : Binary64}, magnitude.isNaN = false →
      some (if l.negative then magnitude.negate else magnitude) = some x → x.isNaN = false := by
    rintro magnitude hnumber ⟨⟩
    split
    · rw [Binary64.isNaN_negate, hnumber]
    · exact hnumber
  cases hexponent : l.exponent with
  | none =>
    simp only [real?, hexponent] at h
    obtain ⟨magnitude, hscaled, hx⟩ := Option.bind_eq_some_iff.1 h
    exact hsigned (isNaN_of_scaled hscaled (Binary64.isNaN_ofInt _)) hx
  | some exponent =>
    obtain ⟨negative, cs⟩ := exponent
    simp only [real?, hexponent] at h
    split at h
    case isTrue =>
      obtain ⟨magnitude, hzero, hx⟩ := Option.bind_eq_some_iff.1 h
      obtain ⟨-, hzero⟩ := Option.ite_none_left_eq_some.1 hzero
      obtain rfl := Option.some.inj hzero
      exact hsigned (Binary64.isNaN_ofFields (by omega)) hx
    case isFalse =>
      obtain ⟨magnitude, hscaled, hx⟩ := Option.bind_eq_some_iff.1 h
      exact hsigned (isNaN_of_scaled hscaled (Binary64.isNaN_ofInt _)) hx

/-- A literal is read as a number that is equal to itself. -/
theorem equals_self_of_value {l : JsonLiteral} {n : JsonNumber} (h : l.value? = some n) :
    n.equals n = true := by
  have hreal : ∀ x : Binary64, x.isNaN = false → (JsonNumber.real x).equals (.real x) = true :=
    fun x hx => by simp [JsonNumber.equals, Binary64.equals_self, hx]
  have hinteger : ∀ i : Int, (JsonNumber.integer i).equals (.integer i) = true :=
    fun i => by simp [JsonNumber.equals]
  unfold value? at h
  dsimp only at h
  split at h
  case isTrue =>
    -- digits alone: an integer, or the negative zero and what is below 64 bits as a real
    split at h
    case isTrue =>
      obtain rfl := Option.some.inj h
      exact hinteger _
    case isFalse =>
      split at h
      all_goals obtain rfl := Option.some.inj h
      · exact hreal _ (by rw [Binary64.isNaN_negate, Binary64.isNaN_ofInt])
      · exact hinteger _
  case isFalse =>
    obtain ⟨x, hx, rfl⟩ := Option.map_eq_some_iff.1 h
    exact hreal x (isNaN_of_real hx)

end JsonLiteral

/-! ## Documents -/

namespace Json

theorem equalItems_self {items : List Json} :
    equalItems items items = true ↔ ∀ x ∈ items, x.equals x = true := by
  induction items with
  | nil => simp [equalItems]
  | cons x items ih => simp [equalItems, ih]

theorem equalMembers_self {members : List (String × Json)} :
    equalMembers members members = true ↔ ∀ m ∈ members, m.2.equals m.2 = true := by
  induction members with
  | nil => simp [equalMembers]
  | cons m members ih => simp [equalMembers, ih]

theorem mem_setMember {name : String} {value : Json} {members : List (String × Json)}
    {m : String × Json} (h : m ∈ setMember name value members) :
    m = (name, value) ∨ m ∈ members := by
  fun_induction setMember name value members <;> grind

/-- An object has no members but the given ones. -/
theorem mem_foldl_setMember {given members : List (String × Json)} {m : String × Json}
    (h : m ∈ given.foldl (fun acc g => setMember g.1 g.2 acc) members) :
    m ∈ given ∨ m ∈ members := by
  induction given generalizing members with
  | nil => exact .inr h
  | cons g given ih =>
    obtain hm | hm := ih h
    · exact .inl (List.mem_cons_of_mem g hm)
    · obtain rfl | hm := mem_setMember hm
      · exact .inl List.mem_cons_self
      · exact .inr hm

end Json

namespace JsonSource

mutual

/-- A document that is read is equal to itself. -/
theorem equals_self_of_value {depth : Nat} : {x : JsonSource} → {j : Json} →
    x.value? depth = some j → j.equals j = true
  | .null, _, h => by
    obtain rfl := Option.some.inj h
    rfl
  | .bool b, _, h => by
    obtain rfl := Option.some.inj h
    simp [Json.equals]
  | .number l, _, h => by
    obtain ⟨n, hn, rfl⟩ := Option.map_eq_some_iff.1 h
    simpa [Json.equals] using JsonLiteral.equals_self_of_value hn
  | .string s, _, h => by
    obtain ⟨s, -, rfl⟩ := Option.map_eq_some_iff.1 h
    simp [Json.equals]
  | .array items, _, h => by
    obtain ⟨-, h⟩ := Option.ite_none_left_eq_some.1 h
    obtain ⟨vs, hvs, rfl⟩ := Option.map_eq_some_iff.1 h
    simpa [Json.equals] using Json.equalItems_self.2 (equals_self_of_itemValues hvs)
  | .object members, _, h => by
    obtain ⟨-, h⟩ := Option.ite_none_left_eq_some.1 h
    obtain ⟨ms, hms, rfl⟩ := Option.map_eq_some_iff.1 h
    refine Json.equalMembers_self.2 fun m hm => ?_
    obtain hm | hm := Json.mem_foldl_setMember hm
    · exact equals_self_of_memberValues hms m hm
    · cases hm

theorem equals_self_of_itemValues {depth : Nat} : {items : List JsonSource} → {vs : List Json} →
    itemValues? depth items = some vs → ∀ v ∈ vs, v.equals v = true
  | [], _, h => by
    obtain rfl := Option.some.inj h
    simp
  | x :: items, _, h => by
    obtain ⟨v, hv, h⟩ := Option.bind_eq_some_iff.1 h
    obtain ⟨vs, hvs, h⟩ := Option.bind_eq_some_iff.1 h
    obtain rfl := Option.some.inj h
    exact List.forall_mem_cons.2 ⟨equals_self_of_value hv, equals_self_of_itemValues hvs⟩

theorem equals_self_of_memberValues {depth : Nat} :
    {members : List (Option String × JsonSource)} → {ms : List (String × Json)} →
    memberValues? depth members = some ms → ∀ m ∈ ms, m.2.equals m.2 = true
  | [], _, h => by
    obtain rfl := Option.some.inj h
    simp
  | (name, x) :: members, _, h => by
    obtain ⟨n, -, h⟩ := Option.bind_eq_some_iff.1 h
    obtain ⟨v, hv, h⟩ := Option.bind_eq_some_iff.1 h
    obtain ⟨vs, hvs, h⟩ := Option.bind_eq_some_iff.1 h
    obtain rfl := Option.some.inj h
    exact List.forall_mem_cons.2 ⟨equals_self_of_value hv, equals_self_of_memberValues hvs⟩

end

end JsonSource

/-- A document that is read from a text is equal to itself. -/
theorem Json.equals_self_of_parse {s : String} {j : Json} (h : Json.parse? s = some j) :
    j.equals j = true := by
  obtain ⟨x, -, hx⟩ := Option.bind_eq_some_iff.1 h
  exact JsonSource.equals_self_of_value hx

/-! ## Storage classes -/

namespace Value

variable {v : Value} {type : FieldType}

theorem bit_ne_zero (b : Bool) : (bit b != 0) = b := by cases b <;> rfl

/-- What is read back from the class in which a value is bound is, read as the value's own type, the
value again, unless it is a time. -/
theorem coerce_stored (htype : v.ownType? = some type) (htime : type ≠ .time)
    (hnumber : ∀ x, v = .float x → x.isNaN = false)
    (hdocument : ∀ j, v = .json j → Json.parse? j.text = some j) :
    v.stored.value.coerce type = .ok v := by
  cases v
  case null => cases htype
  all_goals obtain rfl := Option.some.inj htype
  case bool b => simp [stored, Database.Stored.value, coerce, bit_ne_zero]
  case float x => simp [stored, Database.Stored.value, coerce, hnumber x rfl]
  case uuid u => simp [stored, Database.Stored.value, coerce, orError, Uuid.parse_text]
  case json j => simp [stored, Database.Stored.value, coerce, orError, hdocument j rfl]
  case time t => exact absurd rfl htime
  all_goals rfl

/-- A value is read as its own type without a change. -/
theorem coerce_ownType (htype : v.ownType? = some type) : v.coerce type = .ok v := by
  cases v
  case null => cases htype
  all_goals
    obtain rfl := Option.some.inj htype
    rfl

/-- A value is equal to itself if its numbers are. -/
theorem equals_self (hnumber : ∀ x, v = .float x → x.isNaN = false)
    (hdocument : ∀ j, v = .json j → Json.parse? j.text = some j) : v.equals v = true := by
  cases v
  case float x => simp [equals, Binary64.equals_self, hnumber x rfl]
  case json j => exact Json.equals_self_of_parse (hdocument j rfl)
  all_goals simp [equals]

end Value

/-! ## Bound values -/

namespace Field

variable {f : Field} {w : Value}

/-- A bound value is absent or of the column's own type, or it is an integer in a column of reals or
a text in a column of an enumeration. -/
theorem type_of_bindValue (h : f.bindValue = .ok w) (hother : f.type ≠ .other) :
    w = .null ∨ w.ownType? = some f.type ∨ (f.type = .float ∧ ∃ i, w = .int i) ∨
      (f.type = .enum ∧ ∃ s, w = .string s) := by
  obtain ⟨column, type, value⟩ := f
  unfold bindValue at h
  split at h
  case isTrue => cases h
  case isFalse haccepts =>
    cases type
    case other => exact absurd rfl hother
    case json =>
      cases value <;> obtain rfl := Except.ok.inj h <;> simp [Value.ownType?]
    all_goals
      obtain rfl := Except.ok.inj h
      cases value <;> simp_all [FieldType.accepts, Value.ownType?]

/-- What is read back from the storage class of a bound value is read as the type of the column to
the same value as the bound value itself, and it is recognized as the bound value, for all types but
times and untyped columns. A real that is not a number has no storage class, and documents are taken
to be read as they were written. -/
theorem stored_read_as_bound (h : f.bindValue = .ok w) (hother : f.type ≠ .other)
    (htime : f.type ≠ .time) (hnumber : ∀ x, w = .float x → x.isNaN = false)
    (hdocument : ∀ j, w = .json j → Json.parse? j.text = some j) :
    (∃ v, w.coerce f.type = .ok v ∧ w.stored.value.coerce f.type = .ok v) ∧
      (w.isNull = false → w.ownType? = some f.type → sameValue w.stored.value w = true) := by
  have hread : ∀ type, w.ownType? = some type → type ≠ .time →
      w.stored.value.coerce type = .ok w := fun type hown htime =>
    Value.coerce_stored hown htime hnumber hdocument
  constructor
  · obtain rfl | hown | ⟨htype, i, rfl⟩ | ⟨htype, s, rfl⟩ := f.type_of_bindValue h hother
    · exact ⟨.null, by cases f.type <;> rfl, by cases f.type <;> rfl⟩
    · exact ⟨w, Value.coerce_ownType hown, hread _ hown htime⟩
    · rw [htype]
      exact ⟨_, rfl, rfl⟩
    · rw [htype]
      exact ⟨_, rfl, rfl⟩
  · intro _ hown
    simp only [sameValue, hown, hread _ hown htime]
    exact Value.equals_self hnumber hdocument

/-- A document with an object, an array, an absent value and a string with an escape. -/
def storedDocument : Json :=
  .object [("a", .array [.number (.integer 7), .null, .string "\n"])]

/-- A document is read back as it was bound. -/
theorem stored_document_read_as_bound :
    Json.parse? storedDocument.text = some storedDocument ∧
      (Field.mk "meta" .json (.json storedDocument)).bindValue = .ok (.json storedDocument) ∧
      (∃ v, (Value.json storedDocument).coerce .json = .ok v ∧
        (Value.json storedDocument).stored.value.coerce .json = .ok v) ∧
      sameValue (Value.json storedDocument).stored.value (.json storedDocument) = true := by
  have hparse : Json.parse? storedDocument.text = some storedDocument := by cbv
  have hread := stored_read_as_bound (f := ⟨"meta", .json, .json storedDocument⟩)
    (w := .json storedDocument) rfl (by decide) (by decide) (fun x hx => by cases hx)
    (fun j hj => by cases hj; exact hparse)
  exact ⟨hparse, rfl, hread.1, hread.2 rfl rfl⟩

end Field

end EntityGraph
