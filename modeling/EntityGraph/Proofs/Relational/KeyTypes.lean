import EntityGraph.Value.Coerce

/-!
# Types whose values are told apart by their keys

A database that compares values by their keys takes two values of one type for the same only if they
are equal, provided that the form in which the type is stored determines the value. `IsExact` says
so of a type, and that values which are bound or read as values of the type are such values.
-/

set_option autoImplicit false

namespace EntityGraph

/-- Values of the type that have the same key are equal, and values that are bound or read as values
of the type are of the type. -/
structure FieldType.IsExact (type : FieldType) : Prop where
  equals : ∀ v w : Value, v.ownType? = some type → w.ownType? = some type →
    ∀ key, v.key? = some key → w.key? = some key → v.equals w = true
  accepts : ∀ v : Value, type.accepts v = true → v.isNull = true ∨ v.ownType? = some type
  coerce : ∀ v w : Value, v.coerce type = .ok w → w.isNull = true ∨ w.ownType? = some type

/-! ## Identifiers -/

namespace Text

theorem hexValue_hexDigit (n : Nat) : hexValue? (hexDigit n) = some (n % 16) := by
  have hdigit : ∀ k < 16, hexValue? (Nat.digitChar k) = some k := by decide
  exact hdigit _ (Nat.mod_lt n (by decide))

/-- The digits of bytes are read as the bytes. -/
theorem hexBytes_flatMap_hexByte (bs : List UInt8) :
    hexBytes? (bs.flatMap hexByte) = some bs := by
  induction bs with
  | nil => rfl
  | cons b bs ih =>
    have hdigits : 16 * (b.toNat / 16 % 16) + b.toNat % 16 = b.toNat := by
      have := b.toNat_lt
      omega
    have hbyte : hexBytes? (hexByte b ++ bs.flatMap hexByte) =
        some (UInt8.ofNat (16 * (b.toNat / 16 % 16) + b.toNat % 16) :: bs) := by
      simp only [hexByte, List.cons_append, List.nil_append, hexBytes?, hexValue_hexDigit, ih]
      rfl
    rw [List.flatMap_cons, hbyte, hdigits, UInt8.ofNat_toNat]

theorem length_flatMap_hexByte (bs : List UInt8) : (bs.flatMap hexByte).length = 2 * bs.length := by
  induction bs with
  | nil => rfl
  | cons b bs ih => simp [hexByte, ih]; omega

end Text

namespace Uuid

theorem simple_flatMap_hexByte (u : Uuid) : simple? (u.bytes.flatMap Text.hexByte) = some u := by
  have hlength := Text.length_flatMap_hexByte u.bytes
  rw [u.length_eq] at hlength
  simp only [simple?, hlength, Text.hexBytes_flatMap_hexByte, Option.bind_some, ofBytes?,
    u.length_eq]
  rfl

/-- Hyphens between the groups of digits are left out. -/
theorem hyphenated_groups {a b c d e : List Char} (ha : a.length = 8) (hb : b.length = 4)
    (hc : c.length = 4) (hd : d.length = 4) (he : e.length = 12) :
    hyphenated? (a ++ '-' :: b ++ '-' :: c ++ '-' :: d ++ '-' :: e) =
      simple? (a ++ b ++ c ++ d ++ e) := by
  simp [hyphenated?, List.drop_append, List.drop_of_length_le, ha, hb, hc, hd, he]

/-- The written form of an identifier is read as the identifier. -/
theorem parse_text (u : Uuid) : parse? u.text = some u := by
  have hlength := Text.length_flatMap_hexByte u.bytes
  have hread := simple_flatMap_hexByte u
  unfold parse? text
  simp only [String.toList_ofList]
  rw [u.length_eq] at hlength
  generalize u.bytes.flatMap Text.hexByte = ds at hlength hread
  have hgroups : ds.take 8 ++ (ds.drop 8).take 4 ++ (ds.drop 12).take 4 ++ (ds.drop 16).take 4 ++
      ds.drop 20 = ds := by
    rw [← List.take_add, ← List.take_add, ← List.take_add, List.take_append_drop]
  -- four hyphens are too many for the digits alone
  have hsimple : simple? (ds.take 8 ++ '-' :: (ds.drop 8).take 4 ++ '-' :: (ds.drop 12).take 4 ++
      '-' :: (ds.drop 16).take 4 ++ '-' :: ds.drop 20) = none := if_neg (by simp [hlength])
  rw [hsimple, hyphenated_groups (by simp [hlength]) (by simp [hlength]) (by simp [hlength])
    (by simp [hlength]) (by simp [hlength]), hgroups, hread]
  rfl

/-- The written form of an identifier tells it. -/
theorem text_inj {u w : Uuid} (h : u.text = w.text) : u = w := by
  have hread := parse_text u
  rw [h, parse_text w] at hread
  exact (Option.some.inj hread).symm

end Uuid

/-! ## Types of IDs -/

/-- Types of IDs: truth values, numbers, texts, bytes and identifiers. -/
def FieldType.ofIds : List FieldType := [.bool, .int, .string, .bytes, .uuid]

namespace FieldType

variable {type : FieldType} {v w : Value}

theorem equals_of_ofIds (h : type ∈ ofIds) (hv : v.ownType? = some type)
    (hw : w.ownType? = some type) (hkey : v.key? = w.key?) : v.equals w = true := by
  simp only [ofIds, List.mem_cons, List.not_mem_nil, or_false] at h
  rcases h with rfl | rfl | rfl | rfl | rfl
  all_goals
    cases v <;> simp only [Value.ownType?, reduceCtorEq, Option.some.injEq] at hv
    cases w <;> simp only [Value.ownType?, reduceCtorEq, Option.some.injEq] at hw
    simp only [Value.key?, Option.some.injEq, Key.int.injEq, Key.text.injEq, Key.bytes.injEq] at hkey
  case inl.bool.bool a b =>
    revert hkey
    cases a <;> cases b <;> decide
  case inr.inl.int.int a b => simpa [Value.equals] using hkey
  case inr.inr.inl.string.string a b => simpa [Value.equals] using hkey
  case inr.inr.inr.inl.bytes.bytes a b => simpa [Value.equals] using hkey
  case inr.inr.inr.inr.uuid.uuid a b => simpa [Value.equals] using Uuid.text_inj hkey

theorem accepts_of_ofIds (h : type ∈ ofIds) (hv : type.accepts v = true) :
    v.isNull = true ∨ v.ownType? = some type := by
  simp only [ofIds, List.mem_cons, List.not_mem_nil, or_false] at h
  rcases h with rfl | rfl | rfl | rfl | rfl
  all_goals
    cases v with
    | null => exact .inl rfl
    | _ => first | exact .inr rfl | cases hv

theorem coerce_of_ofIds (h : type ∈ ofIds) (hv : v.coerce type = .ok w) :
    w.isNull = true ∨ w.ownType? = some type := by
  have hread : ∀ {α : Type} {e : CoercionError} {o : Option α} {f : α → Value},
      Value.orError e (o.map f) = .ok w → ∃ a, w = f a := by
    intro α e o f ho
    cases o with
    | none => cases ho
    | some a => exact ⟨a, (Except.ok.inj ho).symm⟩
  simp only [ofIds, List.mem_cons, List.not_mem_nil, or_false] at h
  rcases h with rfl | rfl | rfl | rfl | rfl
  all_goals
    cases v <;> simp only [Value.coerce, reduceCtorEq, Except.ok.injEq] at hv
  case inr.inl.float x =>
    split at hv
    case isTrue =>
      obtain rfl := Except.ok.inj hv
      exact .inr rfl
    case isFalse => cases hv
  case inr.inr.inr.inr.string s | inr.inr.inr.inr.bytes s =>
    obtain ⟨u, rfl⟩ := hread hv
    exact .inr rfl
  all_goals
    subst hv
    first
      | exact .inl rfl
      | exact .inr rfl

theorem isExact_of_ofIds (h : type ∈ ofIds) : type.IsExact where
  equals _ _ hv hw _ hkey hkey' := equals_of_ofIds h hv hw (hkey.trans hkey'.symm)
  accepts _ hv := accepts_of_ofIds h hv
  coerce _ _ hv := coerce_of_ofIds h hv

end FieldType

end EntityGraph
