import EntityGraph.Database.Storage
import EntityGraph.Value.Coerce
import EntityGraph.Proofs.Time.Dates

/-!
# Instants that are written and read back

A written number, a written year and a written fraction of a second are each read as what was
written, whatever follows them. From this, the relaxed reader reads every written instant back
(`relaxed_text`), so different instants have different texts (`text_eq_text_iff`). The reader of
columns does so for the years of four digits only (`parse_text`): RFC 3339 knows no other years, and
the format without a zone has no letter in front of the time.
-/

set_option autoImplicit false

namespace EntityGraph.Instant

/-! ## Numbers -/

theorem isDigit_of_mem_padded {width n : Nat} {c : Char} (h : c ∈ padded width n) :
    c.isDigit = true := by
  obtain h | h := List.mem_append.1 h
  · rw [List.eq_of_mem_replicate h]
    rfl
  · exact Nat.isDigit_of_mem_toDigits (by decide) (by decide) h

theorem digitsValue_padded (width n : Nat) : digitsValue (padded width n) = n := by
  have hzeros : ∀ k, digitsValue (List.replicate k '0') = 0 := by
    intro k
    induction k with
    | zero => rfl
    | succ k ih =>
      rw [List.replicate_succ]
      exact ih
  have hvalue := Nat.ofDigitChars_toDigits (b := 10) (n := n) (by decide) (by decide)
  have happend : digitsValue (padded width n) =
      Nat.ofDigitChars 10 (Nat.toDigits 10 n) (digitsValue (List.replicate _ '0')) :=
    List.foldl_append
  rw [happend, hzeros, hvalue]

theorem length_padded {width n : Nat} (h : n < 10 ^ width) (hwidth : 0 < width) :
    (padded width n).length = width := by
  have hle := (Nat.length_toDigits_le_iff (by decide) hwidth).2 h
  simp only [padded, List.length_append, List.length_replicate]
  omega

theorem length_padded_pos (width n : Nat) : 0 < (padded width n).length := by
  have hpos : Nat.toDigits 10 n ≠ [] := Nat.toDigits_ne_nil
  have := List.length_pos_iff.2 hpos
  simp only [padded, List.length_append]
  omega

/-- What follows the digits of a number is no further digit. -/
def EndsDigits (rest : List Char) : Prop := ∀ c ∈ rest.head?, c.isDigit = false

theorem takeWhile_isDigit_append {ds rest : List Char} (hds : ∀ c ∈ ds, c.isDigit = true)
    (hrest : EndsDigits rest) : (ds ++ rest).takeWhile Char.isDigit = ds := by
  rw [List.takeWhile_append_of_pos hds]
  cases rest with
  | nil => simp
  | cons c rest => simp [hrest c rfl]

/-- Digits are read as the number that they write, if there are as many as a reader takes at most
or no further one follows. -/
theorem number_append {low high : Nat} {ds rest : List Char} (hds : ∀ c ∈ ds, c.isDigit = true)
    (hlow : low ≤ ds.length) (hbound : digitsValue ds < Nat.pow 2 63)
    (hhigh : ds.length = high ∨ ds.length ≤ high ∧ EndsDigits rest) :
    number? low high (ds ++ rest) = some (digitsValue ds, rest) := by
  have hend : EndsDigits (rest.take (high - ds.length)) := by
    obtain hlength | ⟨-, hrest⟩ := hhigh
    · simp [EndsDigits, hlength]
    · intro c hc
      cases rest with
      | nil => simp at hc
      | cons d rest => exact hrest c (by cases h : high - ds.length <;> simp_all)
  have hread : ((ds ++ rest).take high).takeWhile Char.isDigit = ds := by
    rw [List.take_append, List.take_of_length_le (by omega), takeWhile_isDigit_append hds hend]
  unfold number?
  simp only [hread]
  rw [if_neg (by omega), List.drop_left]

/-- A number of the written width is read, whatever follows. -/
theorem number_padded {low width n : Nat} (hlow : low ≤ width) (hpos : 0 < width)
    (hwidth : width ≤ 18) (h : n < 10 ^ width) (rest : List Char) :
    number? low width (padded width n ++ rest) = some (n, rest) := by
  have hlength := length_padded h hpos
  have hbound : n < Nat.pow 2 63 :=
    Nat.lt_of_lt_of_le h (Nat.le_trans (Nat.pow_le_pow_right (by decide) hwidth) (by decide))
  have hread : number? low width (padded width n ++ rest) =
      some (digitsValue (padded width n), rest) :=
    number_append (fun c hc => isDigit_of_mem_padded hc) (by omega)
      (by rwa [digitsValue_padded]) (.inl hlength)
  rwa [digitsValue_padded] at hread

/-- A number of any width is read by a reader that takes all digits. -/
theorem number_padded_all {width n : Nat} (h : n < Nat.pow 2 63) {rest : List Char}
    (hrest : EndsDigits rest) :
    number? 1 (padded width n ++ rest).length (padded width n ++ rest) = some (n, rest) := by
  have hread : number? 1 (padded width n ++ rest).length (padded width n ++ rest) =
      some (digitsValue (padded width n), rest) :=
    number_append (fun c hc => isDigit_of_mem_padded hc) (length_padded_pos width n)
      (by rwa [digitsValue_padded]) (.inr ⟨by simp, hrest⟩)
  rwa [digitsValue_padded] at hread

theorem isBlank_of_isDigit {c : Char} (h : c.isDigit = true) : Text.isBlank c = false := by
  simp only [Char.isDigit, Bool.and_eq_true, decide_eq_true_eq] at h
  obtain ⟨hlow, hhigh⟩ : 48 ≤ c.toNat ∧ c.toNat ≤ 57 := h
  simp [Text.isBlank, Text.inRanges, Text.blankRanges]
  omega

theorem skipBlank_cons {c : Char} (h : Text.isBlank c = false) (rest : List Char) :
    Text.skipBlank (c :: rest) = c :: rest := by
  simp [Text.skipBlank, h]

/-- A written number starts with a digit. -/
theorem exists_padded_eq_cons (width n : Nat) :
    ∃ c ds, padded width n = c :: ds ∧ c.isDigit = true := by
  obtain ⟨c, ds, h⟩ := List.exists_cons_of_length_pos (length_padded_pos width n)
  exact ⟨c, ds, h, isDigit_of_mem_padded (h ▸ List.mem_cons_self)⟩

theorem skipBlank_padded (width n : Nat) (rest : List Char) :
    Text.skipBlank (padded width n ++ rest) = padded width n ++ rest := by
  obtain ⟨c, ds, h, hc⟩ := exists_padded_eq_cons width n
  rw [h, List.cons_append, skipBlank_cons (isBlank_of_isDigit hc)]

theorem looseNumber_padded {n : Nat} (h : n < 100) (rest : List Char) :
    looseNumber? (padded 2 n ++ rest) = some (n, rest) := by
  rw [looseNumber?, skipBlank_padded]
  exact number_padded (by decide) (by decide) (by decide) h rest

theorem twoDigits_padded {n : Nat} (h : n < 100) (rest : List Char) :
    twoDigits? (padded 2 n ++ rest) = some (n, rest) :=
  number_padded (by decide) (by decide) (by decide) h rest

/-! ## Years, fractions and zones -/

theorem endsDigits_cons {c : Char} (h : c.isDigit = false) (rest : List Char) :
    EndsDigits (c :: rest) := by
  rintro d ⟨⟩
  exact h

/-- A written year is read with its sign. -/
theorem year_yearChars {year : Int} (h : year.natAbs < Nat.pow 2 63) (rest : List Char) :
    year? (yearChars year ++ '-' :: rest) = some (year, '-' :: rest) := by
  have hall : ∀ n, n < Nat.pow 2 63 → number? 1 (padded 4 n ++ '-' :: rest).length
      (padded 4 n ++ '-' :: rest) = some (n, '-' :: rest) :=
    fun n hn => number_padded_all hn (endsDigits_cons rfl rest)
  unfold yearChars
  split
  case isTrue hplain =>
    have hread : number? 1 4 (padded 4 year.toNat ++ '-' :: rest) =
        some (year.toNat, '-' :: rest) :=
      number_padded (by decide) (by decide) (by decide) (by omega) _
    obtain ⟨c, ds, hds, hc⟩ := exists_padded_eq_cons 4 year.toNat
    rw [year?, skipBlank_padded]
    split
    case h_1 hsign | h_2 hsign =>
      rw [hds] at hsign
      obtain rfl := (List.cons.inj hsign).1
      cases hc
    case h_3 =>
      rw [hread]
      simp
      omega
  case isFalse hsigned =>
    split
    case isTrue hneg =>
      rw [year?, List.cons_append, skipBlank_cons (by decide)]
      simp only [hall _ h, Option.map_some, Option.some.injEq, Prod.mk.injEq, and_true]
      omega
    case isFalse hpos =>
      rw [year?, List.cons_append, skipBlank_cons (by decide)]
      simp only [hall _ h, Option.map_some, Option.some.injEq, Prod.mk.injEq, and_true]
      omega

theorem fractionDigits_padded {width n : Nat} (hpos : 0 < width) (hwidth : width ≤ 9)
    (h : n < 10 ^ width) {rest : List Char} (hrest : EndsDigits rest) :
    fractionDigits? (padded width n ++ rest) = some (n * Nat.pow 10 (9 - width), rest) := by
  have hlength := length_padded h hpos
  have hne : padded width n ≠ [] := List.ne_nil_of_length_pos (length_padded_pos width n)
  unfold fractionDigits?
  simp only [takeWhile_isDigit_append (fun c hc => isDigit_of_mem_padded hc) hrest]
  rw [if_neg hne, List.take_of_length_le (by omega), digitsValue_padded, List.drop_left, hlength]

/-- The fraction of a second is read as it was written, in whatever number of digits. -/
theorem fraction_fractionChars {nanos : Nat} (h : nanos < secondNanos) (rest : List Char) :
    fraction? (fractionChars nanos ++ '+' :: rest) = some (nanos, '+' :: rest) := by
  have hend : EndsDigits ('+' :: rest) := endsDigits_cons rfl rest
  have hlt : nanos < 1000000000 := h
  unfold fractionChars
  split
  case isTrue hzero =>
    rw [hzero]
    rfl
  case isFalse =>
    split
    case isTrue =>
      refine (fractionDigits_padded (by decide) (by decide) (by omega) hend).trans ?_
      simp
      omega
    case isFalse =>
      split
      case isTrue =>
        refine (fractionDigits_padded (by decide) (by decide) (by omega) hend).trans ?_
        simp
        omega
      case isFalse =>
        refine (fractionDigits_padded (by decide) (by decide) (by omega) hend).trans ?_
        simp

/-- The written zone. -/
def zeroZone : List Char := ['+', '0', '0', ':', '0', '0']

theorem zone_zeroZone : zone? (char? ':') zeroZone = some (0, []) := by rfl

theorem relaxedZone_zeroZone : relaxedZone? (Text.skipBlank zeroZone) = some (0, []) := by rfl

/-! ## Dates and times -/

namespace Civil

/-- The fields of a valid date and time fit their written widths. -/
theorem bounds_of_isValid {c : Civil} (h : c.isValid = true) :
    c.date.year.natAbs < Nat.pow 2 63 ∧ (c.date.month < 100 ∧ c.date.day < 100) ∧
      (c.hour < 100 ∧ c.minute < 100 ∧ c.second < 100) ∧ c.nanos < secondNanos := by
  simp only [isValid, Bool.and_eq_true, decide_eq_true_eq] at h
  obtain ⟨⟨⟨⟨⟨⟨hdate, hlow⟩, hhigh⟩, hhour⟩, hminute⟩, hsecond⟩, hnanos⟩ := h
  obtain ⟨hmonth, hday⟩ := CalendarDate.bounds_of_isValid hdate
  refine ⟨?_, ⟨by omega, by omega⟩, ⟨by omega, by omega, by omega⟩, hnanos⟩
  norm_num
  omega

end Civil

variable {c : Civil}

/-- A reader that succeeds hands its result on. -/
theorem bind_of_eq_some {α β : Type} {o : Option α} {a : α} {f : α → Option β} (h : o = some a) :
    (o >>= f) = f a := by
  rw [h]
  rfl

theorem char_cons (c : Char) (rest : List Char) : char? c (c :: rest) = some rest := if_pos rfl

theorem char_skipBlank {c : Char} (h : Text.isBlank c = false) (rest : List Char) :
    char? c (Text.skipBlank (c :: rest)) = some rest := by
  rw [skipBlank_cons h, char_cons]

/-- Date and time in front of a zone, field by field. -/
theorem civilChars_append (c : Civil) (rest : List Char) :
    civilChars c ++ rest = yearChars c.date.year ++ '-' :: (padded 2 c.date.month ++
      '-' :: (padded 2 c.date.day ++ 'T' :: (padded 2 c.hour ++ ':' :: (padded 2 c.minute ++
        ':' :: (padded 2 c.second ++ (fractionChars c.nanos ++ rest)))))) := by
  simp only [civilChars, List.append_assoc, List.cons_append]

theorem toList_text (t : Instant) : t.text.toList = civilChars t.toCivil ++ zeroZone := by
  rw [text, String.toList_ofList]
  rfl

/-- A written date and time of a year of four digits is read back. -/
theorem rfc3339_civilChars {s : String} (hs : s.toList = civilChars c ++ zeroZone)
    (h : c.isValid = true) (hyear : 0 ≤ c.date.year ∧ c.date.year ≤ 9999) :
    rfc3339? s = ofCivil? c 0 := by
  obtain ⟨-, ⟨hmonth, hday⟩, ⟨hhour, hminute, hsecond⟩, hnanos⟩ := Civil.bounds_of_isValid h
  have hread : ∀ rest, number? 4 4 (yearChars c.date.year ++ rest) =
      some (c.date.year.toNat, rest) := by
    intro rest
    rw [yearChars, if_pos hyear]
    exact number_padded (by decide) (by decide) (by decide) (by omega) rest
  have htoNat : (c.date.year.toNat : Int) = c.date.year := Int.toNat_of_nonneg hyear.1
  have hfraction : fraction? (fractionChars c.nanos ++ zeroZone) = some (c.nanos, zeroZone) :=
    fraction_fractionChars hnanos _
  rw [rfc3339?, hs, civilChars_append]
  refine (bind_of_eq_some (hread _)).trans ?_
  refine (bind_of_eq_some (char_cons '-' _)).trans ?_
  refine (bind_of_eq_some (twoDigits_padded hmonth _)).trans ?_
  refine (bind_of_eq_some (char_cons '-' _)).trans ?_
  refine (bind_of_eq_some (twoDigits_padded hday _)).trans ?_
  refine (if_pos (Or.inl rfl)).trans ?_
  refine (bind_of_eq_some rfl).trans ?_
  refine (bind_of_eq_some (twoDigits_padded hhour _)).trans ?_
  refine (bind_of_eq_some (char_cons ':' _)).trans ?_
  refine (bind_of_eq_some (twoDigits_padded hminute _)).trans ?_
  refine (bind_of_eq_some (char_cons ':' _)).trans ?_
  refine (bind_of_eq_some (twoDigits_padded hsecond _)).trans ?_
  refine (bind_of_eq_some hfraction).trans ?_
  refine (bind_of_eq_some zone_zeroZone).trans ?_
  refine (if_pos ⟨rfl, by decide⟩).trans ?_
  rw [htoNat]

/-- No other year is read by the format with four digits. -/
theorem rfc3339_civilChars_eq_none {s : String} {rest : List Char}
    (hs : s.toList = civilChars c ++ rest)
    (hyear : ¬(0 ≤ c.date.year ∧ c.date.year ≤ 9999)) : rfc3339? s = none := by
  have hread : ∀ rest, number? 4 4 (yearChars c.date.year ++ rest) = none := by
    intro rest
    rw [yearChars, if_neg hyear]
    split <;> rfl
  rw [rfc3339?, hs, civilChars_append]
  rw [hread]
  rfl

/-- A format without a zone has no place for the letter in front of the time. -/
theorem plain_civilChars {s : String} {rest : List Char} (hs : s.toList = civilChars c ++ rest)
    (h : c.isValid = true) : plain? s = none := by
  obtain ⟨hyear, ⟨hmonth, hday⟩, -⟩ := Civil.bounds_of_isValid h
  have hletter : ∀ rest, looseNumber? ('T' :: rest) = none := by
    intro rest
    rw [looseNumber?, skipBlank_cons (by decide)]
    rfl
  rw [plain?, hs, civilChars_append]
  refine (bind_of_eq_some (year_yearChars hyear _)).trans ?_
  refine (bind_of_eq_some (char_cons '-' _)).trans ?_
  refine (bind_of_eq_some (looseNumber_padded hmonth _)).trans ?_
  refine (bind_of_eq_some (char_cons '-' _)).trans ?_
  refine (bind_of_eq_some (looseNumber_padded hday _)).trans ?_
  change (looseNumber? ('T' :: _) >>= _) = none
  rw [hletter]
  rfl

/-- The relaxed format reads every written date and time back. -/
theorem relaxed_civilChars {s : String} (hs : s.toList = civilChars c ++ zeroZone)
    (h : c.isValid = true) : relaxed? s = ofCivil? c 0 := by
  obtain ⟨hyear, ⟨hmonth, hday⟩, ⟨hhour, hminute, hsecond⟩, hnanos⟩ := Civil.bounds_of_isValid h
  have hfraction : fraction? (fractionChars c.nanos ++ zeroZone) = some (c.nanos, zeroZone) :=
    fraction_fractionChars hnanos _
  have hdash : Text.isBlank '-' = false := by decide
  have hcolon : Text.isBlank ':' = false := by decide
  rw [relaxed?, hs, civilChars_append]
  refine (bind_of_eq_some (year_yearChars hyear _)).trans ?_
  refine (bind_of_eq_some (char_skipBlank hdash _)).trans ?_
  refine (bind_of_eq_some (looseNumber_padded hmonth _)).trans ?_
  refine (bind_of_eq_some (char_skipBlank hdash _)).trans ?_
  refine (bind_of_eq_some (looseNumber_padded hday _)).trans ?_
  refine (if_pos (Or.inl rfl)).trans ?_
  refine (bind_of_eq_some rfl).trans ?_
  refine (bind_of_eq_some (looseNumber_padded hhour _)).trans ?_
  refine (bind_of_eq_some (char_skipBlank hcolon _)).trans ?_
  refine (bind_of_eq_some (looseNumber_padded hminute _)).trans ?_
  refine (bind_of_eq_some (char_skipBlank hcolon _)).trans ?_
  refine (bind_of_eq_some (looseNumber_padded hsecond _)).trans ?_
  refine (bind_of_eq_some hfraction).trans ?_
  refine (bind_of_eq_some relaxedZone_zeroZone).trans ?_
  exact if_pos ⟨rfl, by decide⟩

/-! ## Instants -/

/-- A point in time that can be represented: the supported range of seconds, and up to a second more
than the seconds say, also inside a minute, where no leap second is. -/
def IsTimestamp (t : Instant) : Prop :=
  minSeconds ≤ t.seconds ∧ t.seconds ≤ maxSeconds ∧ t.nanos < 2 * secondNanos

instance (t : Instant) : Decidable (t.IsTimestamp) := by
  unfold IsTimestamp
  infer_instance

/-- The instant that a date and time shows: inside a minute, a leap second is not told from the
second after it. -/
def shown (t : Instant) : Instant :=
  if secondNanos ≤ t.nanos ∧ t.seconds % 60 ≠ 59 then ⟨t.seconds + 1, t.nanos - secondNanos⟩ else t

variable {t u : Instant}

theorem shown_eq_self_iff : t.shown = t ↔ t.nanos < secondNanos ∨ t.seconds % 60 = 59 := by
  unfold shown
  split
  case isTrue h =>
    refine iff_of_false (fun heq => ?_) (by omega)
    have := congrArg Instant.seconds heq
    simp at this
  case isFalse h => exact iff_of_true rfl (by omega)

/-- A valid instant shows itself. -/
theorem shown_of_isValid (h : t.isValid = true) : t.shown = t := by
  rw [shown_eq_self_iff]
  simp only [isValid, Bool.and_eq_true, Bool.or_eq_true, decide_eq_true_eq, beq_iff_eq] at h
  omega

/-- A valid instant is a point in time. -/
theorem isTimestamp_of_isValid (h : t.isValid = true) : t.IsTimestamp := by
  simp only [isValid, Bool.and_eq_true, Bool.or_eq_true, decide_eq_true_eq, beq_iff_eq] at h
  have : secondNanos = 1000000000 := rfl
  exact ⟨h.1.1, h.1.2, by omega⟩

/-- The date and time of a point in time is valid. -/
theorem isValid_toCivil (h : t.IsTimestamp) : t.toCivil.isValid = true := by
  obtain ⟨hmin, hmax, hnanos⟩ := h
  simp only [minSeconds, maxSeconds, daySeconds] at hmin hmax
  have hunit : secondNanos = 1000000000 := rfl
  have hdate := CalendarDate.isValid_ofDays (t.seconds / 86400)
  have hdays := CalendarDate.toDays_ofDays (t.seconds / 86400)
  have hlow : -262143 ≤ (CalendarDate.ofDays (t.seconds / 86400)).year :=
    CalendarDate.le_year_of_le_toDays hdate (by omega)
  have hhigh : (CalendarDate.ofDays (t.seconds / 86400)).year ≤ 262142 :=
    CalendarDate.year_le_of_toDays_le hdate (by omega)
  simp only [Civil.isValid, Bool.and_eq_true, decide_eq_true_eq]
  simp only [toCivil, daySeconds, decide_eq_true_eq]
  refine ⟨⟨⟨⟨⟨⟨hdate, hlow⟩, hhigh⟩, by omega⟩, by omega⟩, ?_⟩, ?_⟩
  all_goals split <;> omega

/-- The date and time of a point in time is that of the instant that it shows. -/
theorem ofCivil_toCivil (h : t.IsTimestamp) : ofCivil? t.toCivil 0 = some t.shown := by
  have hvalid := isValid_toCivil h
  have hdays := CalendarDate.toDays_ofDays (t.seconds / 86400)
  obtain ⟨hmin, hmax, hnanos⟩ := h
  have hmax59 : maxSeconds % 60 = 59 := by decide
  have hunit : secondNanos = 1000000000 := rfl
  have hsecond : (t.seconds % 86400).toNat % 60 = (t.seconds % 60).toNat := by omega
  rw [ofCivil?, hvalid]
  simp only [Bool.not_true, Bool.false_eq_true, if_false]
  simp only [toCivil, daySeconds, hdays, hsecond, decide_eq_true_eq, beq_iff_eq]
  unfold shown
  obtain ⟨seconds, nanos⟩ := t
  dsimp only at hmin hmax hnanos ⊢
  by_cases hleap : secondNanos ≤ nanos
  · by_cases hend : seconds % 60 = 59
    · simp [hleap, hend]
      omega
    · simp [hleap, hend]
      omega
  · simp [hleap]
    omega

/-- An instant and what it shows have the same date and time. -/
theorem toCivil_shown (h : t.IsTimestamp) : t.shown.toCivil = t.toCivil := by
  obtain ⟨-, -, hnanos⟩ := h
  unfold shown
  split
  case isFalse => rfl
  case isTrue hinside =>
    obtain ⟨hleap, hend⟩ := hinside
    have hdays : (t.seconds + 1) / 86400 = t.seconds / 86400 := by omega
    have hsecond : ((t.seconds + 1) % 86400).toNat = (t.seconds % 86400).toNat + 1 := by omega
    have hminute : (t.seconds % 86400).toNat % 60 ≠ 59 := by omega
    have hnone : ¬secondNanos ≤ t.nanos - secondNanos := by omega
    simp only [toCivil, daySeconds, hdays, hsecond, hleap, hnone, decide_true, decide_false,
      if_true, Civil.mk.injEq, true_and]
    simp
    omega

/-- The relaxed reader reads every written instant back. -/
theorem relaxed_text (h : t.IsTimestamp) : relaxed? t.text = some t.shown := by
  rw [relaxed_civilChars t.toList_text (isValid_toCivil h), ofCivil_toCivil h]

/-- The reader of columns reads a written instant back if its year has four digits, and no other. -/
theorem parse_text (h : t.IsTimestamp) :
    parse? t.text = if 0 ≤ t.toCivil.date.year ∧ t.toCivil.date.year ≤ 9999 then some t.shown
      else none := by
  have hvalid := isValid_toCivil h
  rw [parse?, plain_civilChars t.toList_text hvalid, Option.or_none]
  split
  case isTrue hyear => rw [rfc3339_civilChars t.toList_text hvalid hyear, ofCivil_toCivil h]
  case isFalse hyear => exact rfc3339_civilChars_eq_none t.toList_text hyear

/-- Instants are written alike if and only if they show the same instant. -/
theorem text_eq_text_iff (ht : t.IsTimestamp) (hu : u.IsTimestamp) :
    t.text = u.text ↔ t.shown = u.shown := by
  constructor
  · intro h
    have hread := relaxed_text ht
    rw [h, relaxed_text hu] at hread
    exact (Option.some.inj hread).symm
  · intro h
    rw [text, text, ← toCivil_shown ht, ← toCivil_shown hu, h]

/-- A column of times reads a bound instant back if the year has four digits, and refuses it
otherwise. -/
theorem coerce_stored (h : t.IsTimestamp) :
    (Value.time t).stored.value.coerce .time =
      if 0 ≤ t.toCivil.date.year ∧ t.toCivil.date.year ≤ 9999 then .ok (.time t.shown)
      else .error (.time t.text) := by
  have hread : (Value.time t).stored.value.coerce .time =
      Value.orError (.time t.text) ((parse? t.text).map .time) := rfl
  rw [hread, parse_text h]
  split <;> rfl

/-- An instant is bound as its text, which is its key and its form in a document too. A column of
times reads the text back if the year has four digits, and refuses it otherwise. What is read is the
instant, but for a leap second inside a minute, which is written as the second after it: instants
have the same text if and only if they show the same instant. -/
theorem read_back_iff_four_digits (ht : t.IsTimestamp) (hu : u.IsTimestamp) :
    ((Value.time t).stored = .text t.text ∧ (Value.time t).key? = some (.text t.text) ∧
        (Value.time t).toJson = .string t.text) ∧
      ((Value.time t).stored.value.coerce .time =
        if 0 ≤ t.toCivil.date.year ∧ t.toCivil.date.year ≤ 9999 then .ok (.time t.shown)
        else .error (.time t.text)) ∧
      (t.text = u.text ↔ t.shown = u.shown) ∧
      (t.shown = t ↔ t.nanos < secondNanos ∨ t.seconds % 60 = 59) :=
  ⟨⟨rfl, rfl, rfl⟩, coerce_stored ht, text_eq_text_iff ht hu, shown_eq_self_iff⟩

/-- The leap second at the end of 2016 is read back, and the second after it has another text. -/
theorem leap_second_read_back :
    IsTimestamp ⟨1483228799, 1500000000⟩ ∧ IsTimestamp ⟨1483228800, 500000000⟩ ∧
      (Value.time ⟨1483228799, 1500000000⟩).stored.value.coerce .time =
        .ok (.time ⟨1483228799, 1500000000⟩) ∧
      text ⟨1483228799, 1500000000⟩ ≠ text ⟨1483228800, 500000000⟩ := by
  have ht : IsTimestamp ⟨1483228799, 1500000000⟩ := by decide
  have hu : IsTimestamp ⟨1483228800, 500000000⟩ := by decide
  obtain ⟨-, hread, htext, -⟩ := read_back_iff_four_digits ht hu
  have hyear : 0 ≤ (toCivil ⟨1483228799, 1500000000⟩).date.year ∧
      (toCivil ⟨1483228799, 1500000000⟩).date.year ≤ 9999 := by decide
  have hshown : shown ⟨1483228799, 1500000000⟩ = ⟨1483228799, 1500000000⟩ :=
    shown_of_isValid (by decide)
  rw [if_pos hyear, hshown] at hread
  exact ⟨ht, hu, hread, fun h => absurd (htext.1 h) (by decide)⟩

/-- The first second of the year 10000 is an instant that a column takes, and that it does not read
back. -/
theorem year_ten_thousand_lost :
    isValid ⟨253402300800, 0⟩ = true ∧ FieldType.time.accepts (.time ⟨253402300800, 0⟩) = true ∧
      (Value.time ⟨253402300800, 0⟩).stored.value.coerce .time ≠
        .ok (.time ⟨253402300800, 0⟩) := by
  have hvalid : isValid ⟨253402300800, 0⟩ = true := by decide
  refine ⟨hvalid, rfl, ?_⟩
  have hread := coerce_stored (isTimestamp_of_isValid hvalid)
  rw [if_neg (by decide)] at hread
  rw [hread]
  intro h
  cases h

end EntityGraph.Instant
