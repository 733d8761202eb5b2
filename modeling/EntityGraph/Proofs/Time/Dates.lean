import EntityGraph.Time.Calendar
import Mathlib.Tactic.IntervalCases

/-!
# Dates of days

A day's number is taken apart into cycles of 400 years, centuries, groups of four years, years and
days, where years start in March (`DayParts`). The parts say which date the day has, so every day
has a date of the calendar, and the date has the day's number (`toDays_ofDays`).
-/

set_option autoImplicit false

namespace EntityGraph.CalendarDate

/-- A day's number in parts. The last century of a cycle has a day more than the other ones, and so
has the last year of a group, unless the group ends with a century that has no such day. -/
structure DayParts where
  cycle : Int
  century : Int
  group : Int
  year : Int
  rest : Int
  century_nonneg : 0 ≤ century
  century_le : century ≤ 3
  group_nonneg : 0 ≤ group
  group_le : group ≤ 24
  year_nonneg : 0 ≤ year
  year_le : year ≤ 3
  rest_nonneg : 0 ≤ rest
  rest_le : rest ≤ 365
  leap : rest = 365 → year = 3 ∧ (group = 24 → century = 3)

namespace DayParts

/-- The day of the cycle. -/
def dayOfCycle (p : DayParts) : Int := 36524 * p.century + 1461 * p.group + 365 * p.year + p.rest

/-- The year of the cycle. -/
def yearOfCycle (p : DayParts) : Int := 100 * p.century + 4 * p.group + p.year

/-- The day's number. -/
def days (p : DayParts) : Int := 146097 * p.cycle + p.dayOfCycle - 719468

/-- The month, counted from March. -/
def month (p : DayParts) : Int := (5 * p.rest + 2) / 153

/-- The day of the month. -/
def day (p : DayParts) : Int := p.rest - (153 * p.month + 2) / 5 + 1

/-- The date: January and February belong to the year that starts in the March before. -/
def date (p : DayParts) : CalendarDate :=
  let year := 400 * p.cycle + p.yearOfCycle
  if p.month < 10 then ⟨year, (p.month + 3).toNat, p.day.toNat⟩
  else ⟨year + 1, (p.month - 9).toNat, p.day.toNat⟩

theorem exists_days_eq (n : Int) : ∃ p : DayParts, p.days = n := by
  let dayOfCycle := (n + 719468) % 146097
  let century := min (dayOfCycle / 36524) 3
  let group := (dayOfCycle - 36524 * century) / 1461
  let year := min ((dayOfCycle - 36524 * century) % 1461 / 365) 3
  refine ⟨⟨(n + 719468) / 146097, century, group, year,
    (dayOfCycle - 36524 * century) % 1461 - 365 * year, by omega, by omega, by omega, by omega,
    by omega, by omega, by omega, by omega, by omega⟩, ?_⟩
  simp only [days, DayParts.dayOfCycle]
  omega

theorem dayOfCycle_bounds (p : DayParts) : 0 ≤ p.dayOfCycle ∧ p.dayOfCycle < 146097 := by
  obtain ⟨_, century, group, year, rest, _, _, _, _, _, _, _, _, _⟩ := p
  simp only [dayOfCycle]
  omega

theorem yearOfCycle_of_day (p : DayParts) :
    (p.dayOfCycle - p.dayOfCycle / 1460 + p.dayOfCycle / 36524 - p.dayOfCycle / 146096) / 365 =
      p.yearOfCycle := by
  obtain ⟨_, century, group, year, rest, _, _, _, _, _, _, _, _, hleap⟩ := p
  simp only [dayOfCycle, yearOfCycle]
  generalize hday : 36524 * century + 1461 * group + 365 * year + rest = day
  -- the centuries leave over no day but the last one of the cycle
  have hcenturies : day / 36524 - day / 146096 = century := by
    obtain ⟨r, hr⟩ : ∃ r, r = 1461 * group + 365 * year + rest := ⟨_, rfl⟩
    obtain hlt | ⟨rfl, hlast⟩ : r ≤ 36523 ∨ (century = 3 ∧ r = 36524) := by omega
    · have h0 : day / 146096 = 0 := by omega
      have h1 : day / 36524 = century := by omega
      omega
    · omega
  -- a day is lost for each group of four years, and one more at the end of the last year
  have hgroups : (day / 1460 = 25 * century + group ∧ rest ≤ 364) ∨
      (day / 1460 = 25 * century + group + 1 ∧ 1 ≤ rest) := by
    obtain ⟨s, hs⟩ : ∃ s, s = 24 * century + group + 365 * year + rest := ⟨_, rfl⟩
    obtain hlt | hge : s < 1460 ∨ 1460 ≤ s := by omega
    · exact .inl ⟨by omega, by omega⟩
    · exact .inr ⟨by omega, by omega⟩
  omega

theorem daysBeforeYear_yearOfCycle (p : DayParts) :
    daysBeforeYear p.yearOfCycle = p.dayOfCycle - p.rest := by
  obtain ⟨_, century, group, year, rest, _, _, _, _, _, _, _, _, _⟩ := p
  simp only [dayOfCycle, yearOfCycle, daysBeforeYear]
  omega

theorem month_bounds (p : DayParts) : 0 ≤ p.month ∧ p.month ≤ 11 := by
  have := p.rest_nonneg
  have := p.rest_le
  simp only [month]
  omega

theorem ofDays_days (p : DayParts) : ofDays p.days = p.date := by
  have hbounds := p.dayOfCycle_bounds
  have hshifted : p.days + 719468 = 146097 * p.cycle + p.dayOfCycle := by
    simp only [days]
    omega
  have hcycle : (p.days + 719468) / 146097 = p.cycle := by omega
  have hday : (p.days + 719468) % 146097 = p.dayOfCycle := by omega
  have hrest : p.dayOfCycle - daysBeforeYear p.yearOfCycle = p.rest := by
    rw [daysBeforeYear_yearOfCycle]
    omega
  have hmonth := p.month_bounds
  simp only [ofDays, hcycle, hday, yearOfCycle_of_day, hrest]
  change (⟨if (if p.month < 10 then p.month + 3 else p.month - 9) ≤ 2 then _ else _,
    (if p.month < 10 then p.month + 3 else p.month - 9).toNat, p.day.toNat⟩ : CalendarDate) = _
  unfold date
  split
  case isTrue h => rw [if_neg (by omega), Int.add_comm]
  case isFalse h => rw [if_pos (by omega), Int.add_comm p.yearOfCycle]

theorem day_pos (p : DayParts) : 1 ≤ p.day := by
  have := p.rest_nonneg
  simp only [day, month]
  omega

theorem yearOfCycle_bounds (p : DayParts) : 0 ≤ p.yearOfCycle ∧ p.yearOfCycle ≤ 399 := by
  obtain ⟨_, century, group, year, rest, _, _, _, _, _, _, _, _, _⟩ := p
  simp only [yearOfCycle]
  omega

theorem toDays_date (p : DayParts) : p.date.toDays = p.days := by
  have hmonth := p.month_bounds
  have hpos := p.day_pos
  have hyear := p.yearOfCycle_bounds
  have hcycle : (400 * p.cycle + p.yearOfCycle) / 400 = p.cycle := by omega
  have hrest : (400 * p.cycle + p.yearOfCycle) % 400 = p.yearOfCycle := by omega
  have hday : p.day = p.rest - (153 * p.month + 2) / 5 + 1 := rfl
  have hdays : p.days = 146097 * p.cycle + p.dayOfCycle - 719468 := rfl
  unfold date
  dsimp only
  split
  case isTrue h =>
    have hm : ¬(p.month + 3).toNat ≤ 2 := by omega
    simp only [toDays, if_neg hm, hcycle, hrest, daysBeforeYear_yearOfCycle]
    omega
  case isFalse h =>
    have hm : (p.month - 9).toNat ≤ 2 := by omega
    simp only [toDays, if_pos hm, Int.add_sub_cancel, hcycle, hrest, daysBeforeYear_yearOfCycle]
    omega

/-- The year that starts in the March before a leap day has 366 days. -/
theorem isLeapYear_of_rest {p : DayParts} (h : p.rest = 365) :
    isLeapYear (400 * p.cycle + p.yearOfCycle + 1) = true := by
  obtain ⟨cycle, century, group, year, rest, _, _, _, _, _, _, _, _, hleap⟩ := p
  simp only [yearOfCycle, isLeapYear, Bool.and_eq_true, Bool.or_eq_true, beq_iff_eq, bne_iff_ne]
  obtain ⟨hyear, hcentury⟩ := hleap h
  omega

theorem isValid_date (p : DayParts) : p.date.isValid = true := by
  have hpos := p.day_pos
  obtain ⟨h0, h11⟩ := p.month_bounds
  have hrest : 153 * p.month ≤ 5 * p.rest + 2 ∧ 5 * p.rest + 2 < 153 * (p.month + 1) := by
    simp only [month]
    omega
  have hday : p.day = p.rest - (153 * p.month + 2) / 5 + 1 := rfl
  unfold date
  dsimp only
  split
  case isTrue h =>
    simp only [isValid, Bool.and_eq_true, decide_eq_true_eq]
    refine ⟨by omega, ?_⟩
    generalize p.month = m at *
    interval_cases m <;> simp [daysInMonth] <;> omega
  case isFalse h =>
    -- January has 31 days, and February ends the year that starts in March
    have hle := p.rest_le
    have hleap := p.isLeapYear_of_rest
    simp only [isValid, Bool.and_eq_true, decide_eq_true_eq]
    refine ⟨by omega, ?_⟩
    obtain hm | hm : p.month = 10 ∨ p.month = 11 := by omega
    · simp [hm, daysInMonth] at *
      omega
    · rw [hm, daysInMonth, if_pos (by rfl)]
      split
      case isTrue => omega
      case isFalse hnot =>
        have hne : p.rest ≠ 365 := fun h => hnot (hleap h)
        omega

end DayParts

/-- The date of a day is a day of the calendar. -/
theorem isValid_ofDays (n : Int) : (ofDays n).isValid = true := by
  obtain ⟨p, rfl⟩ := DayParts.exists_days_eq n
  rw [p.ofDays_days, p.isValid_date]

/-- The date of a day has the day's number. -/
theorem toDays_ofDays (n : Int) : (ofDays n).toDays = n := by
  obtain ⟨p, rfl⟩ := DayParts.exists_days_eq n
  rw [p.ofDays_days, p.toDays_date]

theorem daysInMonth_bounds (year : Int) (month : Nat) :
    daysInMonth year month ≤ 31 ∧ (1 ≤ daysInMonth year month → 1 ≤ month ∧ month ≤ 12) := by
  unfold daysInMonth
  split_ifs <;> omega

/-- The fields of a day of the calendar are in their ranges. -/
theorem bounds_of_isValid {d : CalendarDate} (h : d.isValid = true) :
    (1 ≤ d.month ∧ d.month ≤ 12) ∧ 1 ≤ d.day ∧ d.day ≤ 31 := by
  obtain ⟨hle, hmonth⟩ := daysInMonth_bounds d.year d.month
  simp only [isValid, Bool.and_eq_true, decide_eq_true_eq] at h
  obtain ⟨hpos, hday⟩ := h
  exact ⟨hmonth (Nat.le_trans hpos hday), hpos, Nat.le_trans hday hle⟩

/-- A day up to the end of a year has a date of that year or of one before. -/
theorem year_le_of_toDays_le {d : CalendarDate} {year : Int} (h : d.isValid = true)
    (hle : d.toDays ≤ toDays ⟨year, 12, 31⟩) : d.year ≤ year := by
  have hbounds := bounds_of_isValid h
  simp only [toDays, daysBeforeYear] at hle
  split at hle
  all_goals
    simp at hle
    omega

/-- A day from the start of a year on has a date of that year or of one after. -/
theorem le_year_of_le_toDays {d : CalendarDate} {year : Int} (h : d.isValid = true)
    (hle : toDays ⟨year, 1, 1⟩ ≤ d.toDays) : year ≤ d.year := by
  have hbounds := bounds_of_isValid h
  simp only [toDays, daysBeforeYear] at hle
  split at hle
  all_goals
    simp at hle
    omega

end EntityGraph.CalendarDate
