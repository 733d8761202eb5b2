import EntityGraph.Time.Calendar

/-!
# Points in time

A point in time is a number of seconds since the start of 1970 in universal time, and a number of
nanoseconds after it. A leap second is the second before it with at least 10⁹ nanoseconds.
-/

set_option autoImplicit false

namespace EntityGraph

/-- A point in time. -/
structure Instant where
  seconds : Int
  nanos : Nat
deriving DecidableEq, Repr, Inhabited

namespace Instant

/-- The number of seconds of a day without leap seconds. -/
def daySeconds : Int := 86400

/-- One second in nanoseconds. -/
def secondNanos : Nat := 1000000000

/-- The first second that has a date, in the first year of the supported range. -/
def minSeconds : Int := CalendarDate.toDays ⟨-262143, 1, 1⟩ * daySeconds

/-- The last second that has a date, in the last year of the supported range. -/
def maxSeconds : Int := (CalendarDate.toDays ⟨262142, 12, 31⟩ + 1) * daySeconds - 1

/-- The instant lies in the supported range, and it is a leap second only at the end of a
minute. -/
def isValid (t : Instant) : Bool :=
  minSeconds ≤ t.seconds && t.seconds ≤ maxSeconds &&
    (t.nanos < secondNanos || (t.nanos < 2 * secondNanos && t.seconds % 60 == 59))

/-- A date, a time of day and a fraction of a second, where the second 60 is a leap second. -/
structure Civil where
  date : CalendarDate
  hour : Nat
  minute : Nat
  second : Nat
  nanos : Nat
deriving DecidableEq, Repr

/-- The date and time of an instant. -/
def toCivil (t : Instant) : Civil :=
  let second := (t.seconds % daySeconds).toNat
  let leap := decide (secondNanos ≤ t.nanos)
  { date := .ofDays (t.seconds / daySeconds)
    hour := second / 3600
    minute := second / 60 % 60
    second := second % 60 + (if leap then 1 else 0)
    nanos := if leap then t.nanos - secondNanos else t.nanos }

/-- The fields are in their ranges and the date is a day of the supported calendar. -/
def Civil.isValid (c : Civil) : Bool :=
  c.date.isValid && -262143 ≤ c.date.year && c.date.year ≤ 262142 &&
    c.hour ≤ 23 && c.minute ≤ 59 && c.second ≤ 60 && c.nanos < secondNanos

/-- The instant at which a clock that is `offset` seconds ahead of universal time shows a valid
date and time; none outside the supported range. -/
def ofCivil? (c : Civil) (offset : Int) : Option Instant :=
  if !c.isValid then none
  else
    let leap := c.second == 60
    let second : Int := if leap then 59 else c.second
    let seconds := c.date.toDays * daySeconds + c.hour * 3600 + c.minute * 60 + second - offset
    let nanos := if leap then c.nanos + secondNanos else c.nanos
    if minSeconds ≤ seconds ∧ seconds ≤ maxSeconds then some ⟨seconds, nanos⟩ else none

end Instant

end EntityGraph
