import EntityGraph.Time.Instant

/-!
# The written form of an instant

Date and time in universal time as in RFC 3339, with three, six or nine digits of a second as
needed. A year outside 0 to 9999 has a sign.
-/

set_option autoImplicit false

namespace EntityGraph

namespace Instant

/-- The decimal digits of a number, filled with zeros to a width. -/
def padded (width n : Nat) : List Char :=
  let ds := Nat.toDigits 10 n
  List.replicate (width - ds.length) '0' ++ ds

/-- The year, with a sign outside 0 to 9999. -/
def yearChars (year : Int) : List Char :=
  if 0 ≤ year ∧ year ≤ 9999 then padded 4 year.toNat
  else (if year < 0 then '-' else '+') :: padded 4 year.natAbs

/-- The fraction of a second: nothing, or three, six or nine digits after a point. -/
def fractionChars (nanos : Nat) : List Char :=
  if nanos = 0 then []
  else if nanos % 1000000 = 0 then '.' :: padded 3 (nanos / 1000000)
  else if nanos % 1000 = 0 then '.' :: padded 6 (nanos / 1000)
  else '.' :: padded 9 nanos

/-- Date and time, without a zone. -/
def civilChars (c : Civil) : List Char :=
  yearChars c.date.year ++ '-' :: padded 2 c.date.month ++ '-' :: padded 2 c.date.day ++
    'T' :: padded 2 c.hour ++ ':' :: padded 2 c.minute ++ ':' :: padded 2 c.second ++
    fractionChars c.nanos

/-- The form in keys, messages and bound text: the zone is the offset zero. -/
def text (t : Instant) : String := String.ofList (civilChars t.toCivil ++ "+00:00".toList)

/-- The form in serialized values: the zone is `Z`. -/
def zuluText (t : Instant) : String := String.ofList (civilChars t.toCivil ++ ['Z'])

end Instant

end EntityGraph
