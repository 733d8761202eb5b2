import EntityGraph.Text.Blank
import EntityGraph.Time.Instant

/-!
# Reading an instant

Three forms are read: RFC 3339 (`rfc3339?`), date and time without a zone as databases write them
(`plain?`), and a relaxed form of the first one for serialized values (`relaxed?`). A reader of a
part gives what it read and what follows.
-/

set_option autoImplicit false

namespace EntityGraph

namespace Instant

/-- The number that decimal digits write. -/
def digitsValue (cs : List Char) : Nat :=
  cs.foldl (fun n c => 10 * n + (c.toNat - '0'.toNat)) 0

/-- A number of at least `low` and at most `high` digits. -/
def number? (low high : Nat) (cs : List Char) : Option (Nat × List Char) :=
  let ds := (cs.take high).takeWhile Char.isDigit
  if ds.length < low ∨ Nat.pow 2 63 ≤ digitsValue ds then none
  else some (digitsValue ds, cs.drop ds.length)

/-- A number of two digits. -/
def twoDigits? (cs : List Char) : Option (Nat × List Char) := number? 2 2 cs

/-- A number of one or two digits after optional white space. -/
def looseNumber? (cs : List Char) : Option (Nat × List Char) := number? 1 2 (Text.skipBlank cs)

/-- A given character. -/
def char? (c : Char) : List Char → Option (List Char)
  | [] => none
  | d :: rest => if c = d then some rest else none

/-- The digits of a fraction as nanoseconds; digits after the ninth are skipped. -/
def fractionDigits? (cs : List Char) : Option (Nat × List Char) :=
  let ds := cs.takeWhile Char.isDigit
  let kept := ds.take 9
  if ds = [] then none
  else some (digitsValue kept * Nat.pow 10 (9 - kept.length), cs.drop ds.length)

/-- An optional fraction of a second. -/
def fraction? : List Char → Option (Nat × List Char)
  | '.' :: rest => fractionDigits? rest
  | cs => some (0, cs)

/-- The offset of a zone in seconds: `Z`, or a sign, two digits of hours, the separator that
`separator?` skips, and two digits of minutes. -/
def zone? (separator? : List Char → Option (List Char)) : List Char → Option (Int × List Char)
  | [] => none
  | c :: rest =>
    if c = 'Z' ∨ c = 'z' then some (0, rest)
    else do
      let sign : Int ←
        if c = '+' then some 1 else if c = '-' ∨ c = '\u2212' then some (-1) else none
      let (hours, rest) ← twoDigits? rest
      let rest ← separator? rest
      let (minutes, rest) ← twoDigits? rest
      if minutes < 60 then pure (sign * (hours * 3600 + minutes * 60), rest) else none

/-- An offset names a zone if it is less than a day. -/
def isOffset (offset : Int) : Bool := -daySeconds < offset && offset < daySeconds

/-- Date and time with a zone, as RFC 3339 has it: two digits everywhere, four for the year, a
`T` or a space between date and time. -/
def rfc3339? (s : String) : Option Instant := do
  let (year, cs) ← number? 4 4 s.toList
  let cs ← char? '-' cs
  let (month, cs) ← twoDigits? cs
  let cs ← char? '-' cs
  let (day, cs) ← twoDigits? cs
  let cs ← match cs with
    | c :: rest => if c = 'T' ∨ c = 't' ∨ c = ' ' then some rest else none
    | [] => none
  let (hour, cs) ← twoDigits? cs
  let cs ← char? ':' cs
  let (minute, cs) ← twoDigits? cs
  let cs ← char? ':' cs
  let (second, cs) ← twoDigits? cs
  let (nanos, cs) ← fraction? cs
  let (offset, cs) ← zone? (char? ':') cs
  if cs = [] ∧ isOffset offset then
    ofCivil? ⟨⟨year, month, day⟩, hour, minute, second, nanos⟩ offset
  else none

/-- A year after optional white space: up to four digits, or a sign and any number of digits. -/
def year? (cs : List Char) : Option (Int × List Char) :=
  match Text.skipBlank cs with
  | '-' :: rest => (number? 1 rest.length rest).map fun (n, r) => (-(n : Int), r)
  | '+' :: rest => (number? 1 rest.length rest).map fun (n, r) => ((n : Int), r)
  | rest => (number? 1 4 rest).map fun (n, r) => ((n : Int), r)

/-- Date and time without a zone, in universal time. Numbers may have fewer digits and white space
before them, and any white space, even none, separates date and time. -/
def plain? (s : String) : Option Instant := do
  let (year, cs) ← year? s.toList
  let cs ← char? '-' cs
  let (month, cs) ← looseNumber? cs
  let cs ← char? '-' cs
  let (day, cs) ← looseNumber? cs
  let (hour, cs) ← looseNumber? cs
  let cs ← char? ':' cs
  let (minute, cs) ← looseNumber? cs
  let cs ← char? ':' cs
  let (second, cs) ← looseNumber? cs
  let (nanos, cs) ← fraction? cs
  if cs = [] then ofCivil? ⟨⟨year, month, day⟩, hour, minute, second, nanos⟩ 0 else none

/-- The zone of the relaxed form: also `UTC`, and colons and white space between hours and
minutes. -/
def relaxedZone? (cs : List Char) : Option (Int × List Char) :=
  if (cs.take 3).map Char.toUpper = ['U', 'T', 'C'] then some (0, cs.drop 3)
  else zone? (fun cs => some (cs.dropWhile fun c => c = ':' || Text.isBlank c)) cs

/-- Date and time with a zone as serialized values may have it: numbers may have fewer digits, and
white space may stand before numbers and separators. -/
def relaxed? (s : String) : Option Instant := do
  let (year, cs) ← year? s.toList
  let cs ← char? '-' (Text.skipBlank cs)
  let (month, cs) ← looseNumber? cs
  let cs ← char? '-' (Text.skipBlank cs)
  let (day, cs) ← looseNumber? cs
  let cs ← match cs with
    | c :: rest => if c = 'T' ∨ c = 't' ∨ c = ' ' then some rest else none
    | [] => none
  let (hour, cs) ← looseNumber? cs
  let cs ← char? ':' (Text.skipBlank cs)
  let (minute, cs) ← looseNumber? cs
  let cs ← char? ':' (Text.skipBlank cs)
  let (second, cs) ← looseNumber? cs
  let (nanos, cs) ← fraction? cs
  let (offset, cs) ← relaxedZone? (Text.skipBlank cs)
  if Text.skipBlank cs = [] ∧ isOffset offset then
    ofCivil? ⟨⟨year, month, day⟩, hour, minute, second, nanos⟩ offset
  else none

/-- Reads an instant from a column's text: RFC 3339, or else without a zone. -/
def parse? (s : String) : Option Instant := (rfc3339? s).or (plain? s)

end Instant

end EntityGraph
