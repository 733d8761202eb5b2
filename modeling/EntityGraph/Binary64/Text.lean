import EntityGraph.Binary64.Shortest

/-!
# Two written forms of a number

`Binary64.plainText` is the form in messages and keys: positional at any size, without a point
for integers. `Binary64.jsonText` is the form in documents: a point in every number, and an
exponent for numbers that are very large or very small.
-/

set_option autoImplicit false

namespace EntityGraph

namespace Decimal

/-- The digits as characters. -/
def digitChars (d : Decimal) : List Char := Nat.toDigits 10 d.digits

/-- The place of the point: the number of digits before it, zero or less if the decimal is below
one tenth of a unit. -/
def point (d : Decimal) : Int := (d.digitChars.length : Int) + d.exponent

/-- The positional form, without a point for integers. -/
def positional (d : Decimal) : List Char :=
  let cs := d.digitChars
  let k := d.point
  if k ≤ 0 then '0' :: '.' :: (List.replicate (-k).toNat '0' ++ cs)
  else if cs.length ≤ k.toNat then cs ++ List.replicate (k.toNat - cs.length) '0'
  else cs.take k.toNat ++ '.' :: cs.drop k.toNat

/-- The form with one digit before the point and a signed exponent. -/
def scientific (d : Decimal) : List Char :=
  let e := d.point - 1
  let sign := if 0 ≤ e then '+' else '-'
  let mantissa := match d.digitChars with
    | [] => []
    | [c] => [c]
    | c :: rest => c :: '.' :: rest
  mantissa ++ 'e' :: sign :: Nat.toDigits 10 e.natAbs

end Decimal

namespace Binary64

/-- A leading minus sign. -/
def signChars (x : Binary64) : List Char := if x.isNegative then ['-'] else []

/-- The form in messages and keys. Of two equally near shortest decimals the larger is taken. -/
def plainText (x : Binary64) : String :=
  if x.isNaN then "NaN"
  else if x.isInfinite then String.ofList (x.signChars ++ "inf".toList)
  else String.ofList (x.signChars ++ (x.shortest .up).positional)

/-- The form of a finite number in documents: positional while the exponent of the leading digit
is in -5 to 15. Of two equally near shortest decimals the even one is taken. -/
def jsonText (x : Binary64) : String :=
  let d := x.shortest .even
  let e := d.point - 1
  let body :=
    if d.digits = 0 ∨ (-5 ≤ e ∧ e ≤ 15) then
      let cs := d.positional
      if cs.contains '.' then cs else cs ++ ['.', '0']
    else d.scientific
  String.ofList (x.signChars ++ body)

end Binary64

end EntityGraph
