/-!
# Double precision numbers by their bits

A number is its 64 bits, so that equality is decidable and lawful; what the bits mean is read off
them in exact integer arithmetic. `Binary64.ofRatio` rounds a ratio of natural numbers to the
nearest number, a tie to the even significand, and every other operation is defined through it.
-/

set_option autoImplicit false

namespace EntityGraph

/-- A double precision number: sign, eleven bits of exponent, fifty-two bits of fraction. -/
structure Binary64 where
  bits : UInt64
deriving DecidableEq, Repr, Inhabited

namespace Binary64

/-- The sign bit is set. -/
def isNegative (x : Binary64) : Bool := Nat.pow 2 63 ≤ x.bits.toNat

/-- The exponent field, from 0 to 2047. -/
def exponentField (x : Binary64) : Nat := x.bits.toNat / Nat.pow 2 52 % Nat.pow 2 11

/-- The fraction field. -/
def fractionField (x : Binary64) : Nat := x.bits.toNat % Nat.pow 2 52

/-- Not a number: the largest exponent field with a fraction. -/
def isNaN (x : Binary64) : Bool := x.exponentField == 2047 && x.fractionField != 0

/-- Infinite: the largest exponent field without a fraction. -/
def isInfinite (x : Binary64) : Bool := x.exponentField == 2047 && x.fractionField == 0

/-- Neither infinite nor not a number. -/
def isFinite (x : Binary64) : Bool := x.exponentField != 2047

/-- The integer significand of a finite number. -/
def significand (x : Binary64) : Nat :=
  if x.exponentField = 0 then x.fractionField else Nat.pow 2 52 + x.fractionField

/-- The power of two that scales the significand of a finite number. -/
def exponent (x : Binary64) : Int := (max x.exponentField 1 : Nat) - 1075

/-- Positive or negative zero. -/
def isZero (x : Binary64) : Bool := x.exponentField == 0 && x.fractionField == 0

/-- The magnitude of a finite number as numerator and denominator. -/
def ratio (x : Binary64) : Nat × Nat :=
  (x.significand * Nat.pow 2 x.exponent.toNat, Nat.pow 2 (-x.exponent).toNat)

/-- The bits of a sign. -/
def signBits (negative : Bool) : Nat := if negative then Nat.pow 2 63 else 0

/-- The number with this sign and this magnitude in bits. -/
def ofFields (negative : Bool) (magnitude : Nat) : Binary64 :=
  ⟨UInt64.ofNat (signBits negative + magnitude)⟩

/-- Zero with a sign. -/
def zero (negative : Bool) : Binary64 := ofFields negative 0

/-- Infinity with a sign. -/
def infinity (negative : Bool) : Binary64 := ofFields negative (2047 * Nat.pow 2 52)

/-- The quiet number that stands for all that are not a number. -/
def nan : Binary64 := ofFields false (2047 * Nat.pow 2 52 + Nat.pow 2 51)

/-- The integer nearest to `num / den`, a tie to the even one. -/
def roundHalfEven (num den : Nat) : Nat :=
  let q := num / den
  let r := num % den
  if 2 * r < den then q
  else if den < 2 * r then q + 1
  else if q % 2 = 0 then q else q + 1

/-- The power of two at which `num / den` has fifty-three bits before the point, but never below
the smallest one. -/
def scaleOf (num den : Nat) : Int :=
  let guess : Int := (Nat.log2 num : Int) - Nat.log2 den - 52
  let short := num * Nat.pow 2 (-guess).toNat < Nat.pow 2 52 * (den * Nat.pow 2 guess.toNat)
  let e := if short then guess - 1 else guess
  max e (-1074)

/-- The number nearest to `num / den` with the given sign, a tie to the even significand. What
would need an exponent above the largest becomes infinite. -/
def ofRatio (negative : Bool) (num den : Nat) : Binary64 :=
  if num = 0 then zero negative
  else
    let e := scaleOf num den
    let m := roundHalfEven (num * Nat.pow 2 (-e).toNat) (den * Nat.pow 2 e.toNat)
    let magnitude := if m < Nat.pow 2 52 then m else (e + 1074).toNat * Nat.pow 2 52 + m
    if 2047 * Nat.pow 2 52 ≤ magnitude then infinity negative else ofFields negative magnitude

/-- The number nearest to an integer. -/
def ofInt (i : Int) : Binary64 := ofRatio (decide (i < 0)) i.natAbs 1

/-- A single precision number, given by its 32 bits, in double precision. -/
def ofBinary32 (word : UInt32) : Binary64 :=
  let n := word.toNat
  let negative := decide (Nat.pow 2 31 ≤ n)
  let field := n / Nat.pow 2 23 % Nat.pow 2 8
  let fraction := n % Nat.pow 2 23
  if field = 255 then (if fraction = 0 then infinity negative else nan)
  else
    let m := if field = 0 then fraction else Nat.pow 2 23 + fraction
    let e : Int := (max field 1 : Nat) - 150
    ofRatio negative (m * Nat.pow 2 e.toNat) (Nat.pow 2 (-e).toNat)

/-- The product of a finite number and a ratio, rounded once. -/
def scale (x : Binary64) (num den : Nat) : Binary64 :=
  ofRatio x.isNegative (x.ratio.1 * num) (x.ratio.2 * den)

/-- The number with the opposite sign. -/
def negate (x : Binary64) : Binary64 :=
  ofFields (!x.isNegative) (x.bits.toNat % Nat.pow 2 63)

/-- A finite number without a fractional part. -/
def isIntegral (x : Binary64) : Bool := x.isFinite && x.ratio.1 % x.ratio.2 == 0

/-- The integer part, kept within the 64-bit integers; zero for what is not a number. -/
def toInt64 (x : Binary64) : Int64 :=
  if x.isNaN then 0
  else if x.isInfinite then (if x.isNegative then Int64.minValue else Int64.maxValue)
  else
    let n := x.ratio.1 / x.ratio.2
    if x.isNegative then (if Nat.pow 2 63 ≤ n then Int64.minValue else Int64.ofInt (-(n : Int)))
    else if Nat.pow 2 63 ≤ n then Int64.maxValue else Int64.ofInt n

/-- Numeric equality: both zeros are equal, and what is not a number equals nothing. -/
def equals (x y : Binary64) : Bool :=
  !x.isNaN && !y.isNaN && (x == y || x.isZero && y.isZero)

end Binary64

end EntityGraph
