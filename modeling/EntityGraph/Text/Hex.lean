/-!
# Hexadecimal digits

Single digits in both cases, and bytes as pairs of digits, the high digit first.
-/

set_option autoImplicit false

namespace EntityGraph.Text

/-- The value of a hexadecimal digit of either case. -/
def hexValue? (c : Char) : Option Nat :=
  if '0' ≤ c ∧ c ≤ '9' then some (c.toNat - '0'.toNat)
  else if 'a' ≤ c ∧ c ≤ 'f' then some (c.toNat - 'a'.toNat + 10)
  else if 'A' ≤ c ∧ c ≤ 'F' then some (c.toNat - 'A'.toNat + 10)
  else none

/-- The lower-case digit of a number below sixteen. -/
def hexDigit (n : Nat) : Char := Nat.digitChar (n % 16)

/-- The two digits of a byte. -/
def hexByte (b : UInt8) : List Char := [hexDigit (b.toNat / 16), hexDigit b.toNat]

/-- The number that a list of hexadecimal digits writes, from an accumulated high part. -/
def hexNat? (high : Nat) : List Char → Option Nat
  | [] => some high
  | c :: rest => do
    let d ← hexValue? c
    hexNat? (16 * high + d) rest

/-- The bytes that a list of hexadecimal digits writes, two digits a byte. -/
def hexBytes? : List Char → Option (List UInt8)
  | [] => some []
  | [_] => none
  | a :: b :: rest => do
    let high ← hexValue? a
    let low ← hexValue? b
    let bytes ← hexBytes? rest
    pure (UInt8.ofNat (16 * high + low) :: bytes)

/-- The digits of a list of bytes. -/
def hexOfBytes (bs : List UInt8) : String := String.ofList (bs.flatMap hexByte)

end EntityGraph.Text
