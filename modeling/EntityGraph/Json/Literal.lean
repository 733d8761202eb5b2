import EntityGraph.Json.Basic

/-!
# Numbers as they are written in a document

A literal keeps its digits. Its value is an integer if it has neither a fraction nor an exponent
and fits 64 bits. Any other literal is a real: its digits are collected in an unsigned 64-bit
significand, digits that no longer fit only move the point, and the significand is then scaled by
a power of ten, with one rounding for the significand, one for each power and one for each
scaling. A literal beyond the largest real has no value.
-/

set_option autoImplicit false

namespace EntityGraph

/-- The parts of a written number. -/
structure JsonLiteral where
  negative : Bool
  whole : List Char
  fraction : List Char
  /-- The sign (negative or not) and the digits of the exponent. -/
  exponent : Option (Bool × List Char)
deriving DecidableEq, Repr

namespace JsonLiteral

/-- The value of a decimal digit. -/
def digit (c : Char) : Nat := c.toNat - '0'.toNat

/-- A significand that can still take digits, with the power of ten that scales it. -/
structure Mantissa where
  significand : Nat
  power : Int

/-- The largest significand. -/
def significandMax : Nat := UInt64.size - 1

/-- Collects the digits before the point: once one does not fit, it and all that follow it only
raise the power. -/
def takeWhole (m : Mantissa) : List Char → Mantissa
  | [] => m
  | c :: rest =>
    let s := 10 * m.significand + digit c
    if significandMax < s then ⟨m.significand, m.power + (rest.length + 1 : Nat)⟩
    else takeWhole ⟨s, m.power⟩ rest

/-- Collects the digits after the point: once one does not fit, it and all that follow it are
dropped. -/
def takeFraction (m : Mantissa) : List Char → Mantissa
  | [] => m
  | c :: rest =>
    let s := 10 * m.significand + digit c
    if significandMax < s then m else takeFraction ⟨s, m.power - 1⟩ rest

/-- The mantissa of a literal, its exponent left aside. -/
def mantissa (l : JsonLiteral) : Mantissa := takeFraction (takeWhole ⟨0, 0⟩ l.whole) l.fraction

/-- The value of an exponent's digits. -/
def exponentValue (cs : List Char) : Nat := cs.foldl (fun n c => 10 * n + digit c) 0

/-- The largest exponent that is read as a number. -/
def exponentMax : Nat := 2147483647

/-- Ten to a power of at most 308, rounded. -/
def powerOfTen (n : Nat) : Binary64 := Binary64.ofRatio false (Nat.pow 10 n) 1

/-- A real times a power of ten; none beyond the largest real. A power below the smallest one is
applied in steps of 308, which `fuel` counts: three steps take any significand to zero. -/
def scaled? (x : Binary64) (power : Int) : Nat → Option Binary64
  | 0 => some x
  | fuel + 1 =>
    if power.natAbs ≤ 308 then
      let r := (powerOfTen power.natAbs).ratio
      if 0 ≤ power then
        let y := x.scale r.1 r.2
        if y.isInfinite then none else some y
      else some (x.scale r.2 r.1)
    else if x.isZero then some x
    else if 0 ≤ power then none
    else
      let r := (powerOfTen 308).ratio
      scaled? (x.scale r.2 r.1) (power + 308) fuel

/-- The real that a literal writes. -/
def real? (l : JsonLiteral) : Option Binary64 := do
  let m := l.mantissa
  let magnitude ←
    match l.exponent with
    | none => scaled? (Binary64.ofInt m.significand) m.power 8
    | some (negative, cs) =>
      let e := exponentValue cs
      if exponentMax < e then
        (if m.significand ≠ 0 ∧ !negative then none else some (Binary64.zero false))
      else
        scaled? (Binary64.ofInt m.significand) (if negative then m.power - e else m.power + e) 8
  pure (if l.negative then magnitude.negate else magnitude)

/-- The value of a literal. -/
def value? (l : JsonLiteral) : Option JsonNumber :=
  let m := l.mantissa
  if l.fraction = [] ∧ l.exponent = none ∧ m.power = 0 then
    if !l.negative then some (.integer m.significand)
    else if m.significand = 0 ∨ Nat.pow 2 63 < m.significand then
      some (.real (Binary64.ofInt m.significand).negate)
    else some (.integer (-(m.significand : Int)))
  else l.real?.map .real

end JsonLiteral

end EntityGraph
