import EntityGraph.Binary64.Basic

/-!
# The shortest decimal that reads back

Of the decimals that round to a given finite positive number, `Binary64.shortest` gives one with
the fewest digits, and of these the nearest. The decimals that round to the number form an
interval around it, whose ends belong to it exactly if the significand is even. On the grid of
`n`-digit decimals only the two neighbours of the number have to be looked at.
-/

set_option autoImplicit false

namespace EntityGraph

/-- A decimal `digits · 10 ^ exponent`. -/
structure Decimal where
  digits : Nat
  exponent : Int
deriving DecidableEq, Repr

/-- Which of two equally near neighbours is taken. -/
inductive TieRule where
  /-- The larger one. -/
  | up
  /-- The one whose last digit is even. -/
  | even
deriving DecidableEq, Repr

namespace Decimal

/-- The same decimal without trailing zeros, where `fuel` bounds their number. -/
def trim : Nat → Decimal → Decimal
  | 0, d => d
  | fuel + 1, d =>
    if d.digits ≠ 0 ∧ d.digits % 10 = 0 then trim fuel ⟨d.digits / 10, d.exponent + 1⟩ else d

end Decimal

/-- The number of decimal digits of a natural number. -/
def digitCount (n : Nat) : Nat := (Nat.toDigits 10 n).length

/-- The place of the leading digit of `num / den`: it is at least `10 ^ (k - 1)` and less than
`10 ^ k`. -/
def leadingPlace (num den : Nat) : Int :=
  if den ≤ num then digitCount (num / den)
  else
    let t := digitCount (den / num)
    if num * Nat.pow 10 (t - 1) = den then 2 - (t : Int) else 1 - (t : Int)

namespace Binary64

/-- What rounds to a number, in units of a quarter of its last place: the number is `4 · m` units,
and the unit is `num / den`. -/
structure Interval where
  low : Nat
  middle : Nat
  high : Nat
  closed : Bool
  num : Nat
  den : Nat

/-- The interval of a finite positive number. Below a power of two the neighbours are twice as
dense, so the lower half is half as wide. -/
def interval (x : Binary64) : Interval :=
  let m := x.significand
  let q := x.exponent - 2
  let dense := x.fractionField == 0 && decide (1 < x.exponentField)
  { low := 4 * m - (if dense then 1 else 2)
    middle := 4 * m
    high := 4 * m + 2
    closed := m % 2 == 0
    num := Nat.pow 2 q.toNat
    den := Nat.pow 2 (-q).toNat }

/-- Whether `c` units of the decimal grid lie in the interval, where the grid and the interval are
brought to the common units `a` and `b`. -/
def Interval.holds (i : Interval) (a b c : Nat) : Bool :=
  if i.closed then decide (i.low * a ≤ c * b) && decide (c * b ≤ i.high * a)
  else decide (i.low * a < c * b) && decide (c * b < i.high * a)

/-- The decimal on the grid `10 ^ s` that lies in the interval, the nearer of two. -/
def Interval.onGrid (i : Interval) (tie : TieRule) (s : Int) : Option Decimal :=
  let a := i.num * Nat.pow 10 (-s).toNat
  let b := i.den * Nat.pow 10 s.toNat
  let down := i.middle * a / b
  let up := down + 1
  match i.holds a b down, i.holds a b up with
  | true, false => some ⟨down, s⟩
  | false, true => some ⟨up, s⟩
  | false, false => none
  | true, true =>
    let below := i.middle * a - down * b
    let above := up * b - i.middle * a
    if below < above then some ⟨down, s⟩
    else if above < below then some ⟨up, s⟩
    else match tie with
      | .up => some ⟨up, s⟩
      | .even => some ⟨if down % 2 = 0 then down else up, s⟩

/-- The first grid with a hit, from `n` digits on; seventeen digits always suffice. -/
def Interval.search (i : Interval) (tie : TieRule) (place : Int) : Nat → Nat → Decimal
  | 0, _ => ⟨0, 0⟩
  | fuel + 1, n =>
    match i.onGrid tie (place - n) with
    | some d => d
    | none => i.search tie place fuel (n + 1)

/-- The shortest decimal that rounds to the magnitude of a finite number, zero for zero. -/
def shortest (tie : TieRule) (x : Binary64) : Decimal :=
  if x.isZero then ⟨0, 0⟩
  else (x.interval.search tie (leadingPlace x.ratio.1 x.ratio.2) 18 1).trim 20

end Binary64

end EntityGraph
