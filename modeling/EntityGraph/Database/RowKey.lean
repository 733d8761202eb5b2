import EntityGraph.Database.Storage

/-!
# Keys of rows

A row is found by an integer. A value of another class is taken for a key if it stands for an
integer: a real without a fraction, or a text that writes such a number.
-/

set_option autoImplicit false

namespace EntityGraph.Database

/-- A decimal number in a text. -/
structure NumberText where
  negative : Bool
  whole : List Char
  fraction : List Char
  exponent : Int

namespace NumberText

/-- The white space that may stand around a number. -/
def isSpace (c : Char) : Bool := c = ' ' || (0x9 ≤ c.toNat && c.toNat ≤ 0xd)

/-- Splits off a sign. -/
def sign : List Char → Bool × List Char
  | '-' :: rest => (true, rest)
  | '+' :: rest => (false, rest)
  | cs => (false, cs)

/-- The number that digits write. -/
def natural (cs : List Char) : Nat := cs.foldl (fun n c => 10 * n + (c.toNat - '0'.toNat)) 0

/-- Splits off a fraction, which may have no digits. -/
def splitFraction : List Char → List Char × List Char
  | '.' :: rest => (rest.takeWhile Char.isDigit, rest.dropWhile Char.isDigit)
  | cs => ([], cs)

/-- Reads an exponent up to the end of the text. -/
def exponent? : List Char → Option Int
  | [] => some 0
  | c :: rest =>
    let (negative, ds) := sign rest
    if (c = 'e' ∨ c = 'E') ∧ ds ≠ [] ∧ ds.all Char.isDigit then
      some (if negative then -(natural ds : Int) else natural ds)
    else none

/-- Reads a text that writes a number and nothing else. -/
def parse? (s : String) : Option NumberText := do
  let trimmed := ((s.toList.dropWhile isSpace).reverse.dropWhile isSpace).reverse
  let (negative, cs) := sign trimmed
  let whole := cs.takeWhile Char.isDigit
  let (fraction, rest) := splitFraction (cs.dropWhile Char.isDigit)
  let exponent ← exponent? rest
  if whole = [] ∧ fraction = [] then none else some ⟨negative, whole, fraction, exponent⟩

/-- The digits of a number without its point. -/
def digits (d : NumberText) : List Char := d.whole ++ d.fraction

/-- The power of ten that scales the digits, kept where it still matters. -/
def power (d : NumberText) : Int :=
  max (-(400 + d.digits.length : Nat)) (min 400 (d.exponent - d.fraction.length))

/-- The real nearest to the number. -/
def real (d : NumberText) : Binary64 :=
  .ofRatio d.negative (natural d.digits * Nat.pow 10 d.power.toNat)
    (Nat.pow 10 (-d.power).toNat)

/-- The integer that a text of digits alone writes, if it has 64 bits. -/
def integer? (d : NumberText) (s : String) : Option Int64 :=
  let i : Int := if d.negative then -(natural d.whole : Int) else natural d.whole
  if s.toList.any (fun c => c = '.' ∨ c = 'e' ∨ c = 'E') then none
  else if Int64.minValue.toInt ≤ i ∧ i ≤ Int64.maxValue.toInt then some (Int64.ofInt i)
  else none

end NumberText

/-- The integer that a real stands for; the outermost integers have none. -/
def integerOfReal? (x : Binary64) : Option Int64 :=
  let i := x.toInt64
  if x.isIntegral ∧ Int64.minValue < i ∧ i < Int64.maxValue then some i else none

/-- The key that a value stands for. -/
def Stored.key? : Stored → Option Int64
  | .integer i => some i
  | .real x => integerOfReal? x
  | .text s => do
    let d ← NumberText.parse? s
    (d.integer? s).or (integerOfReal? d.real)
  | .null | .blob _ => none

end EntityGraph.Database
