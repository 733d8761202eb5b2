import EntityGraph.Json.Literal
import EntityGraph.Text.Hex

/-!
# Reading a document

Reading has two steps. `JsonSource.parse?` follows the grammar and keeps what is written: members
in their order, repeated names, numbers as literals, and strings whose escapes do not form
characters as unreadable. `JsonSource.value?` gives the document it stands for, if every literal
and every string is readable and the nesting stays within a bound.
-/

set_option autoImplicit false

namespace EntityGraph

/-- What a text in the grammar of documents says. An unreadable string is `none`. -/
inductive JsonSource where
  | null
  | bool (b : Bool)
  | number (literal : JsonLiteral)
  | string (s : Option String)
  | array (items : List JsonSource)
  | object (members : List (Option String × JsonSource))
deriving Repr, Inhabited

namespace JsonSource

/-- The white space of the grammar. -/
def skipSpace (cs : List Char) : List Char :=
  cs.dropWhile fun c => c = ' ' ∨ c = '\n' ∨ c = '\t' ∨ c = '\r'

/-- A piece of a string: a character, or a unit of sixteen bits that an escape gives. -/
inductive Piece where
  | char (c : Char)
  | unit (n : Nat)

/-- The pieces of a string after its opening quotation mark, and what follows its end. -/
def pieces? : List Char → Option (List Piece × List Char)
  | [] => none
  | '\x22' :: rest => some ([], rest)
  | '\\' :: 'u' :: a :: b :: c :: d :: rest => do
    let n ← Text.hexNat? 0 [a, b, c, d]
    let (ps, rest) ← pieces? rest
    pure (.unit n :: ps, rest)
  | '\\' :: e :: rest => do
    let c ←
      if e = '\x22' ∨ e = '\\' ∨ e = '/' then some e
      else if e = 'b' then some '\x08'
      else if e = 'f' then some '\x0c'
      else if e = 'n' then some '\n'
      else if e = 'r' then some '\r'
      else if e = 't' then some '\t'
      else none
    let (ps, rest) ← pieces? rest
    pure (.char c :: ps, rest)
  | c :: rest =>
    if c.toNat < 0x20 ∨ c = '\\' then none
    else do
      let (ps, rest) ← pieces? rest
      pure (.char c :: ps, rest)

/-- The characters that pieces form: a unit of the lower half of the surrogates must follow one of
the upper half, and neither stands alone. -/
def characters? : List Piece → Option (List Char)
  | [] => some []
  | .char c :: rest => (characters? rest).map (c :: ·)
  | .unit n :: .unit m :: rest =>
    if 0xd800 ≤ n ∧ n < 0xdc00 then
      if 0xdc00 ≤ m ∧ m < 0xe000 then
        (characters? rest).map (Char.ofNat (0x10000 + (n - 0xd800) * 0x400 + (m - 0xdc00)) :: ·)
      else none
    else if 0xdc00 ≤ n ∧ n < 0xe000 then none
    else (characters? (.unit m :: rest)).map (Char.ofNat n :: ·)
  | .unit n :: rest =>
    if 0xd800 ≤ n ∧ n < 0xe000 then none else (characters? rest).map (Char.ofNat n :: ·)

/-- A string after its opening quotation mark. -/
def string? (cs : List Char) : Option (Option String × List Char) := do
  let (ps, rest) ← pieces? cs
  pure ((characters? ps).map String.ofList, rest)

/-- Splits off the leading digits. -/
def digits (cs : List Char) : List Char × List Char :=
  (cs.takeWhile Char.isDigit, cs.dropWhile Char.isDigit)

/-- The digits before the point: a zero stands alone. -/
def whole? (cs : List Char) : Option (List Char × List Char) :=
  match digits cs with
  | ([], _) => none
  | ('0' :: _ :: _, _) => none
  | (ds, rest) => some (ds, rest)

/-- The fraction, at least one digit after a point. -/
def fraction? : List Char → Option (List Char × List Char)
  | '.' :: rest =>
    match digits rest with
    | ([], _) => none
    | (ds, rest) => some (ds, rest)
  | cs => some ([], cs)

/-- The exponent, at least one digit after its mark and its sign. -/
def exponent? (cs : List Char) : Option (Option (Bool × List Char) × List Char) :=
  match cs with
  | c :: rest =>
    if c = 'e' ∨ c = 'E' then
      let (negative, rest) := match rest with
        | '+' :: r => (false, r)
        | '-' :: r => (true, r)
        | r => (false, r)
      match digits rest with
      | ([], _) => none
      | (ds, rest) => some (some (negative, ds), rest)
    else some (none, cs)
  | [] => some (none, [])

/-- A number. -/
def number? (cs : List Char) : Option (JsonLiteral × List Char) := do
  let (negative, cs) := match cs with
    | '-' :: r => (true, r)
    | r => (false, r)
  let (whole, cs) ← whole? cs
  let (fraction, cs) ← fraction? cs
  let (exponent, cs) ← exponent? cs
  pure (⟨negative, whole, fraction, exponent⟩, cs)

/-- What follows a given word. -/
def after? (word cs : List Char) : Option (List Char) :=
  if word.isPrefixOf cs then some (cs.drop word.length) else none

mutual

/-- A value and what follows it. Every step of the recursion takes at least one character, so the
length of the text is fuel enough. -/
def valueWith? : Nat → List Char → Option (JsonSource × List Char)
  | 0, _ => none
  | fuel + 1, cs =>
    match skipSpace cs with
    | [] => none
    | '\x22' :: rest => (string? rest).map fun (s, rest) => (.string s, rest)
    | '[' :: rest =>
      match skipSpace rest with
      | ']' :: rest => some (.array [], rest)
      | rest => (itemsWith? fuel rest).map fun (xs, rest) => (.array xs, rest)
    | '\x7b' :: rest =>
      match skipSpace rest with
      | '\x7d' :: rest => some (.object [], rest)
      | rest => (membersWith? fuel rest).map fun (ms, rest) => (.object ms, rest)
    | 'n' :: rest => (after? ['u', 'l', 'l'] rest).map fun rest => (.null, rest)
    | 't' :: rest => (after? ['r', 'u', 'e'] rest).map fun rest => (.bool true, rest)
    | 'f' :: rest => (after? ['a', 'l', 's', 'e'] rest).map fun rest => (.bool false, rest)
    | cs => (number? cs).map fun (l, rest) => (.number l, rest)

/-- The items of an array up to its end. -/
def itemsWith? : Nat → List Char → Option (List JsonSource × List Char)
  | 0, _ => none
  | fuel + 1, cs => do
    let (x, rest) ← valueWith? fuel cs
    match skipSpace rest with
    | ']' :: rest => pure ([x], rest)
    | ',' :: rest => do
      let (xs, rest) ← itemsWith? fuel rest
      pure (x :: xs, rest)
    | _ => none

/-- The members of an object up to its end. -/
def membersWith? : Nat → List Char → Option (List (Option String × JsonSource) × List Char)
  | 0, _ => none
  | fuel + 1, cs =>
    match skipSpace cs with
    | '\x22' :: rest => do
      let (name, rest) ← string? rest
      match skipSpace rest with
      | ':' :: rest => do
        let (x, rest) ← valueWith? fuel rest
        match skipSpace rest with
        | '\x7d' :: rest => pure ([(name, x)], rest)
        | ',' :: rest => do
          let (ms, rest) ← membersWith? fuel rest
          pure ((name, x) :: ms, rest)
        | _ => none
      | _ => none
    | _ => none

end

/-- Reads a whole text. -/
def parse? (s : String) : Option JsonSource :=
  let cs := s.toList
  match valueWith? (2 * cs.length + 2) cs with
  | some (x, rest) => if skipSpace rest = [] then some x else none
  | none => none

mutual

/-- The document that is written, with at most `depth` levels of nesting. -/
def value? (depth : Nat) : JsonSource → Option Json
  | .null => some .null
  | .bool b => some (.bool b)
  | .number l => l.value?.map .number
  | .string s => s.map .string
  | .array items =>
    if depth = 0 then none else (itemValues? (depth - 1) items).map .array
  | .object members =>
    if depth = 0 then none else (memberValues? (depth - 1) members).map Json.ofMembers

/-- The documents of the items of an array. -/
def itemValues? (depth : Nat) : List JsonSource → Option (List Json)
  | [] => some []
  | x :: xs => do
    let v ← x.value? depth
    let vs ← itemValues? depth xs
    pure (v :: vs)

/-- The documents of the members of an object, in their written order. -/
def memberValues? (depth : Nat) : List (Option String × JsonSource) → Option (List (String × Json))
  | [] => some []
  | (name, x) :: rest => do
    let n ← name
    let v ← x.value? depth
    let vs ← memberValues? depth rest
    pure ((n, v) :: vs)

end

end JsonSource

namespace Json

/-- The deepest nesting that is read. -/
def depthMax : Nat := 127

/-- The document that a text writes. -/
def parse? (s : String) : Option Json := (JsonSource.parse? s).bind (JsonSource.value? depthMax)

/-- The document that bytes write; they must be UTF-8. -/
def parseBytes? (bs : List UInt8) : Option Json :=
  (String.fromUTF8? (ByteArray.mk bs.toArray)).bind parse?

end Json

end EntityGraph
