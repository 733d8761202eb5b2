import EntityGraph.Text.Hex

/-!
# Universally unique identifiers

Sixteen bytes, written as thirty-two hexadecimal digits in groups of 8, 4, 4, 4 and 12.
-/

set_option autoImplicit false

namespace EntityGraph

/-- A universally unique identifier. -/
structure Uuid where
  bytes : List UInt8
  length_eq : bytes.length = 16
deriving DecidableEq

namespace Uuid

/-- The identifier with these bytes, if there are sixteen. -/
def ofBytes? (bs : List UInt8) : Option Uuid :=
  if h : bs.length = 16 then some ⟨bs, h⟩ else none

/-- The hyphenated lower-case form. -/
def text (u : Uuid) : String :=
  let ds := u.bytes.flatMap Text.hexByte
  String.ofList (ds.take 8 ++ '-' :: (ds.drop 8).take 4 ++ '-' :: (ds.drop 12).take 4 ++
    '-' :: (ds.drop 16).take 4 ++ '-' :: ds.drop 20)

/-- Reads thirty-two digits of either case. -/
def simple? (cs : List Char) : Option Uuid :=
  if cs.length = 32 then (Text.hexBytes? cs).bind ofBytes? else none

/-- Reads the hyphenated form, in either case. -/
def hyphenated? (cs : List Char) : Option Uuid :=
  if cs.length = 36 ∧ cs[8]? = some '-' ∧ cs[13]? = some '-' ∧ cs[18]? = some '-' ∧
      cs[23]? = some '-' then
    simple? (cs.take 8 ++ (cs.drop 9).take 4 ++ (cs.drop 14).take 4 ++ (cs.drop 19).take 4 ++
      cs.drop 24)
  else none

/-- What follows the name of a uniform resource name of an identifier, in either case. -/
def afterName? (cs : List Char) : Option (List Char) :=
  let name := "urn:uuid:".toList
  if name.isPrefixOf (cs.map Char.toLower) then some (cs.drop name.length) else none

/-- What stands between braces. -/
def insideBraces? (cs : List Char) : Option (List Char) :=
  if cs.head? = some '\x7b' ∧ cs.getLast? = some '\x7d' then some (cs.drop 1).dropLast else none

/-- Reads an identifier: the hyphenated form, alone, in braces or as a resource name, or the
digits alone. -/
def parse? (s : String) : Option Uuid :=
  let cs := s.toList
  (simple? cs).or <| (hyphenated? cs).or <|
    ((insideBraces? cs).bind hyphenated?).or ((afterName? cs).bind hyphenated?)

/-- The identifier that fills sixteen bytes with zeros. -/
def nil : Uuid := ⟨List.replicate 16 0, rfl⟩

end Uuid

end EntityGraph
