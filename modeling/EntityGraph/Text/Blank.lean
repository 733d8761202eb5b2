import EntityGraph.Text.Visible

/-!
# White space

The characters with the Unicode property White_Space, and what they separate.
-/

set_option autoImplicit false

namespace EntityGraph.Text

/-- Code points with the property White_Space. -/
def blankRanges : List (Nat × Nat) :=
  [(0x9, 0xd), (0x20, 0x20), (0x85, 0x85), (0xa0, 0xa0), (0x1680, 0x1680), (0x2000, 0x200a),
    (0x2028, 0x2029), (0x202f, 0x202f), (0x205f, 0x205f), (0x3000, 0x3000)]

/-- A character that separates words. -/
def isBlank (c : Char) : Bool := inRanges blankRanges c.toNat

/-- The text after its leading white space. -/
def skipBlank (cs : List Char) : List Char := cs.dropWhile isBlank

/-- The first word of a text: empty exactly when the text has none. -/
def firstWord (s : String) : String :=
  String.ofList ((skipBlank s.toList).takeWhile fun c => !isBlank c)

end EntityGraph.Text
