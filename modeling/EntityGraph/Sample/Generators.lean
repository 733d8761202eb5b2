import EntityGraph.Node

/-!
# Counting generators

Sources of IDs that count, so that a run always draws the same IDs.
-/

set_option autoImplicit false

namespace EntityGraph

namespace IdGenerator

/-- The byte of a number at a place, the lowest place being zero. -/
def byteAt (n place : Nat) : UInt8 := UInt8.ofNat (n >>> (8 * place))

/-- The identifier whose last group is a number. -/
def numberedUuid (n : Nat) : Uuid :=
  ⟨[0x10, 0, 0, 0, 0, 0, 0x40, 0, 0x80, 0, byteAt n 5, byteAt n 4, byteAt n 3, byteAt n 2,
    byteAt n 1, byteAt n 0], rfl⟩

/-- Draws identifiers that end in the number of the draw. -/
def countingUuids : IdGenerator := ⟨fun drawn => (.uuid (numberedUuid (drawn + 1)), drawn + 1)⟩

/-- Draws the integers after one thousand. -/
def countingInts : IdGenerator :=
  ⟨fun drawn => (.int (Int64.ofNat (1000 + (drawn + 1))), drawn + 1)⟩

/-- Draws texts that end in the number of the draw. -/
def countingTexts : IdGenerator :=
  ⟨fun drawn => (.string ("gen-" ++ toString (drawn + 1)), drawn + 1)⟩

/-- Draws nothing. -/
def absent : IdGenerator := ⟨fun drawn => (.null, drawn)⟩

end IdGenerator

end EntityGraph
