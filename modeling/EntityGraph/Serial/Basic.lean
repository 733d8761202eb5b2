import EntityGraph.Json.Document
import EntityGraph.Json.Printer

/-!
# Serialized forms

A serialized form is a text of JSON that keeps the order in which the parts of a record are
declared. A record is read from an object, in any order of its parts and with further members, or
from an array of exactly its parts. A reader is told how many levels of nesting it may still enter.

Some forms are told apart by a tag beside their parts. Until the tag is known, such a form is held
as a document, so all of it has to be readable. Held forms are read a little more freely: a tag may
be given by its position, and an empty object stands for nothing.
-/

set_option autoImplicit false

namespace EntityGraph

/-- A type with a serialized form. -/
class Serial (α : Type) where
  /-- The form of a value. -/
  write : α → String
  /-- Reads a value from at most so many levels of nesting, held or not. -/
  read? : Nat → Bool → JsonSource → Option α

namespace Serial

/-! ## Writing -/

/-- A list of forms. -/
def listText (items : List String) : String := "[" ++ ",".intercalate items ++ "]"

/-- A record with the forms of its parts. -/
def recordText (parts : List (String × String)) : String :=
  "\x7b" ++ ",".intercalate (parts.map fun p => Json.stringText p.1 ++ ":" ++ p.2) ++ "\x7d"

/-- A form that may be absent. -/
def optionText : Option String → String
  | some s => s
  | none => "null"

/-! ## Reading -/

/-- The parts of a record in the order of these names, each at most once. Members with other names
are skipped, whatever they are. -/
def parts? (names : List String) : JsonSource → Option (List (Option JsonSource))
  | .array items => if items.length = names.length then some (items.map some) else none
  | .object members =>
    if members.any fun m => m.1.isNone then none
    else
      names.mapM fun name =>
        match members.filter fun m => m.1 == some name with
        | [] => some none
        | [m] => some (some m.2)
        | _ => none
  | _ => none

/-- Splits the tag off a tagged record: a member of an object or the first item of an array. -/
def splitTag? (name : String) : JsonSource → Option (JsonSource × JsonSource)
  | .object members =>
    match members.filter fun m => m.1 == some name with
    | [tag] => some (tag.2, .object (members.filter fun m => m.1 != some name))
    | _ => none
  | .array (tag :: rest) => some (tag, .array rest)
  | _ => none

/-- A part that may be absent. -/
def optional? {α : Type} (read? : JsonSource → Option α) :
    Option JsonSource → Option (Option α)
  | none | some .null => some none
  | some x => (read? x).map some

/-- All values of a list, if every one can be read. -/
def readAll? {α : Type} (read? : JsonSource → Option α) : List JsonSource → Option (List α)
  | [] => some []
  | x :: xs => do
    let a ← read? x
    let as ← readAll? read? xs
    pure (a :: as)

/-- A list, which is a level of nesting of its own. -/
def list? {α : Type} (read? : Nat → JsonSource → Option α) : Nat → JsonSource → Option (List α)
  | depth + 1, .array items => readAll? (read? depth) items
  | _, _ => none

/-- A string. -/
def string? : JsonSource → Option String
  | .string s => s
  | _ => none

/-- A truth value. -/
def bool? : JsonSource → Option Bool
  | .bool b => some b
  | _ => none

/-- A number. -/
def number? : JsonSource → Option JsonNumber
  | .number l => l.value?
  | _ => none

/-- An integer from `low` to `high`. -/
def integer? (low high : Int) (x : JsonSource) : Option Int :=
  match number? x with
  | some (.integer i) => if low ≤ i ∧ i ≤ high then some i else none
  | _ => none

/-- A natural number of 64 bits. -/
def natural? (x : JsonSource) : Option Nat := (integer? 0 (UInt64.size - 1) x).map Int.toNat

/-- The name of a case without parts: a string, or the only member of an object, which is absent
otherwise. -/
def caseName? (depth : Nat) (held : Bool) : JsonSource → Option String
  | .string s => s
  | .object [(name, .null)] => if depth = 0 then none else name
  | .object [(name, .object [])] => if held then name else none
  | _ => none

/-! ## Whole texts -/

/-- Reads a whole text. -/
def decode? {α : Type} [Serial α] (s : String) : Option α :=
  (JsonSource.parse? s).bind (read? Json.depthMax false)

/-- The canonical form of a text: the form of the value that it serializes. -/
def canonical? (α : Type) [Serial α] (s : String) : Option String :=
  (decode? s : Option α).map write

/-- The form of a value reads back as a value equal to it. -/
def survives {α : Type} [Serial α] (equals : α → α → Bool) (a : α) : Bool :=
  ((decode? (write a)).map (equals a)).getD false

instance : Serial String := ⟨Json.stringText, fun _ _ => string?⟩

instance {α : Type} [Serial α] : Serial (List α) :=
  ⟨fun as => listText (as.map write), fun depth held => list? (fun n => read? n held) depth⟩

instance {α : Type} [Serial α] : Serial (Option α) :=
  ⟨fun a => optionText (a.map write), fun depth held x => optional? (read? depth held) (some x)⟩

end Serial

end EntityGraph
