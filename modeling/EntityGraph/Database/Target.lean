import EntityGraph.Text.Hex

/-!
# Where a connection leads

The URL of a connection names a database and options. A database in memory can always be opened.
-/

set_option autoImplicit false

namespace EntityGraph.Database

/-- Why a connection cannot be opened. -/
inductive ConnectError where
  | invalidUrl (url : String)
  | unavailable
deriving DecidableEq, Repr

namespace ConnectError

/-- The wording of the error. -/
def message : ConnectError → String
  | .invalidUrl url => "Invalid SQLite URL: " ++ url
  | .unavailable => "Failed to connect to SQLite database"

end ConnectError

/-- The database that a URL names. -/
inductive Target where
  | memory
  | file (path : String)
deriving DecidableEq, Repr

namespace Target

/-- The text after all repetitions of a word at its start; `fuel` bounds their number. -/
def dropRepeated (word : List Char) : Nat → List Char → List Char
  | 0, cs => cs
  | fuel + 1, cs =>
    if word.isPrefixOf cs then dropRepeated word fuel (cs.drop word.length) else cs

/-- Replaces the escapes of a query: a plus sign is a space, and a percent sign comes before two
hexadecimal digits. -/
def unescape : List Char → List Char
  | [] => []
  | '+' :: rest => ' ' :: unescape rest
  | '%' :: a :: b :: rest =>
    match Text.hexNat? 0 [a, b] with
    | some n => Char.ofNat n :: unescape rest
    | none => '%' :: unescape (a :: b :: rest)
  | c :: rest => c :: unescape rest

/-- The name and the value of an option. -/
def option (cs : List Char) : String × String :=
  (String.ofList (unescape (cs.takeWhile fun c => c ≠ '=')),
    String.ofList (unescape ((cs.dropWhile fun c => c ≠ '=').drop 1)))

/-- The values that an option may have; none if it may have any. -/
def optionValues : List (String × Option (List String)) :=
  [("mode", some ["ro", "rw", "rwc", "memory"]), ("cache", some ["private", "shared"]),
    ("immutable", some ["true", "1", "false", "0"]), ("vfs", none)]

/-- The option is known, and so is its value. -/
def isKnown (o : String × String) : Bool :=
  match optionValues.lookup o.1 with
  | none => false
  | some none => true
  | some (some values) => values.contains o.2

/-- The database that a URL names. The scheme and the slashes after it may be repeated or left
out. -/
def ofUrl (url : String) : Except ConnectError Target :=
  let cs := url.toList
  let cs := dropRepeated "sqlite:".toList cs.length cs
  let cs := dropRepeated "//".toList cs.length cs
  let database := String.ofList (cs.takeWhile fun c => c ≠ '?')
  let query := (cs.dropWhile fun c => c ≠ '?').drop 1
  let options := ((query.splitOn '&').filter fun o => !o.isEmpty).map option
  if !options.all isKnown then .error (.invalidUrl url)
  else if database = ":memory:" ∨ options.contains ("mode", "memory") then .ok .memory
  else .ok (.file database)

end Target

end EntityGraph.Database
