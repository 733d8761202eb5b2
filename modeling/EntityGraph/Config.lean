import EntityGraph.Sql.Dialect

/-!
# Configuration

The settings of a connection, taken from a URL or from environment variables. All durations are in
milliseconds.
-/

set_option autoImplicit false

namespace EntityGraph

/-- The settings of a connection. -/
structure Config where
  databaseUrl : String
  maxConnections : Nat
  acquireTimeout : Nat
  /-- The time that an operation may take, if it is limited. -/
  statementTimeout : Option Nat
deriving DecidableEq, Repr

/-- Why a text is not a number. -/
inductive NumberError where
  | empty
  | invalidDigit
  | overflow
deriving DecidableEq, Repr

namespace NumberError

/-- The wording of the error. -/
def message : NumberError → String
  | .empty => "cannot parse integer from empty string"
  | .invalidDigit => "invalid digit found in string"
  | .overflow => "number too large to fit in target type"

end NumberError

/-- Why there is no configuration. -/
inductive ConfigError where
  /-- The variable must be set. -/
  | missing (name : String)
  /-- The variable is not a number. -/
  | invalid (name : String) (why : NumberError)
  /-- The URL names no supported database. -/
  | unsupportedScheme (url : String)
deriving DecidableEq, Repr

namespace ConfigError

/-- The wording of the error, what went wrong before why. -/
def message : ConfigError → String
  | .missing name => name ++ " is required: environment variable not found"
  | .invalid name why => "Invalid " ++ name ++ ": " ++ why.message
  | .unsupportedScheme url => "Unsupported database URL scheme: " ++ url

end ConfigError

namespace Config

/-- Reads decimal digits into a number below a bound, the first offence deciding the error. -/
def digits (bound n : Nat) : List Char → Except NumberError Nat
  | [] => .ok n
  | c :: rest =>
    if !c.isDigit then .error .invalidDigit
    else
      let m := 10 * n + (c.toNat - '0'.toNat)
      if m < bound then digits bound m rest else .error .overflow

/-- Reads an unsigned number below a bound, with an optional plus sign. -/
def number (bound : Nat) (s : String) : Except NumberError Nat :=
  match s.toList with
  | [] => .error .empty
  | ['+'] => .error .invalidDigit
  | '+' :: rest => digits bound 0 rest
  | cs => digits bound 0 cs

/-- A duration in the unit that suits it, without trailing zeros. -/
def durationText (ms : Nat) : String :=
  if ms = 0 then "0ns"
  else if ms < 1000 then toString ms ++ "ms"
  else
    let thousandths := Nat.toDigits 10 (1000 + ms % 1000)
    let fraction := ((thousandths.drop 1).reverse.dropWhile fun c => c = '0').reverse
    toString (ms / 1000) ++ (if fraction = [] then "" else "." ++ String.ofList fraction) ++ "s"

/-- The settings for a URL, with the usual pool. -/
def ofUrl (url : String) : Config :=
  { databaseUrl := url, maxConnections := 5, acquireTimeout := 30000, statementTimeout := none }

/-- The dialect that the URL names. -/
def dialect (c : Config) : Except ConfigError Dialect :=
  match Dialect.ofUrl? c.databaseUrl with
  | some d => .ok d
  | none => .error (.unsupportedScheme c.databaseUrl)

/-- Reads a variable as a number below a bound. -/
def numberOf (bound : Nat) (name value : String) : Except ConfigError Nat :=
  match number bound value with
  | .ok n => .ok n
  | .error why => .error (.invalid name why)

/-- The settings that environment variables give. -/
def ofEnvironment (lookup : String → Option String) : Except ConfigError Config := do
  let url ← match lookup "DATABASE_URL" with
    | some url => pure url
    | none => throw (.missing "DATABASE_URL")
  let connections ← numberOf UInt32.size "DATABASE_MAX_CONNECTIONS"
    ((lookup "DATABASE_MAX_CONNECTIONS").getD "5")
  let acquire ← numberOf UInt64.size "DATABASE_ACQUIRE_TIMEOUT_SECS"
    ((lookup "DATABASE_ACQUIRE_TIMEOUT_SECS").getD "30")
  let statement ← match lookup "GRAPHSQL_STATEMENT_TIMEOUT_MS" with
    | some ms => (numberOf UInt64.size "GRAPHSQL_STATEMENT_TIMEOUT_MS" ms).map some
    | none => pure none
  let config : Config :=
    { databaseUrl := url, maxConnections := connections, acquireTimeout := acquire * 1000
      statementTimeout := statement }
  discard config.dialect
  pure config

end Config

end EntityGraph
