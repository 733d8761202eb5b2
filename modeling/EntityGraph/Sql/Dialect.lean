/-!
# Dialects

What differs between the supported databases on the level of single tokens.
-/

set_option autoImplicit false

namespace EntityGraph

/-- A supported dialect of SQL. -/
inductive Dialect where
  | mysql
  | postgres
  | sqlite
deriving DecidableEq, Repr, Inhabited

namespace Dialect

/-- The name of a dialect in messages. -/
def name : Dialect → String
  | .mysql => "mysql"
  | .postgres => "postgres"
  | .sqlite => "sqlite3"

/-- All dialects, in the order of their declaration. -/
def all : List Dialect := [.mysql, .postgres, .sqlite]

/-- The text in lower case, for ASCII letters only. -/
def lowerCase (s : String) : String := String.ofList (s.toList.map Char.toLower)

/-- The dialect that a word names, in any case. -/
def ofName? (s : String) : Option Dialect :=
  let s := lowerCase s
  if s = "mysql" ∨ s = "mariadb" then some .mysql
  else if s = "postgres" ∨ s = "postgresql" ∨ s = "pg" then some .postgres
  else if s = "sqlite" ∨ s = "sqlite3" then some .sqlite
  else none

/-- What is said of a word that names no dialect. -/
def unsupported (s : String) : String := "unsupported dialect: " ++ lowerCase s

/-- The dialect that the scheme of a connection URL names. -/
def ofUrl? (url : String) : Option Dialect :=
  let scheme := lowerCase (String.ofList (url.toList.takeWhile fun c => c ≠ ':'))
  if scheme = "mysql" ∨ scheme = "mariadb" then some .mysql
  else if scheme = "postgres" ∨ scheme = "postgresql" then some .postgres
  else if scheme = "sqlite" ∨ scheme = "sqlite3" then some .sqlite
  else none

/-- The character around quoted identifiers. -/
def quoteChar : Dialect → Char
  | .mysql => '\x60'
  | .postgres | .sqlite => '\x22'

/-- The characters of an identifier between quotes: a quote is written twice. -/
def doubleQuotes (q : Char) : List Char → List Char
  | [] => []
  | c :: rest => if c = q then q :: q :: doubleQuotes q rest else c :: doubleQuotes q rest

/-- One identifier in quotes. -/
def quote (d : Dialect) (ident : String) : String :=
  String.ofList (d.quoteChar :: (doubleQuotes d.quoteChar ident.toList ++ [d.quoteChar]))

/-- The placeholder of the `n`-th bound argument, counted from one. -/
def placeholder (d : Dialect) (n : Nat) : String :=
  match d with
  | .postgres => "$" ++ toString n
  | .mysql | .sqlite => "?"

/-- An INSERT can report columns of the rows it wrote. -/
def supportsReturning : Dialect → Bool
  | .postgres | .sqlite => true
  | .mysql => false

end Dialect

end EntityGraph
