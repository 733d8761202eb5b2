import EntityGraph.Sql.Piece

/-!
# The tokens of a statement

`lex` cuts the text of a statement into tokens, one character after another, as a database does:
letters and digits make up words, quotes enclose identifiers in which a quote is written twice, and
blanks only separate. `fill` then puts the arguments in the places of the placeholders.
-/

set_option autoImplicit false

namespace EntityGraph.Sql

/-- A token of a statement. -/
inductive Token where
  /-- A keyword, a number or a numbered placeholder. -/
  | word (text : String)
  /-- An operator of a comparison. -/
  | operator (text : String)
  /-- A character that is a token by itself. -/
  | mark (c : Char)
  /-- An identifier in quotes, without them. -/
  | ident (name : String)
  /-- A text literal, without its apostrophes. -/
  | text (s : String)
  /-- An argument in the place of its placeholder. -/
  | value (v : Value)

/-! ## From characters to tokens -/

/-- What has been read of the token at hand, the last character first. -/
inductive LexState where
  | start
  | word (read : List Char)
  | operator (read : List Char)
  | ident (read : List Char)
  /-- After a quote that ends the identifier, unless another follows. -/
  | identQuote (read : List Char)
  | text (read : List Char)
  /-- After an apostrophe that ends the text, unless another follows. -/
  | textQuote (read : List Char)

/-- The character is part of words. -/
def isWordChar (c : Char) : Bool := c.isAlphanum || c == '_' || c == '$'

/-- The character is part of operators of comparisons. -/
def isOperatorChar (c : Char) : Bool := c == '<' || c == '=' || c == '>'

/-- The character is a token by itself. -/
def isMark (c : Char) : Bool := "(),.*+?".toList.contains c

namespace LexState

/-- The tokens that the end of the text leaves, none if the text may not end there. -/
def finish : LexState → Option (List Token)
  | start => some []
  | word read => some [.word (.ofList read.reverse)]
  | operator read => some [.operator (.ofList read.reverse)]
  | identQuote read => some [.ident (.ofList read.reverse)]
  | textQuote read => some [.text (.ofList read.reverse)]
  | ident _ | text _ => none

/-- What a character begins. -/
def enter (d : Dialect) (c : Char) : Option (List Token × LexState) :=
  if c = ' ' then some ([], start)
  else if isMark c then some ([.mark c], start)
  else if isWordChar c then some ([], word [c])
  else if isOperatorChar c then some ([], operator [c])
  else if c = d.quoteChar then some ([], ident [])
  else if c = '\'' then some ([], text [])
  else none

/-- The token at hand has ended before a character. -/
def leave (d : Dialect) (s : LexState) (c : Char) : Option (List Token × LexState) := do
  let done ← s.finish
  let (tokens, next) ← enter d c
  pure (done ++ tokens, next)

/-- What a character makes of what has been read. -/
def step (d : Dialect) (s : LexState) (c : Char) : Option (List Token × LexState) :=
  match s with
  | start => enter d c
  | word read => if isWordChar c then some ([], word (c :: read)) else s.leave d c
  | operator read => if isOperatorChar c then some ([], operator (c :: read)) else s.leave d c
  | ident read => some ([], if c = d.quoteChar then identQuote read else ident (c :: read))
  | identQuote read => if c = d.quoteChar then some ([], ident (c :: read)) else s.leave d c
  | text read => some ([], if c = '\'' then textQuote read else text (c :: read))
  | textQuote read => if c = '\'' then some ([], text (c :: read)) else s.leave d c

/-- What a text makes of what has been read. -/
def run (d : Dialect) (s : LexState) : List Char → Option (List Token × LexState)
  | [] => some ([], s)
  | c :: rest => do
    let (tokens, next) ← s.step d c
    let (others, last) ← next.run d rest
    pure (tokens ++ others, last)

end LexState

/-- The tokens of a text. -/
def lex (d : Dialect) (text : List Char) : Option (List Token) := do
  let (tokens, last) ← LexState.start.run d text
  let rest ← last.finish
  pure (tokens ++ rest)

/-! ## Arguments -/

/-- The number that a list of digits writes. -/
def number? (digits : List Char) : Option Nat :=
  if digits ≠ [] ∧ digits.all Char.isDigit then some (Nat.ofDigitChars 10 digits 0) else none

/-- The position of the argument that a numbered placeholder stands for, counted from one. -/
def position? (word : String) : Option Nat :=
  match word.toList with
  | '$' :: digits => number? digits
  | _ => none

/-- The tokens with arguments in the places of placeholders, where `n` placeholders stand before
them. A placeholder without a number stands for the next argument. -/
def fill (args : List Value) : Nat → List Token → Option (List Token)
  | _, [] => some []
  | n, .mark '?' :: rest => do
    let v ← args[n]?
    let others ← fill args (n + 1) rest
    pure (.value v :: others)
  | n, .word w :: rest =>
    match position? w with
    | some k => do
      let v ← if k = 0 then none else args[k - 1]?
      let others ← fill args (n + 1) rest
      pure (.value v :: others)
    | none => do
      let others ← fill args n rest
      pure (.word w :: others)
  | n, t :: rest => do
    let others ← fill args n rest
    pure (t :: others)

/-- The tokens of a statement, with its arguments in their places. -/
def tokens (d : Dialect) (s : Statement) : Option (List Token) := do
  let ts ← lex d s.sql.toList
  fill s.args 0 ts

end EntityGraph.Sql
