import EntityGraph.Proofs.Relational.Selection
import EntityGraph.Proofs.Sql.Token

/-!
# Conditions and selections as a database reads them

What a database makes of the text of a statement: expressions with the connectives of two operands
that SQL has, and selections with their clauses. Nothing in them knows how a statement was built;
only the steps of a selection are shared with `EntityGraph.Proofs.Relational.Selection`.

A recursive descent parser reads them, with the precedence that SQL gives its connectives:
comparisons bind tighter than NOT, NOT tighter than AND, AND tighter than OR. Each function takes a
number of steps that it may take at most; `readExpr` and `readQuery` allow as many as a list of
tokens can need.
-/

set_option autoImplicit false

namespace EntityGraph.Sql

/-! ## Trees and their meaning -/

/-- A side of a comparison. -/
inductive Operand where
  | column (name : List String)
  | literal (v : Value)

mutual

/-- An expression with a truth value. -/
inductive Expr where
  | compare (op : Comparison) (left right : Operand)
  | isNull (o : Operand)
  | isIn (o : Operand) (members : List Operand)
  | isInQuery (o : Operand) (q : Query)
  | like (o pattern : Operand) (escape : Option Char)
  | anyRow (q : Query)
  | not (e : Expr)
  | and (e f : Expr)
  | or (e f : Expr)

/-- A source in a FROM clause. -/
inductive Source where
  | table (name asName : List String)
  | query (q : Query) (asName : List String)

/-- A JOIN clause. -/
inductive JoinClause where
  | on (source : Source) (left right : List String)

/-- A SELECT. -/
inductive Query where
  | select (shape : Shape) (source : Source) (joins : List JoinClause) (condition : Option Expr)

end

/-- The value of an operand. -/
def Operand.value : Operand → Env → Value
  | .column name, env => env.lookup name
  | .literal v, _ => v

mutual

/-- The truth of an expression among the rows around it. -/
def Expr.truth (E : Engine) (db : Database) : Expr → Env → Truth
  | .compare op left right, env => E.compare op (left.value env) (right.value env)
  | .isNull o, env => .ofBool (o.value env).isNull
  | .isIn o members, env => E.isIn (o.value env) (members.map fun m => m.value env)
  | .isInQuery o q, env => E.isIn (o.value env) ((q.outRows E db env).map OutRow.first)
  | .like o pattern escape, env => E.like escape (pattern.value env) (o.value env)
  | .anyRow q, env => .ofBool !(q.outRows E db env).isEmpty
  | .not e, env => (e.truth E db env).not
  | .and e f, env => (e.truth E db env).and (f.truth E db env)
  | .or e f, env => (e.truth E db env).or (f.truth E db env)

/-- The truth of the expression of a WHERE clause; without one all rows are kept. -/
def whereTruth (E : Engine) (db : Database) : Option Expr → Env → Truth
  | some e, env => e.truth E db env
  | none, _ => .yes

/-- The rows of a source. -/
def Source.frames (E : Engine) (db : Database) : Source → Env → List Frame
  | .table name asName, _ => (db name).frames asName
  | .query q asName, outer => (q.outRows E db outer).map fun r => r.frame asName

/-- The rows of some sources with those of the joined ones beside them. -/
def joinLevels (E : Engine) (db : Database) : List JoinClause → Env → List Level → List Level
  | [], _, levels => levels
  | .on source left right :: rest, outer, levels =>
    joinLevels E db rest outer (joined E outer levels (source.frames E db outer) left right)

/-- The rows that a SELECT selects. -/
def Query.outRows (E : Engine) (db : Database) : Query → Env → List OutRow
  | .select shape source joins condition, outer =>
    let levels := joinLevels E db joins outer ((source.frames E db outer).map fun f => [f])
    shape.result E outer
      (levels.filter fun level => (whereTruth E db condition (level :: outer)).isYes)

end

/-! ## Names and operands -/

/-- A keyword at the front. -/
def keyword (w : String) : List Token → Option (List Token)
  | .word v :: rest => if v = w then some rest else none
  | _ => none

/-- A mark at the front. -/
def mark (c : Char) : List Token → Option (List Token)
  | .mark c' :: rest => if c' = c then some rest else none
  | _ => none

/-- One item or several with separators between them. -/
def sepBy {α : Type} (separator : Char) (item : List Token → Option (α × List Token)) :
    Nat → List Token → Option (List α × List Token)
  | 0, _ => none
  | n + 1, ts => do
    let (a, ts) ← item ts
    match mark separator ts with
    | some ts => do
      let (as, ts) ← sepBy separator item n ts
      pure (a :: as, ts)
    | none => pure ([a], ts)

/-- A part of a name: an identifier or a star. -/
def namePart : List Token → Option (String × List Token)
  | .ident s :: rest => some (s, rest)
  | ts => do
    let ts ← mark '*' ts
    pure ("*", ts)

/-- A name: its parts with dots between them. -/
def name (n : Nat) (ts : List Token) : Option (List String × List Token) := sepBy '.' namePart n ts

/-- A list of names. -/
def names (n : Nat) (ts : List Token) : Option (List (List String) × List Token) :=
  sepBy ',' (name n) n ts

/-- The value that a token writes. -/
def literal? : Token → Option Value
  | .value v => some v
  | .word w => if w = "NULL" then some .null
    else (number? w.toList).map fun n => .int (Int64.ofNat n)
  | _ => none

/-- A literal or a name. -/
def operand (n : Nat) : List Token → Option (Operand × List Token)
  | [] => none
  | t :: rest =>
    match literal? t with
    | some v => some (.literal v, rest)
    | none => do
      let (name, ts) ← name n (t :: rest)
      pure (.column name, ts)

/-- A list of operands. -/
def operands (n : Nat) (ts : List Token) : Option (List Operand × List Token) :=
  sepBy ',' (operand n) n ts

/-! ## Clauses without conditions -/

/-- The operator of a comparison. -/
def comparison? : String → Option Comparison
  | "=" => some .eq
  | "<>" => some .ne
  | ">" => some .gt
  | ">=" => some .gte
  | "<" => some .lt
  | "<=" => some .lte
  | _ => none

/-- The character that takes away the meaning of the next one in a pattern without an ESCAPE. -/
def defaultEscape : Dialect → Option Char
  | .mysql | .postgres => some '\\'
  | .sqlite => none

/-- An optional ESCAPE. -/
def escape (d : Dialect) (ts : List Token) : Option (Option Char × List Token) :=
  match keyword "ESCAPE" ts with
  | some (.text s :: rest) =>
    match s.toList with
    | [c] => some (some c, rest)
    | _ => none
  | some _ => none
  | none => some (defaultEscape d, ts)

/-- What a selection takes from its rows. -/
def projection (n : Nat) (ts : List Token) : Option (Projection × List Token) :=
  match keyword "COUNT" ts with
  | some ts => do
    let ts ← mark '(' ts
    match keyword "DISTINCT" ts with
    | some ts => do
      let (names, ts) ← names n ts
      let ts ← mark ')' ts
      pure (.distinctCount names, ts)
    | none => do
      let ts ← mark '*' ts
      let ts ← mark ')' ts
      pure (.rowCount, ts)
  | none =>
    match keyword "DISTINCT" ts with
    | some ts => do
      let (names, ts) ← names n ts
      pure (.columns true names, ts)
    | none => do
      let (names, ts) ← names n ts
      pure (.columns false names, ts)

/-- A column to order by. -/
def orderTerm (n : Nat) (ts : List Token) :
    Option ((List String × Direction) × List Token) := do
  let (name, ts) ← name n ts
  match keyword "DESC" ts with
  | some ts => pure ((name, .descending), ts)
  | none => do
    let ts ← keyword "ASC" ts
    pure ((name, .ascending), ts)

/-- An optional ORDER BY. -/
def order (n : Nat) (ts : List Token) :
    Option (List (List String × Direction) × List Token) :=
  match keyword "ORDER" ts with
  | some ts => do
    let ts ← keyword "BY" ts
    sepBy ',' (orderTerm n) n ts
  | none => some ([], ts)

/-- An optional number after a keyword. -/
def window (w : String) (ts : List Token) : Option (Option Nat × List Token) :=
  match keyword w ts with
  | some (.word digits :: rest) => do
    let n ← number? digits.toList
    pure (some n, rest)
  | some _ => none
  | none => some (none, ts)

/-! ## Expressions and selections -/

mutual

/-- An expression: conjunctions with OR between them. -/
def expr (d : Dialect) : Nat → List Token → Option (Expr × List Token)
  | 0, _ => none
  | n + 1, ts => do
    let (e, ts) ← conjunction d n ts
    moreOr d n e ts

/-- Further conjunctions, each after an OR. -/
def moreOr (d : Dialect) : Nat → Expr → List Token → Option (Expr × List Token)
  | 0, _, _ => none
  | n + 1, e, ts =>
    match keyword "OR" ts with
    | some ts => do
      let (f, ts) ← conjunction d n ts
      moreOr d n (.or e f) ts
    | none => some (e, ts)

/-- A conjunction: negations with AND between them. -/
def conjunction (d : Dialect) : Nat → List Token → Option (Expr × List Token)
  | 0, _ => none
  | n + 1, ts => do
    let (e, ts) ← negation d n ts
    moreAnd d n e ts

/-- Further negations, each after an AND. -/
def moreAnd (d : Dialect) : Nat → Expr → List Token → Option (Expr × List Token)
  | 0, _, _ => none
  | n + 1, e, ts =>
    match keyword "AND" ts with
    | some ts => do
      let (f, ts) ← negation d n ts
      moreAnd d n (.and e f) ts
    | none => some (e, ts)

/-- A condition after any number of NOTs. -/
def negation (d : Dialect) : Nat → List Token → Option (Expr × List Token)
  | 0, _ => none
  | n + 1, ts =>
    match keyword "NOT" ts with
    | some ts => do
      let (e, ts) ← negation d n ts
      pure (.not e, ts)
    | none => condition d n ts

/-- A condition: an expression in brackets, an EXISTS or a test of an operand. -/
def condition (d : Dialect) : Nat → List Token → Option (Expr × List Token)
  | 0, _ => none
  | n + 1, ts =>
    match mark '(' ts with
    | some ts => do
      let (e, ts) ← expr d n ts
      let ts ← mark ')' ts
      pure (e, ts)
    | none =>
      match keyword "EXISTS" ts with
      | some ts => do
        let ts ← mark '(' ts
        let (q, ts) ← query d n ts
        let ts ← mark ')' ts
        pure (.anyRow q, ts)
      | none => do
        let (o, ts) ← operand n ts
        test d n o ts

/-- What is said of an operand. -/
def test (d : Dialect) : Nat → Operand → List Token → Option (Expr × List Token)
  | n + 1, o, .operator text :: ts => do
    let op ← comparison? text
    let (right, ts) ← operand n ts
    pure (.compare op o right, ts)
  | n + 1, o, .word w :: ts =>
    if w = "IS" then
      match keyword "NOT" ts with
      | some ts => do
        let ts ← keyword "NULL" ts
        pure (.not (.isNull o), ts)
      | none => do
        let ts ← keyword "NULL" ts
        pure (.isNull o, ts)
    else if w = "LIKE" then do
      let (pattern, ts) ← operand n ts
      let (escape, ts) ← escape d ts
      pure (.like o pattern escape, ts)
    else if w = "IN" then do
      let ts ← mark '(' ts
      match keyword "SELECT" ts with
      | some _ => do
        let (q, ts) ← query d n ts
        let ts ← mark ')' ts
        pure (.isInQuery o q, ts)
      | none => do
        let (members, ts) ← operands n ts
        let ts ← mark ')' ts
        pure (.isIn o members, ts)
    else if w = "NOT" then do
      let ts ← keyword "IN" ts
      let ts ← mark '(' ts
      let (members, ts) ← operands n ts
      let ts ← mark ')' ts
      pure (.not (.isIn o members), ts)
    else none
  | _, _, _ => none

/-- What rows are taken from: a table or a selection in brackets. -/
def source (d : Dialect) : Nat → List Token → Option (Source × List Token)
  | 0, _ => none
  | n + 1, ts =>
    match mark '(' ts with
    | some ts => do
      let (q, ts) ← query d n ts
      let ts ← mark ')' ts
      let ts ← keyword "AS" ts
      let (asName, ts) ← name n ts
      pure (.query q asName, ts)
    | none => do
      let (table, ts) ← name n ts
      match keyword "AS" ts with
      | some ts => do
        let (asName, ts) ← name n ts
        pure (.table table asName, ts)
      | none => pure (.table table table, ts)

/-- Any number of JOIN clauses. -/
def joins (d : Dialect) : Nat → List Token → Option (List JoinClause × List Token)
  | 0, _ => none
  | n + 1, ts =>
    match keyword "JOIN" ts with
    | some ts => do
      let (table, ts) ← source d n ts
      let ts ← keyword "ON" ts
      let (left, ts) ← name n ts
      match ts with
      | .operator "=" :: ts => do
        let (right, ts) ← name n ts
        let (others, ts) ← joins d n ts
        pure (.on table left right :: others, ts)
      | _ => none
    | none => some ([], ts)

/-- An optional WHERE. -/
def whereClause (d : Dialect) : Nat → List Token → Option (Option Expr × List Token)
  | 0, _ => none
  | n + 1, ts =>
    match keyword "WHERE" ts with
    | some ts => do
      let (e, ts) ← expr d n ts
      pure (some e, ts)
    | none => some (none, ts)

/-- A SELECT. -/
def query (d : Dialect) : Nat → List Token → Option (Query × List Token)
  | 0, _ => none
  | n + 1, ts => do
    let ts ← keyword "SELECT" ts
    let (projection, ts) ← projection n ts
    let ts ← keyword "FROM" ts
    let (source, ts) ← source d n ts
    let (joins, ts) ← joins d n ts
    let (condition, ts) ← whereClause d n ts
    let (order, ts) ← order n ts
    let (limit, ts) ← window "LIMIT" ts
    let (offset, ts) ← window "OFFSET" ts
    pure (.select ⟨projection, order, limit, offset⟩ source joins condition, ts)

end

/-- The steps that a list of tokens can need. -/
def enough (ts : List Token) : Nat := 8 * ts.length + 8

/-- The expression that is the whole of a statement. -/
def readExpr (d : Dialect) (s : Statement) : Option Expr := do
  let ts ← tokens d s
  match expr d (enough ts) ts with
  | some (e, []) => some e
  | _ => none

/-- The selection that is the whole of a statement. -/
def readQuery (d : Dialect) (s : Statement) : Option Query := do
  let ts ← tokens d s
  match query d (enough ts) ts with
  | some (q, []) => some q
  | _ => none

end EntityGraph.Sql
