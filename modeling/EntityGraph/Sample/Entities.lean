import EntityGraph.Entity.Query
import EntityGraph.Sample.Generators

/-!
# Sample entities

A small directory of accounts with their tokens, users with parents and spouses, teams, and
documents with a column of every type. Any of them can be kept with its neighbors.
-/

set_option autoImplicit false

namespace EntityGraph.Sample

open ColumnData (toValue)

/-- The owner of tokens. -/
structure Account where
  id : Int64
  email : String
  name : Option String

/-- A token of an account. -/
structure Token where
  id : Int64
  body : Option String
  accountId : Option Int64

/-- A person, with a parent and a spouse among the others. -/
structure User where
  id : Int64
  name : Option String
  age : Option Int32
  parentId : Option Int64
  spouseId : Option Int64

/-- A team. -/
structure Team where
  id : Int64
  name : String

/-- A document with a column of every type. -/
structure Doc where
  id : Uuid
  title : Option String
  score : Option Binary64
  isPublic : Option Bool
  body : Option (List UInt8)
  metadata : Option Json
  createdAt : Option Instant
  extra : Value

namespace Account

/-- Takes an account out of a row. -/
def reader : RowReader Account := do
  let id ← RowReader.column Int64 "id"
  let email ← RowReader.column String "email"
  let name ← RowReader.column (Option String) "name"
  pure { id, email, name }

/-- The value of a column. -/
def value (a : Account) : String → Value
  | "id" => toValue a.id
  | "email" => toValue a.email
  | "name" => toValue a.name
  | _ => .null

/-- The type of a column. -/
def columnType : String → FieldType
  | "email" | "name" => .string
  | _ => .other

/-- The storage of accounts. -/
def type : EntityType Account :=
  { table := "accounts", label := "account", idColumn := "id", idType := .int
    columns := ["email", "name"]
    columnType, strategy := .sequence, ofRow := RowReader.ofRow reader, value }

end Account

namespace Token

/-- Takes a token out of a row. -/
def reader : RowReader Token := do
  let id ← RowReader.column Int64 "id"
  let body ← RowReader.column (Option String) "body"
  let accountId ← RowReader.column (Option Int64) "account_id"
  pure { id, body, accountId }

/-- The value of a column. -/
def value (t : Token) : String → Value
  | "id" => toValue t.id
  | "body" => toValue t.body
  | "account_id" => toValue t.accountId
  | _ => .null

/-- The type of a column. -/
def columnType : String → FieldType
  | "body" => .string
  | "account_id" => .int
  | _ => .other

/-- The storage of tokens. -/
def type : EntityType Token :=
  { table := "tokens", label := "token", idColumn := "id", idType := .int
    columns := ["body", "account_id"]
    columnType, strategy := .sequence, ofRow := RowReader.ofRow reader, value }

end Token

namespace User

/-- Takes a user out of a row. -/
def reader : RowReader User := do
  let id ← RowReader.column Int64 "id"
  let name ← RowReader.column (Option String) "name"
  let age ← RowReader.column (Option Int32) "age"
  let parentId ← RowReader.column (Option Int64) "parent_id"
  let spouseId ← RowReader.column (Option Int64) "spouse_id"
  pure { id, name, age, parentId, spouseId }

/-- The value of a column. -/
def value (u : User) : String → Value
  | "id" => toValue u.id
  | "name" => toValue u.name
  | "age" => toValue u.age
  | "parent_id" => toValue u.parentId
  | "spouse_id" => toValue u.spouseId
  | _ => .null

/-- The type of a column. -/
def columnType : String → FieldType
  | "name" => .string
  | "age" | "parent_id" | "spouse_id" => .int
  | _ => .other

/-- The storage of users. -/
def type : EntityType User :=
  { table := "users", label := "user", idColumn := "id", idType := .int
    columns := ["name", "age", "parent_id", "spouse_id"]
    columnType, strategy := .sequence, ofRow := RowReader.ofRow reader, value }

end User

namespace Team

/-- Takes a team out of a row. -/
def reader : RowReader Team := do
  let id ← RowReader.column Int64 "id"
  let name ← RowReader.column String "name"
  pure { id, name }

/-- The value of a column. -/
def value (t : Team) : String → Value
  | "id" => toValue t.id
  | "name" => toValue t.name
  | _ => .null

/-- The type of a column. -/
def columnType : String → FieldType
  | "name" => .string
  | _ => .other

/-- The storage of teams. -/
def type : EntityType Team :=
  { table := "teams", label := "team", idColumn := "id", idType := .int
    columns := ["name"]
    columnType, strategy := .sequence, ofRow := RowReader.ofRow reader, value }

end Team

namespace Doc

/-- Takes a document out of a row. -/
def reader : RowReader Doc := do
  let id ← RowReader.column Uuid "id"
  let title ← RowReader.column (Option String) "title"
  let score ← RowReader.column (Option Binary64) "score"
  let isPublic ← RowReader.column (Option Bool) "public"
  let body ← RowReader.column (Option (List UInt8)) "body"
  let metadata ← RowReader.column (Option Json) "meta"
  let createdAt ← RowReader.column (Option Instant) "created_at"
  let extra ← RowReader.column Value "extra"
  pure { id, title, score, isPublic, body, metadata, createdAt, extra }

/-- The value of a column. -/
def value (x : Doc) : String → Value
  | "id" => toValue x.id
  | "title" => toValue x.title
  | "score" => toValue x.score
  | "public" => toValue x.isPublic
  | "body" => toValue x.body
  | "meta" => toValue x.metadata
  | "created_at" => toValue x.createdAt
  | "extra" => x.extra
  | _ => .null

/-- The type of a column. -/
def columnType : String → FieldType
  | "title" => .enum
  | "score" => .float
  | "public" => .bool
  | "body" => .bytes
  | "meta" => .json
  | "created_at" => .time
  | _ => .other

/-- The storage of documents. -/
def type : EntityType Doc :=
  { table := "docs", label := "doc", idColumn := "id", idType := .uuid
    columns := ["title", "score", "public", "body", "meta", "created_at", "extra"]
    columnType, strategy := .generator .countingUuids, ofRow := RowReader.ofRow reader, value }

end Doc

/-- The kinds of sample entities. -/
inductive Kind where
  | account
  | token
  | user
  | team
  | doc
deriving DecidableEq, Repr

namespace Kind

/-- All kinds. -/
def all : List Kind := [.account, .token, .user, .team, .doc]

/-- The entities of a kind. -/
def Entity : Kind → Type
  | .account => Account
  | .token => Token
  | .user => User
  | .team => Team
  | .doc => Doc

/-- The storage of the entities of a kind. -/
def type : (k : Kind) → EntityType k.Entity
  | .account => Account.type
  | .token => Token.type
  | .user => User.type
  | .team => Team.type
  | .doc => Doc.type

/-- The kind with a label. -/
def ofLabel? (label : String) : Option Kind := all.find? fun k => k.type.label == label

end Kind

/-- An entity with the neighbors attached to it: under the name of an edge the columns of a
neighbor. -/
structure WithNeighbors (E : Type) where
  entity : E
  neighbors : List (String × List (String × Value))

namespace WithNeighbors

variable {E : Type}

/-- Entities that are stored as they are, and start without neighbors. -/
def type (t : EntityType E) : EntityType (WithNeighbors E) :=
  { table := t.table, label := t.label, idColumn := t.idColumn, idType := t.idType
    columns := t.columns, columnType := t.columnType, strategy := t.strategy
    ofRow := fun columns row => do
      let entity ← t.ofRow columns row
      pure { entity, neighbors := [] }
    value := fun e column => t.value e.entity column }

/-- A load of neighbors that are kept under a name. -/
def loader {C : Type} (name : String) (child : EntityType C) (edge : Edge) :
    EdgeLoader (WithNeighbors E) :=
  .ofEdge edge child fun c p => { p with neighbors := p.neighbors ++ [(name, child.fields c)] }

end WithNeighbors

end EntityGraph.Sample
