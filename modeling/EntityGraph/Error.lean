import EntityGraph.Failure
import EntityGraph.Relation
import EntityGraph.Sql.Dialect
import EntityGraph.Value.Coerce

/-!
# Errors of graph operations

An error says what went wrong as data; `Error.message` is the only place where it is put into
words. Callers tell four shapes apart: broken constraints, nothing found, too much found, and an
operation that is malformed in itself. `Error.cause` looks through a rollback that failed too.
-/

set_option autoImplicit false

namespace EntityGraph

/-- Why a value does not fit the field of an entity. -/
inductive ReadError where
  /-- Another type of value was expected. -/
  | expected (what : String) (kind : String)
  /-- The integer is too large for a narrower type. -/
  | tooLarge (i : Int64)
  /-- The integer is too small for a narrower type. -/
  | tooSmall (i : Int64)
deriving DecidableEq, Repr

namespace ReadError

/-- The wording of the error. -/
def message : ReadError → String
  | .expected what kind => "expected " ++ what ++ ", got " ++ kind
  | .tooLarge i => Value.intText i ++ " out of range: number too large to fit in target type"
  | .tooSmall i => Value.intText i ++ " out of range: number too small to fit in target type"

end ReadError

/-- Why an operation is malformed, or a value cannot be used for a column. -/
inductive Reason where
  | typeMismatch (kind : String) (type : FieldType)
  | unknownColumn (table : String)
  | missingId (table : String)
  | edgeArity (relation : Relation) (actual : Nat)
  | ownedEdge
  | singleColumnExpected (relation : Relation)
  | joinColumnsExpected
  | removalWithoutTargets
  | manyTargets (count : Nat)
  | oneTargetExpected (count : Nat)
  | noTargets
  | noTarget
  | writtenTwice
  | pendingOutsideBatch
  | otherTable (table : String)
  | danglingReference (node target size : Nat)
  | referenceCycle
  | mixedIds
  | unreportedId (dialect : Dialect) (type : FieldType)
  | rowLength (row values columns : Nat)
  | conflictColumnsRequired
  | emptyUpsert
  | deletionWithoutId
  | updateWithoutId
  | setAndCleared
  | notNumeric (type : FieldType)
  | noCount
  | noJoinTable (relation : Relation)
  | shortEdgeRow
  | scanLength (expected actual : Nat)
  | coercion (e : CoercionError)
  | reading (e : ReadError)
  /-- A reason that the caller gives. -/
  | reported (text : String)
deriving DecidableEq, Repr

namespace Reason

/-- The wording of a reason. -/
def message : Reason → String
  | .typeMismatch kind type => kind ++ " value does not match column type " ++ type.name
  | .unknownColumn table => "unknown column for table " ++ table
  | .missingId table => "missing required ID for table " ++ table
  | .edgeArity relation actual =>
    relation.code ++ " edge expects " ++ toString relation.columnCount ++ " column(s), got " ++
      toString actual
  | .ownedEdge => "M2O edges are owned by the declaring table and must be inverse"
  | .singleColumnExpected relation => relation.code ++ " edge expects a single FK column"
  | .joinColumnsExpected => "M2M edge expects two join-table columns"
  | .removalWithoutTargets => "removing edges requires target nodes"
  | .manyTargets count => "O2O edge accepts a single target, got " ++ toString count
  | .oneTargetExpected count => "M2O edge expects exactly one target, got " ++ toString count
  | .noTargets => "edge has no target nodes"
  | .noTarget => "edge has no target node"
  | .writtenTwice => "column is written more than once"
  | .pendingOutsideBatch => "pending references are only valid inside a batch create"
  | .otherTable table =>
    "batch insert into " ++ table ++ " cannot include rows of another table"
  | .danglingReference node target size =>
    "batch node " ++ toString node ++ " references node " ++ toString target ++
      ", but the batch has " ++ toString size ++ " nodes"
  | .referenceCycle => "batch references form a cycle"
  | .mixedIds => "batch mixes supplied and generated IDs"
  | .unreportedId dialect type =>
    dialect.name ++ " does not report generated IDs of type " ++ type.name
  | .rowLength row values columns =>
    "insert row " ++ toString row ++ " has " ++ toString values ++ " values for " ++
      toString columns ++ " columns"
  | .conflictColumnsRequired => "DO UPDATE upserts require conflict columns"
  | .emptyUpsert => "MySQL upsert of an empty row requires conflict columns or an ID column"
  | .deletionWithoutId => "deleting a single node requires its ID"
  | .updateWithoutId => "updating a single node requires its ID"
  | .setAndCleared => "column cannot be set and cleared in the same update"
  | .notNumeric type => "cannot add to a column of type " ++ type.name
  | .noCount => "COUNT returned no value"
  | .noJoinTable relation => relation.code ++ " edges have no join table to query"
  | .shortEdgeRow => "edge row has fewer than two columns"
  | .scanLength expected actual =>
    "scan expects " ++ toString expected ++ " values, row has " ++ toString actual
  | .coercion e => e.message
  | .reading e => e.message
  | .reported text => text

end Reason

/-- Why an edge cannot be written beside the links that are already there. -/
inductive LinkConflict where
  /-- Two nodes of a batch link the same partner. -/
  | claimedTwice (target : Value) (label column : String)
  /-- The target already has a partner. -/
  | targetTaken (target : Value) (label column : String)
  /-- The node already has a partner. -/
  | nodeLinked (label : String) (id : Value) (column : String)
  /-- The node already has another partner in the target table. -/
  | nodeLinkedIn (label : String) (id : Value) (table column : String)
  /-- Several nodes would share a column that holds one. -/
  | manyNodes (ids : List Value)
  /-- One of the targets already points at another node. -/
  | targetsTaken (targets : List Value) (column : String)
  /-- Several nodes would get the same partner. -/
  | manyMatches (count : Nat) (label : String)

namespace LinkConflict

/-- A list of values in messages. -/
def listText (vs : List Value) : String := "[" ++ ", ".intercalate (vs.map Value.text) ++ "]"

/-- The wording of a conflict. -/
def message : LinkConflict → String
  | .claimedTwice target label column =>
    target.text ++ " is linked to more than one " ++ label ++ " of the batch through " ++ column
  | .targetTaken target label column =>
    target.text ++ " is already connected to a different " ++ label ++ " through " ++ column
  | .nodeLinked label id column =>
    label ++ " " ++ id.text ++ " is already connected through " ++ column
  | .nodeLinkedIn label id table column =>
    label ++ " " ++ id.text ++ " is already connected to a different " ++ table ++ " through " ++
      column
  | .manyNodes ids => "unable to link FK edge to more than one node: " ++ listText ids
  | .targetsTaken targets column =>
    "one of " ++ listText targets ++ " is already connected to a different " ++ column
  | .manyMatches count label =>
    "unable to link O2O edge to " ++ toString count ++ " " ++ label ++ " nodes"

end LinkConflict

/-- What broke a constraint. -/
inductive ConstraintCause where
  /-- The database refused a statement. -/
  | violation (failure : Failure)
  /-- An edge stands against a link that is already there. -/
  | link (conflict : LinkConflict)
  /-- A cause that the caller gives. -/
  | reported (message source : String)

namespace ConstraintCause

/-- The message of a broken constraint. -/
def message : ConstraintCause → String
  | .violation failure => failure.message
  | .link conflict => conflict.message
  | .reported message _ => message

/-- The text of the error behind a broken constraint. -/
def source : ConstraintCause → String
  | .violation failure => failure.text
  | .link conflict => conflict.message
  | .reported _ source => source

end ConstraintCause

/-- Why a context stops its operation. -/
inductive Interruption where
  | cancelled
  | deadlineExceeded
deriving DecidableEq, Repr, Inhabited

namespace Interruption

/-- The wording of an interruption. -/
def message : Interruption → String
  | .cancelled => "operation cancelled"
  | .deadlineExceeded => "operation deadline exceeded"

end Interruption

/-- An error of a graph operation. -/
inductive Error where
  /-- The data breaks a uniqueness, foreign key or check rule. -/
  | constraint (cause : ConstraintCause)
  /-- No row matched where exactly one was expected. -/
  | notFound (label : String)
  /-- Several rows matched where exactly one was expected. -/
  | notSingular (label : String)
  /-- The operation itself is malformed. -/
  | validation (field : String) (reason : Reason)
  /-- Any other failure of the driver. -/
  | driver (failure : Failure)
  /-- The context was cancelled or expired. -/
  | interrupted (why : Interruption)
  /-- The operation failed, and so did the rollback of its transaction. -/
  | rollback (source : Error) (failure : Failure)

namespace Error

/-- The wording of an error. -/
def message : Error → String
  | .constraint cause => "constraint failed: " ++ cause.message
  | .notFound label => label ++ " not found"
  | .notSingular label => label ++ " not singular"
  | .validation field reason =>
    "validation failed for field " ++ Text.quoted field ++ ": " ++ reason.message
  | .driver failure => failure.text
  | .interrupted why => why.message
  | .rollback source failure => source.message ++ ": rolling back transaction: " ++ failure.text

/-- The error that made the operation fail. -/
def cause : Error → Error
  | .rollback source _ => source.cause
  | e => e

/-- The text of the error behind an error. -/
def source? : Error → Option String
  | .constraint cause => some cause.source
  | .validation _ reason => some reason.message
  | .driver failure => failure.source?
  | .rollback source _ => some source.message
  | _ => none

/-- A constraint is the cause. -/
def isConstraint (e : Error) : Bool :=
  match e.cause with
  | .constraint _ => true
  | _ => false

/-- Nothing found is the cause. -/
def isNotFound (e : Error) : Bool :=
  match e.cause with
  | .notFound _ => true
  | _ => false

/-- Too much found is the cause. -/
def isNotSingular (e : Error) : Bool :=
  match e.cause with
  | .notSingular _ => true
  | _ => false

/-- A malformed operation is the cause. -/
def isValidation (e : Error) : Bool :=
  match e.cause with
  | .validation _ _ => true
  | _ => false

end Error

/-- A link conflict as an error. -/
def LinkConflict.toError (c : LinkConflict) : Error := .constraint (.link c)

/-- The result that a script takes, or the message that stops it. -/
def Error.demand {α : Type} : Except Error α → Except String α
  | .ok a => .ok a
  | .error e => .error e.message

/-- The result that a script takes, where nothing found is no result, or the message that stops
it. -/
def Error.demandFound {α : Type} : Except Error α → Except String (Option α)
  | .ok a => .ok (some a)
  | .error e => if e.isNotFound then .ok none else .error e.message

end EntityGraph
