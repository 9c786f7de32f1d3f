import MergeOnRead.Duration
import MergeOnRead.File.Content
import MergeOnRead.Identifier
import MergeOnRead.Partition.Key
import MergeOnRead.Partition.Transform
import MergeOnRead.Predicate.Bound

/-!
# Errors

Why an operation fails. Causes are data; `Error.message` is the only place where they become text.
Failures that a table store reports in its own words are kept as `reported`.
-/

namespace MergeOnRead

/-- A value given by the caller that cannot be used. -/
inductive InvalidArgument where
  | transactionIdNotPositive (raw : Int)
  | transactionIdMissing
  | unknownPartitionSource (column : String)
  | unsupportedTransform (transform : Partition.Transform)
  | keyLength (key : Partition.Key) (expected : Nat)
  | keyValueType (value : Partition.Value) (type : ColumnType) (column : String)
  | notChangeContent (content : FileContent)
  | transactionIdMisplaced (content : FileContent) (path : String) (id : Option TransactionId)
  | fileOnWrongSide (content : FileContent) (path : String) (side : Side)
  | replacementOnWrongSide (side : Side)
  | appendOnWrongSide (side : Side)
  | unknownPrimaryKey (column : String) (table : TableId)
  | foreignTable (table : TableId) (catalog : String)
  | databaseNotEmpty (database : String) (tables : Nat)
  | reported (text : String)
deriving DecidableEq, Repr

namespace InvalidArgument

def message : InvalidArgument → String
  | transactionIdNotPositive raw => "transaction-Id must be positive, got " ++ toString raw
  | transactionIdMissing => "transaction-Id must be set"
  | unknownPartitionSource column =>
    "partition source column '" ++ column ++ "' is not in the schema"
  | unsupportedTransform transform => "Unsupported partition transform:" ++ transform.text
  | keyLength key expected =>
    "partition " ++ key.text ++ " has " ++ toString key.length ++ " values, spec expects " ++
      toString expected
  | keyValueType value type column =>
    "partition value " ++ value.text ++ " does not match type " ++ type.text ++ " of column '" ++
      column ++ "'"
  | notChangeContent content => content.text ++ " is not a change file content"
  | transactionIdMisplaced content path id =>
    content.text ++ " file " ++ path ++ " on the " ++ content.side.text ++
      " side cannot carry transaction id " ++ TransactionId.optionText id
  | fileOnWrongSide content path side =>
    content.text ++ " file " ++ path ++ " cannot be written to the " ++ side.text ++ " side"
  | replacementOnWrongSide side => "partition rewrite needs a base transaction, got " ++ side.text
  | appendOnWrongSide side => "change append needs a change transaction, got " ++ side.text
  | unknownPrimaryKey column table =>
    "primary key column '" ++ column ++ "' is not in the schema of " ++ table.text
  | foreignTable table catalog =>
    "table " ++ table.text ++ " does not belong to catalog " ++ catalog
  | databaseNotEmpty database tables =>
    "database " ++ database ++ " still holds " ++ toString tables ++ " tables"
  | reported text => text

end InvalidArgument

/-- Something that does not exist. -/
inductive Missing where
  | side (side : Side)
  | database (name : String)
  | table (id : TableId)
  | reported (text : String)
deriving DecidableEq, Repr

def Missing.message : Missing → String
  | side s => s.text ++ " table does not exist"
  | database name => "database " ++ name ++ " does not exist"
  | table id => "table " ++ id.text ++ " does not exist"
  | reported text => text

/-- Something that exists already. -/
inductive Existing where
  | database (name : String)
  | table (id : TableId)
  | reported (text : String)
deriving DecidableEq, Repr

def Existing.message : Existing → String
  | database name => "database " ++ name ++ " already exists"
  | table id => "table " ++ id.text ++ " already exists"
  | reported text => text

/-- Why a store gives no answer. -/
inductive Outage where
  | unreachable (side : Side)
  | timedOut (limit : Duration)
  | reported (text : String)
deriving DecidableEq, Repr

def Outage.message : Outage → String
  | unreachable side => side.text ++ " table is unreachable"
  | timedOut limit => "table store call timed out after " ++ limit.text
  | reported text => text

/-- The kinds of errors that callers tell apart. -/
inductive ErrorKind where
  | invalidArgument
  | notFound
  | alreadyExists
  | commitConflict
  | unavailable
deriving DecidableEq, Repr

def ErrorKind.text : ErrorKind → String
  | invalidArgument => "InvalidArgument"
  | notFound => "NotFound"
  | alreadyExists => "AlreadyExists"
  | commitConflict => "CommitConflict"
  | unavailable => "Unavailable"

/-- Why an operation failed. -/
inductive Error where
  | invalid (cause : InvalidArgument)
  | unbound (cause : BindError)
  | notFound (what : Missing)
  | alreadyExists (what : Existing)
  | conflict (side : Side) (expected actual : Option SnapshotId)
  | unavailable (cause : Outage)
deriving DecidableEq, Repr

namespace Error

/-- The kind of an error. A predicate that cannot be bound is an invalid argument. -/
def kind : Error → ErrorKind
  | invalid _ => .invalidArgument
  | unbound _ => .invalidArgument
  | notFound _ => .notFound
  | alreadyExists _ => .alreadyExists
  | conflict .. => .commitConflict
  | unavailable _ => .unavailable

/-- Only a lost race may succeed when the operation is tried again on fresh state. -/
def isRetryable (e : Error) : Bool := e.kind = .commitConflict

def message : Error → String
  | invalid cause => "invalid argument: " ++ cause.message
  | unbound cause => "predicate bind error: " ++ cause.message
  | notFound what => "not found: " ++ what.message
  | alreadyExists what => "already exists: " ++ what.message
  | conflict side expected actual =>
    "commit conflict on " ++ side.text ++ " side: expected base snapshot " ++
      SnapshotId.optionText expected ++ ", found " ++ SnapshotId.optionText actual
  | unavailable cause => "unavailable: " ++ cause.message

end Error

/-- The transaction id with a given number, which has to be positive. -/
def TransactionId.check (raw : Int) : Except Error TransactionId :=
  match TransactionId.ofInt? raw with
  | some id => .ok id
  | none => .error (.invalid (.transactionIdNotPositive raw))

end MergeOnRead
