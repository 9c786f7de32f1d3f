import MergeOnRead.Identifier
import MergeOnRead.OrderedMap
import MergeOnRead.Text.Numeral

/-!
# Snapshots

A committed state of one side: its id, the snapshot before it, the commit time and a summary. The
summary is text under text keys, so numbers are read from it with a default for what is absent or
is no number.
-/

namespace MergeOnRead

/-- Text properties in key order. -/
abbrev Properties := OrderedMap String String

/-- Reads a number from a property; what is absent or does not read counts as the default. -/
def Properties.number (properties : Properties) (key : String) (default : Int) : Int :=
  ((properties.get? key).bind Text.readInteger?).getD default

/-- What a commit does to the files of a side. -/
inductive Operation where
  | append
  | overwrite
deriving DecidableEq, Repr

/-- The name of an operation in a summary. -/
def Operation.text : Operation → String
  | append => "append"
  | overwrite => "overwrite"

namespace SummaryKey

def operation : String := "operation"

def addedFiles : String := "added-data-files"

def addedSize : String := "added-files-size"

def addedRecords : String := "added-records"

def removedFiles : String := "deleted-data-files"

def removedSize : String := "removed-files-size"

def removedRecords : String := "deleted-records"

/-- The number of files alive after the commit. -/
def totalFiles : String := "total-data-files"

/-- The bytes alive after the commit. -/
def totalSize : String := "total-files-size"

/-- The records alive after the commit. -/
def totalRecords : String := "total-records"

/-- The transaction id of the write, for writes that have one. -/
def transactionId : String := "transaction-id"

end SummaryKey

/-- A committed snapshot of one side. -/
structure Snapshot where
  id : SnapshotId
  parent : Option SnapshotId
  time : Int
  summary : Properties
deriving DecidableEq, Repr

/-- The operation recorded in the summary, empty when there is none. -/
def Snapshot.operation (snapshot : Snapshot) : String :=
  (snapshot.summary.get? SummaryKey.operation).getD ""

end MergeOnRead
