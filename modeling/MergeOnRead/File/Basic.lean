import MergeOnRead.Error

/-!
# Files

What a table records about a data file: where it is, the partition it belongs to, its size and its
number of records. A file of the change side also carries the id of the transaction that wrote it;
a file of the base side never does.
-/

namespace MergeOnRead

/-- A data file. It carries a transaction id exactly when it belongs to the change side. -/
structure File where
  path : String
  content : FileContent
  partition : Partition.Key
  size : UInt64
  records : UInt64
  transactionId : Option TransactionId
  transactionId_isSome : transactionId.isSome ↔ content.side = .change
deriving DecidableEq, Repr

namespace File

/-- A file of compacted rows. -/
def base (path : String) (partition : Partition.Key) (size records : UInt64) : File where
  path
  content := .data
  partition
  size
  records
  transactionId := none
  transactionId_isSome := by simp [FileContent.side]

/-- A file of the change side, written by the transaction with the given number. -/
def change (path : String) (content : FileContent) (partition : Partition.Key)
    (size records : UInt64) (transaction : Int) : Except Error File :=
  if h : content.side = .change then
    match TransactionId.check transaction with
    | .error e => .error e
    | .ok id => .ok ⟨path, content, partition, size, records, some id, by simp [h]⟩
  else .error (.invalid (.notChangeContent content))

/-- A file with the given parts, if its transaction id fits its content. -/
def ofParts (path : String) (content : FileContent) (partition : Partition.Key)
    (size records : UInt64) (transactionId : Option TransactionId) : Except Error File :=
  if h : transactionId.isSome ↔ content.side = .change then
    .ok ⟨path, content, partition, size, records, transactionId, h⟩
  else .error (.invalid (.transactionIdMisplaced content path transactionId))

/-- The side a file belongs to. -/
def side (file : File) : Side := file.content.side

/-- Whether the file is already folded into the base files of a partition with the given
watermark. -/
def isAbsorbedBy (file : File) (watermark : Option TransactionId) : Bool :=
  match file.transactionId, watermark with
  | some id, some mark => id ≤ mark
  | _, _ => false

end File

end MergeOnRead
