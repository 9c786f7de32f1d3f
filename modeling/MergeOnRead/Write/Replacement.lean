import MergeOnRead.Store.Basic
import MergeOnRead.Table

/-!
# Replacing partitions

The files of a replacement take the place of the base files of the partitions they are in, and the
watermarks of those partitions rise to at least the id of the writer's transaction. Files and
watermarks are staged on one transaction, so a reader never sees new files under old watermarks or
the other way round.
-/

namespace MergeOnRead

/-- A replacement: the files to write and the transaction id of the writer, if it was given. -/
structure Replacement where
  files : List File
  transaction : Option Int
deriving DecidableEq, Repr

namespace Replacement

/-- The transaction id of the writer, which has to be given and positive. -/
def transactionId (r : Replacement) : Except Error TransactionId :=
  match r.transaction with
  | none => .error (.invalid .transactionIdMissing)
  | some raw => TransactionId.check raw

/-- The watermarks that a replacement asks for: its id on every partition it touches. -/
def batch (r : Replacement) (id : TransactionId) : Watermarks :=
  Watermarks.ofList (r.files.map fun file => (file.partition, id))

/-- Stages a replacement on a transaction in place and gives the watermarks it will publish. A
replacement without files stages nothing. -/
def apply (metadata : Metadata) (r : Replacement) : Staging Watermarks := do
  let id ← InPlace.ofExcept r.transactionId
  if r.files.isEmpty then
    return (← get).watermarks
  let side := (← get).side
  if side ≠ .base then
    throw (.invalid (.replacementOnWrongSide side))
  InPlace.ofExcept (metadata.checkPartitions r.files)
  Staging.replacePartitions r.files
  let marks := (← get).watermarks.raiseAll (r.batch id)
  modify (·.setWatermarks marks)
  modify (·.setSummary SummaryKey.transactionId id.text)
  return marks

/-- The watermarks that a replacement will publish and the transaction it is staged on, if it can be
staged. -/
def stage (metadata : Metadata) (r : Replacement) (t : Transaction) :
    Except Error (Watermarks × Transaction) :=
  (r.apply metadata).result t

/-- A replacement on a transaction of its own: what is staged on the current base side. -/
def prepare (metadata : Metadata) (r : Replacement) (s : Store) :
    Except Error (Watermarks × Transaction) := do
  r.stage metadata (← s.openTransaction .base)

/-- Opens a transaction on the base side, stages a replacement on it and commits it. -/
def perform (metadata : Metadata) (r : Replacement) (now : Int) : InPlace Store Watermarks := do
  let (marks, t) ← InPlace.ofExcept (r.prepare metadata (← get))
  let _ ← t.commit now
  return marks

/-- What a replacement gives and leaves, if it is accepted. -/
def commit (metadata : Metadata) (r : Replacement) (s : Store) (now : Int) :
    Except Error (Watermarks × Store) :=
  (r.perform metadata now).result s

end Replacement

end MergeOnRead
