import MergeOnRead.Store.Basic
import MergeOnRead.Table

/-!
# Appending changes

An append adds files to the change side. Each file carries the transaction id of its writer, by
which readers tell pending changes from those already folded into base files.
-/

namespace MergeOnRead

/-- An append: the files to add. -/
structure Append where
  files : List File
deriving DecidableEq, Repr

namespace Append

/-- The highest transaction id of the files. -/
def highest (a : Append) : Option TransactionId := (a.files.filterMap (·.transactionId)).max?

/-- Stages an append on a transaction in place. An append without files stages nothing. -/
def apply (metadata : Metadata) (a : Append) : Staging Unit := do
  if a.files.isEmpty then
    return
  let side := (← get).side
  if side ≠ .change then
    throw (.invalid (.appendOnWrongSide side))
  InPlace.ofExcept (metadata.checkPartitions a.files)
  Staging.append a.files
  match a.highest with
  | none => return
  | some id => modify (·.setSummary SummaryKey.transactionId id.text)

/-- The transaction that an append is staged on, if it can be staged. -/
def stage (metadata : Metadata) (a : Append) (t : Transaction) : Except Error Transaction :=
  ((a.apply metadata).result t).map (·.2)

/-- An append on a transaction of its own: what is staged on the current change side. -/
def prepare (metadata : Metadata) (a : Append) (s : Store) : Except Error Transaction := do
  a.stage metadata (← s.openTransaction .change)

/-- Opens a transaction on the change side, stages an append on it and commits it. -/
def perform (metadata : Metadata) (a : Append) (now : Int) : InPlace Store (Option Snapshot) := do
  let t ← InPlace.ofExcept (a.prepare metadata (← get))
  t.commit now

/-- What an append gives and leaves, if it is accepted. -/
def commit (metadata : Metadata) (a : Append) (s : Store) (now : Int) :
    Except Error (Option Snapshot × Store) :=
  (a.perform metadata now).result s

end Append

end MergeOnRead
