import MergeOnRead.File.Basic
import MergeOnRead.OrderedMap

/-!
# Watermarks

The watermark of a partition is the highest transaction id whose files are folded into the base
files of the partition. Watermarks only move up: every update takes the maximum of the old and the
new id, so updates may be repeated and may come in any order. `raise` and `raiseAll` give new
watermarks; `advance` changes them in place, and `withBatch` reads them there.

Main statement: `get?_raise`, a raised partition has the maximum of what it had and what it is
raised to, all others keep what they had.
-/

namespace MergeOnRead

/-- The watermarks of the partitions that have one. -/
abbrev Watermarks := OrderedMap Partition.Key TransactionId

namespace Watermarks

/-- The higher of a new id and the one that is there, if any. -/
def atLeast (id : TransactionId) : Option TransactionId → TransactionId
  | none => id
  | some mark => max mark id

/-- Raises the watermark of a partition to at least an id. -/
def raise (marks : Watermarks) (partition : Partition.Key) (id : TransactionId) : Watermarks :=
  marks.upsert partition (atLeast id)

/-- Raises every partition of a batch to at least its id in the batch. -/
def raiseAll (marks batch : Watermarks) : Watermarks :=
  batch.toList.foldl (fun acc entry => acc.raise entry.1 entry.2) marks

/-- The watermarks of a list of pairs; the highest id of a partition counts. -/
def ofList (pairs : List (Partition.Key × TransactionId)) : Watermarks :=
  pairs.foldl (fun acc pair => acc.raise pair.1 pair.2) OrderedMap.empty

/-- The number shown for a partition without a watermark. -/
def unset : Int := -1

/-- The watermark of a partition as a number. -/
def number (marks : Watermarks) (partition : Partition.Key) : Int :=
  match marks.get? partition with
  | none => unset
  | some id => id.val

theorem get?_raise (marks : Watermarks) (partition other : Partition.Key) (id : TransactionId) :
    (marks.raise partition id).get? other =
      if other = partition then some (atLeast id (marks.get? partition)) else marks.get? other :=
  OrderedMap.get?_upsert marks partition other (atLeast id)

/-- Ids for partitions that are to be applied together. -/
structure Batch where
  ids : OrderedMap Partition.Key TransactionId
deriving DecidableEq, Repr

namespace Batch

def empty : Batch := ⟨OrderedMap.empty⟩

/-- Records an id for a partition. Of several ids for one partition the highest stays. -/
def push (batch : Batch) (partition : Partition.Key) (id : TransactionId) : Batch :=
  ⟨batch.ids.upsert partition fun
    | none => id
    | some current => max current id⟩

/-- The batch into which pairs are pushed one after the other. -/
def ofList (pairs : List (Partition.Key × TransactionId)) : Batch :=
  pairs.foldl (fun batch pair => batch.push pair.1 pair.2) empty

end Batch

/-- Moves the watermark of a partition up in place to at least an id, and gives what it is then. -/
def advance (partition : Partition.Key) (id : TransactionId) : StateM Watermarks TransactionId := do
  -- a partition without a watermark starts at the id
  let slot := ((← get).get? partition).getD id
  let slot := if id ≤ slot then slot else id
  modify (·.insert partition slot)
  return slot

/-- Moves watermarks up in place for one pair after the other. -/
def advanceAll (pairs : List (Partition.Key × TransactionId)) : StateM Watermarks Unit :=
  pairs.forM fun pair => discard (advance pair.1 pair.2)

/-- The watermarks with a batch applied. They are moved up on a copy, so that a caller publishes all
of the batch or nothing. -/
def withBatch (batch : Batch) : StateM Watermarks Watermarks := do
  let (_, next) := (advanceAll batch.ids.toList).run (← get)
  return next

end Watermarks

end MergeOnRead
