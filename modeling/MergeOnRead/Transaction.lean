import MergeOnRead.InPlace
import MergeOnRead.Snapshot
import MergeOnRead.Watermarks

/-!
# Transactions

The context that a write threads through its steps: the side it writes to, the snapshot and the
watermarks it started from, and what it has staged. Nothing staged is visible until a store commits
the whole context at once.
-/

namespace MergeOnRead

/-- A staged change of files. -/
inductive StagedChange where
  /-- Puts the files in the place of all live files of the partitions they belong to. -/
  | replace (files : List File)
  /-- Adds the files to the live ones. -/
  | append (files : List File)
deriving DecidableEq, Repr

/-- A write in progress. -/
structure Transaction where
  side : Side
  baseSnapshot : Option SnapshotId
  baseWatermarks : Watermarks
  stagedWatermarks : Option Watermarks
  changes : List StagedChange
  summary : Properties
deriving DecidableEq, Repr

namespace Transaction

/-- A write that has staged nothing yet. -/
def start (side : Side) (baseSnapshot : Option SnapshotId) (baseWatermarks : Watermarks) :
    Transaction :=
  ⟨side, baseSnapshot, baseWatermarks, none, [], OrderedMap.empty⟩

/-- The watermarks that a commit publishes: the staged ones, else those it started from. -/
def watermarks (t : Transaction) : Watermarks := t.stagedWatermarks.getD t.baseWatermarks

/-- Whether there is nothing to publish. Summary entries alone publish nothing. -/
def isEmpty (t : Transaction) : Bool := t.changes.isEmpty && t.stagedWatermarks.isNone

/-- Checks that all files belong to the side of the transaction; the first that does not is
reported. -/
def checkSide (t : Transaction) (files : List File) : Except Error Unit :=
  match files.find? fun file => file.side != t.side with
  | some file => .error (.invalid (.fileOnWrongSide file.content file.path t.side))
  | none => .ok ()

def setWatermarks (t : Transaction) (marks : Watermarks) : Transaction :=
  { t with stagedWatermarks := some marks }

/-- Records a summary entry for the snapshot to come. -/
def setSummary (t : Transaction) (key value : String) : Transaction :=
  { t with summary := t.summary.insert key value }

end Transaction

/-- A step that works on a transaction in place. -/
abbrev Staging := InPlace Transaction

namespace Staging

/-- Stages a change after checking its files. -/
def stage (files : List File) (change : List File → StagedChange) : Staging Unit := do
  InPlace.ofExcept ((← get).checkSide files)
  modify fun t => { t with changes := t.changes ++ [change files] }

def replacePartitions (files : List File) : Staging Unit := stage files .replace

def append (files : List File) : Staging Unit := stage files .append

end Staging

end MergeOnRead
