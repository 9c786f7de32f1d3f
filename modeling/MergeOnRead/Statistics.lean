import MergeOnRead.Saturating
import MergeOnRead.Table
import MergeOnRead.View

/-!
# Statistics

Figures about the two sides of a table for monitoring. Collecting them never fails: a side that is
missing or cannot be read counts as empty, so one broken side does not hide the other.
-/

namespace MergeOnRead

/-- A number of files and their bytes. -/
structure FileTotals where
  files : UInt64
  size : UInt64
deriving DecidableEq, Repr

namespace FileTotals

def zero : FileTotals := ⟨0, 0⟩

/-- Both sums, each at most the top of its range. -/
def add (a b : FileTotals) : FileTotals :=
  ⟨Saturating.add a.files b.files, Saturating.add a.size b.size⟩

def sum (items : List FileTotals) : FileTotals := items.foldl add zero

end FileTotals

/-- The details of a snapshot, as its summary records them. -/
structure SnapshotDetail where
  id : Option SnapshotId
  operation : String
  addedFiles : Int
  addedSize : Int
  addedRecords : Int
  removedFiles : Int
  removedSize : Int
  removedRecords : Int
  totalSize : Int
  totalFiles : Int
  totalRecords : Int
deriving DecidableEq, Repr

namespace SnapshotDetail

def none : SnapshotDetail := ⟨.none, "", 0, 0, 0, 0, 0, 0, 0, 0, 0⟩

/-- The details that a snapshot records. -/
def ofSnapshot (snapshot : Snapshot) : SnapshotDetail :=
  let number key := snapshot.summary.number key 0
  { id := some snapshot.id
    operation := snapshot.operation
    addedFiles := number SummaryKey.addedFiles
    addedSize := number SummaryKey.addedSize
    addedRecords := number SummaryKey.addedRecords
    removedFiles := number SummaryKey.removedFiles
    removedSize := number SummaryKey.removedSize
    removedRecords := number SummaryKey.removedRecords
    totalSize := number SummaryKey.totalSize
    totalFiles := number SummaryKey.totalFiles
    totalRecords := number SummaryKey.totalRecords }

/-- The details under the keys of a statistics summary. -/
def entries (detail : SnapshotDetail) : List (String × String) :=
  [("operation", detail.operation),
    ("addedFiles", toString detail.addedFiles),
    ("addedFilesSize", toString detail.addedSize),
    ("addedRecords", toString detail.addedRecords),
    ("removedFilesSize", toString detail.removedSize),
    ("removedFiles", toString detail.removedFiles),
    ("removedRecords", toString detail.removedRecords),
    ("totalSize", toString detail.totalSize),
    ("snapshotId", (detail.id.map SnapshotId.text).getD ""),
    ("totalFiles", toString detail.totalFiles),
    ("totalRecords", toString detail.totalRecords)]

/-- The details of the current snapshot of the base side. -/
def ofBase (source : Source) : Reply SnapshotDetail :=
  (source.currentSnapshot .base).andThen fun current =>
    .now (.ok ((current.map ofSnapshot).getD none))

end SnapshotDetail

/-- Statistics of one side of a table, or of both. -/
structure Statistics where
  table : TableId
  summary : Properties
  totals : FileTotals
deriving DecidableEq, Repr

namespace Statistics

def snapshotCountKey : String := "snapshotCnt"

def visibleTimeKey : String := "visibleTime"

def firstCommitTimeKey : String := "firstSnapshotCommitTime"

/-- The bytes of the current snapshot for each snapshot, rounded down. -/
def averageSizeKey : String := "averageSnapshotSize"

def empty (table : TableId) : Statistics := ⟨table, OrderedMap.empty, FileTotals.zero⟩

/-- A total in a summary. What does not read, and what is negative, counts as zero. -/
def total (snapshot : Snapshot) (key : String) : UInt64 :=
  UInt64.ofNat (snapshot.summary.number key 0).toNat

/-- The statistics of a history, which all come from this one list of snapshots. -/
def ofHistory (table : TableId) (snapshots : List Snapshot) : Statistics :=
  match snapshots.head?, snapshots.getLast? with
  | some first, some current =>
    let totals : FileTotals :=
      ⟨total current SummaryKey.totalFiles, total current SummaryKey.totalSize⟩
    { table
      totals
      summary := OrderedMap.ofList
        ([(snapshotCountKey, toString snapshots.length),
            (visibleTimeKey, toString current.time),
            (firstCommitTimeKey, toString first.time),
            (averageSizeKey, toString (totals.size.toNat / snapshots.length))] ++
          (SnapshotDetail.ofSnapshot current).entries) }
  | _, _ => empty table

/-- Reads the history of a side, if the side exists. -/
def read (table : TableId) (source : Source) (side : Side) : Reply (Option Statistics) :=
  (source.hasSide side).andThen fun present =>
    if present then
      (source.snapshots side).andThen fun snapshots =>
        .now (.ok (some (ofHistory table snapshots)))
    else .now (.ok none)

/-- The statistics of a side, empty when the side is missing or cannot be read. -/
def collect (table : TableId) (source : Source) (side : Side) : Reply Statistics :=
  match read table source side with
  | .never => .never
  | .after delay (.ok (some statistics)) => .after delay (.ok statistics)
  | .after delay _ => .after delay (.ok (empty table))

/-- The entries that the statistics of both sides keep, each from one of them. -/
def mergedEntries (change base : Statistics) : List (String × String) :=
  [(visibleTimeKey, change), (snapshotCountKey, base), (firstCommitTimeKey, base)].filterMap
    fun pick => (pick.2.summary.get? pick.1).map fun value => (pick.1, value)

/-- The statistics of both sides in one. What is missing leaves the other as it is. -/
def union : Option Statistics → Option Statistics → Option Statistics
  | none, none => none
  | some change, none => some change
  | none, some base => some base
  | some change, some base =>
    some
      { table := base.table
        summary := OrderedMap.ofList (mergedEntries change base)
        totals := change.totals.add base.totals }

end Statistics

end MergeOnRead
