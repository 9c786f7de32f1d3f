import MergeOnRead.Saturating
import MergeOnRead.Transaction

/-!
# What a commit does to files

The staged changes are applied to the live files in order. On the way it is remembered which files
were added and which were removed; the summary of the new snapshot counts them. The sums are exact
here, so a summary is that of a real commit only where all its sums are 64-bit numbers.
-/

namespace MergeOnRead

/-- The live files of a side with the files that were added and removed on the way to them. -/
structure FileDelta where
  live : List File
  added : List File
  removed : List File
deriving DecidableEq, Repr

namespace FileDelta

def start (live : List File) : FileDelta := ⟨live, [], []⟩

/-- Whether a file belongs to a partition of the given files. -/
def touches (files : List File) (file : File) : Bool :=
  files.any fun other => other.partition == file.partition

def apply (delta : FileDelta) : StagedChange → FileDelta
  | .replace files =>
    ⟨delta.live.filter (fun file => !touches files file) ++ files, delta.added ++ files,
      delta.removed ++ delta.live.filter (touches files)⟩
  | .append files => ⟨delta.live ++ files, delta.added ++ files, delta.removed⟩

def applyAll (live : List File) (changes : List StagedChange) : FileDelta :=
  changes.foldl apply (start live)

end FileDelta

def totalSize (files : List File) : Nat := Saturating.exactSum (files.map (·.size))

def totalRecords (files : List File) : Nat := Saturating.exactSum (files.map (·.records))

/-- A commit with a replacement overwrites, any other appends. -/
def Operation.ofChanges (changes : List StagedChange) : Operation :=
  if changes.any (fun | .replace _ => true | .append _ => false) then .overwrite else .append

namespace Summary

/-- The counters of a commit that are written only when they are not zero. -/
def changeCounters (delta : FileDelta) : List (String × Nat) :=
  [(SummaryKey.addedFiles, delta.added.length), (SummaryKey.addedSize, totalSize delta.added),
    (SummaryKey.addedRecords, totalRecords delta.added),
    (SummaryKey.removedFiles, delta.removed.length),
    (SummaryKey.removedSize, totalSize delta.removed),
    (SummaryKey.removedRecords, totalRecords delta.removed)]

/-- The totals after a commit, which are always written. -/
def totalCounters (delta : FileDelta) : List (String × Nat) :=
  [(SummaryKey.totalFiles, delta.live.length), (SummaryKey.totalSize, totalSize delta.live),
    (SummaryKey.totalRecords, totalRecords delta.live)]

/-- The counters that a commit writes. -/
def counters (delta : FileDelta) : List (String × Nat) :=
  (changeCounters delta).filter (fun counter => counter.2 ≠ 0) ++ totalCounters delta

/-- The summary of a commit: the entries given by the writer, and over them the operation and the
counters. -/
def ofCommit (extra : Properties) (operation : Operation) (delta : FileDelta) : Properties :=
  (counters delta).foldl (fun acc counter => acc.insert counter.1 (toString counter.2))
    (extra.insert SummaryKey.operation operation.text)

end Summary

end MergeOnRead
