import MergeOnRead.File.Basic
import MergeOnRead.Saturating

/-!
# Scan tasks

Units of reading work. A partition task holds the files of one partition that have to be read
together: its base files and the inserts and deletes that are still pending. A combined task holds
the partition tasks that one worker takes.
-/

namespace MergeOnRead.Scan

def cost (files : List File) : UInt64 := Saturating.sum (files.map (·.size))

/-- The records of files, deletes included. -/
def recordCount (files : List File) : UInt64 := Saturating.sum (files.map (·.records))

/-- The files of one partition that are read together. -/
structure PartitionTask where
  partition : Partition.Key
  base : List File
  inserts : List File
  deletes : List File
deriving DecidableEq, Repr

namespace PartitionTask

/-- The task of a partition without any file. -/
def empty (partition : Partition.Key) : PartitionTask := ⟨partition, [], [], []⟩

/-- Adds a file to the files of its content. -/
def push (task : PartitionTask) (file : File) : PartitionTask :=
  match file.content with
  | .data => { task with base := task.base ++ [file] }
  | .insert => { task with inserts := task.inserts ++ [file] }
  | .equalityDelete => { task with deletes := task.deletes ++ [file] }

/-- All files: first the base files, then the inserts, then the deletes. -/
def files (task : PartitionTask) : List File := task.base ++ task.inserts ++ task.deletes

def isEmpty (task : PartitionTask) : Bool := task.files.isEmpty

def cost (task : PartitionTask) : UInt64 := Scan.cost task.files

def recordCount (task : PartitionTask) : UInt64 := Scan.recordCount task.files

end PartitionTask

/-- The partition tasks of one worker. -/
structure CombinedTask where
  tasks : List PartitionTask
deriving DecidableEq, Repr

namespace CombinedTask

def files (task : CombinedTask) : List File := task.tasks.flatMap PartitionTask.files

def cost (task : CombinedTask) : UInt64 := Saturating.sum (task.tasks.map (·.cost))

def recordCount (task : CombinedTask) : UInt64 := Saturating.sum (task.tasks.map (·.recordCount))

end CombinedTask

structure Volume where
  size : UInt64
  rows : UInt64
deriving DecidableEq, Repr

end MergeOnRead.Scan
