import MergeOnRead.Encoding.File
import MergeOnRead.Scan.Task

/-!
# Scan tasks as JSON

Tasks are planned in one process and carried out in others, which get them as JSON.
-/

namespace MergeOnRead.Scan

open Json

def encodeFile (file : File) : Json := .object [("file", file.encode)]

def decodeFile (json : Json) : Except DecodeError File := do
  let record ← json.asRecord ["file"]
  let file ← record.read "file" File.decode
  record.close
  Record.need file

namespace PartitionTask

def encode (task : PartitionTask) : Json :=
  .object
    [("base_files", .ofList encodeFile task.base), ("delete_files", .ofList encodeFile task.deletes),
      ("insert_files", .ofList encodeFile task.inserts), ("partition", task.partition.encode)]

/-- The fields of a task as they are listed when their names are left out. -/
def fieldNames : List String := ["partition", "base_files", "insert_files", "delete_files"]

/-- Reads the task of a partition. Of several faults the first one written is reported, so the
fields are read in the order of a list if they are listed, else in the order of their names. -/
def decode (json : Json) : Except DecodeError PartitionTask := do
  let record ← json.asRecord fieldNames
  let readKey := record.read "partition" Partition.Key.decode
  let readFiles name := record.read name (asListOf decodeFile)
  match json with
  | .list _ =>
    let partition ← readKey
    let base ← readFiles "base_files"
    let inserts ← readFiles "insert_files"
    let deletes ← readFiles "delete_files"
    record.close
    return ⟨← Record.need partition, ← Record.need base, ← Record.need inserts,
      ← Record.need deletes⟩
  | _ =>
    let base ← readFiles "base_files"
    let deletes ← readFiles "delete_files"
    let inserts ← readFiles "insert_files"
    let partition ← readKey
    return ⟨← Record.need partition, ← Record.need base, ← Record.need inserts,
      ← Record.need deletes⟩

end PartitionTask

namespace CombinedTask

def encode (task : CombinedTask) : Json :=
  .object [("tasks", .ofList PartitionTask.encode task.tasks)]

def decode (json : Json) : Except DecodeError CombinedTask := do
  let record ← json.asRecord ["tasks"]
  let tasks ← record.read "tasks" (asListOf PartitionTask.decode)
  record.close
  return ⟨← Record.need tasks⟩

end CombinedTask

namespace Volume

def encode (volume : Volume) : Json :=
  .object [("num_rows", .ofWord64 volume.rows), ("size_in_bytes", .ofWord64 volume.size)]

def decode (json : Json) : Except DecodeError Volume := do
  let record ← json.asRecord ["size_in_bytes", "num_rows"]
  let rows ← record.read "num_rows" asWord64
  let size ← record.read "size_in_bytes" asWord64
  record.close
  return ⟨← Record.need size, ← Record.need rows⟩

end Volume

end MergeOnRead.Scan
