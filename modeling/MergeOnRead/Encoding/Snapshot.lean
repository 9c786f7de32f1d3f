import MergeOnRead.Encoding.Identifier
import MergeOnRead.Statistics

/-!
# Snapshots and statistics as JSON

Summaries are objects whose values are texts.
-/

namespace MergeOnRead

open Json

namespace Properties

def encode (properties : Properties) : Json :=
  .object (properties.toList.map fun entry => (entry.1, .text entry.2))

def decode : Json → Except DecodeError Properties
  | .object entries => do
    let read ← entries.mapM fun entry => entry.2.asText.map fun value => (entry.1, value)
    return OrderedMap.ofList read
  | _ => .error .malformed

end Properties

namespace Operation

def encode : Operation → Json
  | append => .text "Append"
  | overwrite => .text "Overwrite"

def decode (json : Json) : Except DecodeError Operation := do
  let (name, payload) ← json.asChoice
  match name with
  | "Append" => payload.asUnit.map fun _ => append
  | "Overwrite" => payload.asUnit.map fun _ => overwrite
  | _ => .error .malformed

end Operation

namespace Snapshot

def encode (snapshot : Snapshot) : Json :=
  .object
    [("parent_id", .ofOption SnapshotId.encode snapshot.parent),
      ("snapshot_id", snapshot.id.encode), ("summary", snapshot.summary.encode),
      ("timestamp_millis", .integer snapshot.time)]

def decode (json : Json) : Except DecodeError Snapshot := do
  let record ← json.asRecord ["snapshot_id", "parent_id", "timestamp_millis", "summary"]
  let parent ← record.read "parent_id" (asOption SnapshotId.decode)
  let id ← record.read "snapshot_id" SnapshotId.decode
  let summary ← record.read "summary" Properties.decode
  let time ← record.read "timestamp_millis" asLong
  record.close
  return ⟨← Record.need id, parent.join, ← Record.need time, ← Record.need summary⟩

end Snapshot

namespace SnapshotDetail

def encode (detail : SnapshotDetail) : Json :=
  .object
    [("added_files", .integer detail.addedFiles), ("added_files_size", .integer detail.addedSize),
      ("added_records", .integer detail.addedRecords), ("operation", .text detail.operation),
      ("removed_files", .integer detail.removedFiles),
      ("removed_files_size", .integer detail.removedSize),
      ("removed_records", .integer detail.removedRecords),
      ("snapshot_id", .ofOption SnapshotId.encode detail.id),
      ("total_files", .integer detail.totalFiles), ("total_records", .integer detail.totalRecords),
      ("total_size", .integer detail.totalSize)]

/-- The fields of the details as they are listed when their names are left out. -/
def fieldNames : List String :=
  ["snapshot_id", "operation", "added_files", "added_files_size", "added_records", "removed_files",
    "removed_files_size", "removed_records", "total_size", "total_files", "total_records"]

def decode (json : Json) : Except DecodeError SnapshotDetail := do
  let record ← json.asRecord fieldNames
  let number name := do Record.need (← record.read name asLong)
  let operation ← record.read "operation" asText
  let id ← record.read "snapshot_id" (asOption SnapshotId.decode)
  record.close
  return {
    id := id.join
    operation := ← Record.need operation
    addedFiles := ← number "added_files"
    addedSize := ← number "added_files_size"
    addedRecords := ← number "added_records"
    removedFiles := ← number "removed_files"
    removedSize := ← number "removed_files_size"
    removedRecords := ← number "removed_records"
    totalSize := ← number "total_size"
    totalFiles := ← number "total_files"
    totalRecords := ← number "total_records" }

end SnapshotDetail

namespace FileTotals

def encode (totals : FileTotals) : Json :=
  .object [("file_cnt", .ofWord64 totals.files), ("total_size", .ofWord64 totals.size)]

def decode (json : Json) : Except DecodeError FileTotals := do
  let record ← json.asRecord ["file_cnt", "total_size"]
  let files ← record.read "file_cnt" asWord64
  let size ← record.read "total_size" asWord64
  record.close
  return ⟨← Record.need files, ← Record.need size⟩

end FileTotals

namespace Statistics

def encode (statistics : Statistics) : Json :=
  .object
    [("summary", statistics.summary.encode), ("table_identifier", statistics.table.encode),
      ("total_files_stat", statistics.totals.encode)]

def decode (json : Json) : Except DecodeError Statistics := do
  let record ← json.asRecord ["table_identifier", "summary", "total_files_stat"]
  let summary ← record.read "summary" Properties.decode
  let table ← record.read "table_identifier" TableId.decode
  let totals ← record.read "total_files_stat" FileTotals.decode
  record.close
  return ⟨← Record.need table, ← Record.need summary, ← Record.need totals⟩

end Statistics

end MergeOnRead
