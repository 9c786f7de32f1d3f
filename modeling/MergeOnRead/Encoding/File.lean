import MergeOnRead.Encoding.Identifier
import MergeOnRead.Encoding.Partition
import MergeOnRead.File.Basic

/-!
# Files as JSON

A file is read through the same check that builds it, so a tree cannot bring in a base file with a
transaction id or a change file without one.
-/

namespace MergeOnRead

open Json

namespace FileContent

def encode (content : FileContent) : Json := .text content.text

def decode (json : Json) : Except DecodeError FileContent := do
  let (name, payload) ← json.asChoice
  match name with
  | "Data" => payload.asUnit.map fun _ => data
  | "Insert" => payload.asUnit.map fun _ => insert
  | "EqualityDelete" => payload.asUnit.map fun _ => equalityDelete
  | _ => .error .malformed

end FileContent

namespace File

def encode (file : File) : Json :=
  .object
    [("content", file.content.encode), ("file_size_in_bytes", .ofWord64 file.size),
      ("partition", file.partition.encode), ("path", .text file.path),
      ("record_count", .ofWord64 file.records),
      ("transaction_id", .ofOption TransactionId.encode file.transactionId)]

/-- The fields of a file as they are listed when their names are left out. -/
def fieldNames : List String :=
  ["path", "content", "partition", "file_size_in_bytes", "record_count", "transaction_id"]

def decode (json : Json) : Except DecodeError File := do
  let record ← json.asRecord fieldNames
  let content ← record.read "content" FileContent.decode
  let size ← record.read "file_size_in_bytes" asWord64
  let partition ← record.read "partition" Partition.Key.decode
  let path ← record.read "path" asText
  let records ← record.read "record_count" asWord64
  let transactionId ← record.read "transaction_id" (asOption TransactionId.decode)
  record.close
  (ofParts (← Record.need path) (← Record.need content) (← Record.need partition)
    (← Record.need size) (← Record.need records) transactionId.join).mapError .refused

end File

end MergeOnRead
