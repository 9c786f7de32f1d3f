import MergeOnRead.Encoding.Json

/-!
# Identifiers as JSON

Ids are written as numbers. A transaction id that is not positive is refused with the reason that
`TransactionId.check` gives.
-/

namespace MergeOnRead

open Json

namespace TableId

def encode (id : TableId) : Json :=
  .object [("catalog", .text id.catalog), ("database", .text id.database), ("table", .text id.table)]

def decode (json : Json) : Except DecodeError TableId := do
  let record ← json.asRecord ["catalog", "database", "table"]
  let catalog ← record.read "catalog" asText
  let database ← record.read "database" asText
  let table ← record.read "table" asText
  record.close
  return ⟨← Record.need catalog, ← Record.need database, ← Record.need table⟩

end TableId

namespace TransactionId

def encode (id : TransactionId) : Json := .integer id.val

def decode (json : Json) : Except DecodeError TransactionId := do
  let raw ← json.asLong
  (check raw).mapError .refused

end TransactionId

namespace SnapshotId

def encode (id : SnapshotId) : Json := .integer id.val

def decode (json : Json) : Except DecodeError SnapshotId := json.asLong.map SnapshotId.mk

end SnapshotId

namespace Side

def encode : Side → Json
  | base => .text "Base"
  | change => .text "Change"

def decode (json : Json) : Except DecodeError Side := do
  let (name, payload) ← json.asChoice
  match name with
  | "Base" => payload.asUnit.map fun _ => base
  | "Change" => payload.asUnit.map fun _ => change
  | _ => .error .malformed

end Side

end MergeOnRead
