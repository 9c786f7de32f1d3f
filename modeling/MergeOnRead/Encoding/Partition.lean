import MergeOnRead.Encoding.Json
import MergeOnRead.Partition.Spec

/-!
# Partitions as JSON

Partition values, keys and specs. Floats are written as the number that their bits stand for and are
made canonical when they are read.
-/

namespace MergeOnRead.Partition

open Json

namespace Value

def encode : Value → Json
  | null => .text "Null"
  | boolean b => .object [("Boolean", .boolean b)]
  | int32 n => .object [("Int32", .integer n.toInt)]
  | int64 n => .object [("Int64", .integer n.toInt)]
  | float32 bits => .object [("Float32", .integer bits.toNat)]
  | float64 bits => .object [("Float64", .integer bits.toNat)]
  | utf8 text => .object [("Utf8", .text text)]
  | binary bytes => .object [("Binary", .ofList (fun b => .integer b.toNat) bytes)]
  | date32 days => .object [("Date32", .integer days.toInt)]
  | timestampMicros micros => .object [("TimestampMicros", .integer micros.toInt)]

/-- Reads a value of the kind with the given name. -/
def decodeKind (kind : String) (payload : Json) : Except DecodeError Value :=
  match kind with
  | "Null" => payload.asUnit.map fun _ => null
  | "Boolean" => payload.asBoolean.map boolean
  | "Int32" => payload.asInt32.map int32
  | "Int64" => payload.asInt64.map int64
  | "Float32" => payload.asWord32.map ofFloat32
  | "Float64" => payload.asWord64.map ofFloat64
  | "Utf8" => payload.asText.map utf8
  | "Binary" => (payload.asListOf asByte).map binary
  | "Date32" => payload.asInt32.map date32
  | "TimestampMicros" => payload.asInt64.map timestampMicros
  | _ => .error .malformed

def decode (json : Json) : Except DecodeError Value := do
  let (kind, payload) ← json.asChoice
  decodeKind kind payload

end Value

namespace Key

def encode (key : Key) : Json := .ofList Value.encode key

def decode (json : Json) : Except DecodeError Key := json.asListOf Value.decode

end Key

namespace Transform

def encode : Transform → Json
  | identity => .text "Identity"
  | bucket count => .object [("Bucket", .integer count.toNat)]
  | truncate width => .object [("Truncate", .integer width.toNat)]
  | day => .text "Day"
  | month => .text "Month"
  | year => .text "Year"

def decode (json : Json) : Except DecodeError Transform := do
  let (kind, payload) ← json.asChoice
  match kind with
  | "Identity" => payload.asUnit.map fun _ => identity
  | "Bucket" => payload.asWord32.map bucket
  | "Truncate" => payload.asWord32.map truncate
  | "Day" => payload.asUnit.map fun _ => day
  | "Month" => payload.asUnit.map fun _ => month
  | "Year" => payload.asUnit.map fun _ => year
  | _ => .error .malformed

end Transform

namespace Field

def encode (field : Field) : Json :=
  .object [("source", .text field.source), ("transform", field.transform.encode)]

def decode (json : Json) : Except DecodeError Field := do
  let record ← json.asRecord ["source", "transform"]
  let source ← record.read "source" asText
  let transform ← record.read "transform" Transform.decode
  record.close
  return ⟨← Record.need source, ← Record.need transform⟩

end Field

namespace Spec

def encode (spec : Spec) : Json := .object [("fields", .ofList Field.encode spec.fields)]

def decode (json : Json) : Except DecodeError Spec := do
  let record ← json.asRecord ["fields"]
  let fields ← record.read "fields" (asListOf Field.decode)
  record.close
  return ⟨← Record.need fields⟩

end Spec

end MergeOnRead.Partition
