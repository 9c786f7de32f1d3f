import MergeOnRead.Encoding.Partition
import MergeOnRead.Predicate.Bound

/-!
# Predicates as JSON

A predicate is written as a list that starts with the kind of its node: the operands of a
conjunction or disjunction follow as one list, those of the other kinds one by one.
-/

namespace MergeOnRead

open Json

namespace Literal

def encode : Literal → Json
  | null => .text "Null"
  | boolean b => .object [("Boolean", .boolean b)]
  | int64 n => .object [("Int64", .integer n.toInt)]
  | float64 bits => .object [("Float64", .ofWord64 bits)]
  | utf8 text => .object [("Utf8", .text text)]
  | binary bytes => .object [("Binary", .ofList (fun b => .integer b.toNat) bytes)]
  | date32 days => .object [("Date32", .integer days.toInt)]
  | timestampMicros micros => .object [("TimestampMicros", .integer micros.toInt)]

/-- Reads a literal. The bits of a float stay as they are. -/
def decode (json : Json) : Except DecodeError Literal := do
  let (kind, payload) ← json.asChoice
  match kind with
  | "Null" => payload.asUnit.map fun _ => null
  | "Boolean" => payload.asBoolean.map boolean
  | "Int64" => payload.asInt64.map int64
  | "Float64" => payload.asWord64.map float64
  | "Utf8" => payload.asText.map utf8
  | "Binary" => (payload.asListOf asByte).map binary
  | "Date32" => payload.asInt32.map date32
  | "TimestampMicros" => payload.asInt64.map timestampMicros
  | _ => .error .malformed

end Literal

namespace Comparison

def encode (op : Comparison) : Json := .text op.text

def decode (json : Json) : Except DecodeError Comparison := do
  match ← json.asText with
  | "=" => return eq
  | "!=" => return ne
  | "<" => return lt
  | "<=" => return le
  | ">" => return gt
  | ">=" => return ge
  | _ => throw .malformed

end Comparison

namespace Predicate

mutual

def encode : Predicate → Json
  | always => .list [.text "true"]
  | compare column op value => .list [.text "cmp", .text column, op.encode, value.encode]
  | inList column values negated =>
    .list [.text "in", .text column, .ofList Literal.encode values, .boolean negated]
  | isNull column negated => .list [.text "isnull", .text column, .boolean negated]
  | not operand => .list [.text "not", operand.encode]
  | all operands => .list [.text "and", .list (encodeList operands)]
  | any operands => .list [.text "or", .list (encodeList operands)]

def encodeList : List Predicate → List Json
  | [] => []
  | p :: ps => p.encode :: encodeList ps

end

mutual

def decode : Json → Except DecodeError Predicate
  | .list [.text kind] => if kind = "true" then .ok always else .error .malformed
  | .list [.text kind, .list operands] =>
    if kind = "and" then (decodeList operands).map all
    else if kind = "or" then (decodeList operands).map any
    else if kind = "not" then (decode (.list operands)).map not
    else .error .malformed
  | .list [.text kind, column, negated] => do
    if kind ≠ "isnull" then throw .malformed
    return isNull (← column.asText) (← negated.asBoolean)
  | .list [.text kind, column, second, third] => do
    let column ← column.asText
    if kind = "cmp" then return compare column (← Comparison.decode second) (← Literal.decode third)
    if kind = "in" then
      return inList column (← second.asListOf Literal.decode) (← third.asBoolean)
    throw .malformed
  | _ => .error .malformed

def decodeList : List Json → Except DecodeError (List Predicate)
  | [] => .ok []
  | json :: rest => do
    let p ← decode json
    return p :: (← decodeList rest)

end

end Predicate

/-- Writes a bound column: its name, its position and its type. -/
def BoundColumn.encode (bound : BoundColumn) : Json :=
  .list [.text bound.column.name, .integer bound.index, .text bound.column.type.text]

namespace BoundPredicate

mutual

def encode : BoundPredicate → Json
  | always => .list [.text "true"]
  | compare column op value => .list [.text "cmp", column.encode, op.encode, value.encode]
  | inList column values negated =>
    .list [.text "in", column.encode, .ofList Partition.Value.encode values, .boolean negated]
  | isNull column negated => .list [.text "isnull", column.encode, .boolean negated]
  | not operand => .list [.text "not", operand.encode]
  | all operands => .list [.text "and", .list (encodeList operands)]
  | any operands => .list [.text "or", .list (encodeList operands)]

def encodeList : List BoundPredicate → List Json
  | [] => []
  | p :: ps => p.encode :: encodeList ps

end

end BoundPredicate

end MergeOnRead
