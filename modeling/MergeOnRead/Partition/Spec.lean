import MergeOnRead.Error

/-!
# Partition specs

The fields by which a table is partitioned. A table is written only with identity fields over
columns of its schema, and a key belongs to the table when it has one value of the right type for
each field.
-/

namespace MergeOnRead.Partition

/-- A partition field: the column it comes from and how. -/
structure Field where
  source : String
  transform : Transform
deriving DecidableEq, Repr

/-- The fields that partition a table, in order. -/
structure Spec where
  fields : List Field
deriving DecidableEq, Repr, Inhabited

namespace Spec

/-- The position of the first field that comes from a column. -/
def positionOf? (spec : Spec) (caseSensitive : Bool) (column : String) : Option Nat :=
  spec.fields.findIdx? fun field => sameName caseSensitive field.source column

/-- Checks one field: its column has to exist and its transform has to be the identity. -/
def checkField (schema : Schema) (field : Field) : Except Error Unit := do
  if (schema.column? field.source).isNone then
    throw (.invalid (.unknownPartitionSource field.source))
  if field.transform != .identity then
    throw (.invalid (.unsupportedTransform field.transform))

/-- Checks the fields from left to right. -/
def validate (spec : Spec) (schema : Schema) : Except Error Unit :=
  spec.fields.forM (checkField schema)

/-- Checks the value of one field against the type of its column. -/
def checkValue (schema : Schema) (field : Field) (value : Value) : Except Error Unit :=
  match schema.column? field.source with
  | none => .error (.invalid (.unknownPartitionSource field.source))
  | some column =>
    if value.hasType column.type then .ok ()
    else .error (.invalid (.keyValueType value column.type field.source))

/-- Checks that a key has one value of the right type for each field. -/
def checkKey (spec : Spec) (schema : Schema) (key : Key) : Except Error Unit :=
  if key.length ≠ spec.fields.length then
    .error (.invalid (.keyLength key spec.fields.length))
  else
    (spec.fields.zip key).forM fun pair => checkValue schema pair.1 pair.2

end Spec

end MergeOnRead.Partition
