import MergeOnRead.ColumnType

/-!
# Schemas

A schema is the list of a table's columns. A name stands for the first column that carries it;
names are compared as they are, or without regard to the case of ASCII letters.
-/

namespace MergeOnRead

structure Column where
  name : String
  type : ColumnType
deriving DecidableEq, Repr

/-- The columns of a table in order. -/
abbrev Schema := List Column

/-- Whether two column names are the same. Without case sensitivity, ASCII letters match in either
case; other letters always have to be equal. -/
def sameName (caseSensitive : Bool) (a b : String) : Bool :=
  if caseSensitive then a == b else a.toList.map Char.toLower == b.toList.map Char.toLower

namespace Schema

/-- The first column with exactly this name. -/
def column? (schema : Schema) (name : String) : Option Column :=
  schema.find? fun column => column.name == name

/-- The first column that a name stands for, with its position. -/
def resolve? (schema : Schema) (caseSensitive : Bool) (name : String) : Option (Nat × Column) :=
  match schema.findIdx? (fun column => sameName caseSensitive column.name name) with
  | some index => schema[index]?.map fun column => (index, column)
  | none => none

end Schema

end MergeOnRead
