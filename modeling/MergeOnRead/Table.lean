import MergeOnRead.File.Basic
import MergeOnRead.Partition.Spec
import MergeOnRead.Snapshot

/-!
# Table metadata

What does not change about a table: its name, its columns, its primary key, how it is partitioned
and its properties.
-/

namespace MergeOnRead

namespace PropertyKey

/-- The weight that a combined task should not exceed. -/
def targetSize : String := "read.split.target-size"

/-- The least weight of a partition in packing. -/
def openFileCost : String := "read.split.open-file-cost"

/-- The number of bins that packing keeps open. -/
def lookback : String := "read.split.planning-lookback"

/-- The time at which the table was created. -/
def createTime : String := "table.create-time"

/-- The version of the table format. -/
def formatVersion : String := "format-version"

end PropertyKey

/-- The metadata of a table. -/
structure Metadata where
  id : TableId
  schema : Schema
  primaryKey : List String
  spec : Partition.Spec
  properties : Properties
deriving DecidableEq, Repr

namespace Metadata

/-- Checks the primary key and then the partition spec against the schema. -/
def check (m : Metadata) : Except Error Unit :=
  match m.primaryKey.find? fun column => (m.schema.column? column).isNone with
  | some column => .error (.invalid (.unknownPrimaryKey column m.id))
  | none => m.spec.validate m.schema

/-- The metadata, if they fit together. -/
def checked (m : Metadata) : Except Error Metadata := m.check.map fun _ => m

/-- A table with a primary key is keyed; only keyed tables have a change side. -/
def isKeyed (m : Metadata) : Bool := !m.primaryKey.isEmpty

/-- Checks the partition keys of files from left to right. -/
def checkPartitions (m : Metadata) (files : List File) : Except Error Unit :=
  files.forM fun file => m.spec.checkKey m.schema file.partition

end Metadata

end MergeOnRead
