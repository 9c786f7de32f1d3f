import MergeOnRead.Partition.Value

/-!
# Partition keys

A key names a partition: one value per field of the partition spec. Keys are ordered value by value
from the left. The empty key names the only partition of a table that is not partitioned.
-/

namespace MergeOnRead.Partition

/-- The values that name a partition, in the order of the spec's fields. -/
abbrev Key := List Value

namespace Key

/-- The values in parentheses. -/
def text (key : Key) : String := "(" ++ ", ".intercalate (key.map Value.text) ++ ")"

/-- The key with all float bits made canonical: keys that denote the same partition have the same
canonical key. -/
def canonical (key : Key) : Key := key.map Value.canonical

end Key

end MergeOnRead.Partition
