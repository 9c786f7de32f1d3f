/-!
# Partition transforms

How the value of a partition field comes from its source column.
-/

namespace MergeOnRead.Partition

/-- The transform of a partition field. -/
inductive Transform where
  | identity
  | bucket (count : UInt32)
  | truncate (width : UInt32)
  | day
  | month
  | year
deriving DecidableEq, Repr

def Transform.text : Transform → String
  | identity => "identity"
  | bucket count => "bucket[" ++ toString count.toNat ++ "]"
  | truncate width => "truncate[" ++ toString width.toNat ++ "]"
  | day => "day"
  | month => "month"
  | year => "year"

end MergeOnRead.Partition
