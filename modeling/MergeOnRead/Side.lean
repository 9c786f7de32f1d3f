/-!
# Sides

A table is stored as two: the base side holds compacted files, the change side holds inserts and
deletes that are not yet folded into the base files.
-/

namespace MergeOnRead

/-- One of the two stores of a table. -/
inductive Side where
  | base
  | change
deriving DecidableEq, Repr

def Side.text : Side → String
  | .base => "base"
  | .change => "change"

end MergeOnRead
