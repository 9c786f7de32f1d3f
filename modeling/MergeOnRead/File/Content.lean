import MergeOnRead.Side

/-!
# File contents

What the records of a file are, and with it on which side the file lives.
-/

namespace MergeOnRead

/-- The kind of records in a file. -/
inductive FileContent where
  | data
  | insert
  | equalityDelete
deriving DecidableEq, Repr

namespace FileContent

/-- Compacted rows live on the base side, inserts and deletes on the change side. -/
def side : FileContent → Side
  | data => .base
  | insert => .change
  | equalityDelete => .change

def text : FileContent → String
  | data => "Data"
  | insert => "Insert"
  | equalityDelete => "EqualityDelete"

end FileContent

end MergeOnRead
