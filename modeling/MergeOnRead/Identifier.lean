/-!
# Identifiers

Names of tables, ids of the transactions that write them and ids of the snapshots they leave.
-/

namespace MergeOnRead

/-- The full name of a table: catalog, database and table, in this order of importance. -/
structure TableId where
  catalog : String
  database : String
  table : String
deriving DecidableEq, Repr

namespace TableId

instance : Ord TableId where
  compare a b :=
    (compare a.catalog b.catalog).then
      ((compare a.database b.database).then (compare a.table b.table))

/-- The three parts with points between them. -/
def text (id : TableId) : String := id.catalog ++ "." ++ id.database ++ "." ++ id.table

end TableId

/-- The id that a writer gives to a logical write: a positive number of 63 bits. -/
structure TransactionId where
  val : Nat
  positive : 0 < val
  bounded : val < 0x8000000000000000
deriving DecidableEq, Repr

namespace TransactionId

instance : LE TransactionId := ⟨fun a b => a.val ≤ b.val⟩
instance (a b : TransactionId) : Decidable (a ≤ b) := inferInstanceAs (Decidable (a.val ≤ b.val))
instance : Max TransactionId := ⟨fun a b => if a ≤ b then b else a⟩

/-- The id with this number, if the number may be one. -/
def ofInt? (raw : Int) : Option TransactionId :=
  if h : 0 < raw.toNat ∧ raw.toNat < 0x8000000000000000 then some ⟨raw.toNat, h.1, h.2⟩ else none

def text (id : TransactionId) : String := toString id.val

/-- An id that may be absent, as messages show it. -/
def optionText : Option TransactionId → String
  | none => "None"
  | some id => "Some(TransactionId(" ++ id.text ++ "))"

end TransactionId

/-- The id of a committed snapshot. -/
structure SnapshotId where
  val : Int
deriving DecidableEq, Repr

namespace SnapshotId

def text (id : SnapshotId) : String := toString id.val

/-- An id that may be absent, as messages show it. -/
def optionText : Option SnapshotId → String
  | none => "None"
  | some id => "Some(SnapshotId(" ++ id.text ++ "))"

end SnapshotId

/-- Hands out snapshot ids in increasing order, from one. -/
structure SnapshotIds where
  issued : Nat
deriving DecidableEq, Repr

namespace SnapshotIds

def fresh : SnapshotIds := ⟨0⟩

/-- The next id and the state after it. -/
def next (ids : SnapshotIds) : SnapshotId × SnapshotIds :=
  (⟨(ids.issued : Int) + 1⟩, ⟨ids.issued + 1⟩)

/-- The next `n` ids. -/
def take (ids : SnapshotIds) : Nat → List SnapshotId
  | 0 => []
  | n + 1 => ids.next.1 :: ids.next.2.take n

end SnapshotIds

end MergeOnRead
