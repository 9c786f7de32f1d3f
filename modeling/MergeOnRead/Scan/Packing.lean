import MergeOnRead.Saturating

/-!
# Packing

Items are packed into bins in the order in which they come. An item goes into the oldest open bin
that has room for it under the target weight, else into a new bin. Only a bounded number of bins
stay open: when there is one too many, the oldest is closed and given out.
-/

namespace MergeOnRead.Scan

/-- A bin with the weight of its items. -/
structure Bin (α : Type) where
  items : List α
  weight : UInt64
deriving DecidableEq, Repr

namespace Packing

variable {α : Type}

/-- Puts an item into the first bin that has room for it. -/
def place? (target weight : UInt64) (item : α) : List (Bin α) → Option (List (Bin α))
  | [] => none
  | bin :: bins =>
    if Saturating.add bin.weight weight ≤ target then
      some (⟨bin.items ++ [item], Saturating.add bin.weight weight⟩ :: bins)
    else (place? target weight item bins).map (bin :: ·)

/-- Takes in one item: the bins that are open afterwards, and the bin that had to be closed. -/
def accept (target : UInt64) (lookback : Nat) (weight : UInt64) (item : α) (bins : List (Bin α)) :
    Option (Bin α) × List (Bin α) :=
  match place? target weight item bins with
  | some bins => (none, bins)
  | none =>
    match bins ++ [⟨[item], weight⟩] with
    | [] => (none, [])
    | oldest :: rest =>
      if lookback ≤ rest.length then (some oldest, rest) else (none, oldest :: rest)

/-- Packs the items that are left, given the open bins. At the end all open bins are given out. -/
def packFrom (target : UInt64) (lookback : Nat) (weigh : α → UInt64) :
    List (Bin α) → List α → List (List α)
  | bins, [] => bins.map (·.items)
  | bins, item :: items =>
    match accept target lookback (weigh item) item bins with
    | (none, bins) => packFrom target lookback weigh bins items
    | (some closed, bins) => closed.items :: packFrom target lookback weigh bins items

/-- Packs items into bins, at least one of which is kept open. -/
def pack (target : UInt64) (lookback : Nat) (weigh : α → UInt64) (items : List α) :
    List (List α) :=
  packFrom target (max lookback 1) weigh [] items

/-- A packing that is under way: the items that are not taken in yet, and the open bins, the oldest
first. -/
structure Progress (α : Type) where
  unread : List α
  opened : List (Bin α)
deriving DecidableEq, Repr

/-- A packing that has taken in nothing. -/
def Progress.start (items : List α) : Progress α := ⟨items, []⟩

/-- Takes in items until a bin has to be closed. When none are left, the oldest open bin is given
out. -/
def nextFrom (target : UInt64) (lookback : Nat) (weigh : α → UInt64) :
    List (Bin α) → List α → Option (List α) × Progress α
  | [], [] => (none, ⟨[], []⟩)
  | bin :: bins, [] => (some bin.items, ⟨[], bins⟩)
  | bins, item :: items =>
    match accept target lookback (weigh item) item bins with
    | (none, bins) => nextFrom target lookback weigh bins items
    | (some closed, bins) => (some closed.items, ⟨items, bins⟩)

/-- Asks for the next bin: the bin, if there is one, and what is left to do. -/
def next (target : UInt64) (lookback : Nat) (weigh : α → UInt64) (progress : Progress α) :
    Option (List α) × Progress α :=
  nextFrom target (max lookback 1) weigh progress.opened progress.unread

end Packing

end MergeOnRead.Scan
