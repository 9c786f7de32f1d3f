import Mathlib.Data.List.Induction
import Mathlib.Order.Lattice
import MergeOnRead.Watermarks

/-!
# Watermarks are highest ids

Raising watermarks one after the other leaves each partition with the highest of the ids that it was
raised to. `IsHighest ids mark` says that a mark is the highest of the ids, and unset without any.

Main statements: `get?_raiseAll` and `get?_ofList`, what a batch does to a partition, and
`isHighest_append`, what another id does to the highest one.
-/

namespace MergeOnRead

/-- Transaction ids are ordered by their numbers. -/
instance : LinearOrder TransactionId where
  le_refl a := Nat.le_refl a.val
  le_trans _ _ _ h h' := Nat.le_trans h h'
  le_antisymm a b h h' := by
    cases a
    cases b
    rw [TransactionId.mk.injEq]
    exact Nat.le_antisymm h h'
  le_total a b := Nat.le_total a.val b.val
  toDecidableLE := inferInstance
  max_def _ _ := rfl

namespace Watermarks

/-- Updating the mark of a partition with each of several ids in turn. -/
def raised (mark : Option TransactionId) (ids : List TransactionId) : Option TransactionId :=
  ids.foldl (fun mark id => some (atLeast id mark)) mark

def idsOf (partition : Partition.Key) (pairs : List (Partition.Key × TransactionId)) :
    List TransactionId :=
  (pairs.filter fun pair => pair.1 = partition).map (·.2)

variable {marks batch : Watermarks} {partition : Partition.Key}

/-- Raising pairs one after the other updates each partition with its own ids. -/
theorem get?_foldl_raise (pairs : List (Partition.Key × TransactionId)) :
    (pairs.foldl (fun acc pair => acc.raise pair.1 pair.2) marks).get? partition =
      raised (marks.get? partition) (idsOf partition pairs) := by
  induction pairs generalizing marks with
  | nil => rfl
  | cons pair pairs ih =>
    rw [List.foldl_cons, ih, get?_raise]
    unfold idsOf
    by_cases h : pair.1 = partition
    · rw [if_pos h.symm, List.filter_cons_of_pos (by simpa using h), List.map_cons, h]
      rfl
    · rw [if_neg (Ne.symm h), List.filter_cons_of_neg (by simpa using h)]

/-- The entries of a map have at most one id for a partition, the one that is found there. -/
theorem idsOf_toList (batch : Watermarks) :
    idsOf partition batch.toList = (batch.get? partition).toList := by
  obtain ⟨entries, hordered⟩ := batch
  change idsOf partition entries = (OrderedMap.lookup partition entries).toList
  induction entries with
  | nil => rfl
  | cons e rest ih =>
    obtain ⟨hbefore, hrest⟩ := List.pairwise_cons.1 hordered
    unfold idsOf at ih ⊢
    by_cases h : e.1 = partition
    · subst h
      have hnone : rest.filter (fun pair => pair.1 = e.1) = [] := by
        refine List.filter_eq_nil_iff.2 fun other hother heq => ?_
        have hlt := hbefore other hother
        simp [of_decide_eq_true heq] at hlt
      rw [List.filter_cons_of_pos (by simp), hnone, OrderedMap.lookup, if_pos (by simp)]
      rfl
    · have hne : compare partition e.1 ≠ .eq := fun heq =>
        h (Std.LawfulEqCmp.compare_eq_iff_eq.1 heq).symm
      rw [List.filter_cons_of_neg (by simpa using h), OrderedMap.lookup, if_neg hne, ih hrest]

/-- A batch raises the partitions it has an id for and no others. -/
theorem get?_raiseAll : (marks.raiseAll batch).get? partition =
    raised (marks.get? partition) (batch.get? partition).toList := by
  rw [raiseAll, get?_foldl_raise, idsOf_toList]

/-- Pairs that all have the same id give it to the partitions that are among them. -/
theorem get?_ofList_map (partitions : List Partition.Key) (id : TransactionId) :
    (ofList (partitions.map fun p => (p, id))).get? partition =
      if partition ∈ partitions then some id else none := by
  induction partitions using List.reverseRecOn with
  | nil => rfl
  | append_singleton partitions p ih =>
    rw [ofList, List.map_append, List.foldl_append]
    change ((ofList (partitions.map fun p => (p, id))).raise p id).get? partition = _
    rw [get?_raise]
    by_cases hp : partition = p
    · subst hp
      rw [if_pos rfl, if_pos (by simp), ih]
      split
      · simp [atLeast]
      · rfl
    · rw [if_neg hp, ih]
      simp [hp]

/-- A mark is the highest of some ids, and unset if there are none. -/
def IsHighest (ids : List TransactionId) : Option TransactionId → Prop
  | none => ids = []
  | some id => id ∈ ids ∧ ∀ other ∈ ids, other ≤ id

/-- One more id moves the highest one up to at least it. -/
theorem isHighest_append {ids : List TransactionId} {mark : Option TransactionId}
    (h : IsHighest ids mark) (id : TransactionId) :
    IsHighest (ids ++ [id]) (some (atLeast id mark)) := by
  cases mark with
  | none =>
    rw [show ids = [] from h]
    exact ⟨by simp [atLeast], by simp [atLeast]⟩
  | some mark =>
    obtain ⟨hmem, hle⟩ := h
    rw [atLeast, max_def]
    split
    · rename_i hmark
      refine ⟨by simp, fun other hother => ?_⟩
      rcases List.mem_append.1 hother with hother | hother
      · exact le_trans (hle other hother) hmark
      · exact (List.mem_singleton.1 hother).le
    · rename_i hmark
      refine ⟨List.mem_append_left _ hmem, fun other hother => ?_⟩
      rcases List.mem_append.1 hother with hother | hother
      · exact hle other hother
      · rw [List.mem_singleton.1 hother]
        exact le_of_not_ge hmark

theorem isHighest_raised {ids : List TransactionId} {mark : Option TransactionId}
    (h : IsHighest ids mark) (more : List TransactionId) :
    IsHighest (ids ++ more) (raised mark more) := by
  induction more generalizing ids mark with
  | nil => rwa [List.append_nil]
  | cons id more ih =>
    have hmore := ih (isHighest_append h id)
    rwa [List.append_assoc, List.singleton_append] at hmore

end Watermarks

end MergeOnRead
