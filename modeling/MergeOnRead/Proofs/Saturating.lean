import Mathlib.Algebra.BigOperators.Group.List.Basic
import Mathlib.Algebra.GroupWithZero.Nat
import MergeOnRead.Saturating

/-!
# Saturating sums of sums

A sum that stops at the top of the range may be taken in groups, and of the groups again: as long as
each part is its exact sum or the top, so is the whole. How the terms are grouped and in what order they
come does not matter.

Main statement: `toNat_sum_of_groups`.
-/

namespace MergeOnRead.Saturating

theorem exactSum_eq_sum (xs : List UInt64) : exactSum xs = (xs.map UInt64.toNat).sum := by
  induction xs with
  | nil => rfl
  | cons x xs ih => rw [exactSum, ih, List.map_cons, List.sum_cons]

theorem exactSum_append (xs ys : List UInt64) :
    exactSum (xs ++ ys) = exactSum xs + exactSum ys := by
  simp [exactSum_eq_sum]

theorem exactSum_perm {xs ys : List UInt64} (h : xs.Perm ys) : exactSum xs = exactSum ys := by
  rw [exactSum_eq_sum, exactSum_eq_sum]
  exact (h.map UInt64.toNat).sum_eq

/-- The saturating sum of parts that are exact sums or the top of the range is the exact sum of all or
the top of the range. -/
theorem toNat_sum_of_groups {γ : Type} {part : γ → UInt64} {exact : γ → Nat} {groups : List γ}
    (h : ∀ g ∈ groups, (part g).toNat = min (exact g) top) :
    (sum (groups.map part)).toNat = min (groups.map exact).sum top := by
  rw [toNat_sum]
  induction groups with
  | nil => rfl
  | cons g groups ih =>
    obtain ⟨hg, hrest⟩ := List.forall_mem_cons.1 h
    have hsum := ih hrest
    simp only [List.map_cons, exactSum, List.sum_cons]
    -- a part at the top keeps the whole at the top
    omega

end MergeOnRead.Saturating
