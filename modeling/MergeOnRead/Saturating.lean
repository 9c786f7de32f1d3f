/-!
# Saturating sums

Sizes and counts are unsigned 64-bit numbers. Sums that would leave the range stop at its top.

Main statement: `toNat_sum`, a sum is the exact sum or the top of the range, whichever is less.
-/

namespace MergeOnRead.Saturating

/-- The largest 64-bit number. -/
def top : Nat := 0xFFFFFFFFFFFFFFFF

/-- A natural number, or the top of the range if it lies above. -/
def ofNat (n : Nat) : UInt64 := UInt64.ofNat (min n top)

/-- The sum of two numbers, at most the top of the range. -/
def add (a b : UInt64) : UInt64 := ofNat (a.toNat + b.toNat)

/-- The exact sum of a list. -/
def exactSum : List UInt64 → Nat
  | [] => 0
  | x :: xs => x.toNat + exactSum xs

/-- The sum of a list, at most the top of the range. -/
def sum (xs : List UInt64) : UInt64 := xs.foldl add 0

theorem toNat_ofNat (n : Nat) : (ofNat n).toNat = min n top := by
  have h : min n top < 0x10000000000000000 := by simp only [top]; omega
  simp only [ofNat, UInt64.toNat_ofNat']
  exact Nat.mod_eq_of_lt h

theorem toNat_add (a b : UInt64) : (add a b).toNat = min (a.toNat + b.toNat) top :=
  toNat_ofNat _

theorem toNat_foldl_add (xs : List UInt64) (a : UInt64) :
    (xs.foldl add a).toNat = min (a.toNat + exactSum xs) top := by
  induction xs generalizing a with
  | nil =>
    have := a.toNat_lt
    simp only [List.foldl_nil, exactSum, Nat.add_zero, top]
    omega
  | cons x xs ih =>
    simp only [List.foldl_cons, ih, toNat_add, exactSum]
    omega

/-- A sum is the exact sum or the top of the range, whichever is less. -/
theorem toNat_sum (xs : List UInt64) : (sum xs).toNat = min (exactSum xs) top := by
  simp [sum, toNat_foldl_add]

theorem le_exactSum {xs : List UInt64} {x : UInt64} (h : x ∈ xs) : x.toNat ≤ exactSum xs := by
  induction xs with
  | nil => cases h
  | cons y xs ih =>
    rw [exactSum]
    rcases List.mem_cons.1 h with rfl | h
    · exact Nat.le_add_right ..
    · exact Nat.le_trans (ih h) (Nat.le_add_left ..)

/-- A sum is at least each of its terms. -/
theorem le_sum {xs : List UInt64} {x : UInt64} (h : x ∈ xs) : x ≤ sum xs := by
  have hterm := le_exactSum h
  have hlt := x.toNat_lt
  rw [UInt64.le_iff_toNat_le, toNat_sum, top]
  omega

end MergeOnRead.Saturating
