import Mathlib.Algebra.Order.Field.Power
import Mathlib.Algebra.Order.Field.Rat
import Mathlib.Tactic.Linarith
import Mathlib.Tactic.NormNum
import Mathlib.Tactic.Positivity
import Mathlib.Tactic.Ring
import MergeOnRead.Floating.Format

/-!
# The numbers that floats stand for

A float stands for a rational number, an infinity or no number at all. `Number` is the line of these,
with the infinities at its ends and NaN above all, and `Datum.number` reads a float as a point of the
line; both zeros are the same point.

Main statements: `compare_orderKey`, on canonical bits the order of the bits is the order of the
numbers, and `number_canonical`, canonical bits stand for the same number as the bits they come from.
-/

namespace MergeOnRead.Floating

/-- A point of the line of numbers: the rationals between two infinities, and NaN above all. -/
inductive Number where
  | negInfinity
  | rational (q : ℚ)
  | infinity
  | nan
deriving DecidableEq

namespace Number

/-- The part of the line that a number lies in. -/
def rank : Number → Nat
  | negInfinity => 0
  | rational _ => 1
  | infinity => 2
  | nan => 3

/-- Rationals are compared as such, other numbers by the part of the line they lie in. -/
def compare : Number → Number → Ordering
  | rational a, rational b => Ord.compare a b
  | a, b => Ord.compare a.rank b.rank

theorem compare_swap (a b : Number) : a.compare b = (b.compare a).swap := by
  cases a <;> cases b <;>
    first | rfl | (simp only [compare]; exact Std.OrientedCmp.eq_swap)

theorem compare_self (a : Number) : a.compare a = .eq := by
  cases a <;> simp [compare]

end Number

def Datum.number : Datum → Number
  | nan => .nan
  | infinite negative => if negative then .negInfinity else .infinity
  | finite negative m q => .rational ((if negative then -1 else 1) * m * 2 ^ q)

namespace Format

variable {f : Format} {a b bits : Nat}

/-- A format whose fields have room for finite numbers and for a quiet NaN. -/
structure Proper (f : Format) : Prop where
  precision : 2 ≤ f.precision
  exponentBits : 2 ≤ f.exponentBits

theorem binary32_proper : binary32.Proper := ⟨by decide, by decide⟩

theorem binary64_proper : binary64.Proper := ⟨by decide, by decide⟩

theorem fractionBound_pos (f : Format) : 0 < f.fractionBound := Nat.two_pow_pos _

theorem Proper.two_le_fractionBound (hf : f.Proper) : 2 ≤ f.fractionBound := by
  have h : 2 ^ 1 ≤ 2 ^ (f.precision - 1) :=
    Nat.pow_le_pow_right (by decide) (by have := hf.precision; omega)
  exact h

theorem Proper.three_le_topField (hf : f.Proper) : 3 ≤ f.topField := by
  have h : 2 ^ 2 ≤ 2 ^ f.exponentBits := Nat.pow_le_pow_right (by decide) hf.exponentBits
  change 3 ≤ 2 ^ f.exponentBits - 1
  omega

/-- The magnitudes from infinity on take up one binade. -/
theorem signBit_eq (f : Format) : f.signBit = f.infinityBits + f.fractionBound := by
  have h : 0 < 2 ^ f.exponentBits := Nat.two_pow_pos _
  change 2 ^ f.exponentBits * f.fractionBound = (2 ^ f.exponentBits - 1) * f.fractionBound + _
  rw [← Nat.succ_mul]
  congr 1
  omega

theorem signBit_pos (f : Format) : 0 < f.signBit := by
  have := f.fractionBound_pos
  rw [signBit_eq]
  omega

theorem magnitude_lt_signBit (f : Format) (bits : Nat) : f.magnitude bits < f.signBit :=
  Nat.mod_lt _ f.signBit_pos

theorem Proper.infinityBits_pos (hf : f.Proper) : 0 < f.infinityBits :=
  Nat.mul_pos (by have := hf.three_le_topField; omega) f.fractionBound_pos

/-- A magnitude below infinity as a multiple of the smallest positive float. -/
def weight (f : Format) (magnitude : Nat) : Nat :=
  if magnitude / f.fractionBound = 0 then magnitude % f.fractionBound
  else (f.fractionBound + magnitude % f.fractionBound) * 2 ^ (magnitude / f.fractionBound - 1)

theorem weight_zero (f : Format) : f.weight 0 = 0 := by simp [weight]

/-- A weight is less than the first weight two binades above the bottom of its own. -/
theorem weight_lt (f : Format) (m : Nat) :
    f.weight m < f.fractionBound * 2 ^ (m / f.fractionBound) := by
  have hr : m % f.fractionBound < f.fractionBound := Nat.mod_lt _ f.fractionBound_pos
  unfold weight
  split
  · rename_i h
    rw [h, Nat.pow_zero, Nat.mul_one]
    exact hr
  · rename_i h
    have hpow : 2 ^ (m / f.fractionBound) = 2 * 2 ^ (m / f.fractionBound - 1) := by
      rw [← Nat.pow_succ', Nat.succ_eq_add_one, Nat.sub_add_cancel (Nat.one_le_iff_ne_zero.2 h)]
    rw [hpow, ← Nat.mul_assoc]
    exact Nat.mul_lt_mul_of_pos_right (by omega) (Nat.two_pow_pos _)

theorem weight_strictMono (f : Format) : StrictMono f.weight := by
  intro m n hmn
  have hdiv : m / f.fractionBound ≤ n / f.fractionBound := Nat.div_le_div_right hmn.le
  rcases hdiv.lt_or_eq with hlt | heq
  -- a weight is less than all weights of the binades above
  · have hn : n / f.fractionBound ≠ 0 := ((Nat.zero_le _).trans_lt hlt).ne'
    have hle : f.fractionBound * 2 ^ (m / f.fractionBound) ≤ f.weight n := by
      rw [weight, if_neg hn]
      exact Nat.mul_le_mul (Nat.le_add_right _ _)
        (Nat.pow_le_pow_right (by decide) (Nat.le_sub_one_of_lt hlt))
    exact (f.weight_lt m).trans_le hle
  -- in one binade the fractions decide
  · have hmod : m % f.fractionBound < n % f.fractionBound := by
      have hm := Nat.div_add_mod m f.fractionBound
      have hn := Nat.div_add_mod n f.fractionBound
      rw [heq] at hm
      omega
    rw [weight, weight, heq]
    split
    · exact hmod
    · exact Nat.mul_lt_mul_of_pos_right (by omega) (Nat.two_pow_pos _)

def sign (f : Format) (bits : Nat) : ℚ := if f.isNegative bits then -1 else 1

/-- Below infinity bits stand for their weight, in units of the smallest positive float. -/
theorem number_of_lt (h : f.magnitude bits < f.infinityBits) :
    (f.decode bits).number =
      .rational (f.sign bits * f.weight (f.magnitude bits) * 2 ^ f.minExponent) := by
  have hfield : f.magnitude bits / f.fractionBound ≠ f.topField :=
    ((Nat.div_lt_iff_lt_mul f.fractionBound_pos).2 h).ne
  simp only [decode, if_neg hfield]
  by_cases hzero : f.magnitude bits / f.fractionBound = 0
  · simp only [hzero, if_true, Datum.number, weight, sign]
  · simp only [if_neg hzero, Datum.number, weight, sign, Number.rational.injEq]
    rw [zpow_add₀ (by norm_num : (2 : ℚ) ≠ 0), zpow_natCast]
    push_cast
    ring

theorem number_of_eq (h : f.magnitude bits = f.infinityBits) :
    (f.decode bits).number = if f.isNegative bits then .negInfinity else .infinity := by
  have hfield : f.magnitude bits / f.fractionBound = f.topField := by
    rw [h]
    exact Nat.mul_div_cancel _ f.fractionBound_pos
  have hfraction : f.magnitude bits % f.fractionBound = 0 := by
    rw [h]
    exact Nat.mul_mod_left _ _
  simp only [decode, hfield, hfraction, if_true, Datum.number]

theorem number_of_isNaN (h : f.isNaN bits = true) : (f.decode bits).number = .nan := by
  have hlt : f.infinityBits < f.magnitude bits := of_decide_eq_true h
  have hbound := f.magnitude_lt_signBit bits
  rw [signBit_eq] at hbound
  have hfield : f.magnitude bits / f.fractionBound = f.topField :=
    Nat.div_eq_of_lt_le hlt.le (by rw [Nat.succ_mul]; exact hbound)
  have hfraction : f.magnitude bits % f.fractionBound ≠ 0 := by
    have hsplit := Nat.div_add_mod (f.magnitude bits) f.fractionBound
    rw [hfield, Nat.mul_comm] at hsplit
    change f.infinityBits + _ = _ at hsplit
    omega
  simp only [decode, hfield, if_true, if_neg hfraction, Datum.number]

/-! ## Canonical bits -/

theorem Proper.magnitude_quietNaN (hf : f.Proper) : f.magnitude f.quietNaN = f.quietNaN := by
  have := hf.two_le_fractionBound
  apply Nat.mod_eq_of_lt
  rw [signBit_eq, quietNaN]
  omega

theorem Proper.isNaN_quietNaN (hf : f.Proper) : f.isNaN f.quietNaN = true := by
  have := hf.two_le_fractionBound
  rw [isNaN, hf.magnitude_quietNaN, quietNaN, decide_eq_true_eq]
  omega

theorem Proper.isNegative_quietNaN (hf : f.Proper) : f.isNegative f.quietNaN = false := by
  have := hf.two_le_fractionBound
  simp only [isNegative, signBit_eq, quietNaN, decide_eq_false_iff_not]
  omega

theorem Proper.isNaN_zero (hf : f.Proper) : f.isNaN 0 = false := by
  have := hf.infinityBits_pos
  simp [isNaN, magnitude]

/-- Zeros stand for zero, with and without a sign. -/
theorem Proper.number_of_magnitude_eq_zero (hf : f.Proper) (h : f.magnitude bits = 0) :
    (f.decode bits).number = .rational 0 := by
  rw [number_of_lt (by rw [h]; exact hf.infinityBits_pos), h, weight_zero]
  simp

/-- Canonical bits stand for the same number as the bits they come from. -/
theorem Proper.number_canonical (hf : f.Proper) (bits : Nat) :
    (f.decode (f.canonical bits)).number = (f.decode bits).number := by
  unfold canonical
  split
  · rename_i h
    rw [number_of_isNaN hf.isNaN_quietNaN, number_of_isNaN h]
  · split
    · rename_i h
      rw [hf.number_of_magnitude_eq_zero (Nat.zero_mod _), hf.number_of_magnitude_eq_zero h]
    · rfl

/-- Canonical bits that denote no number are the quiet NaN. -/
theorem eq_quietNaN_of_canonical (hb : f.canonical bits = bits) (h : f.isNaN bits = true) :
    bits = f.quietNaN := by
  rw [← hb, canonical, if_pos h]

/-- Canonical bits with the sign bit are neither a zero nor a NaN. -/
theorem Proper.magnitude_of_isNegative (hf : f.Proper) (hb : f.canonical bits = bits)
    (h : f.isNegative bits = true) : 0 < f.magnitude bits ∧ f.magnitude bits ≤ f.infinityBits := by
  by_cases hnan : f.isNaN bits = true
  · rw [eq_quietNaN_of_canonical hb hnan, hf.isNegative_quietNaN] at h
    cases h
  · refine ⟨Nat.pos_of_ne_zero fun hzero => ?_, ?_⟩
    · rw [canonical, if_neg hnan, if_pos hzero] at hb
      rw [← hb] at h
      have := f.signBit_pos
      simp only [isNegative, decide_eq_true_eq] at h
      omega
    · simpa [isNaN] using hnan

theorem orderKey_of_isNegative (h : f.isNegative bits = true) :
    f.orderKey bits = -(f.magnitude bits : Int) - 1 := by simp [orderKey, h]

theorem orderKey_of_not_isNegative (h : f.isNegative bits = false) :
    f.orderKey bits = f.magnitude bits := by simp [orderKey, h]

theorem number_of_not_isNegative (hs : f.isNegative bits = false) (h : f.isNaN bits = false) :
    (f.decode bits).number =
      if f.magnitude bits < f.infinityBits then
        .rational (f.weight (f.magnitude bits) * 2 ^ f.minExponent)
      else .infinity := by
  split
  · rename_i hlt
    rw [number_of_lt hlt, sign, hs]
    simp
  · rename_i hlt
    have hle : f.magnitude bits ≤ f.infinityBits := by simpa [isNaN] using h
    rw [number_of_eq (by omega), hs]
    rfl

theorem number_of_isNegative (hs : f.isNegative bits = true)
    (hle : f.magnitude bits ≤ f.infinityBits) :
    (f.decode bits).number =
      if f.magnitude bits < f.infinityBits then
        .rational (-(f.weight (f.magnitude bits) * 2 ^ f.minExponent))
      else .negInfinity := by
  split
  · rename_i hlt
    rw [number_of_lt hlt, sign, hs]
    simp
  · rw [number_of_eq (by omega), hs]
    rfl

theorem weight_mul_lt (f : Format) {m n : Nat} (h : m < n) :
    (f.weight m : ℚ) * 2 ^ f.minExponent < f.weight n * 2 ^ f.minExponent := by
  have hlt : (f.weight m : ℚ) < f.weight n := by exact_mod_cast f.weight_strictMono h
  exact mul_lt_mul_of_pos_right hlt (zpow_pos (by norm_num) _)

theorem weight_mul_nonneg (f : Format) (m : Nat) : (0 : ℚ) ≤ f.weight m * 2 ^ f.minExponent := by
  positivity

/-- A NaN has the largest key of all canonical bits. -/
theorem Proper.orderKey_le_quietNaN (hf : f.Proper) (hb : f.canonical bits = bits) :
    f.orderKey bits ≤ f.orderKey f.quietNaN := by
  rw [orderKey_of_not_isNegative hf.isNegative_quietNaN, hf.magnitude_quietNaN]
  cases hs : f.isNegative bits with
  | true =>
    rw [orderKey_of_isNegative hs]
    omega
  | false =>
    rw [orderKey_of_not_isNegative hs]
    by_cases hn : f.isNaN bits = true
    · rw [eq_quietNaN_of_canonical hb hn, hf.magnitude_quietNaN]
    · have hle : f.magnitude bits ≤ f.infinityBits := by simpa [isNaN] using hn
      rw [quietNaN]
      omega

theorem compare_number_of_isNaN (ha : f.isNaN a = false) (hb : f.isNaN b = true) :
    (f.decode a).number.compare (f.decode b).number = .lt := by
  have hle : f.magnitude a ≤ f.infinityBits := by simpa [isNaN] using ha
  rw [number_of_isNaN hb]
  cases hs : f.isNegative a with
  | true =>
    rw [number_of_isNegative hs hle]
    split <;> rfl
  | false =>
    rw [number_of_not_isNegative hs ha]
    split <;> rfl

/-- Negative bits stand for a lesser number than positive bits, unless they are a zero. -/
theorem compare_number_of_signs (hsa : f.isNegative a = true) (hsb : f.isNegative b = false)
    (hpos : 0 < f.magnitude a) (ha : f.magnitude a ≤ f.infinityBits) (hb : f.isNaN b = false) :
    (f.decode a).number.compare (f.decode b).number = .lt := by
  rw [number_of_isNegative hsa ha, number_of_not_isNegative hsb hb]
  split <;> split
  · have hlt := f.weight_mul_lt hpos
    rw [weight_zero, Nat.cast_zero, zero_mul] at hlt
    have hle := f.weight_mul_nonneg (f.magnitude b)
    apply compare_lt_iff_lt.2
    linarith
  · rfl
  · rfl
  · rfl

theorem compare_number_of_isNegative (hsa : f.isNegative a = true) (hsb : f.isNegative b = true)
    (ha : f.magnitude a ≤ f.infinityBits) (h : f.magnitude b < f.magnitude a) :
    (f.decode a).number.compare (f.decode b).number = .lt := by
  have hb : f.magnitude b < f.infinityBits := by omega
  rw [number_of_isNegative hsa ha, number_of_isNegative hsb hb.le, if_pos hb]
  split
  · exact compare_lt_iff_lt.2 (neg_lt_neg (f.weight_mul_lt h))
  · rfl

theorem compare_number_of_not_isNegative (hsa : f.isNegative a = false)
    (hsb : f.isNegative b = false) (ha : f.isNaN a = false) (hb : f.isNaN b = false)
    (h : f.magnitude a < f.magnitude b) :
    (f.decode a).number.compare (f.decode b).number = .lt := by
  have hle : f.magnitude b ≤ f.infinityBits := by simpa [isNaN] using hb
  have hlt : f.magnitude a < f.infinityBits := by omega
  rw [number_of_not_isNegative hsa ha, number_of_not_isNegative hsb hb, if_pos hlt]
  split
  · exact compare_lt_iff_lt.2 (f.weight_mul_lt h)
  · rfl

/-- Canonical bits that come earlier in the order of bits stand for a lesser number. -/
theorem Proper.compare_number_of_orderKey_lt (hf : f.Proper) (ha : f.canonical a = a)
    (hb : f.canonical b = b) (h : f.orderKey a < f.orderKey b) :
    (f.decode a).number.compare (f.decode b).number = .lt := by
  -- nothing comes after a NaN, so the lesser bits denote a number
  have hna : f.isNaN a = false := by
    by_contra hn
    rw [Bool.not_eq_false] at hn
    rw [eq_quietNaN_of_canonical ha hn] at h
    have hle := hf.orderKey_le_quietNaN hb
    omega
  by_cases hnb : f.isNaN b = true
  · exact compare_number_of_isNaN hna hnb
  rw [Bool.not_eq_true] at hnb
  cases hsa : f.isNegative a with
  | true =>
    obtain ⟨hpos, hle⟩ := hf.magnitude_of_isNegative ha hsa
    cases hsb : f.isNegative b with
    | true =>
      rw [orderKey_of_isNegative hsa, orderKey_of_isNegative hsb] at h
      exact compare_number_of_isNegative hsa hsb hle (by omega)
    | false => exact compare_number_of_signs hsa hsb hpos hle hnb
  | false =>
    rw [orderKey_of_not_isNegative hsa] at h
    cases hsb : f.isNegative b with
    | true =>
      rw [orderKey_of_isNegative hsb] at h
      omega
    | false =>
      rw [orderKey_of_not_isNegative hsb] at h
      exact compare_number_of_not_isNegative hsa hsb hna hnb (by omega)

/-- Bits of the width of the format are told apart by their place in the order of bits. -/
theorem orderKey_injective (ha : a < 2 * f.signBit) (hb : b < 2 * f.signBit)
    (h : f.orderKey a = f.orderKey b) : a = b := by
  -- bits are their magnitude, with the sign bit if it is set
  have hmag : ∀ c, c < 2 * f.signBit →
      c = f.magnitude c + if f.isNegative c then f.signBit else 0 := by
    intro c hc
    simp only [magnitude, isNegative, decide_eq_true_eq]
    split
    · rw [Nat.mod_eq_sub_mod (by omega), Nat.mod_eq_of_lt (by omega)]
      omega
    · rw [Nat.mod_eq_of_lt (by omega), Nat.add_zero]
  have hma := hmag a ha
  have hmb := hmag b hb
  cases hsa : f.isNegative a <;> cases hsb : f.isNegative b <;>
    simp only [orderKey, hsa, hsb, if_true, Bool.false_eq_true, if_false] at h hma hmb <;> omega

/-- On canonical bits the order of the bits is the order of the numbers they stand for. -/
theorem Proper.compare_orderKey (hf : f.Proper) (ha : f.canonical a = a) (hb : f.canonical b = b)
    (hla : a < 2 * f.signBit) (hlb : b < 2 * f.signBit) :
    Ord.compare (f.orderKey a) (f.orderKey b) =
      (f.decode a).number.compare (f.decode b).number := by
  rcases lt_trichotomy (f.orderKey a) (f.orderKey b) with h | h | h
  · rw [hf.compare_number_of_orderKey_lt ha hb h]
    exact compare_lt_iff_lt.2 h
  · rw [orderKey_injective hla hlb h, Number.compare_self]
    exact Std.ReflCmp.compare_self
  · rw [Number.compare_swap, hf.compare_number_of_orderKey_lt hb ha h]
    exact compare_gt_iff_gt.2 h

theorem Proper.canonical_lt (hf : f.Proper) (h : bits < 2 * f.signBit) :
    f.canonical bits < 2 * f.signBit := by
  have := f.signBit_pos
  have hq := f.magnitude_lt_signBit f.quietNaN
  rw [hf.magnitude_quietNaN] at hq
  unfold canonical
  split
  · omega
  · split
    · omega
    · exact h

end Format

theorem toNat_canonical32 (bits : UInt32) :
    (canonical32 bits).toNat = binary32.canonical bits.toNat :=
  UInt32.toNat_ofNat_of_lt' (Format.binary32_proper.canonical_lt bits.toNat_lt)

theorem toNat_canonical64 (bits : UInt64) :
    (canonical64 bits).toNat = binary64.canonical bits.toNat :=
  UInt64.toNat_ofNat_of_lt' (Format.binary64_proper.canonical_lt bits.toNat_lt)

def number32 (bits : UInt32) : Number := (binary32.decode bits.toNat).number

def number64 (bits : UInt64) : Number := (binary64.decode bits.toNat).number

theorem number32_canonical32 (bits : UInt32) : number32 (canonical32 bits) = number32 bits := by
  rw [number32, toNat_canonical32, Format.binary32_proper.number_canonical, number32]

theorem number64_canonical64 (bits : UInt64) : number64 (canonical64 bits) = number64 bits := by
  rw [number64, toNat_canonical64, Format.binary64_proper.number_canonical, number64]

/-- Canonical 32-bit floats are ordered as the numbers they stand for. -/
theorem compare_orderKey32 {a b : UInt32} (ha : canonical32 a = a) (hb : canonical32 b = b) :
    Ord.compare (binary32.orderKey a.toNat) (binary32.orderKey b.toNat) =
      (number32 a).compare (number32 b) :=
  Format.binary32_proper.compare_orderKey (by rw [← toNat_canonical32, ha])
    (by rw [← toNat_canonical32, hb]) a.toNat_lt b.toNat_lt

theorem compare_orderKey64 {a b : UInt64} (ha : canonical64 a = a) (hb : canonical64 b = b) :
    Ord.compare (binary64.orderKey a.toNat) (binary64.orderKey b.toNat) =
      (number64 a).compare (number64 b) :=
  Format.binary64_proper.compare_orderKey (by rw [← toNat_canonical64, ha])
    (by rw [← toNat_canonical64, hb]) a.toNat_lt b.toNat_lt

end MergeOnRead.Floating
