import MergeOnRead.Floating.Exact
import MergeOnRead.Proofs.Floating.Number

/-!
# Conversions are exact

A conversion that gives bits gives bits of the very number it was asked for: `ofDyadic?_number` for
`± m * 2 ^ q`, `ofInt?_number` for whole numbers and `convert?_number` for floats of another format.
-/

namespace MergeOnRead.Floating.Format

variable {f source target : Format} {m q : Nat} {bits result : Nat} {negative : Bool}

/-- A significand that fills its place has the weight of the significand times that of the place. -/
theorem weight_place {k s : Nat} (hlt : s < 2 * f.fractionBound) (hk : f.fractionBound ≤ s ∨ k = 0) :
    f.weight (k * f.fractionBound + s) = s * 2 ^ k := by
  have hpos := f.fractionBound_pos
  by_cases hs : s < f.fractionBound
  · obtain rfl : k = 0 := hk.resolve_left (by omega)
    rw [Nat.zero_mul, Nat.zero_add, weight, Nat.div_eq_of_lt hs, if_pos rfl, Nat.mod_eq_of_lt hs,
      Nat.pow_zero, Nat.mul_one]
  -- the leading bit of a significand that fills its place goes into the exponent field
  · have hsplit : k * f.fractionBound + s = (s - f.fractionBound) + f.fractionBound * (k + 1) := by
      rw [Nat.mul_succ, Nat.mul_comm]
      omega
    have hrest : s - f.fractionBound < f.fractionBound := by omega
    have hdiv : (k * f.fractionBound + s) / f.fractionBound = k + 1 := by
      rw [hsplit, Nat.add_mul_div_left _ _ hpos, Nat.div_eq_of_lt hrest, Nat.zero_add]
    have hmod : (k * f.fractionBound + s) % f.fractionBound = s - f.fractionBound := by
      rw [hsplit, Nat.add_mul_mod_self_left, Nat.mod_eq_of_lt hrest]
    rw [weight, hdiv, hmod, if_neg (Nat.succ_ne_zero k), Nat.add_sub_cancel]
    congr 1
    omega

/-- The weight of the sign bit in the bits of a number with the given sign. -/
def signWeight (f : Format) (negative : Bool) : Nat := if negative then f.signBit else 0

theorem infinityBits_lt_signBit (f : Format) : f.infinityBits < f.signBit := by
  have := f.fractionBound_pos
  rw [signBit_eq]
  omega

theorem magnitude_signWeight_add {mag : Nat} (h : mag < f.signBit) :
    f.magnitude (f.signWeight negative + mag) = mag := by
  unfold signWeight magnitude
  split
  · rw [Nat.add_mod_left, Nat.mod_eq_of_lt h]
  · rw [Nat.zero_add, Nat.mod_eq_of_lt h]

theorem isNegative_signWeight_add {mag : Nat} (h : mag < f.signBit) :
    f.isNegative (f.signWeight negative + mag) = negative := by
  cases negative with
  | true => simp [signWeight, isNegative]
  | false => simpa [signWeight, isNegative] using h

theorem signWeight_add_lt {mag : Nat} (h : mag < f.signBit) :
    f.signWeight negative + mag < 2 * f.signBit := by
  unfold signWeight
  split <;> omega

/-- Two scalings by a power of two that agree give the same number. -/
theorem scaled_eq {s m : Nat} {place q : Int}
    (h : s * Nat.pow 2 (place - q).toNat = m * Nat.pow 2 (q - place).toNat) :
    (s : ℚ) * 2 ^ place = m * 2 ^ q := by
  have hcast : (s : ℚ) * 2 ^ (place - q).toNat = m * 2 ^ (q - place).toNat := by exact_mod_cast h
  rw [← zpow_natCast, ← zpow_natCast] at hcast
  rcases le_total q place with hle | hle
  · rw [Int.toNat_of_nonneg (by omega), Int.toNat_of_nonpos (by omega), Nat.cast_zero, zpow_zero,
      mul_one] at hcast
    rw [← hcast, mul_assoc, ← zpow_add₀ (by norm_num : (2 : ℚ) ≠ 0), sub_add_cancel]
  · rw [Int.toNat_of_nonpos (by omega), Int.toNat_of_nonneg (by omega), Nat.cast_zero, zpow_zero,
      mul_one] at hcast
    rw [hcast, mul_assoc, ← zpow_add₀ (by norm_num : (2 : ℚ) ≠ 0), sub_add_cancel]

/-- A significand at a place that keeps `precision` bits of `m` fits in `precision` bits. -/
theorem significand_lt {s m p : Nat} {place q : Int} (hplace : q + m.log2 + 1 - p ≤ place)
    (h : (s : ℚ) * 2 ^ place = m * 2 ^ q) : s < 2 ^ p := by
  have hm : (m : ℚ) < 2 ^ ((m.log2 : Int) + 1) := by
    have := Nat.lt_log2_self (n := m)
    exact_mod_cast this
  have hlt : (s : ℚ) * 2 ^ place < 2 ^ (p : Int) * 2 ^ place := by
    calc (s : ℚ) * 2 ^ place = m * 2 ^ q := h
      _ < 2 ^ ((m.log2 : Int) + 1) * 2 ^ q := mul_lt_mul_of_pos_right hm (zpow_pos (by norm_num) _)
      _ = 2 ^ ((m.log2 : Int) + 1 + q) := (zpow_add₀ (by norm_num) _ _).symm
      _ ≤ 2 ^ ((p : Int) + place) := zpow_le_zpow_right₀ (by norm_num) (by omega)
      _ = 2 ^ (p : Int) * 2 ^ place := zpow_add₀ (by norm_num) _ _
  have := lt_of_mul_lt_mul_right hlt (zpow_pos (by norm_num) _).le
  exact_mod_cast this

/-- At the place that keeps exactly `precision` bits of `m` the leading bit is set. -/
theorem le_significand {s m p : Nat} {place q : Int} (hm : m ≠ 0)
    (hplace : place = q + m.log2 + 1 - (p + 1)) (h : (s : ℚ) * 2 ^ place = m * 2 ^ q) :
    2 ^ p ≤ s := by
  have hlog : (2 : ℚ) ^ (m.log2 : Int) ≤ m := by
    have := Nat.log2_self_le hm
    exact_mod_cast this
  have hle : (2 : ℚ) ^ (p : Int) * 2 ^ place ≤ s * 2 ^ place := by
    calc (2 : ℚ) ^ (p : Int) * 2 ^ place = 2 ^ ((p : Int) + place) :=
          (zpow_add₀ (by norm_num) _ _).symm
      _ = 2 ^ ((m.log2 : Int) + q) := by rw [hplace]; congr 1; omega
      _ = 2 ^ (m.log2 : Int) * 2 ^ q := zpow_add₀ (by norm_num) _ _
      _ ≤ m * 2 ^ q := mul_le_mul_of_nonneg_right hlog (zpow_pos (by norm_num) _).le
      _ = s * 2 ^ place := h.symm
  have := le_of_mul_le_mul_right hle (zpow_pos (by norm_num) _)
  exact_mod_cast this

def signFactor (negative : Bool) : ℚ := if negative then -1 else 1

theorem signFactor_mul_natAbs (n : Int) : signFactor (n < 0) * n.natAbs = n := by
  rcases lt_or_ge n 0 with hn | hn
  · rw [signFactor, if_pos (by simpa using hn), Nat.cast_natAbs, abs_of_neg hn]
    push_cast
    ring
  · rw [signFactor, if_neg (by simpa using hn), Nat.cast_natAbs, abs_of_nonneg hn, one_mul]

/-- The significands with room in the fields are those of at most `precision` bits. -/
theorem Proper.two_mul_fractionBound (hf : f.Proper) : 2 * f.fractionBound = 2 ^ f.precision := by
  have hprecision := hf.precision
  rw [show f.precision = f.precision - 1 + 1 by omega, Nat.pow_succ, Nat.mul_comm]
  rfl

/-- The significand of a number at its place fills the precision, unless the place is the least. -/
theorem Proper.significand_bounds (hf : f.Proper) {m s : Nat} {q place : Int} (hm : m ≠ 0)
    (hplace : max (q + (m.log2 : Int) + 1 - f.precision) f.minExponent = place)
    (h : (s : ℚ) * 2 ^ place = m * 2 ^ q) :
    s < 2 * f.fractionBound ∧ (f.fractionBound ≤ s ∨ (place - f.minExponent).toNat = 0) := by
  have hprecision := hf.precision
  constructor
  · have hlt : s < 2 ^ f.precision := significand_lt (by omega) h
    rwa [← hf.two_mul_fractionBound] at hlt
  · by_cases hmin : place = f.minExponent
    · right
      omega
    · left
      exact le_significand (p := f.precision - 1) hm (by omega) h

/-- A significand at a place above the least one, written as bits with a sign. -/
theorem number_of_place {s : Nat} {place : Int} (hmin : f.minExponent ≤ place)
    (hlt : s < 2 * f.fractionBound)
    (hfill : f.fractionBound ≤ s ∨ (place - f.minExponent).toNat = 0)
    (h : (place - f.minExponent).toNat * f.fractionBound + s < f.infinityBits) :
    (f.decode (f.signWeight negative +
        ((place - f.minExponent).toNat * f.fractionBound + s))).number =
      .rational (signFactor negative * (s * 2 ^ place)) := by
  have hmag := h.trans f.infinityBits_lt_signBit
  have hfinite : f.magnitude (f.signWeight negative +
      ((place - f.minExponent).toNat * f.fractionBound + s)) < f.infinityBits := by
    rw [magnitude_signWeight_add hmag]
    exact h
  rw [number_of_lt hfinite, magnitude_signWeight_add hmag, sign, isNegative_signWeight_add hmag,
    weight_place hlt hfill, mul_assoc]
  congr 1
  rw [Nat.cast_mul, Nat.cast_pow, Nat.cast_ofNat, mul_assoc, ← zpow_natCast,
    ← zpow_add₀ (by norm_num : (2 : ℚ) ≠ 0), Int.toNat_of_nonneg (by omega), sub_add_cancel]
  rfl

/-- Bits given for `± m * 2 ^ q` have the width of the format and stand for this number. -/
theorem Proper.ofDyadic?_number (hf : f.Proper) {m : Nat} {q : Int}
    (h : f.ofDyadic? negative m q = some result) :
    (f.decode result).number = .rational (signFactor negative * m * 2 ^ q) ∧
      result < 2 * f.signBit := by
  by_cases hm : m = 0
  · subst hm
    simp only [ofDyadic?, if_true, Option.some.injEq] at h
    have hresult : result = f.signWeight negative + 0 := h.symm
    rw [hresult]
    refine ⟨?_, signWeight_add_lt f.signBit_pos⟩
    rw [hf.number_of_magnitude_eq_zero (magnitude_signWeight_add f.signBit_pos)]
    simp
  · simp only [ofDyadic?, if_neg hm] at h
    -- only what the test says of the place and the significand is used from here on
    generalize hplace : max (q + (m.log2 : Int) + 1 - f.precision) f.minExponent = place at h
    generalize m * Nat.pow 2 (q - place).toNat / Nat.pow 2 (place - q).toNat = s at h
    split at h
    · rename_i hexact
      obtain rfl : f.signWeight negative + _ = result := Option.some.inj h
      have hscaled := scaled_eq hexact.1
      obtain ⟨hlt, hfill⟩ := hf.significand_bounds hm hplace hscaled
      refine ⟨?_, signWeight_add_lt (hexact.2.trans f.infinityBits_lt_signBit)⟩
      rw [mul_assoc, ← hscaled]
      exact number_of_place (by omega) hlt hfill hexact.2
    · cases h

theorem Proper.ofInt?_number (hf : f.Proper) {n : Int} (h : f.ofInt? n = some result) :
    (f.decode result).number = .rational n ∧ result < 2 * f.signBit := by
  obtain ⟨hnumber, hlt⟩ := hf.ofDyadic?_number h
  refine ⟨?_, hlt⟩
  rw [hnumber, zpow_zero, mul_one, signFactor_mul_natAbs]

theorem Proper.convert?_number (ht : target.Proper) (h : source.convert? target bits = some result) :
    (target.decode result).number = (source.decode bits).number ∧ result < 2 * target.signBit := by
  have hquiet := target.magnitude_lt_signBit target.quietNaN
  rw [ht.magnitude_quietNaN] at hquiet
  unfold convert? at h
  split at h
  · rename_i hdatum
    obtain rfl := Option.some.inj h
    rw [number_of_isNaN ht.isNaN_quietNaN, hdatum]
    exact ⟨rfl, by omega⟩
  · rename_i negative hdatum
    obtain rfl : target.signWeight negative + target.infinityBits = result := Option.some.inj h
    have hmag := target.infinityBits_lt_signBit
    rw [number_of_eq (magnitude_signWeight_add hmag), isNegative_signWeight_add hmag, hdatum]
    exact ⟨rfl, signWeight_add_lt hmag⟩
  · rename_i negative m q hdatum
    rw [hdatum]
    exact ht.ofDyadic?_number h

end MergeOnRead.Floating.Format
