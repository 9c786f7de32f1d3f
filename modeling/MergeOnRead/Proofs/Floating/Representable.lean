import MergeOnRead.Proofs.Floating.Conversion

/-!
# Conversions fail only on numbers that a format lacks

A conversion that gives no bits was asked for a number that no bits of the format stand for. Bits that
stand for the number have its weight in units of the smallest float, and a weight has room at the place
that the conversion picks, so the conversion finds the very magnitude of these bits.

Main statements: `Proper.exists_ofDyadic?`, `Proper.exists_ofInt?` and `Proper.exists_convert?`.
-/

namespace MergeOnRead.Floating

theorem Number.compare_eq_iff {a b : Number} : a.compare b = .eq ↔ a = b := by
  cases a <;> cases b <;> simp [Number.compare, Number.rank]

namespace Format

variable {f source target : Format} {m bits : Nat} {q : Int} {negative : Bool}

/-- Bits that stand for a rational are below infinity. -/
theorem magnitude_lt_of_number {r : ℚ} (h : (f.decode bits).number = .rational r) :
    f.magnitude bits < f.infinityBits := by
  by_contra hge
  rcases Nat.lt_or_eq_of_le (Nat.le_of_not_lt hge) with hlt | heq
  · have hnan : f.isNaN bits = true := by simpa [isNaN] using hlt
    rw [number_of_isNaN hnan] at h
    cases h
  · rw [number_of_eq heq.symm] at h
    split at h <;> cases h

theorem abs_sign (f : Format) (bits : Nat) : |f.sign bits| = 1 := by
  unfold sign
  split <;> simp

theorem abs_signFactor (negative : Bool) : |signFactor negative| = 1 := by
  cases negative <;> simp [signFactor]

/-- The weight of bits that stand for `± m * 2 ^ q` is `m * 2 ^ q` in units of the smallest float. -/
theorem weight_of_number
    (h : (f.decode bits).number = .rational (signFactor negative * m * 2 ^ q)) :
    (f.weight (f.magnitude bits) : ℚ) * 2 ^ f.minExponent = m * 2 ^ q := by
  rw [number_of_lt (magnitude_lt_of_number h), Number.rational.injEq] at h
  have habs := congrArg abs h
  have hweight : (0 : ℚ) ≤ f.weight (f.magnitude bits) := Nat.cast_nonneg _
  have hm : (0 : ℚ) ≤ m := Nat.cast_nonneg _
  rwa [abs_mul, abs_mul, abs_mul, abs_mul, abs_sign, abs_signFactor, one_mul, one_mul,
    abs_of_nonneg hweight, abs_of_nonneg hm, abs_of_pos (zpow_pos (by norm_num) _),
    abs_of_pos (zpow_pos (by norm_num) _)] at habs

/-- A weight is a significand of at most `precision` bits, scaled up. -/
theorem exists_weight_eq (f : Format) (mag : Nat) :
    ∃ c k, c < 2 * f.fractionBound ∧ f.weight mag = c * 2 ^ k := by
  have hfraction : mag % f.fractionBound < f.fractionBound := Nat.mod_lt _ f.fractionBound_pos
  by_cases hfield : mag / f.fractionBound = 0
  · refine ⟨mag % f.fractionBound, 0, by omega, ?_⟩
    rw [weight, if_pos hfield, Nat.pow_zero, Nat.mul_one]
  · refine ⟨f.fractionBound + mag % f.fractionBound, mag / f.fractionBound - 1, by omega, ?_⟩
    rw [weight, if_neg hfield]

theorem zpow_two_pos (n : Int) : (0 : ℚ) < 2 ^ n := zpow_pos (by norm_num) n

/-- A significand of at most `p` bits does not stand at a place below the one that keeps `p` bits of its
number. -/
theorem le_place_of_significand {c p : Nat} {e : Int} (hm : m ≠ 0) (hc : c < 2 ^ p)
    (h : (c : ℚ) * 2 ^ e = m * 2 ^ q) : q + m.log2 + 1 - p ≤ e := by
  have hlog : (2 : ℚ) ^ (m.log2 : Int) ≤ m := by
    have := Nat.log2_self_le hm
    exact_mod_cast this
  have hbits : (c : ℚ) < 2 ^ (p : Int) := by exact_mod_cast hc
  have hlt : (2 : ℚ) ^ ((m.log2 : Int) + q) < 2 ^ ((p : Int) + e) := by
    calc (2 : ℚ) ^ ((m.log2 : Int) + q) = 2 ^ (m.log2 : Int) * 2 ^ q :=
          zpow_add₀ (by norm_num) _ _
      _ ≤ m * 2 ^ q := mul_le_mul_of_nonneg_right hlog (zpow_two_pos q).le
      _ = c * 2 ^ e := h.symm
      _ < 2 ^ (p : Int) * 2 ^ e := mul_lt_mul_of_pos_right hbits (zpow_two_pos e)
      _ = 2 ^ ((p : Int) + e) := (zpow_add₀ (by norm_num) _ _).symm
  have := (zpow_lt_zpow_iff_right₀ (by norm_num : (1 : ℚ) < 2)).1 hlt
  omega

/-- A number that bits of a format stand for has a whole significand at the place where a conversion
looks for it. -/
theorem Proper.exists_significand (hf : f.Proper) {mag : Nat} {place : Int} (hm : m ≠ 0)
    (hplace : max (q + (m.log2 : Int) + 1 - f.precision) f.minExponent = place)
    (h : (f.weight mag : ℚ) * 2 ^ f.minExponent = m * 2 ^ q) :
    ∃ s : Nat, (s : ℚ) * 2 ^ place = m * 2 ^ q := by
  obtain ⟨c, k, hc, hweight⟩ := f.exists_weight_eq mag
  have hscaled : (c : ℚ) * 2 ^ ((k : Int) + f.minExponent) = m * 2 ^ q := by
    rw [← h, hweight, zpow_add₀ (by norm_num : (2 : ℚ) ≠ 0), zpow_natCast]
    push_cast
    ring
  rw [hf.two_mul_fractionBound] at hc
  have hle : place ≤ (k : Int) + f.minExponent := by
    have := le_place_of_significand hm hc hscaled
    omega
  refine ⟨c * 2 ^ ((k : Int) + f.minExponent - place).toNat, ?_⟩
  rw [← hscaled, Nat.cast_mul, Nat.cast_pow, Nat.cast_ofNat, mul_assoc, ← zpow_natCast,
    ← zpow_add₀ (by norm_num : (2 : ℚ) ≠ 0), Int.toNat_of_nonneg (by omega), sub_add_cancel]

/-- Two scalings that give the same number agree as whole numbers. -/
theorem scaled_of_eq {s : Nat} {place : Int} (h : (s : ℚ) * 2 ^ place = m * 2 ^ q) :
    s * 2 ^ (place - q).toNat = m * 2 ^ (q - place).toNat := by
  have hcast : (s : ℚ) * 2 ^ (place - q).toNat = m * 2 ^ (q - place).toNat := by
    rw [← zpow_natCast, ← zpow_natCast]
    -- both sides are the number in units of the lesser of the two places
    have hshift : ∀ e e' : Int, (((e - e').toNat : Nat) : Int) = e - min e e' := by omega
    rw [hshift, hshift, min_comm q place, zpow_sub₀ (by norm_num : (2 : ℚ) ≠ 0),
      zpow_sub₀ (by norm_num : (2 : ℚ) ≠ 0), ← mul_div_assoc, ← mul_div_assoc, h]
  exact_mod_cast hcast

/-- A conversion gives bits for `± m * 2 ^ q` if any bits of the format stand for this number. -/
theorem Proper.exists_ofDyadic? (hf : f.Proper)
    (h : (f.decode bits).number = .rational (signFactor negative * m * 2 ^ q)) :
    ∃ result, f.ofDyadic? negative m q = some result := by
  by_cases hm : m = 0
  · exact ⟨_, by rw [ofDyadic?, if_pos hm]⟩
  have hweight := weight_of_number h
  simp only [ofDyadic?, if_neg hm]
  generalize hplace : max (q + (m.log2 : Int) + 1 - f.precision) f.minExponent = place
  obtain ⟨s, hs⟩ := hf.exists_significand hm hplace hweight
  have hscaled := scaled_of_eq hs
  have hquotient : m * Nat.pow 2 (q - place).toNat / Nat.pow 2 (place - q).toNat = s :=
    Nat.div_eq_of_eq_mul_left (Nat.two_pow_pos _) hscaled.symm
  rw [hquotient]
  obtain ⟨hlt, hfill⟩ := hf.significand_bounds hm hplace hs
  -- the magnitude that is tried has the weight of the given bits, so it is theirs
  have hmagnitude : (place - f.minExponent).toNat * f.fractionBound + s = f.magnitude bits := by
    apply f.weight_strictMono.injective
    rw [weight_place hlt hfill]
    have heq : ((s * 2 ^ (place - f.minExponent).toNat : Nat) : ℚ) * 2 ^ f.minExponent =
        f.weight (f.magnitude bits) * 2 ^ f.minExponent := by
      rw [hweight, ← hs, Nat.cast_mul, Nat.cast_pow, Nat.cast_ofNat, mul_assoc, ← zpow_natCast,
        ← zpow_add₀ (by norm_num : (2 : ℚ) ≠ 0), Int.toNat_of_nonneg (by omega), sub_add_cancel]
    exact_mod_cast mul_right_cancel₀ (zpow_two_pos f.minExponent).ne' heq
  rw [hmagnitude]
  exact ⟨_, if_pos ⟨hscaled, magnitude_lt_of_number h⟩⟩

theorem Proper.exists_ofInt? (hf : f.Proper) {n : Int} (h : (f.decode bits).number = .rational n) :
    ∃ result, f.ofInt? n = some result := by
  have hdyadic : (f.decode bits).number =
      .rational (signFactor (n < 0) * n.natAbs * 2 ^ (0 : Int)) := by
    rw [h, zpow_zero, mul_one, signFactor_mul_natAbs]
  exact hf.exists_ofDyadic? hdyadic

/-- Bits convert to another format if any bits of that format stand for the same number. -/
theorem Proper.exists_convert? (ht : target.Proper) {bits' : Nat}
    (h : (target.decode bits').number = (source.decode bits).number) :
    ∃ result, source.convert? target bits = some result := by
  unfold convert?
  cases hdatum : source.decode bits with
  | nan => exact ⟨_, rfl⟩
  | infinite negative => exact ⟨_, rfl⟩
  | finite negative m q =>
    rw [hdatum] at h
    exact ht.exists_ofDyadic? h

end Format

end MergeOnRead.Floating
