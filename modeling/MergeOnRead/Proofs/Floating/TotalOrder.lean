import MergeOnRead.Proofs.Floating.Number

/-!
# The total order of floats by their bits

Floats of one format are ordered totally, the NaNs and both zeros too, when the bits are read as a
signed number after the sign was folded into the rest: the bits below it are flipped if it is set.

Main statement: `orderKey_eq_toInt_foldSign`, this signed number is the place of the bits in the
order (`Format.orderKey`).
-/

namespace MergeOnRead.Floating

variable {w : Nat} {x : BitVec (w + 1)}

/-- Bits whose order as signed numbers is that of the floats: the sign, spread over the word and
moved off its own place, flips all bits below. -/
def foldSign (x : BitVec (w + 1)) : BitVec (w + 1) := x ^^^ (x.sshiftRight w >>> 1)

theorem ushiftRight_eq_zero (h : x.msb = false) : x >>> w = 0#(w + 1) := by
  have hlt : x.toNat < 2 ^ w := by simpa [BitVec.msb_eq_decide] using h
  apply BitVec.eq_of_toNat_eq
  simp [Nat.shiftRight_eq_div_pow, Nat.div_eq_of_lt hlt]

theorem foldSign_of_not_msb (h : x.msb = false) : foldSign x = x := by
  rw [foldSign, BitVec.sshiftRight_eq_of_msb_false h, ushiftRight_eq_zero h]
  simp

/-- With the sign set, what is left is the complement of the bits below it. -/
theorem foldSign_of_msb (h : x.msb = true) :
    foldSign x = ~~~(x.setWidth w).setWidth (w + 1) := by
  have hnot : (~~~x).msb = false := by simp [h]
  rw [foldSign, BitVec.sshiftRight_eq_of_msb_true h, ushiftRight_eq_zero hnot]
  ext i hi
  have hlast : x.getLsbD w = true := by simpa [BitVec.msb_eq_getLsbD_last] using h
  rcases Nat.lt_or_eq_of_le (Nat.le_of_lt_succ hi) with hlt | rfl
  · have hshift : 1 + i < w + 1 := by omega
    simp [BitVec.getElem_setWidth, hlt, hshift, BitVec.getLsbD_eq_getElem hi]
  · have hshift : ¬ 1 + i < i + 1 := by omega
    simpa [BitVec.getElem_setWidth, hshift] using hlast

theorem toInt_foldSign (x : BitVec (w + 1)) :
    (foldSign x).toInt =
      if x.msb then -((x.toNat % 2 ^ w : Nat) : Int) - 1 else (x.toNat % 2 ^ w : Nat) := by
  split
  · rename_i h
    have hbound : x.toNat % 2 ^ w < 2 ^ w := Nat.mod_lt _ (Nat.two_pow_pos w)
    have hpow : 2 ^ (w + 1) = 2 * 2 ^ w := by rw [Nat.pow_succ, Nat.mul_comm]
    have hlow : ((x.setWidth w).setWidth (w + 1)).toNat = x.toNat % 2 ^ w := by
      rw [BitVec.toNat_setWidth, BitVec.toNat_setWidth]
      exact Nat.mod_eq_of_lt (by omega)
    have hmsb : (~~~(x.setWidth w).setWidth (w + 1)).msb = true := by
      rw [BitVec.msb_eq_decide, BitVec.toNat_not, hlow, decide_eq_true_eq, Nat.add_sub_cancel]
      omega
    rw [foldSign_of_msb h, BitVec.toInt_eq_msb_cond, if_pos hmsb, BitVec.toNat_not, hlow]
    omega
  · rename_i h
    rw [Bool.not_eq_true] at h
    have hlt : x.toNat < 2 ^ w := by simpa [BitVec.msb_eq_decide] using h
    rw [foldSign_of_not_msb h, BitVec.toInt_eq_toNat_of_msb h, Nat.mod_eq_of_lt hlt]

/-- In a word that has the width of a format, the place of the bits in the order of floats is the
signed number that the bits are with the sign folded in. -/
theorem orderKey_eq_toInt_foldSign {f : Format} (hf : f.signBit = 2 ^ w) (x : BitVec (w + 1)) :
    f.orderKey x.toNat = (foldSign x).toInt := by
  rw [toInt_foldSign, BitVec.msb_eq_decide, Nat.add_sub_cancel]
  unfold Format.orderKey Format.isNegative Format.magnitude
  rw [hf]

end MergeOnRead.Floating
