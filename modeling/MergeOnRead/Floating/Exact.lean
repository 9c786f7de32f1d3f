import MergeOnRead.Floating.Format

/-!
# Exact conversion

A literal becomes a float of a column only if no bit of its value is lost: a rounded literal could
turn a strict comparison around. `Format.ofDyadic?` gives the bits of `± m * 2 ^ q` in a format, if
the format holds that number exactly.
-/

namespace MergeOnRead.Floating

/-- The bits of `± m * 2 ^ q`, if the format has exactly this number. The last place of the result
is the one that keeps `precision` bits, but never below the smallest of the format. -/
def Format.ofDyadic? (f : Format) (negative : Bool) (m : Nat) (q : Int) : Option Nat :=
  let sign := if negative then f.signBit else 0
  if m = 0 then some sign
  else
    let place := max (q + m.log2 + 1 - f.precision) f.minExponent
    let significand := m * Nat.pow 2 (q - place).toNat / Nat.pow 2 (place - q).toNat
    let magnitude := (place - f.minExponent).toNat * f.fractionBound + significand
    if significand * Nat.pow 2 (place - q).toNat = m * Nat.pow 2 (q - place).toNat ∧
        magnitude < f.infinityBits then
      some (sign + magnitude)
    else none

/-- The bits of a whole number, if the format has exactly this number. -/
def Format.ofInt? (f : Format) (n : Int) : Option Nat :=
  f.ofDyadic? (n < 0) n.natAbs 0

/-- The same value with the bits of another format, if that format has it. -/
def Format.convert? (source target : Format) (bits : Nat) : Option Nat :=
  match source.decode bits with
  | .nan => some target.quietNaN
  | .infinite negative => some ((if negative then target.signBit else 0) + target.infinityBits)
  | .finite negative m q => target.ofDyadic? negative m q

end MergeOnRead.Floating
