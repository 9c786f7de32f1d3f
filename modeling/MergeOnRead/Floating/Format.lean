/-!
# Binary floating-point formats

A float is kept as the natural number of its bits, and a format says how wide its fields are. What
the bits denote is exact: a sign, a natural significand and a power of two (`Format.decode`). Order
and identity never go through machine arithmetic.

A partition has one identity per value, so floats that go into a key are made canonical: both zeros
become the positive zero, and every NaN becomes one quiet NaN.
-/

namespace MergeOnRead.Floating

/-- The widths of a binary interchange format: bits of the significand, the leading one included,
and bits of the exponent field. -/
structure Format where
  precision : Nat
  exponentBits : Nat
deriving DecidableEq, Repr

def binary32 : Format := ⟨24, 8⟩

def binary64 : Format := ⟨53, 11⟩

/-- What a bit pattern denotes. A finite float is `significand * 2 ^ exponent` with a sign. -/
inductive Datum where
  | nan
  | infinite (negative : Bool)
  | finite (negative : Bool) (significand : Nat) (exponent : Int)
deriving DecidableEq, Repr

namespace Format

/-- One more than the largest fraction field. -/
def fractionBound (f : Format) : Nat := Nat.pow 2 (f.precision - 1)

/-- The largest exponent field, which marks infinities and NaNs. -/
def topField (f : Format) : Nat := Nat.pow 2 f.exponentBits - 1

/-- The weight of the sign bit. -/
def signBit (f : Format) : Nat := Nat.pow 2 f.exponentBits * f.fractionBound

/-- The exponent of the last place of the smallest floats. -/
def minExponent (f : Format) : Int := 3 - Nat.pow 2 (f.exponentBits - 1) - f.precision

def magnitude (f : Format) (bits : Nat) : Nat := bits % f.signBit

def isNegative (f : Format) (bits : Nat) : Bool := f.signBit ≤ bits

def infinityBits (f : Format) : Nat := f.topField * f.fractionBound

/-- The bits of the quiet NaN that stands for all NaNs. -/
def quietNaN (f : Format) : Nat := f.infinityBits + f.fractionBound / 2

/-- Whether the bits denote no number. -/
def isNaN (f : Format) (bits : Nat) : Bool := f.infinityBits < f.magnitude bits

/-- What the bits denote. -/
def decode (f : Format) (bits : Nat) : Datum :=
  let field := f.magnitude bits / f.fractionBound
  let fraction := f.magnitude bits % f.fractionBound
  if field = f.topField then
    if fraction = 0 then .infinite (f.isNegative bits) else .nan
  else if field = 0 then
    .finite (f.isNegative bits) fraction f.minExponent
  else
    .finite (f.isNegative bits) (f.fractionBound + fraction) (f.minExponent + (field - 1 : Nat))

/-- The bits that stand for a value in a partition key: zeros lose their sign and NaNs their
payload. -/
def canonical (f : Format) (bits : Nat) : Nat :=
  if f.isNaN bits then f.quietNaN
  else if f.magnitude bits = 0 then 0
  else bits

/-- The place of the bits in the total order: negative floats below positive ones, the larger
magnitude further out, NaNs at the ends and the negative zero just below the positive one. -/
def orderKey (f : Format) (bits : Nat) : Int :=
  if f.isNegative bits then -(f.magnitude bits : Int) - 1 else f.magnitude bits

end Format

def canonical32 (bits : UInt32) : UInt32 := .ofNat (binary32.canonical bits.toNat)

def canonical64 (bits : UInt64) : UInt64 := .ofNat (binary64.canonical bits.toNat)

theorem Format.canonical_idem (f : Format) (bits : Nat) (hf : f.isNaN f.quietNaN = true)
    (hz : f.isNaN 0 = false) : f.canonical (f.canonical bits) = f.canonical bits := by
  by_cases hn : f.isNaN bits = true
  · simp [Format.canonical, hn, hf]
  · by_cases hm : f.magnitude bits = 0
    · have h0 : f.magnitude 0 = 0 := by simp [Format.magnitude]
      simp [Format.canonical, hn, hm, hz, h0]
    · simp [Format.canonical, hn, hm]

end MergeOnRead.Floating
