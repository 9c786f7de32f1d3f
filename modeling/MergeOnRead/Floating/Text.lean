import MergeOnRead.Floating.Shortest

/-!
# Text of floats

Floats are written positionally with the fewest digits that read back: no exponent, no point in a
whole number, and a sign also for the negative zero.
-/

namespace MergeOnRead.Floating

/-- A decimal in positional notation. -/
def Decimal.positional (d : Decimal) : String :=
  let digits := Nat.toDigits 10 d.digits
  if 0 ≤ d.exponent then
    String.ofList (digits ++ List.replicate d.exponent.toNat '0')
  else
    let places := (-d.exponent).toNat
    let padded := List.replicate (places + 1 - digits.length) '0' ++ digits
    let whole := padded.length - places
    String.ofList (padded.take whole ++ '.' :: padded.drop whole)

/-- The text of the float with the given bits. -/
def Format.text (f : Format) (bits : Nat) : String :=
  match f.decode bits with
  | .nan => "NaN"
  | .infinite negative => if negative then "-inf" else "inf"
  | .finite negative m q =>
    let sign := if negative then "-" else ""
    if m = 0 then sign ++ "0"
    else sign ++ (Magnitude.shortest ⟨m, q, m == f.fractionBound && f.minExponent < q⟩).positional

/-- A tie between two shortest decimals goes up, whole numbers have no point, and small numbers no
exponent. -/
example :
    binary64.text 0x3E60000000000000 = "0.000000029802322387695313" ∧
      binary64.text 0x3FB999999999999A = "0.1" ∧ binary64.text 0x4059000000000000 = "100" ∧
      binary32.text 0x7F7FFFFF = "340282350000000000000000000000000000000" ∧
      binary64.text 0x8000000000000000 = "-0" := by
  decide +kernel

end MergeOnRead.Floating
