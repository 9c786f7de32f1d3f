import MergeOnRead.Floating.Format

/-!
# Shortest decimals

Among the decimals that round to a given float, the one with the fewest digits, and of those the one
nearest to the float. The reals that round to `m * 2 ^ q` form an interval that reaches halfway to
the two neighbours; its ends belong to it when `m` is even. All tests are exact, on natural numbers.
-/

namespace MergeOnRead.Floating

/-- A decimal number, `digits * 10 ^ exponent`. -/
structure Decimal where
  digits : Nat
  exponent : Int
deriving DecidableEq, Repr

/-- The magnitude of a finite float with the shape of its rounding interval: just above a power of
two the float below is half as far away as the float above. -/
structure Magnitude where
  significand : Nat
  exponent : Int
  narrowBelow : Bool

namespace Magnitude

/-- What a unit of `significand` comes to when both sides of a comparison with a multiple of
`10 ^ place` are freed of denominators. -/
def unit (x : Magnitude) (place : Int) : Nat := Nat.pow 2 x.exponent.toNat * Nat.pow 10 (-place).toNat

/-- What a unit in the given decimal place comes to on the same scale. -/
def grid (x : Magnitude) (place : Int) : Nat := Nat.pow 2 (-x.exponent).toNat * Nat.pow 10 place.toNat

/-- Whether `d * 10 ^ place` lies in the rounding interval. -/
def readsBack (x : Magnitude) (place : Int) (d : Nat) : Bool :=
  let low := (4 * x.significand - if x.narrowBelow then 1 else 2) * x.unit place
  let high := (4 * x.significand + 2) * x.unit place
  let point := 4 * d * x.grid place
  if x.significand % 2 = 0 then low ≤ point && point ≤ high else low < point && point < high

/-- The best of the two multiples of `10 ^ place` around the float, if one of them reads back: the
nearer one, and the upper one when both are as near. -/
def roundAt? (x : Magnitude) (place : Int) : Option Nat :=
  let below := x.significand * x.unit place / x.grid place
  match x.readsBack place below, x.readsBack place (below + 1) with
  | false, false => none
  | true, false => some below
  | false, true => some (below + 1)
  | true, true =>
    if 2 * x.significand * x.unit place < (2 * below + 1) * x.grid place then some below
    else some (below + 1)

/-- Tries ever finer decimal places. The value itself, written out, is the last resort. -/
def search (x : Magnitude) : Nat → Int → Decimal
  | 0, _ =>
    if 0 ≤ x.exponent then ⟨x.significand * Nat.pow 2 x.exponent.toNat, 0⟩
    else ⟨x.significand * Nat.pow 5 (-x.exponent).toNat, x.exponent⟩
  | fuel + 1, place =>
    match x.roundAt? place with
    | some d => ⟨d, place⟩
    | none => x.search fuel (place - 1)

/-- A decimal place above the leading digit: `30103 / 100000` is just above the logarithm of two. -/
def leadingPlace (x : Magnitude) : Int :=
  ((x.exponent + x.significand.log2 + 2) * 30103).fdiv 100000 + 1

/-- The shortest decimal of a positive magnitude. Twenty places below the leading one are more than
any float needs. -/
def shortest (x : Magnitude) : Decimal := x.search 20 x.leadingPlace

end Magnitude

end MergeOnRead.Floating
