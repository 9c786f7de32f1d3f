import MergeOnRead.Encoding.Json
import MergeOnRead.Text.Hex
import MergeOnRead.Text.Numeral

/-!
# Scalars of JSON text

The values that have no parts, which are names, numbers and quoted texts: how a word reads, and how
each is written.

A number is an optional minus sign, a whole part without leading zeros, and then, each if it is
there, the digits after a decimal point and an exponent. How it is written decides what it is: digits
alone are a whole number, and a point or an exponent makes a decimal of it. A zero with a minus sign
is a decimal too, since no whole number is written that way.
-/

namespace MergeOnRead.Json

/-- A value that has no parts. -/
inductive Scalar where
  | null
  | boolean (b : Bool)
  | integer (n : Int)
  | decimal (digits exponent : Int)
  | text (s : String)
deriving DecidableEq, Repr, Inhabited

namespace Scalar

/-- The tree that is this value. -/
def toJson : Scalar → Json
  | null => .null
  | boolean b => .boolean b
  | integer n => .integer n
  | decimal digits exponent => .decimal digits exponent
  | text s => .text s

/-! ## Words -/

/-- What stands before the first character that `p` holds of, and what stands after that one, if
there is one. -/
def cut (p : Char → Bool) (cs : List Char) : List Char × Option (List Char) :=
  (cs.takeWhile fun c => !p c, (cs.dropWhile fun c => !p c).tail?)

/-- The whole part: no zero stands before another digit. -/
def wholePart? : List Char → Option Nat
  | '0' :: _ :: _ => none
  | cs => Text.digits? cs

/-- A whole part with the digits after the point and the exponent, each if it is there. -/
def decimal? (whole : List Char) (places exponent : Option (List Char)) : Option Scalar := do
  let _ ← wholePart? whole
  let _ ← (places.map Text.digits?).getD (some 0)
  let scale ← (exponent.map Text.signed?).getD (some 0)
  let places := places.getD []
  return decimal (Nat.ofDigitChars 10 (whole ++ places) 0) (scale - places.length)

/-- Reads a number without a sign. -/
def magnitude? (cs : List Char) : Option Scalar :=
  let (mantissa, exponent) := cut (fun c => c = 'e' || c = 'E') cs
  let (whole, places) := cut (fun c => c = '.') mantissa
  if places.isNone && exponent.isNone then (wholePart? whole).map fun n => integer n
  else decimal? whole places exponent

/-- The number with a minus sign. -/
def negate : Scalar → Scalar
  | integer n => if n = 0 then decimal 0 0 else integer (-n)
  | decimal digits exponent => decimal (-digits) exponent
  | scalar => scalar

def number? : List Char → Option Scalar
  | '-' :: cs => (magnitude? cs).map negate
  | cs => magnitude? cs

/-- Reads a word: a name or a number. -/
def ofWord? (cs : List Char) : Option Scalar :=
  if cs = ['n', 'u', 'l', 'l'] then some null
  else if cs = ['t', 'r', 'u', 'e'] then some (boolean true)
  else if cs = ['f', 'a', 'l', 's', 'e'] then some (boolean false)
  else number? cs

/-! ## Writing -/

/-- An escaped code unit, four digits. -/
def escapedUnit (n : Nat) : List Char :=
  '\\' :: 'u' :: (Text.hexByte (.ofNat (n / 0x100)) ++ Text.hexByte (.ofNat (n % 0x100)))

/-- A character in quotes. Only printable ASCII characters stand for themselves, so that a written
text is one line. -/
def escaped (c : Char) : List Char :=
  if c = '"' || c = '\\' then ['\\', c]
  else if 0x20 ≤ c.toNat ∧ c.toNat < 0x7F then [c]
  else if c.toNat < 0x10000 then escapedUnit c.toNat
  else escapedUnit (0xD800 + (c.toNat - 0x10000) / 0x400) ++
    escapedUnit (0xDC00 + (c.toNat - 0x10000) % 0x400)

def quoted (s : String) : String :=
  String.ofList ('"' :: (s.toList.flatMap escaped ++ ['"']))

/-- A value as it is written. A decimal always has its exponent. -/
def write : Scalar → String
  | null => "null"
  | boolean b => if b then "true" else "false"
  | integer n => toString n
  | decimal digits exponent => toString digits ++ "e" ++ toString exponent
  | text s => quoted s

end Scalar

end MergeOnRead.Json
