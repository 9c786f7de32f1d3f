/-!
# Hexadecimal text

Bytes are written as two lower-case hexadecimal digits each.
-/

namespace MergeOnRead.Text

/-- Two lower-case hexadecimal digits. -/
def hexByte (b : UInt8) : List Char :=
  [Nat.digitChar (b.toNat / 16), Nat.digitChar (b.toNat % 16)]

/-- The bytes in order, two digits each. -/
def hex (bytes : List UInt8) : String :=
  String.ofList (bytes.flatMap hexByte)

end MergeOnRead.Text
