import MergeOnRead.Predicate.Bound
import MergeOnRead.Proofs.Floating.Conversion

/-!
# Exact comparison of literals and values

A literal and the value of a column may be kept in different types. Here both are read as scalars,
which forget the type that a number is kept in: integers and finite floats are the rationals they
denote, and both zeros are one number. Scalars of one kind are compared exactly; null is comparable
with nothing.

Main statements: `Value.order?_scalar`, canonical values of one type are ordered as what they stand
for, and `Literal.keptBy_of_coerce?`, a literal that converts to a column type converts to a value
that stands for the same.
-/

namespace MergeOnRead

/-- What a literal or a value stands for. -/
inductive Scalar where
  | null
  | boolean (b : Bool)
  | number (x : Floating.Number)
  | text (text : String)
  | bytes (bytes : List UInt8)
  | date (days : Int)
  | instant (micros : Int)
deriving DecidableEq

/-- The order of two scalars of one kind. -/
def Scalar.order? : Scalar → Scalar → Option Ordering
  | boolean a, boolean b => some (compare a b)
  | number a, number b => some (a.compare b)
  | text a, text b => some (compare a b)
  | bytes a, bytes b => some (compare a b)
  | date a, date b => some (compare a b)
  | instant a, instant b => some (compare a b)
  | _, _ => none

theorem Scalar.order?_null_left (s : Scalar) : Scalar.order? .null s = none := by cases s <;> rfl

open Floating in
def Literal.scalar : Literal → Scalar
  | null => .null
  | boolean b => .boolean b
  | int64 n => .number (.rational n.toInt)
  | float64 bits => .number (number64 bits)
  | utf8 text => .text text
  | binary bytes => .bytes bytes
  | date32 days => .date days.toInt
  | timestampMicros micros => .instant micros.toInt

namespace Partition.Value

open Floating

def scalar : Value → Scalar
  | null => .null
  | boolean b => .boolean b
  | int32 n => .number (.rational n.toInt)
  | int64 n => .number (.rational n.toInt)
  | float32 bits => .number (number32 bits)
  | float64 bits => .number (number64 bits)
  | utf8 text => .text text
  | binary bytes => .bytes bytes
  | date32 days => .date days.toInt
  | timestampMicros micros => .instant micros.toInt

theorem canonical32_idem (bits : UInt32) : canonical32 (canonical32 bits) = canonical32 bits := by
  apply UInt32.toNat_inj.1
  rw [toNat_canonical32, toNat_canonical32,
    Format.canonical_idem _ _ Format.binary32_proper.isNaN_quietNaN
      Format.binary32_proper.isNaN_zero]

theorem canonical64_idem (bits : UInt64) : canonical64 (canonical64 bits) = canonical64 bits := by
  apply UInt64.toNat_inj.1
  rw [toNat_canonical64, toNat_canonical64,
    Format.canonical_idem _ _ Format.binary64_proper.isNaN_quietNaN
      Format.binary64_proper.isNaN_zero]

@[simp] theorem canonical_canonical (v : Value) : v.canonical.canonical = v.canonical := by
  cases v <;> simp [canonical, ofFloat32, ofFloat64, canonical32_idem, canonical64_idem]

/-- Making the bits of a float canonical does not change what the value stands for. -/
@[simp] theorem scalar_canonical (v : Value) : v.canonical.scalar = v.scalar := by
  cases v <;>
    simp [canonical, ofFloat32, ofFloat64, scalar, number32_canonical32, number64_canonical64]

theorem scalar_eq_null_iff {v : Value} : v.scalar = .null ↔ v.isNull = true := by
  cases v <;> simp [scalar, isNull]

theorem scalar_beq_null (v : Value) : (v.scalar == .null) = v.isNull := by
  rw [Bool.eq_iff_iff, beq_iff_eq, scalar_eq_null_iff]

/-- Whole numbers are compared alike as integers and as rationals. -/
theorem compare_intCast (a b : Int) : compare a b = compare (a : ℚ) (b : ℚ) := by
  rcases lt_trichotomy a b with h | rfl | h
  · rw [compare_lt_iff_lt.2 h, compare_lt_iff_lt.2 (by exact_mod_cast h)]
  · rw [compare_eq_iff_eq.2 rfl, compare_eq_iff_eq.2 rfl]
  · rw [compare_gt_iff_gt.2 h, compare_gt_iff_gt.2 (by exact_mod_cast h)]

/-- Canonical values of one column type are ordered as what they stand for. -/
theorem order?_scalar {type : ColumnType} {v w : Value} (hv : v.hasType type = true)
    (hw : w.hasType type = true) (hvnull : v.isNull = false) (hwnull : w.isNull = false)
    (hvcanon : v.canonical = v) (hwcanon : w.canonical = w) :
    v.scalar.order? w.scalar = some (compare v w) := by
  cases type <;> cases v <;> simp [hasType, isNull] at hv hvnull <;>
    cases w <;> simp [hasType, isNull] at hw hwnull <;>
    simp only [scalar, Scalar.order?, compare_def, rank, Std.ReflCmp.compare_self,
      Ordering.eq_then, compareWithin, Option.some.injEq, Number.compare]
  · exact (compare_intCast _ _).symm
  · exact (compare_intCast _ _).symm
  · simp only [canonical, ofFloat32, float32.injEq] at hvcanon hwcanon
    exact (compare_orderKey32 hvcanon hwcanon).symm
  · simp only [canonical, ofFloat64, float64.injEq] at hvcanon hwcanon
    exact (compare_orderKey64 hvcanon hwcanon).symm

end Partition.Value

/-- A value of a column type that stands for what a literal stands for. -/
structure Literal.KeptBy (literal : Literal) (type : ColumnType) (value : Partition.Value) :
    Prop where
  scalar : value.scalar = literal.scalar
  hasType : value.hasType type = true
  notNull : value.isNull = false
  canonical : value.canonical = value

namespace Literal

open Floating Partition.Value

theorem keptBy_ofFloat32 {literal : Literal} {bits : Nat} (hlt : bits < 2 * binary32.signBit)
    (h : literal.scalar = .number (binary32.decode bits).number) :
    literal.KeptBy .float32 (ofFloat32 (.ofNat bits)) := by
  refine ⟨?_, rfl, rfl, canonical_canonical (.float32 _)⟩
  rw [h, ofFloat32, Partition.Value.scalar, number32_canonical32, number32,
    UInt32.toNat_ofNat_of_lt' hlt]

theorem keptBy_ofFloat64 {literal : Literal} {bits : Nat} (hlt : bits < 2 * binary64.signBit)
    (h : literal.scalar = .number (binary64.decode bits).number) :
    literal.KeptBy .float64 (ofFloat64 (.ofNat bits)) := by
  refine ⟨?_, rfl, rfl, canonical_canonical (.float64 _)⟩
  rw [h, ofFloat64, Partition.Value.scalar, number64_canonical64, number64,
    UInt64.toNat_ofNat_of_lt' hlt]

/-- A literal that converts to a column type is kept by the value it converts to. -/
theorem keptBy_of_coerce? {type : ColumnType} {literal : Literal} {value : Partition.Value}
    (h : literal.coerce? type = some value) : literal.KeptBy type value := by
  -- the cases in which a number changes its type are those of the conversions
  unfold coerce? at h
  split at h
  case h_2 n =>
    split at h
    · rename_i hrange
      obtain rfl := Option.some.inj h
      have hn : (Int32.ofInt n.toInt).toInt = n.toInt := Int32.toInt_ofInt_of_le hrange.1 hrange.2
      exact ⟨by rw [Partition.Value.scalar, Literal.scalar, hn], rfl, rfl, rfl⟩
    · cases h
  case h_4 bits =>
    obtain ⟨b, hb, rfl⟩ := Option.map_eq_some_iff.1 h
    obtain ⟨hnumber, hlt⟩ := Format.binary32_proper.convert?_number hb
    exact keptBy_ofFloat32 hlt (by rw [hnumber, Literal.scalar, number64])
  case h_5 n =>
    obtain ⟨b, hb, rfl⟩ := Option.map_eq_some_iff.1 h
    obtain ⟨hnumber, hlt⟩ := Format.binary32_proper.ofInt?_number hb
    exact keptBy_ofFloat32 hlt (by rw [hnumber, Literal.scalar])
  case h_6 bits =>
    obtain rfl := Option.some.inj h
    refine ⟨?_, rfl, rfl, canonical_canonical (.float64 _)⟩
    rw [ofFloat64, Partition.Value.scalar, number64_canonical64, Literal.scalar]
  case h_7 n =>
    obtain ⟨b, hb, rfl⟩ := Option.map_eq_some_iff.1 h
    obtain ⟨hnumber, hlt⟩ := Format.binary64_proper.ofInt?_number hb
    exact keptBy_ofFloat64 hlt (by rw [hnumber, Literal.scalar])
  case h_14 => cases h
  all_goals
    obtain rfl := Option.some.inj h
    exact ⟨rfl, rfl, rfl, rfl⟩

/-- A literal that binds to a column is kept by the value it binds to. -/
theorem keptBy_of_bind {column : Column} {literal : Literal} {value : Partition.Value}
    (h : literal.bind column = .ok value) : literal.KeptBy column.type value := by
  unfold bind at h
  split at h
  · cases h
  · split at h
    · rename_i hcoerce
      cases h
      exact keptBy_of_coerce? hcoerce
    · cases h

/-- A canonical value of the column type is compared with a bound literal as with the literal. -/
theorem KeptBy.order?_eq {literal : Literal} {type : ColumnType}
    {value actual : Partition.Value} (h : literal.KeptBy type value)
    (htype : actual.hasType type = true) (hnull : actual.isNull = false)
    (hcanon : actual.canonical = actual) :
    actual.scalar.order? literal.scalar = some (compare actual value) := by
  rw [← h.scalar]
  exact Partition.Value.order?_scalar htype h.hasType hnull h.notNull hcanon h.canonical

end Literal

end MergeOnRead
