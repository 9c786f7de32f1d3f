import MergeOnRead.Proofs.Floating.Representable
import MergeOnRead.Proofs.Predicate.Scalar

/-!
# Literals that a column refuses

A number may have to change its format to become a value of a column: a whole number on a narrower or
a floating-point column, a float on a narrower one. It is refused exactly when no value of the column
type equals it, so it is never rounded, and never refused for its format alone.

Main statement: `bind_eq_typeMismatch_iff`.
-/

namespace MergeOnRead

open Floating

theorem Scalar.order?_number_eq_iff {s : Scalar} {x : Number} :
    s.order? (.number x) = some .eq ↔ s = .number x := by
  cases s <;> simp [order?, Number.compare_eq_iff]

namespace Partition.Value

variable {value : Value} {x : Number}

/-- A value of a numeric type that stands for a number is no null, so it has the form of its type. -/
theorem exists_int32_of_scalar (htype : value.hasType .int32 = true) (h : value.scalar = .number x) :
    ∃ n : Int32, Number.rational n.toInt = x := by
  cases value <;> simp [hasType] at htype
  · cases h
  · exact ⟨_, Scalar.number.inj h⟩

theorem exists_float32_of_scalar (htype : value.hasType .float32 = true)
    (h : value.scalar = .number x) : ∃ bits : UInt32, (binary32.decode bits.toNat).number = x := by
  cases value <;> simp [hasType] at htype
  · cases h
  · exact ⟨_, Scalar.number.inj h⟩

theorem exists_float64_of_scalar (htype : value.hasType .float64 = true)
    (h : value.scalar = .number x) : ∃ bits : UInt64, (binary64.decode bits.toNat).number = x := by
  cases value <;> simp [hasType] at htype
  · cases h
  · exact ⟨_, Scalar.number.inj h⟩

end Partition.Value

namespace Literal

variable {literal : Literal} {type : ColumnType} {column : Column}

/-- Some value of a column type equals a literal exactly. -/
def HasValue (literal : Literal) (type : ColumnType) : Prop :=
  ∃ value : Partition.Value, value.hasType type = true ∧ value.scalar.order? literal.scalar = some .eq

/-- Whether a literal is a number that has to change its format to become a value of a type. -/
def changesFormat (literal : Literal) (type : ColumnType) : Bool :=
  match literal, type with
  | int64 _, .int32 => true
  | int64 _, .float32 => true
  | int64 _, .float64 => true
  | float64 _, .float32 => true
  | _, _ => false

/-- A number that changes its format is converted if some value of the type equals it. -/
theorem exists_coerce?_of_hasValue (hchange : literal.changesFormat type = true)
    (h : literal.HasValue type) : ∃ value, literal.coerce? type = some value := by
  obtain ⟨value, htype, heq⟩ := h
  unfold changesFormat at hchange
  split at hchange
  case h_1 n =>
    obtain ⟨k, hk⟩ :=
      Partition.Value.exists_int32_of_scalar htype (Scalar.order?_number_eq_iff.1 heq)
    have hkn : k.toInt = n.toInt := by exact_mod_cast Number.rational.inj hk
    have hrange : -0x80000000 ≤ n.toInt ∧ n.toInt < 0x80000000 := by
      rw [← hkn]
      exact ⟨k.le_toInt, k.toInt_lt⟩
    exact ⟨_, if_pos hrange⟩
  case h_2 n =>
    obtain ⟨bits, hbits⟩ :=
      Partition.Value.exists_float32_of_scalar htype (Scalar.order?_number_eq_iff.1 heq)
    obtain ⟨result, hresult⟩ := Format.binary32_proper.exists_ofInt? hbits
    exact ⟨_, by rw [coerce?, hresult]; rfl⟩
  case h_3 n =>
    obtain ⟨bits, hbits⟩ :=
      Partition.Value.exists_float64_of_scalar htype (Scalar.order?_number_eq_iff.1 heq)
    obtain ⟨result, hresult⟩ := Format.binary64_proper.exists_ofInt? hbits
    exact ⟨_, by rw [coerce?, hresult]; rfl⟩
  case h_4 bits =>
    obtain ⟨bits', hbits'⟩ :=
      Partition.Value.exists_float32_of_scalar htype (Scalar.order?_number_eq_iff.1 heq)
    obtain ⟨result, hresult⟩ := Format.binary32_proper.exists_convert? hbits'
    exact ⟨_, by rw [coerce?, hresult]; rfl⟩
  case h_5 => cases hchange

/-- The value that a number is converted to equals it. -/
theorem hasValue_of_coerce? (hchange : literal.changesFormat type = true) {value : Partition.Value}
    (h : literal.coerce? type = some value) : literal.HasValue type := by
  have hkept := keptBy_of_coerce? h
  refine ⟨value, hkept.hasType, ?_⟩
  have hnumber : ∃ x, literal.scalar = .number x := by
    unfold changesFormat at hchange
    split at hchange <;> first | exact ⟨_, rfl⟩ | cases hchange
  obtain ⟨x, hx⟩ := hnumber
  rw [hkept.scalar, hx]
  exact Scalar.order?_number_eq_iff.2 rfl

theorem isNull_of_changesFormat (h : literal.changesFormat type = true) :
    literal.isNull = false := by
  cases literal <;> first | rfl | cases h

theorem ne_boolean_of_changesFormat (h : literal.changesFormat type = true) :
    (type == .boolean) = false := by
  cases type <;> first | rfl | (cases literal <;> cases h)

theorem exists_bind_of_hasValue (hchange : literal.changesFormat column.type = true)
    (h : literal.HasValue column.type) : ∃ value, literal.bind column = .ok value := by
  obtain ⟨value, hcoerce⟩ := exists_coerce?_of_hasValue hchange h
  refine ⟨value, ?_⟩
  rw [bind, isNull_of_changesFormat hchange, if_neg Bool.false_ne_true, hcoerce]

/-- A number that changes its format is refused exactly when no value of the column type equals it. -/
theorem bind_eq_typeMismatch_iff (hchange : literal.changesFormat column.type = true) :
    literal.bind column = .error (.typeMismatch column literal) ↔
      ¬literal.HasValue column.type := by
  constructor
  · intro herror hvalue
    obtain ⟨value, hbind⟩ := exists_bind_of_hasValue hchange hvalue
    rw [hbind] at herror
    cases herror
  · intro hvalue
    rw [bind, isNull_of_changesFormat hchange, if_neg Bool.false_ne_true]
    cases hcoerce : literal.coerce? column.type with
    | none => rfl
    | some value => exact absurd (hasValue_of_coerce? hchange hcoerce) hvalue

/-- A mismatch reports the column and the literal that do not fit. -/
theorem eq_of_bind_eq_typeMismatch {column' : Column} {literal' : Literal}
    (h : literal.bind column = .error (.typeMismatch column' literal')) :
    column = column' ∧ literal = literal' := by
  unfold bind at h
  split at h
  · cases h
  · split at h
    · cases h
    · cases h
      exact ⟨rfl, rfl⟩

end Literal

end MergeOnRead
