import MergeOnRead.ColumnType
import MergeOnRead.Floating.Text
import MergeOnRead.Text.Hex

/-!
# Partition values

The value of one partition column. Values are ordered by kind first, nulls before all others, and
within a kind by their natural order, floats by the total order of their bits.

Main statements: the order is a lawful linear order (`instTransOrd`, `instLawfulEqOrd`): equal in the
order means equal, so maps keyed by values hold one entry per value.
-/

namespace MergeOnRead.Partition

/-- The value of a partition column. Floats are kept as their bits. -/
inductive Value where
  | null
  | boolean (b : Bool)
  | int32 (n : Int32)
  | int64 (n : Int64)
  | float32 (bits : UInt32)
  | float64 (bits : UInt64)
  | utf8 (text : String)
  | binary (bytes : List UInt8)
  | date32 (days : Int32)
  | timestampMicros (micros : Int64)
deriving DecidableEq, Repr

namespace Value

/-- The value of a 32-bit float: its bits made canonical. -/
def ofFloat32 (bits : UInt32) : Value := float32 (Floating.canonical32 bits)

/-- The value of a 64-bit float: its bits made canonical. -/
def ofFloat64 (bits : UInt64) : Value := float64 (Floating.canonical64 bits)

/-- The value with its float bits made canonical. -/
def canonical : Value → Value
  | float32 bits => ofFloat32 bits
  | float64 bits => ofFloat64 bits
  | v => v

def isNull : Value → Bool
  | null => true
  | _ => false

/-- Whether a column of the given type may hold the value. -/
def hasType : Value → ColumnType → Bool
  | null, _ => true
  | boolean _, .boolean => true
  | int32 _, .int32 => true
  | int64 _, .int64 => true
  | float32 _, .float32 => true
  | float64 _, .float64 => true
  | utf8 _, .utf8 => true
  | utf8 _, .largeUtf8 => true
  | binary _, .binary => true
  | binary _, .largeBinary => true
  | date32 _, .date32 => true
  | timestampMicros _, .timestampMicros _ => true
  | _, _ => false

def text : Value → String
  | null => "null"
  | boolean b => if b then "true" else "false"
  | int32 n => toString n.toInt
  | int64 n => toString n.toInt
  | float32 bits => Floating.binary32.text bits.toNat
  | float64 bits => Floating.binary64.text bits.toNat
  | utf8 text => text
  | binary bytes => Text.hex bytes
  | date32 days => toString days.toInt
  | timestampMicros micros => toString micros.toInt

/-- The place of the kind of a value in the order of kinds. -/
def rank : Value → Nat
  | null => 0
  | boolean _ => 1
  | int32 _ => 2
  | int64 _ => 3
  | float32 _ => 4
  | float64 _ => 5
  | utf8 _ => 6
  | binary _ => 7
  | date32 _ => 8
  | timestampMicros _ => 9

/-- The order of two values of one kind. -/
def compareWithin : Value → Value → Ordering
  | boolean a, boolean b => compare a b
  | int32 a, int32 b => compare a.toInt b.toInt
  | int64 a, int64 b => compare a.toInt b.toInt
  | float32 a, float32 b =>
    compare (Floating.binary32.orderKey a.toNat) (Floating.binary32.orderKey b.toNat)
  | float64 a, float64 b =>
    compare (Floating.binary64.orderKey a.toNat) (Floating.binary64.orderKey b.toNat)
  | utf8 a, utf8 b => compare a b
  | binary a, binary b => compare a b
  | date32 a, date32 b => compare a.toInt b.toInt
  | timestampMicros a, timestampMicros b => compare a.toInt b.toInt
  | _, _ => .eq

/-- Kinds are ordered first, then the values of one kind. -/
instance : Ord Value where
  compare a b := (compare a.rank b.rank).then (compareWithin a b)

theorem compare_def (a b : Value) :
    compare a b = (compare a.rank b.rank).then (compareWithin a b) := rfl

theorem compareWithin_swap (a b : Value) : compareWithin a b = (compareWithin b a).swap := by
  cases a <;> cases b <;>
    first | rfl | (simp only [compareWithin]; exact Std.OrientedCmp.eq_swap)

theorem compareWithin_trans {a b c : Value} (hab : a.rank = b.rank) (hbc : b.rank = c.rank)
    (h₁ : (compareWithin a b).isLE = true) (h₂ : (compareWithin b c).isLE = true) :
    (compareWithin a c).isLE = true := by
  cases a <;> cases b <;> simp [rank] at hab
  all_goals cases c <;> simp [rank] at hbc
  · rfl
  all_goals
    simp only [compareWithin] at h₁ h₂ ⊢
    exact Std.TransCmp.isLE_trans h₁ h₂

theorem orderKey32_injective {a b : UInt32}
    (h : Floating.binary32.orderKey a.toNat = Floating.binary32.orderKey b.toNat) : a = b := by
  have ha := a.toNat_lt
  have hb := b.toNat_lt
  have hs : Floating.binary32.signBit = 2147483648 := rfl
  apply UInt32.toNat_inj.1
  simp only [Floating.Format.orderKey, Floating.Format.isNegative, Floating.Format.magnitude, hs,
    decide_eq_true_eq] at h
  split at h <;> split at h <;> omega

theorem orderKey64_injective {a b : UInt64}
    (h : Floating.binary64.orderKey a.toNat = Floating.binary64.orderKey b.toNat) : a = b := by
  have ha := a.toNat_lt
  have hb := b.toNat_lt
  have hs : Floating.binary64.signBit = 9223372036854775808 := rfl
  apply UInt64.toNat_inj.1
  simp only [Floating.Format.orderKey, Floating.Format.isNegative, Floating.Format.magnitude, hs,
    decide_eq_true_eq] at h
  split at h <;> split at h <;> omega

theorem eq_of_compareWithin {a b : Value} (hab : a.rank = b.rank)
    (h : compareWithin a b = .eq) : a = b := by
  cases a <;> cases b <;> simp [rank] at hab
  all_goals simp only [compareWithin, Std.LawfulEqCmp.compare_eq_iff_eq] at h
  · rfl
  · rw [h]
  · rw [Int32.toInt_inj.1 h]
  · rw [Int64.toInt_inj.1 h]
  · rw [orderKey32_injective h]
  · rw [orderKey64_injective h]
  · rw [h]
  · rw [h]
  · rw [Int32.toInt_inj.1 h]
  · rw [Int64.toInt_inj.1 h]

instance : Std.TransOrd Value where
  eq_swap {a b} := by
    rw [compare_def, compare_def, Ordering.swap_then, ← Std.OrientedCmp.eq_swap,
      ← compareWithin_swap]
  isLE_trans {a b c} h₁ h₂ := by
    rw [compare_def, Ordering.isLE_then_iff_or] at h₁ h₂ ⊢
    rcases h₁ with h₁ | ⟨e₁, h₁⟩ <;> rcases h₂ with h₂ | ⟨e₂, h₂⟩
    · exact .inl (Std.TransCmp.lt_trans h₁ h₂)
    · rw [Std.LawfulEqCmp.compare_eq_iff_eq] at e₂
      exact .inl (e₂ ▸ h₁)
    · rw [Std.LawfulEqCmp.compare_eq_iff_eq] at e₁
      exact .inl (e₁ ▸ h₂)
    · rw [Std.LawfulEqCmp.compare_eq_iff_eq] at e₁ e₂
      exact .inr ⟨Std.LawfulEqCmp.compare_eq_iff_eq.2 (e₁.trans e₂),
        compareWithin_trans e₁ e₂ h₁ h₂⟩

instance : Std.LawfulEqOrd Value where
  eq_of_compare {a b} h := by
    rw [compare_def, Ordering.then_eq_eq, Std.LawfulEqCmp.compare_eq_iff_eq] at h
    exact eq_of_compareWithin h.1 h.2
  compare_self {a} := by
    have hr : compare a.rank a.rank = .eq := Std.ReflCmp.compare_self
    have h := compareWithin_swap a a
    rw [compare_def, hr, Ordering.eq_then]
    cases ho : compareWithin a a with
    | eq => rfl
    | lt => rw [ho] at h; cases h
    | gt => rw [ho] at h; cases h

end Value

end MergeOnRead.Partition
