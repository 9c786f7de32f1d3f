import Mathlib.Data.List.Dedup
import MergeOnRead.OrderedMap
import MergeOnRead.Partition.Key
import MergeOnRead.Proofs.Floating.TotalOrder

/-!
# The order of partition values and keys

Partition values are ordered linearly, nulls first and kind by kind, and so are the keys that they
make up. Two values or keys are equal in the order only if they are equal: a map by keys has one
entry for each key that it was given, in the order of keys, however it was built.

Main statement: `order_laws`.
-/

namespace MergeOnRead

/-- The laws of a linear order, told of its comparison. -/
structure LinearComparison {α : Type} (cmp : α → α → Ordering) : Prop where
  refl (a : α) : cmp a a = .eq
  swap (a b : α) : cmp a b = (cmp b a).swap
  antisymm {a b : α} (hab : (cmp a b).isLE = true) (hba : (cmp b a).isLE = true) : a = b
  trans {a b c : α} (hab : (cmp a b).isLE = true) (hbc : (cmp b c).isLE = true) :
    (cmp a c).isLE = true
  lt_trans {a b c : α} (hab : cmp a b = .lt) (hbc : cmp b c = .lt) : cmp a c = .lt
  total (a b : α) : (cmp a b).isLE = true ∨ (cmp b a).isLE = true
  eq_iff {a b : α} : cmp a b = .eq ↔ a = b

theorem linearComparison_compare {α : Type} [Ord α] [Std.TransOrd α] [Std.LawfulEqOrd α] :
    LinearComparison (compare : α → α → Ordering) where
  refl _ := Std.ReflCmp.compare_self
  swap _ _ := Std.OrientedCmp.eq_swap
  antisymm {a b} hab hba := by
    have hswap : compare b a = (compare a b).swap := Std.OrientedCmp.eq_swap
    rw [hswap] at hba
    cases hcompare : compare a b with
    | lt =>
      rw [hcompare] at hba
      cases hba
    | eq => exact Std.LawfulEqCmp.compare_eq_iff_eq.1 hcompare
    | gt =>
      rw [hcompare] at hab
      cases hab
  trans := Std.TransCmp.isLE_trans
  lt_trans := Std.TransCmp.lt_trans
  total a b := by
    have hswap : compare a b = (compare b a).swap := Std.OrientedCmp.eq_swap
    rw [hswap]
    cases compare b a with
    | lt => exact .inr rfl
    | eq => exact .inl rfl
    | gt => exact .inl rfl
  eq_iff := Std.LawfulEqCmp.compare_eq_iff_eq

/-! ## Maps -/

namespace OrderedMap

variable {κ α : Type} [Ord κ] [DecidableEq κ] [Std.TransOrd κ] [Std.LawfulEqOrd κ]

omit [DecidableEq κ] [Std.TransOrd κ] in
theorem keys_nodup (m : OrderedMap κ α) : m.keys.Nodup := by
  refine m.keys_ordered.imp fun {j k} hlt heq => ?_
  have heq' : compare j k = .eq := Std.LawfulEqCmp.compare_eq_iff_eq.2 heq
  rw [hlt] at heq'
  cases heq'

/-- An update adds its own key only. -/
theorem mem_keys_upsert_iff {m : OrderedMap κ α} {j k : κ} {f : Option α → α} :
    k ∈ (m.upsert j f).keys ↔ k = j ∨ k ∈ m.keys := by
  rw [mem_keys_iff, mem_keys_iff, get?_upsert]
  by_cases hk : k = j
  · simp [hk]
  · simp [hk]

theorem mem_keys_foldl_upsert_iff {updates : List (κ × (Option α → α))} {m : OrderedMap κ α}
    {k : κ} :
    k ∈ (updates.foldl (fun m update => m.upsert update.1 update.2) m).keys ↔
      k ∈ updates.map (·.1) ∨ k ∈ m.keys := by
  induction updates generalizing m with
  | nil => simp
  | cons update updates ih =>
    rw [List.foldl_cons, ih, mem_keys_upsert_iff, List.map_cons, List.mem_cons]
    tauto

/-- A map that is built by updates has one entry for each key that was updated. -/
theorem keys_foldl_upsert_perm (updates : List (κ × (Option α → α))) :
    (updates.foldl (fun m update => m.upsert update.1 update.2) empty).keys.Perm
      (updates.map (·.1)).dedup := by
  refine (List.perm_ext_iff_of_nodup (keys_nodup _) (List.nodup_dedup _)).2 fun k => ?_
  rw [mem_keys_foldl_upsert_iff, List.mem_dedup]
  simp [keys, empty]

end OrderedMap

/-! ## Values and keys -/

namespace Partition

open Floating

namespace Value

theorem compare_of_rank_lt {v w : Value} (h : v.rank < w.rank) : compare v w = .lt := by
  have hrank : compare v.rank w.rank = .lt := Nat.compare_eq_lt.2 h
  rw [compare_def, hrank]
  rfl

theorem rank_le_of_isLE {v w : Value} (h : (compare v w).isLE = true) : v.rank ≤ w.rank := by
  by_contra hlt
  have hswap : compare v w = (compare w v).swap := Std.OrientedCmp.eq_swap
  rw [hswap, compare_of_rank_lt (Nat.not_le.1 hlt)] at h
  cases h

/-- Floats are ordered by their bits with the sign folded in. -/
theorem compare_float32_bits (a b : UInt32) :
    compare (float32 a) (float32 b) =
      compare (foldSign a.toBitVec).toInt (foldSign b.toBitVec).toInt := by
  have hsign : binary32.signBit = 2 ^ 31 := rfl
  rw [← orderKey_eq_toInt_foldSign hsign, ← orderKey_eq_toInt_foldSign hsign]
  rfl

/-- The negative NaNs are the least floats, and the zero without a sign is the greater one. -/
example :
    compare (float32 0xFFC00000) (float32 0xFF800000) = .lt ∧
      compare (float32 0x80000000) (float32 0) = .lt := by
  decide

theorem compare_float64_bits (a b : UInt64) :
    compare (float64 a) (float64 b) =
      compare (foldSign a.toBitVec).toInt (foldSign b.toBitVec).toInt := by
  have hsign : binary64.signBit = 2 ^ 63 := rfl
  rw [← orderKey_eq_toInt_foldSign hsign, ← orderKey_eq_toInt_foldSign hsign]
  rfl

end Value

/-- A key is before another if it begins it, or by the first values that differ. -/
inductive Key.Before : Key → Key → Prop
  | begins (k : Key) (v : Value) (rest : Key) : Key.Before k (k ++ v :: rest)
  | differs (common : Key) {v w : Value} (h : compare v w = .lt) (k l : Key) :
      Key.Before (common ++ v :: k) (common ++ w :: l)

theorem Key.Before.cons (v : Value) {k l : Key} (h : Key.Before k l) :
    Key.Before (v :: k) (v :: l) := by
  cases h with
  | begins _ w rest => exact .begins (v :: k) w rest
  | differs common h k l => exact .differs (v :: common) h k l

/-- What two keys begin with alike does not decide. -/
theorem Key.compare_append (common k l : Key) :
    compare (common ++ k) (common ++ l) = compare k l := by
  induction common with
  | nil => rfl
  | cons v common ih =>
    have hself : compare v v = .eq := Std.ReflCmp.compare_self
    rw [List.cons_append, List.cons_append, List.compare_cons_cons, hself, Ordering.eq_then, ih]

/-- Keys are compared value by value from the left. -/
theorem Key.compare_eq_lt_iff {k l : Key} : compare k l = .lt ↔ Key.Before k l := by
  constructor
  · intro h
    induction k generalizing l with
    | nil =>
      cases l with
      | nil => cases h
      | cons w rest => exact .begins [] w rest
    | cons v k ih =>
      cases l with
      | nil => cases h
      | cons w l =>
        rw [List.compare_cons_cons, Ordering.then_eq_lt] at h
        rcases h with h | ⟨heq, h⟩
        · exact .differs [] h k l
        · rw [Std.LawfulEqCmp.compare_eq_iff_eq] at heq
          subst heq
          exact (ih h).cons v
  · intro h
    cases h with
    | begins _ v rest =>
      have happend := Key.compare_append k [] (v :: rest)
      rw [List.append_nil] at happend
      exact happend
    | differs common h k l =>
      rw [Key.compare_append, List.compare_cons_cons, h]
      rfl

/-- The laws of the order of partition values and keys, and of the maps that are sorted by it. -/
structure OrderLaws : Prop where
  values : LinearComparison (compare : Value → Value → Ordering)
  null_first {v : Value} (h : v ≠ .null) : compare .null v = .lt
  /-- Values of different kinds are ordered as their kinds. -/
  kinds {v w : Value} (h : v.rank < w.rank) : compare v w = .lt
  /-- No value of another kind comes between two of one kind. -/
  kinds_apart {u v w : Value} (hkind : u.rank = w.rank) (huv : (compare u v).isLE = true)
    (hvw : (compare v w).isLE = true) : v.rank = u.rank
  /-- All floats are ordered totally by their bits. -/
  float32_bits (a b : UInt32) :
    compare (Value.float32 a) (.float32 b) =
      compare (foldSign a.toBitVec).toInt (foldSign b.toBitVec).toInt
  float64_bits (a b : UInt64) :
    compare (Value.float64 a) (.float64 b) =
      compare (foldSign a.toBitVec).toInt (foldSign b.toBitVec).toInt
  /-- Canonical floats are ordered as the numbers they stand for. -/
  float32_numbers {a b : UInt32} (ha : canonical32 a = a) (hb : canonical32 b = b) :
    compare (Value.float32 a) (.float32 b) = (number32 a).compare (number32 b)
  float64_numbers {a b : UInt64} (ha : canonical64 a = a) (hb : canonical64 b = b) :
    compare (Value.float64 a) (.float64 b) = (number64 a).compare (number64 b)
  keys : LinearComparison (compare : Key → Key → Ordering)
  keys_lexicographic {k l : Key} : compare k l = .lt ↔ Key.Before k l
  maps_ordered {α : Type} (m : OrderedMap Key α) :
    m.keys.Pairwise fun k l => compare k l = .lt
  maps_distinct {α : Type} (m : OrderedMap Key α) : m.keys.Nodup
  maps_entry {α : Type} {m : OrderedMap Key α} {k : Key} {a b : α} (ha : (k, a) ∈ m.toList)
    (hb : (k, b) ∈ m.toList) : a = b
  maps_built {α : Type} (updates : List (Key × (Option α → α))) :
    (updates.foldl (fun m update => m.upsert update.1 update.2) OrderedMap.empty).keys.Perm
      (updates.map (·.1)).dedup

/-- The order of partition values and keys is linear, and maps by keys are sorted by it. -/
theorem order_laws : OrderLaws where
  values := linearComparison_compare
  null_first {v} h := by
    refine Value.compare_of_rank_lt ?_
    cases v with
    | null => exact absurd rfl h
    | _ => exact Nat.succ_pos _
  kinds := Value.compare_of_rank_lt
  kinds_apart hkind huv hvw := by
    have := Value.rank_le_of_isLE huv
    have := Value.rank_le_of_isLE hvw
    omega
  float32_bits := Value.compare_float32_bits
  float64_bits := Value.compare_float64_bits
  float32_numbers ha hb := compare_orderKey32 ha hb
  float64_numbers ha hb := compare_orderKey64 ha hb
  keys := linearComparison_compare
  keys_lexicographic := Key.compare_eq_lt_iff
  maps_ordered m := m.keys_ordered
  maps_distinct m := m.keys_nodup
  maps_entry ha hb :=
    Option.some.inj ((OrderedMap.mem_toList_iff.1 ha).symm.trans (OrderedMap.mem_toList_iff.1 hb))
  maps_built := OrderedMap.keys_foldl_upsert_perm

end Partition

end MergeOnRead
