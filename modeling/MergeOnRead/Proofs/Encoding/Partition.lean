import MergeOnRead.Encoding.Partition
import MergeOnRead.Proofs.Encoding.Json
import MergeOnRead.Proofs.Predicate.Scalar

/-!
# Partition keys as JSON read back in canonical form

A float is written with the bits that it has and read with canonical bits, so two keys that differ
only in the bits of the same floats are read as one.

Main statements: `Key.decode_encode`, what a written key reads back as, and
`Key.canonical_of_decode`, a key that was read is canonical.
-/

namespace MergeOnRead.Partition

open Json Result

namespace Value

theorem decode_choice (kind : String) (payload : Json) :
    decode (.object [(kind, payload)]) = decodeKind kind payload := rfl

/-- A value reads back with canonical bits. -/
theorem decode_encode (v : Value) : decode v.encode = .ok v.canonical := by
  cases v with
  | null | utf8 _ => rfl
  | boolean b =>
    rw [encode, decode_choice, decodeKind, asBoolean]
    rfl
  | int32 n | date32 n =>
    rw [encode, decode_choice, decodeKind, asInt32_integer]
    rfl
  | int64 n | timestampMicros n =>
    rw [encode, decode_choice, decodeKind, asInt64_integer]
    rfl
  | float32 bits =>
    rw [encode, decode_choice, decodeKind, asWord32_integer]
    rfl
  | float64 bits =>
    rw [encode, decode_choice, decodeKind, asWord64_integer]
    rfl
  | binary bytes =>
    have hbytes : (Json.ofList (fun b => .integer b.toNat) bytes).asListOf asByte =
        .ok (bytes.map id) := asListOf_ofList fun b _ => asByte_integer b
    rw [encode, decode_choice, decodeKind, hbytes, List.map_id]
    rfl

theorem canonical_ofFloat32 (bits : UInt32) : (ofFloat32 bits).canonical = ofFloat32 bits :=
  congrArg float32 (canonical32_idem bits)

theorem canonical_ofFloat64 (bits : UInt64) : (ofFloat64 bits).canonical = ofFloat64 bits :=
  congrArg float64 (canonical64_idem bits)

/-- A value that was read has canonical bits. -/
theorem canonical_of_decode {json : Json} {v : Value} (h : decode json = .ok v) :
    v.canonical = v := by
  obtain ⟨⟨kind, payload⟩, -, h⟩ := bind_eq_ok h
  dsimp only [decodeKind] at h
  split at h
  case h_5 =>
    obtain ⟨bits, -, rfl⟩ := map_eq_ok h
    exact canonical_ofFloat32 bits
  case h_6 =>
    obtain ⟨bits, -, rfl⟩ := map_eq_ok h
    exact canonical_ofFloat64 bits
  case h_11 => cases h
  all_goals
    obtain ⟨read, -, rfl⟩ := map_eq_ok h
    rfl

end Value

namespace Key

/-- A key reads back with canonical bits. -/
theorem decode_encode (key : Key) : decode key.encode = .ok key.canonical :=
  asListOf_ofList fun v _ => v.decode_encode

theorem canonical_eq_self_iff {key : Key} : key.canonical = key ↔ ∀ v ∈ key, v.canonical = v := by
  constructor
  · intro h v hv
    rw [← h] at hv
    obtain ⟨w, -, rfl⟩ := List.mem_map.1 hv
    exact w.canonical_canonical
  · intro h
    exact (List.map_congr_left h).trans key.map_id

/-- A key that was read has canonical bits. -/
theorem canonical_of_decode {json : Json} {key : Key} (h : decode json = .ok key) :
    key.canonical = key :=
  canonical_eq_self_iff.2 (forall_of_asListOf (fun _ _ => Value.canonical_of_decode) h)

end Key

end MergeOnRead.Partition
