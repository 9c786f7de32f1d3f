import MergeOnRead.Encoding.Json
import MergeOnRead.Proofs.Result

/-!
# Written values read back

Numbers in the range of their reader, lists and optional values read back as what was written, and
what a list reads as has only elements that its items read as.

Main statements: `asListOf_ofList` and `forall_of_asListOf`.
-/

namespace MergeOnRead

namespace Json

open Result

/-! ## Numbers -/

theorem asInteger_integer {low high n : Int} (hlow : low ≤ n) (hhigh : n < high) :
    (integer n).asInteger low high = .ok n := by
  simp [asInteger, hlow, hhigh]

@[simp] theorem asByte_integer (n : UInt8) : (integer n.toNat).asByte = .ok n := by
  have hn := n.toNat_lt
  rw [asByte, asInteger_integer (by omega) (by omega)]
  simp [Except.map]

@[simp] theorem asWord32_integer (n : UInt32) : (integer n.toNat).asWord32 = .ok n := by
  have hn := n.toNat_lt
  rw [asWord32, asInteger_integer (by omega) (by omega)]
  simp [Except.map]

@[simp] theorem asWord64_integer (n : UInt64) : (integer n.toNat).asWord64 = .ok n := by
  have hn := n.toNat_lt
  rw [asWord64, asInteger_integer (by omega) (by omega)]
  simp [Except.map]

@[simp] theorem asWord64_ofWord64 (n : UInt64) : (ofWord64 n).asWord64 = .ok n :=
  asWord64_integer n

@[simp] theorem asInt32_integer (n : Int32) : (integer n.toInt).asInt32 = .ok n := by
  have hlow := n.le_toInt
  have hhigh := n.toInt_lt
  rw [asInt32, asInteger_integer (by omega) (by omega)]
  simp [Except.map]

theorem asLong_integer {n : Int} (hlow : -0x8000000000000000 ≤ n) (hhigh : n < 0x8000000000000000) :
    (integer n).asLong = .ok n :=
  asInteger_integer hlow hhigh

@[simp] theorem asInt64_integer (n : Int64) : (integer n.toInt).asInt64 = .ok n := by
  have hlow := n.le_toInt
  have hhigh := n.toInt_lt
  rw [asInt64, asLong_integer (by omega) (by omega)]
  simp [Except.map]

/-! ## Lists and optional values -/

section

variable {α : Type} {encode : α → Json} {decode : Decoder α}

/-- A list reads back as what its items read back as. -/
theorem asListOf_ofList {f : α → α} {items : List α}
    (h : ∀ a ∈ items, decode (encode a) = .ok (f a)) :
    (ofList encode items).asListOf decode = .ok (items.map f) := by
  show (items.map encode).mapM decode = .ok (items.map f)
  induction items with
  | nil => rfl
  | cons a items ih =>
    obtain ⟨ha, hitems⟩ := List.forall_mem_cons.1 h
    rw [List.map_cons, List.mapM_cons, ha, ih hitems]
    rfl

/-- What a list reads as has only elements that its items read as. -/
theorem forall_of_asListOf {p : α → Prop} (h : ∀ json a, decode json = .ok a → p a) {json : Json}
    {as : List α} (hread : json.asListOf decode = .ok as) : ∀ a ∈ as, p a := by
  cases json with
  | list items =>
    have hitems : List.Forall₂ (fun item a => decode item = .ok a) items as :=
      forall₂_of_mapM hread
    clear hread
    intro a ha
    induction hitems with
    | nil => cases ha
    | cons hitem _ ih =>
      rcases List.mem_cons.1 ha with rfl | ha
      · exact h _ _ hitem
      · exact ih ha
  | null | boolean _ | integer _ | decimal _ _ | text _ | object _ => cases hread

@[simp] theorem asOption_null : null.asOption decode = .ok none := rfl

/-- A value that is there reads back, unless it is written as null. -/
theorem asOption_of_ne_null {json : Json} (h : json ≠ null) :
    json.asOption decode = (decode json).map some := by
  cases json with
  | null => exact absurd rfl h
  | boolean _ | integer _ | decimal _ _ | text _ | list _ | object _ => rfl

end

end Json

/-! ## Records -/

namespace Record

open Result

variable {α : Type} {record : Record} {name : String} {decode : Json.Decoder α}

theorem need_eq_ok_iff {value : Option α} {a : α} : need value = .ok a ↔ value = some a := by
  cases value <;> simp [need]

/-- A field reads as what its tree reads as. -/
theorem read_of_lookup {json : Json} {a : α} (hlookup : record.fields.lookup name = some json)
    (hdecode : decode json = .ok a) : record.read name decode = .ok (some a) := by
  rw [read, hlookup]
  dsimp only
  rw [hdecode]
  rfl

/-- A field that has to be there was read from some tree. -/
theorem exists_decode_of_read {value : Option α} {a : α}
    (hread : record.read name decode = .ok value) (hneed : need value = .ok a) :
    ∃ json, decode json = .ok a := by
  rw [need_eq_ok_iff.1 hneed] at hread
  unfold read at hread
  cases hlookup : record.fields.lookup name with
  | none =>
    rw [hlookup] at hread
    cases hread
  | some json =>
    rw [hlookup] at hread
    obtain ⟨b, hb, hsome⟩ := map_eq_ok hread
    exact ⟨json, Option.some.inj hsome ▸ hb⟩

end Record

end MergeOnRead
