import MergeOnRead.Encoding.File
import MergeOnRead.Proofs.Encoding.Partition

/-!
# Files as JSON read back

A file reads back with a canonical key and all else as it was. The reader applies the rules by which
files are built, so of the records that can be written with any content beside any transaction id it
takes exactly those that a file could have.

Main statements: `decode_encode` and `exists_decode_record_iff`.
-/

namespace MergeOnRead

open Json Result

theorem FileContent.decode_encode (content : FileContent) : decode content.encode = .ok content := by
  cases content <;> rfl

theorem FileContent.side_eq_change_iff {content : FileContent} :
    content.side = .change ↔ content ≠ .data := by
  cases content <;> decide

namespace TransactionId

theorem decode_integer {raw : Int} (hlow : -0x8000000000000000 ≤ raw)
    (hhigh : raw < 0x8000000000000000) :
    decode (.integer raw) = (check raw).mapError .refused := by
  rw [decode, asLong_integer hlow hhigh]
  rfl

theorem ofInt?_val (id : TransactionId) : ofInt? id.val = some id := by
  have h : 0 < (id.val : Int).toNat ∧ (id.val : Int).toNat < 0x8000000000000000 :=
    ⟨id.positive, id.bounded⟩
  rw [ofInt?, dif_pos h]
  rfl

theorem decode_encode (id : TransactionId) : decode id.encode = .ok id := by
  have hbound := id.bounded
  rw [encode, decode_integer (by omega) (by omega), check, ofInt?_val]
  rfl

theorem exists_check_iff {raw : Int} :
    (∃ id, check raw = .ok id) ↔ 0 < raw ∧ raw < 0x8000000000000000 := by
  have hnat : 0 < raw.toNat ∧ raw.toNat < 0x8000000000000000 ↔
      0 < raw ∧ raw < 0x8000000000000000 := by omega
  rw [← hnat, check, ofInt?]
  split
  · rename_i id hid
    split at hid
    · rename_i hraw
      exact ⟨fun _ => hraw, fun _ => ⟨id, rfl⟩⟩
    · cases hid
  · rename_i hnone
    split at hnone
    · cases hnone
    · rename_i hraw
      exact ⟨nofun, fun h => absurd h hraw⟩

/-- The numbers that are transaction ids are the positive ones of 63 bits. -/
theorem exists_decode_integer_iff {raw : Int} :
    (∃ id, decode (.integer raw) = .ok id) ↔ 0 < raw ∧ raw < 0x8000000000000000 := by
  by_cases hrange : -0x8000000000000000 ≤ raw ∧ raw < 0x8000000000000000
  · rw [decode_integer hrange.1 hrange.2, ← exists_check_iff]
    simp only [mapError_eq_ok_iff]
  · have hlong : (integer raw).asLong = .error .malformed := if_neg hrange
    constructor
    · rintro ⟨id, hid⟩
      obtain ⟨n, hn, -⟩ := bind_eq_ok hid
      rw [hlong] at hn
      cases hn
    · intro hraw
      omega

end TransactionId

namespace File

theorem content_eq_data_iff (file : File) : file.content = .data ↔ file.transactionId = none := by
  have h := file.transactionId_isSome
  rw [FileContent.side_eq_change_iff] at h
  rw [← Option.not_isSome_iff_eq_none, h, ne_eq, not_not]

/-- The file with the float bits of its key made canonical. -/
def canonical (file : File) : File := { file with partition := file.partition.canonical }

/-- The record of a file with the given parts, which need not fit together. -/
def record (path : String) (content : FileContent) (partition : Partition.Key)
    (size records : UInt64) (transaction : Json) : Json :=
  .object
    [("content", content.encode), ("file_size_in_bytes", .ofWord64 size),
      ("partition", partition.encode), ("path", .text path), ("record_count", .ofWord64 records),
      ("transaction_id", transaction)]

theorem encode_eq (file : File) :
    file.encode = record file.path file.content file.partition file.size file.records
      (.ofOption TransactionId.encode file.transactionId) := rfl

section

variable {path : String} {content : FileContent} {partition : Partition.Key}
  {size records : UInt64} {transaction : Json}

/-- The parts of a record are read one by one, and then have to fit together. -/
theorem decode_record :
    decode (record path content partition size records transaction) =
      (transaction.asOption TransactionId.decode).bind fun id =>
        (ofParts path content partition.canonical size records id).mapError .refused := by
  let fields : Record :=
    ⟨[("content", content.encode), ("file_size_in_bytes", .ofWord64 size),
      ("partition", partition.encode), ("path", .text path), ("record_count", .ofWord64 records),
      ("transaction_id", transaction)], true⟩
  have hcontent : fields.read "content" FileContent.decode = .ok (some content) :=
    Record.read_of_lookup rfl content.decode_encode
  have hsize : fields.read "file_size_in_bytes" asWord64 = .ok (some size) :=
    Record.read_of_lookup rfl (asWord64_ofWord64 size)
  have hpartition : fields.read "partition" Partition.Key.decode = .ok (some partition.canonical) :=
    Record.read_of_lookup rfl partition.decode_encode
  have hpath : fields.read "path" asText = .ok (some path) := Record.read_of_lookup rfl rfl
  have hrecords : fields.read "record_count" asWord64 = .ok (some records) :=
    Record.read_of_lookup rfl (asWord64_ofWord64 records)
  have hrecord : (record path content partition size records transaction).asRecord fieldNames =
      .ok fields := rfl
  rw [decode, bind_of_eq_ok hrecord, bind_of_eq_ok hcontent, bind_of_eq_ok hsize,
    bind_of_eq_ok hpartition, bind_of_eq_ok hpath, bind_of_eq_ok hrecords]
  cases hid : transaction.asOption TransactionId.decode with
  | error e =>
    have hread : fields.read "transaction_id" (asOption TransactionId.decode) = .error e := by
      show (transaction.asOption TransactionId.decode).map some = .error e
      rw [hid]
      rfl
    rw [hread]
    rfl
  | ok id =>
    have hread : fields.read "transaction_id" (asOption TransactionId.decode) = .ok (some id) :=
      Record.read_of_lookup rfl hid
    rw [bind_of_eq_ok hread]
    rfl

/-- Parts fit together when a transaction id is there exactly for the contents of the change side. -/
theorem exists_ofParts_iff {id : Option TransactionId} :
    (∃ file, ofParts path content partition size records id = .ok file) ↔
      (id.isSome ↔ content.side = .change) := by
  unfold ofParts
  split
  · rename_i h
    exact ⟨fun _ => h, fun _ => ⟨_, rfl⟩⟩
  · rename_i h
    exact ⟨nofun, fun hfit => absurd hfit h⟩

/-- Of the records with any parts, those of base files without a transaction id and those of change
files with a positive one can be read, and no others. -/
theorem exists_decode_record_iff {raw : Option Int} :
    (∃ file, decode (record path content partition size records (.ofOption .integer raw)) =
        .ok file) ↔
      content = .data ∧ raw = none ∨
        content ≠ .data ∧ ∃ n, raw = some n ∧ 0 < n ∧ n < 0x8000000000000000 := by
  rw [decode_record]
  cases raw with
  | none =>
    have hparts : (∃ file, ofParts path content partition.canonical size records none = .ok file) ↔
        content = .data := by
      rw [exists_ofParts_iff, FileContent.side_eq_change_iff]
      simp
    simpa [Json.ofOption, mapError_eq_ok_iff, Except.bind] using hparts
  | some n =>
    rw [Json.ofOption, asOption_of_ne_null Json.noConfusion]
    cases hid : TransactionId.decode (.integer n) with
    | error e =>
      have hrange : ¬(0 < n ∧ n < 0x8000000000000000) := by
        intro hrange
        obtain ⟨id, hok⟩ := TransactionId.exists_decode_integer_iff.2 hrange
        rw [hid] at hok
        cases hok
      simpa [Except.bind, Except.map] using fun _ => hrange
    | ok id =>
      have hrange := TransactionId.exists_decode_integer_iff.1 ⟨id, hid⟩
      have hparts : (∃ file, ofParts path content partition.canonical size records (some id) =
          .ok file) ↔ content ≠ .data := by
        rw [exists_ofParts_iff, FileContent.side_eq_change_iff]
        simp
      simpa [mapError_eq_ok_iff, Except.bind, Except.map, hrange] using hparts

end

theorem decode_encode (file : File) : decode file.encode = .ok file.canonical := by
  have hid : (Json.ofOption TransactionId.encode file.transactionId).asOption TransactionId.decode =
      .ok file.transactionId := by
    cases file.transactionId with
    | none => rfl
    | some id =>
      rw [Json.ofOption, TransactionId.encode, asOption_of_ne_null Json.noConfusion,
        ← TransactionId.encode, id.decode_encode]
      rfl
  have hparts : ofParts file.path file.content file.partition.canonical file.size file.records
      file.transactionId = .ok file.canonical := by
    rw [ofParts, dif_pos file.transactionId_isSome]
    rfl
  rw [encode_eq, decode_record, hid]
  show (ofParts file.path file.content file.partition.canonical file.size file.records
    file.transactionId).mapError DecodeError.refused = _
  rw [hparts]
  rfl

theorem canonical_eq_self_iff {file : File} :
    file.canonical = file ↔ file.partition.canonical = file.partition := by
  cases file
  simp [canonical]

/-- A file that was read has a canonical key. -/
theorem canonical_of_decode {json : Json} {file : File} (h : decode json = .ok file) :
    file.partition.canonical = file.partition := by
  obtain ⟨fields, -, h⟩ := bind_eq_ok h
  obtain ⟨content?, -, h⟩ := bind_eq_ok h
  obtain ⟨size?, -, h⟩ := bind_eq_ok h
  obtain ⟨partition?, hread, h⟩ := bind_eq_ok h
  obtain ⟨path?, -, h⟩ := bind_eq_ok h
  obtain ⟨records?, -, h⟩ := bind_eq_ok h
  obtain ⟨transaction?, -, h⟩ := bind_eq_ok h
  obtain ⟨-, -, h⟩ := bind_eq_ok h
  obtain ⟨path, -, h⟩ := bind_eq_ok h
  obtain ⟨content, -, h⟩ := bind_eq_ok h
  obtain ⟨partition, hneed, h⟩ := bind_eq_ok h
  obtain ⟨size, -, h⟩ := bind_eq_ok h
  obtain ⟨records, -, h⟩ := bind_eq_ok h
  obtain ⟨json, hjson⟩ := Record.exists_decode_of_read hread hneed
  have hparts := mapError_eq_ok_iff.1 h
  unfold ofParts at hparts
  split at hparts
  · cases hparts
    exact Partition.Key.canonical_of_decode hjson
  · cases hparts

end File

end MergeOnRead
