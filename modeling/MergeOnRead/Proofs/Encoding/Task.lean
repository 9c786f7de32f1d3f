import MergeOnRead.Encoding.Task
import MergeOnRead.Proofs.Encoding.File

/-!
# Scan tasks as JSON read back

The worker that reads a task gets the task that was planned, but for the float bits of keys, which
reading makes canonical. Reading is therefore the identity on tasks that were read before.

Main statement: `CombinedTask.roundTrip`.
-/

namespace MergeOnRead.Scan

open Json Result

theorem decodeFile_object (json : Json) :
    decodeFile (.object [("file", json)]) = File.decode json := by
  have hrecord : (object [("file", json)]).asRecord ["file"] = .ok ⟨[("file", json)], true⟩ := rfl
  rw [decodeFile, bind_of_eq_ok hrecord]
  cases hfile : File.decode json with
  | error e =>
    have hread : (⟨[("file", json)], true⟩ : Record).read "file" File.decode = .error e := by
      show (File.decode json).map some = .error e
      rw [hfile]
      rfl
    rw [hread]
    rfl
  | ok file =>
    rw [bind_of_eq_ok (Record.read_of_lookup rfl hfile)]
    rfl

theorem decodeFile_encodeFile (file : File) : decodeFile (encodeFile file) = .ok file.canonical := by
  rw [encodeFile, decodeFile_object, file.decode_encode]

theorem canonical_of_decodeFile {json : Json} {file : File} (h : decodeFile json = .ok file) :
    file.partition.canonical = file.partition := by
  obtain ⟨fields, -, h⟩ := bind_eq_ok h
  obtain ⟨file?, hread, h⟩ := bind_eq_ok h
  obtain ⟨-, -, hneed⟩ := bind_eq_ok h
  obtain ⟨json, hjson⟩ := Record.exists_decode_of_read hread hneed
  exact File.canonical_of_decode hjson

namespace PartitionTask

/-- The task with the float bits of its keys made canonical. -/
def canonical (task : PartitionTask) : PartitionTask :=
  ⟨task.partition.canonical, task.base.map File.canonical, task.inserts.map File.canonical,
    task.deletes.map File.canonical⟩

/-- The keys that a task is written with: its own and those of its files. -/
def keys (task : PartitionTask) : List Partition.Key :=
  task.partition :: task.files.map (·.partition)

theorem canonical_eq_self {task : PartitionTask} (h : ∀ key ∈ task.keys, key.canonical = key) :
    task.canonical = task := by
  obtain ⟨hkey, hfiles⟩ := List.forall_mem_cons.1 h
  have hfile : ∀ file ∈ task.files, file.canonical = id file := by
    intro file hmem
    exact File.canonical_eq_self_iff.2 (hfiles _ (List.mem_map_of_mem hmem))
  have hpart : ∀ part : List File, (∀ file ∈ part, file ∈ task.files) →
      part.map File.canonical = part := by
    intro part hsub
    rw [List.map_congr_left fun file hmem => hfile file (hsub file hmem), List.map_id]
  rw [canonical, hkey, hpart task.base, hpart task.inserts, hpart task.deletes]
  all_goals
    intro file hmem
    simp [files, hmem]

theorem decode_encode (task : PartitionTask) : decode task.encode = .ok task.canonical := by
  let fields : Record :=
    ⟨[("base_files", .ofList encodeFile task.base),
      ("delete_files", .ofList encodeFile task.deletes),
      ("insert_files", .ofList encodeFile task.inserts), ("partition", task.partition.encode)], true⟩
  have hfiles : ∀ files : List File, (Json.ofList encodeFile files).asListOf decodeFile =
      .ok (files.map File.canonical) :=
    fun files => asListOf_ofList fun file _ => decodeFile_encodeFile file
  have hbase : fields.read "base_files" (asListOf decodeFile) = .ok (some _) :=
    Record.read_of_lookup rfl (hfiles task.base)
  have hdeletes : fields.read "delete_files" (asListOf decodeFile) = .ok (some _) :=
    Record.read_of_lookup rfl (hfiles task.deletes)
  have hinserts : fields.read "insert_files" (asListOf decodeFile) = .ok (some _) :=
    Record.read_of_lookup rfl (hfiles task.inserts)
  have hpartition : fields.read "partition" Partition.Key.decode = .ok (some _) :=
    Record.read_of_lookup rfl task.partition.decode_encode
  have hrecord : task.encode.asRecord fieldNames = .ok fields := rfl
  rw [decode, bind_of_eq_ok hrecord]
  dsimp only [encode]
  rw [bind_of_eq_ok hbase, bind_of_eq_ok hdeletes, bind_of_eq_ok hinserts,
    bind_of_eq_ok hpartition]
  rfl

/-- Each part of a task that was read was read from some tree, in whatever order the parts were
written. -/
theorem exists_decode_parts {json : Json} {task : PartitionTask} (h : decode json = .ok task) :
    (∃ part, Partition.Key.decode part = .ok task.partition) ∧
      (∃ part : Json, part.asListOf decodeFile = .ok task.base) ∧
      (∃ part : Json, part.asListOf decodeFile = .ok task.inserts) ∧
      ∃ part : Json, part.asListOf decodeFile = .ok task.deletes := by
  obtain ⟨fields, -, h⟩ := bind_eq_ok h
  dsimp only at h
  split at h
  · obtain ⟨partition?, hpartition, h⟩ := bind_eq_ok h
    obtain ⟨base?, hbase, h⟩ := bind_eq_ok h
    obtain ⟨inserts?, hinserts, h⟩ := bind_eq_ok h
    obtain ⟨deletes?, hdeletes, h⟩ := bind_eq_ok h
    obtain ⟨-, -, h⟩ := bind_eq_ok h
    obtain ⟨partition, hp, h⟩ := bind_eq_ok h
    obtain ⟨base, hb, h⟩ := bind_eq_ok h
    obtain ⟨inserts, hi, h⟩ := bind_eq_ok h
    obtain ⟨deletes, hd, h⟩ := bind_eq_ok h
    cases h
    exact ⟨Record.exists_decode_of_read hpartition hp, Record.exists_decode_of_read hbase hb,
      Record.exists_decode_of_read hinserts hi, Record.exists_decode_of_read hdeletes hd⟩
  · obtain ⟨base?, hbase, h⟩ := bind_eq_ok h
    obtain ⟨deletes?, hdeletes, h⟩ := bind_eq_ok h
    obtain ⟨inserts?, hinserts, h⟩ := bind_eq_ok h
    obtain ⟨partition?, hpartition, h⟩ := bind_eq_ok h
    obtain ⟨partition, hp, h⟩ := bind_eq_ok h
    obtain ⟨base, hb, h⟩ := bind_eq_ok h
    obtain ⟨inserts, hi, h⟩ := bind_eq_ok h
    obtain ⟨deletes, hd, h⟩ := bind_eq_ok h
    cases h
    exact ⟨Record.exists_decode_of_read hpartition hp, Record.exists_decode_of_read hbase hb,
      Record.exists_decode_of_read hinserts hi, Record.exists_decode_of_read hdeletes hd⟩

/-- A task that was read has canonical keys. -/
theorem canonical_of_decode {json : Json} {task : PartitionTask} (h : decode json = .ok task) :
    ∀ key ∈ task.keys, key.canonical = key := by
  obtain ⟨⟨_, hpartition⟩, ⟨_, hbase⟩, ⟨_, hinserts⟩, ⟨_, hdeletes⟩⟩ := exists_decode_parts h
  have hpart : ∀ {part : Json} {files : List File}, part.asListOf decodeFile = .ok files →
      ∀ file ∈ files, file.partition.canonical = file.partition :=
    fun hread => forall_of_asListOf (fun _ _ => canonical_of_decodeFile) hread
  intro key hkey
  rcases List.mem_cons.1 hkey with rfl | hkey
  · exact Partition.Key.canonical_of_decode hpartition
  · obtain ⟨file, hfile, rfl⟩ := List.mem_map.1 hkey
    rcases List.mem_append.1 hfile with hfile | hfile
    · rcases List.mem_append.1 hfile with hfile | hfile
      · exact hpart hbase file hfile
      · exact hpart hinserts file hfile
    · exact hpart hdeletes file hfile

end PartitionTask

namespace CombinedTask

/-- The task with the float bits of its keys made canonical. -/
def canonical (task : CombinedTask) : CombinedTask := ⟨task.tasks.map PartitionTask.canonical⟩

def keys (task : CombinedTask) : List Partition.Key := task.tasks.flatMap PartitionTask.keys

theorem canonical_eq_self {task : CombinedTask} (h : ∀ key ∈ task.keys, key.canonical = key) :
    task.canonical = task := by
  have htask : ∀ part ∈ task.tasks, part.canonical = id part := by
    intro part hpart
    apply PartitionTask.canonical_eq_self
    intro key hkey
    exact h key (List.mem_flatMap.2 ⟨part, hpart, hkey⟩)
  rw [canonical, List.map_congr_left htask, List.map_id]

theorem decode_encode (task : CombinedTask) : decode task.encode = .ok task.canonical := by
  let fields : Record := ⟨[("tasks", .ofList PartitionTask.encode task.tasks)], true⟩
  have htasks : fields.read "tasks" (asListOf PartitionTask.decode) =
      .ok (some (task.tasks.map PartitionTask.canonical)) :=
    Record.read_of_lookup rfl (asListOf_ofList fun part _ => part.decode_encode)
  have hrecord : task.encode.asRecord ["tasks"] = .ok fields := rfl
  rw [decode, bind_of_eq_ok hrecord, bind_of_eq_ok htasks]
  rfl

/-- A task that was read has canonical keys. -/
theorem canonical_of_decode {json : Json} {task : CombinedTask} (h : decode json = .ok task) :
    ∀ key ∈ task.keys, key.canonical = key := by
  obtain ⟨fields, -, h⟩ := bind_eq_ok h
  obtain ⟨tasks?, hread, h⟩ := bind_eq_ok h
  obtain ⟨-, -, h⟩ := bind_eq_ok h
  obtain ⟨tasks, hneed, h⟩ := bind_eq_ok h
  cases h
  obtain ⟨json, hjson⟩ := Record.exists_decode_of_read hread hneed
  intro key hkey
  obtain ⟨part, hpart, hkey⟩ := List.mem_flatMap.1 hkey
  exact forall_of_asListOf (fun _ _ => PartitionTask.canonical_of_decode) hjson part hpart key hkey

/-- What comes out of a written task, and which written tasks there are. The last part starts from
the parts of a file as they may be written: the reader takes those that a file could have. -/
theorem roundTrip :
    (∀ task : CombinedTask, decode task.encode = .ok task.canonical) ∧
    (∀ task : CombinedTask, (∀ key ∈ task.keys, key.canonical = key) →
      decode task.encode = .ok task) ∧
    (∀ (json : Json) (task : CombinedTask), decode json = .ok task →
      (∀ file ∈ task.files, (file.content = .data ↔ file.transactionId = none) ∧
        ∀ id, file.transactionId = some id → 0 < id.val) ∧
      (∀ key ∈ task.keys, key.canonical = key) ∧
      decode task.encode = .ok task) ∧
    ∀ (path : String) (content : FileContent) (partition : Partition.Key) (size records : UInt64)
      (transaction : Option Int),
      (∃ file, decodeFile (.object [("file", File.record path content partition size records
        (.ofOption .integer transaction))]) = .ok file) ↔
      content = .data ∧ transaction = none ∨
        content ≠ .data ∧ ∃ n, transaction = some n ∧ 0 < n ∧ n < 0x8000000000000000 := by
  have hexact : ∀ task : CombinedTask, (∀ key ∈ task.keys, key.canonical = key) →
      decode task.encode = .ok task := by
    intro task hkeys
    rw [decode_encode, canonical_eq_self hkeys]
  refine ⟨decode_encode, hexact, ?read, ?parts⟩
  case read =>
    intro json task hread
    have hkeys := canonical_of_decode hread
    exact ⟨fun file _ => ⟨file.content_eq_data_iff, fun id _ => id.positive⟩, hkeys,
      hexact task hkeys⟩
  case parts =>
    intro path content partition size records transaction
    rw [decodeFile_object]
    exact File.exists_decode_record_iff

/-- The task of a partition whose key is a negative zero, with a file whose key has a NaN that is
not quiet. -/
def oddFloats : CombinedTask :=
  ⟨[⟨[.float32 0x80000000], [.base "a" [.float64 0x7FF0000000000001] 10 1], [], []⟩]⟩

theorem roundTrip_oddFloats :
    decode oddFloats.encode =
        .ok ⟨[⟨[.float32 0], [.base "a" [.float64 0x7FF8000000000000] 10 1], [], []⟩]⟩ ∧
      ∃ task, decode oddFloats.encode = .ok task ∧ decode task.encode = .ok task :=
  ⟨(roundTrip.1 oddFloats).trans (by decide), oddFloats.canonical, roundTrip.1 oddFloats,
    (roundTrip.2.2.1 oddFloats.encode oddFloats.canonical (roundTrip.1 oddFloats)).2.2⟩

end CombinedTask

end MergeOnRead.Scan
