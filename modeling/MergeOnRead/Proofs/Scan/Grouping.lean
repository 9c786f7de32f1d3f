import Mathlib.Data.List.Induction
import MergeOnRead.Scan.Plan

/-!
# The tasks of a plan

Grouping files by partition, one file after the other, gives each partition the task of exactly its
files. `PartitionTask.ofFiles` is this task in one step: the files in their order, apart by content.

Main statements: `get?_addFiles`, what grouping has under a partition, and `mem_partitionTasks_iff`,
which tasks a plan has.
-/

namespace MergeOnRead

namespace OrderedMap

variable {κ α : Type} [Ord κ] [Std.TransOrd κ] [Std.LawfulEqOrd κ]

/-- The values of a map are those that some key leads to. -/
theorem mem_values_iff {m : OrderedMap κ α} {v : α} : v ∈ m.values ↔ ∃ k, m.get? k = some v := by
  unfold values
  rw [List.mem_map]
  constructor
  · rintro ⟨⟨k, w⟩, hmem, rfl⟩
    exact ⟨k, mem_toList_iff.1 hmem⟩
  · rintro ⟨k, hk⟩
    exact ⟨(k, v), mem_toList_iff.2 hk, rfl⟩

omit [Std.LawfulEqOrd κ] in
/-- If an update adds something to what is collected from a value, it adds the same to what is
collected from all values. -/
theorem flatMap_values_upsert {β : Type} {m : OrderedMap κ α} {k : κ} {f : Option α → α}
    {collect : α → List β} {added : List β} (hnone : (collect (f none)).Perm added)
    (hsome : ∀ v, (collect (f (some v))).Perm (collect v ++ added)) :
    ((m.upsert k f).values.flatMap collect).Perm (m.values.flatMap collect ++ added) := by
  change (((upsertEntry k f m.entries).map (·.2)).flatMap collect).Perm
    ((m.entries.map (·.2)).flatMap collect ++ added)
  induction m.entries with
  | nil =>
    rw [upsertEntry, List.map_singleton, List.flatMap_singleton]
    exact hnone
  | cons e rest ih =>
    rw [upsertEntry, List.map_cons, List.flatMap_cons]
    split
    · rw [List.map_cons, List.map_cons, List.flatMap_cons, List.flatMap_cons]
      exact (hnone.append_right _).trans List.perm_append_comm
    · rw [List.map_cons, List.flatMap_cons, List.append_assoc]
      refine ((hsome e.2).append_right _).trans ?_
      rw [List.append_assoc]
      exact List.perm_append_comm.append_left _
    · rw [List.map_cons, List.flatMap_cons, List.append_assoc]
      exact ih.append_left _

end OrderedMap

def filesIn (partition : Partition.Key) (files : List File) : List File :=
  files.filter fun file => file.partition = partition

section

variable {partition : Partition.Key} {files rest : List File} {file : File}

@[simp] theorem filesIn_append :
    filesIn partition (files ++ rest) = filesIn partition files ++ filesIn partition rest :=
  List.filter_append ..

@[simp] theorem mem_filesIn_iff :
    file ∈ filesIn partition files ↔ file ∈ files ∧ file.partition = partition := by
  simp [filesIn]

theorem filesIn_singleton :
    filesIn partition [file] = if file.partition = partition then [file] else [] := by
  simp [filesIn, List.filter_cons]

/-- A test of partitions keeps all files of a partition or none. -/
theorem filesIn_filter (keep : Partition.Key → Bool) :
    filesIn partition (files.filter fun file => keep file.partition) =
      if keep partition then filesIn partition files else [] := by
  unfold filesIn
  rw [List.filter_filter]
  split
  · rename_i h
    refine List.filter_congr fun file _ => ?_
    by_cases hp : file.partition = partition <;> simp [hp, h]
  · rename_i h
    refine List.filter_eq_nil_iff.2 fun file _ => ?_
    by_cases hp : file.partition = partition <;> simp [hp, h]

end

/-- A change file is absorbed exactly when its transaction is not above the watermark. -/
theorem File.isAbsorbedBy_iff {file : File} {id : TransactionId} (h : file.transactionId = some id)
    {marks : Watermarks} {partition : Partition.Key} :
    file.isAbsorbedBy (marks.get? partition) = true ↔ (id.val : Int) ≤ marks.number partition := by
  unfold isAbsorbedBy Watermarks.number
  rw [h]
  cases marks.get? partition with
  | none =>
    have := id.positive
    simp only [Bool.false_eq_true, Watermarks.unset, false_iff]
    omega
  | some mark =>
    dsimp only
    rw [decide_eq_true_eq, Int.ofNat_le]
    rfl

namespace Scan

namespace PartitionTask

/-- The task of a partition with the given files. -/
def ofFiles (partition : Partition.Key) (files : List File) : PartitionTask where
  partition
  base := files.filter fun file => file.content = .data
  inserts := files.filter fun file => file.content = .insert
  deletes := files.filter fun file => file.content = .equalityDelete

variable {partition : Partition.Key} {files : List File} {file : File}

theorem push_ofFiles : (ofFiles partition files).push file = ofFiles partition (files ++ [file]) := by
  cases hcontent : file.content <;>
    simp [push, ofFiles, hcontent, List.filter_append]

/-- A task reads the files it was made of. -/
theorem mem_files_ofFiles_iff : file ∈ (ofFiles partition files).files ↔ file ∈ files := by
  cases hcontent : file.content <;> simp [PartitionTask.files, ofFiles, hcontent]

end PartitionTask

theorem get?_addFile (tasks : OrderedMap Partition.Key PartitionTask) (file : File)
    (partition : Partition.Key) :
    (addFile tasks file).get? partition =
      if partition = file.partition then
        some (((tasks.get? file.partition).getD (.empty file.partition)).push file)
      else tasks.get? partition :=
  OrderedMap.get?_upsert ..

/-- Grouping has a task exactly for the partitions with files, and it is the task of these files. -/
theorem get?_addFiles (files : List File) (partition : Partition.Key) :
    (files.foldl addFile OrderedMap.empty).get? partition =
      if filesIn partition files = [] then none
      else some (.ofFiles partition (filesIn partition files)) := by
  induction files using List.reverseRecOn with
  | nil => rfl
  | append_singleton files file ih =>
    rw [List.foldl_append, List.foldl_cons, List.foldl_nil, get?_addFile, filesIn_append,
      filesIn_singleton]
    by_cases hp : partition = file.partition
    · subst hp
      rw [if_pos rfl, if_pos rfl, if_neg (by simp), ih]
      split
      -- the first file of a partition starts its task
      · rename_i hnil
        have hpush : (PartitionTask.ofFiles file.partition []).push file =
            .ofFiles file.partition ([] ++ [file]) := PartitionTask.push_ofFiles
        rw [hnil, Option.getD_none]
        exact congrArg some hpush
      · rw [Option.getD_some, PartitionTask.push_ofFiles]
    · rw [if_neg hp, if_neg (Ne.symm hp), List.append_nil, ih]

/-- What is collected from all tasks is collected from the files. -/
theorem flatMap_addFiles {collect : PartitionTask → List File} {belongs : File → Bool}
    (hempty : ∀ partition, collect (.empty partition) = [])
    (hpush : ∀ task file, (collect (task.push file)).Perm (collect task ++ [file].filter belongs))
    (files : List File) :
    ((files.foldl addFile OrderedMap.empty).values.flatMap collect).Perm (files.filter belongs) := by
  induction files using List.reverseRecOn with
  | nil => exact .nil
  | append_singleton files file ih =>
    rw [List.foldl_append, List.foldl_cons, List.foldl_nil, List.filter_append]
    refine (OrderedMap.flatMap_values_upsert ?_ fun task => ?_).trans (ih.append_right _)
    · have hfirst := hpush (.empty file.partition) file
      rwa [hempty, List.nil_append] at hfirst
    · exact hpush task file

/-- The tasks of a plan are those of the partitions that are kept and have pending files. -/
theorem mem_partitionTasks_iff {keep : Partition.Key → Bool} {view : TableView}
    {task : PartitionTask} :
    task ∈ partitionTasks keep view ↔
      keep task.partition = true ∧ filesIn task.partition (pendingFiles view) ≠ [] ∧
        task = .ofFiles task.partition (filesIn task.partition (pendingFiles view)) := by
  unfold partitionTasks
  rw [OrderedMap.mem_values_iff]
  simp only [get?_addFiles, filesIn_filter]
  constructor
  · rintro ⟨partition, h⟩
    by_cases hkeep : keep partition = true
    · rw [if_pos hkeep] at h
      split at h
      · cases h
      · rename_i hne
        cases h
        exact ⟨hkeep, hne, rfl⟩
    · rw [if_neg hkeep] at h
      cases h
  · rintro ⟨hkeep, hne, htask⟩
    refine ⟨task.partition, ?_⟩
    rw [if_pos hkeep, if_neg hne, ← htask]

/-- A task of a plan has the pending files of its partition. -/
theorem mem_files_iff {keep : Partition.Key → Bool} {view : TableView} {task : PartitionTask}
    {file : File} (htask : task ∈ partitionTasks keep view) :
    file ∈ task.files ↔ file ∈ pendingFiles view ∧ file.partition = task.partition := by
  obtain ⟨-, -, heq⟩ := mem_partitionTasks_iff.1 htask
  rw [heq, PartitionTask.mem_files_ofFiles_iff, mem_filesIn_iff]
  rfl

/-- Views with the same pending files in each partition, in the same order, have the same tasks. -/
theorem partitionTasks_congr {keep : Partition.Key → Bool} {view other : TableView}
    (h : ∀ partition, filesIn partition (pendingFiles view) =
      filesIn partition (pendingFiles other)) :
    partitionTasks keep view = partitionTasks keep other := by
  unfold partitionTasks
  apply congrArg OrderedMap.values
  apply OrderedMap.ext_get?
  intro partition
  simp only [get?_addFiles, filesIn_filter, h]

/-- A pending file of a partition that is kept is read by the task of its partition. -/
theorem exists_task_of_mem_pendingFiles {keep : Partition.Key → Bool} {view : TableView}
    {file : File} (hfile : file ∈ pendingFiles view) (hkeep : keep file.partition = true) :
    ∃ task ∈ partitionTasks keep view, task.partition = file.partition ∧ file ∈ task.files := by
  have hmem : file ∈ filesIn file.partition (pendingFiles view) := mem_filesIn_iff.2 ⟨hfile, rfl⟩
  refine ⟨.ofFiles file.partition (filesIn file.partition (pendingFiles view)), ?_, rfl,
    PartitionTask.mem_files_ofFiles_iff.2 hmem⟩
  exact mem_partitionTasks_iff.2 ⟨hkeep, List.ne_nil_of_mem hmem, rfl⟩

/-- The tasks of a plan have exactly the pending files of the partitions that are kept. -/
theorem exists_task_iff {keep : Partition.Key → Bool} {view : TableView} {file : File} :
    (∃ task ∈ partitionTasks keep view, file ∈ task.files) ↔
      file ∈ pendingFiles view ∧ keep file.partition = true := by
  constructor
  · rintro ⟨task, htask, hfile⟩
    obtain ⟨hkeep, -⟩ := mem_partitionTasks_iff.1 htask
    obtain ⟨hpending, hpartition⟩ := (mem_files_iff htask).1 hfile
    rw [hpartition]
    exact ⟨hpending, hkeep⟩
  · rintro ⟨hpending, hkeep⟩
    obtain ⟨task, htask, -, hfile⟩ := exists_task_of_mem_pendingFiles hpending hkeep
    exact ⟨task, htask, hfile⟩

/-! ## Tasks and sides -/

/-- The change files of a task. -/
def PartitionTask.changes (task : PartitionTask) : List File := task.inserts ++ task.deletes

section

variable {keep : Partition.Key → Bool} {view : TableView}

theorem flatMap_base_partitionTasks :
    ((partitionTasks keep view).flatMap (·.base)).Perm
      (((pendingFiles view).filter fun file => keep file.partition).filter fun file =>
        file.side = .base) := by
  refine flatMap_addFiles (fun _ => rfl) (fun task file => ?_) _
  cases hcontent : file.content <;>
    simp [PartitionTask.push, hcontent, File.side, FileContent.side]

theorem flatMap_changes_partitionTasks :
    ((partitionTasks keep view).flatMap (·.changes)).Perm
      (((pendingFiles view).filter fun file => keep file.partition).filter fun file =>
        file.side = .change) := by
  refine flatMap_addFiles (fun _ => rfl) (fun task file => ?_) _
  cases hcontent : file.content with
  | insert =>
    -- an insert comes before the deletes that are there
    have hmoved : (task.inserts ++ file :: task.deletes).Perm
        (task.inserts ++ (task.deletes ++ [file])) :=
      (List.perm_append_singleton file task.deletes).symm.append_left _
    simpa [PartitionTask.push, PartitionTask.changes, hcontent, File.side, FileContent.side]
  | data | equalityDelete =>
    simp [PartitionTask.push, PartitionTask.changes, hcontent, File.side, FileContent.side]

end

end Scan

end MergeOnRead
