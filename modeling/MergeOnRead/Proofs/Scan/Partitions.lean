import MergeOnRead.Proofs.Scan.Coverage
import MergeOnRead.Proofs.Scan.Unfiltered

/-!
# The partitions of a plan

Grouping takes the base files of a view and then its change files, in whatever order files of several
partitions and contents stand. What it gives is told for each partition apart: there is one task for
each partition that is kept and has a pending file, in the order of their keys, and it has the files of
the partition, base files and those change files that are above the watermark, in the order of the view
and as often as the view has them.

Main statement: `eq_partitionTasks_iff`, grouping gives the only list of tasks with these properties.
-/

namespace MergeOnRead

section

variable {κ : Type} [Ord κ] [Std.TransOrd κ] {l r : List κ}

theorem nodup_of_ordered (h : l.Pairwise fun a b => compare a b = .lt) : l.Nodup :=
  h.imp fun hlt heq => by simp [heq] at hlt

/-- Lists in strictly increasing order with the same elements are equal. -/
theorem eq_of_ordered_of_mem_iff (hl : l.Pairwise fun a b => compare a b = .lt)
    (hr : r.Pairwise fun a b => compare a b = .lt) (h : ∀ a, a ∈ l ↔ a ∈ r) : l = r := by
  have hperm := (List.perm_ext_iff_of_nodup (nodup_of_ordered hl) (nodup_of_ordered hr)).2 h
  refine hperm.eq_of_pairwise ?_ hl hr
  intro a b _ _ hab hba
  rw [Std.OrientedCmp.gt_of_lt hab] at hba
  cases hba

end

theorem SideView.awaits_iff {base : SideView} {file : File} :
    base.awaits file = true ↔
      ∃ id, file.transactionId = some id ∧ base.watermarks.number file.partition < id.val := by
  unfold awaits
  cases file.transactionId <;> simp

namespace Scan

/-- The work that a view has in a partition: its base files, and the inserts and deletes above its
watermark, in the order of the view. -/
def taskIn (view : TableView) (partition : Partition.Key) : PartitionTask where
  partition
  base := filesIn partition view.base.files
  inserts := (filesIn partition view.change.files).filter fun file =>
    file.content = .insert && view.base.awaits file
  deletes := (filesIn partition view.change.files).filter fun file =>
    file.content = .equalityDelete && view.base.awaits file

/-- What grouping the files of a view gives. -/
structure Groups (keep : Partition.Key → Bool) (view : TableView) (tasks : List PartitionTask) :
    Prop where
  /-- Tasks come in the order of their partitions, no two of them with the same partition. -/
  ordered : (tasks.map (·.partition)).Pairwise fun p q => compare p q = .lt
  /-- There is a task for each partition that is kept and has a pending file. -/
  mem_iff : ∀ partition, partition ∈ tasks.map (·.partition) ↔
    keep partition = true ∧ ∃ file, view.Pending file ∧ file.partition = partition
  eq_taskIn : ∀ task ∈ tasks, task = taskIn view task.partition
  nonempty : ∀ task ∈ tasks, task.isEmpty = false
  inPartition : ∀ task ∈ tasks, ∀ file ∈ task.files, file.partition = task.partition
  /-- Taken together, the tasks have the pending files of the partitions that are kept. -/
  files : (tasks.flatMap (·.files)).Perm
    ((view.base.files ++ view.change.files.filter view.base.awaits).filter fun file =>
      keep file.partition)

section

variable {keep : Partition.Key → Bool} {view : TableView} {tasks : List PartitionTask}

/-- The task that grouping files has under a partition is the task of this partition. -/
theorem map_partition_addFiles (files : List File) :
    (files.foldl addFile OrderedMap.empty).values.map (·.partition) =
      (files.foldl addFile OrderedMap.empty).keys := by
  unfold OrderedMap.values OrderedMap.keys
  rw [List.map_map]
  refine List.map_congr_left fun entry hentry => ?_
  have hget : (files.foldl addFile OrderedMap.empty).get? entry.1 = some entry.2 :=
    OrderedMap.mem_toList_iff.1 hentry
  rw [get?_addFiles] at hget
  split at hget
  · cases hget
  · rw [Function.comp_apply, ← Option.some.inj hget]
    rfl

theorem ordered_partitionTasks :
    ((partitionTasks keep view).map (·.partition)).Pairwise fun p q => compare p q = .lt := by
  unfold partitionTasks
  rw [map_partition_addFiles]
  exact OrderedMap.keys_ordered _

theorem flatMap_files_partitionTasks :
    ((partitionTasks keep view).flatMap (·.files)).Perm
      ((pendingFiles view).filter fun file => keep file.partition) := by
  have hpush : ∀ (task : PartitionTask) (file : File),
      (task.push file).files.Perm (task.files ++ [file].filter fun _ => true) := by
    intro task file
    have hmoved (before after : List File) :
        (before ++ file :: after).Perm (before ++ (after ++ [file])) :=
      (List.perm_append_singleton file after).symm.append_left before
    -- a file is put behind the files of its content, before those of the contents that follow
    cases hcontent : file.content with
    | data =>
      simpa [PartitionTask.push, PartitionTask.files, hcontent]
        using hmoved task.base (task.inserts ++ task.deletes)
    | insert =>
      simpa [PartitionTask.push, PartitionTask.files, hcontent]
        using hmoved (task.base ++ task.inserts) task.deletes
    | equalityDelete => simp [PartitionTask.push, PartitionTask.files, hcontent]
  have h := @flatMap_addFiles (·.files) (fun _ => true) (fun _ => rfl) hpush
    ((pendingFiles view).filter fun file => keep file.partition)
  rwa [List.filter_true] at h

theorem mem_pendingFiles_iff (hchange : ∀ file ∈ view.change.files, file.side = .change)
    {file : File} : file ∈ pendingFiles view ↔ view.Pending file := by
  rw [pendingFiles_eq hchange, List.mem_append, List.mem_filter, SideView.awaits_iff]
  rfl

/-- No file of a side has a content of the other side. -/
theorem filter_content_eq_nil {files : List File} {side : Side} {content : FileContent}
    (hfiles : ∀ file ∈ files, file.side = side) (hother : content.side ≠ side) :
    files.filter (fun file => file.content = content) = [] := by
  refine List.filter_eq_nil_iff.2 fun file hfile heq => hother ?_
  rw [← of_decide_eq_true heq]
  exact hfiles file hfile

theorem filter_data_eq_self {files : List File} (hfiles : ∀ file ∈ files, file.side = .base) :
    files.filter (fun file => file.content = .data) = files := by
  refine List.filter_eq_self.2 fun file hfile => decide_eq_true ?_
  have hside := hfiles file hfile
  cases hcontent : file.content <;> simp [File.side, FileContent.side, hcontent] at hside ⊢

theorem filesIn_pendingFiles (hchange : ∀ file ∈ view.change.files, file.side = .change)
    (partition : Partition.Key) :
    filesIn partition (pendingFiles view) =
      filesIn partition view.base.files ++
        (filesIn partition view.change.files).filter view.base.awaits := by
  rw [pendingFiles_eq hchange, filesIn_append]
  unfold filesIn
  rw [List.filter_filter, List.filter_filter]
  exact congrArg (_ ++ ·) (List.filter_congr fun file _ => Bool.and_comm _ _)

theorem ofFiles_pendingFiles (hbase : ∀ file ∈ view.base.files, file.side = .base)
    (hchange : ∀ file ∈ view.change.files, file.side = .change) (partition : Partition.Key) :
    PartitionTask.ofFiles partition (filesIn partition (pendingFiles view)) =
      taskIn view partition := by
  have hbaseSide : ∀ file ∈ filesIn partition view.base.files, file.side = .base :=
    fun file hfile => hbase file (mem_filesIn_iff.1 hfile).1
  have hchangeSide : ∀ file ∈ (filesIn partition view.change.files).filter view.base.awaits,
      file.side = .change :=
    fun file hfile => hchange file (mem_filesIn_iff.1 (List.mem_filter.1 hfile).1).1
  have hdata := filter_content_eq_nil hchangeSide (show FileContent.data.side ≠ .change by decide)
  have hinsert := filter_content_eq_nil hbaseSide (show FileContent.insert.side ≠ .base by decide)
  have hdelete := filter_content_eq_nil hbaseSide
    (show FileContent.equalityDelete.side ≠ .base by decide)
  rw [filesIn_pendingFiles hchange]
  unfold PartitionTask.ofFiles taskIn
  rw [List.filter_append, filter_data_eq_self hbaseSide, hdata, List.append_nil,
    List.filter_append, hinsert, List.nil_append, List.filter_filter,
    List.filter_append, hdelete, List.nil_append, List.filter_filter]

/-- Grouping the files of a view whose files stand on their sides. -/
theorem groups_partitionTasks (hbase : ∀ file ∈ view.base.files, file.side = .base)
    (hchange : ∀ file ∈ view.change.files, file.side = .change) :
    Groups keep view (partitionTasks keep view) where
  ordered := ordered_partitionTasks
  mem_iff partition := by
    rw [List.mem_map]
    constructor
    · rintro ⟨task, htask, rfl⟩
      obtain ⟨hkeep, hfiles, -⟩ := mem_partitionTasks_iff.1 htask
      obtain ⟨file, hfile⟩ := List.exists_mem_of_ne_nil _ hfiles
      obtain ⟨hpending, hpartition⟩ := mem_filesIn_iff.1 hfile
      exact ⟨hkeep, file, (mem_pendingFiles_iff hchange).1 hpending, hpartition⟩
    · rintro ⟨hkeep, file, hpending, rfl⟩
      obtain ⟨task, htask, hpartition, -⟩ :=
        exists_task_of_mem_pendingFiles ((mem_pendingFiles_iff hchange).2 hpending) hkeep
      exact ⟨task, htask, hpartition⟩
  eq_taskIn task htask := by
    obtain ⟨-, -, heq⟩ := mem_partitionTasks_iff.1 htask
    rwa [ofFiles_pendingFiles hbase hchange] at heq
  nonempty task htask := by
    obtain ⟨-, hfiles, -⟩ := mem_partitionTasks_iff.1 htask
    obtain ⟨file, hfile⟩ := List.exists_mem_of_ne_nil _ hfiles
    rw [PartitionTask.isEmpty, List.isEmpty_eq_false_iff]
    exact List.ne_nil_of_mem ((mem_files_iff htask).2 (mem_filesIn_iff.1 hfile))
  inPartition task htask file hfile := ((mem_files_iff htask).1 hfile).2
  files := by
    rw [← pendingFiles_eq hchange]
    exact flatMap_files_partitionTasks

/-- The tasks are those that the view has in their partitions. -/
theorem Groups.eq_map (h : Groups keep view tasks) :
    tasks = (tasks.map (·.partition)).map (taskIn view) := by
  rw [List.map_map]
  calc tasks = tasks.map id := (List.map_id tasks).symm
    _ = tasks.map (taskIn view ∘ (·.partition)) := List.map_congr_left h.eq_taskIn

/-- Grouping the files of a view gives the only list of tasks with one task for each partition that may
match and has a pending file, in the order of the partitions and with exactly the files of each. -/
theorem eq_partitionTasks_iff {spec : Partition.Spec} {predicate : Option BoundPredicate}
    (hbase : ∀ file ∈ view.base.files, file.side = .base)
    (hchange : ∀ file ∈ view.change.files, file.side = .change) :
    tasks = partitionTasks (keeps spec predicate) view ↔ Groups (keeps spec predicate) view tasks := by
  have hgroups := @groups_partitionTasks (keeps spec predicate) view hbase hchange
  constructor
  · rintro rfl
    exact hgroups
  · intro h
    have hpartitions := eq_of_ordered_of_mem_iff h.ordered hgroups.ordered fun partition =>
      (h.mem_iff partition).trans (hgroups.mem_iff partition).symm
    rw [h.eq_map, hpartitions, ← hgroups.eq_map]

end

namespace Orders

/-- Of both days only the first may match, and its late orders are not folded into its base file. -/
theorem groups_firstDay :
    (∀ file ∈ view.base.files, file.side = .base) ∧
      (∀ file ∈ view.change.files, file.side = .change) ∧
      Groups (keeps metadata.spec (some (.compare ⟨1, ⟨"day", .int32⟩⟩ .eq (.int32 1)))) view
        [⟨[.int32 1], [.base "day-1" [.int32 1] 10 1], [lateOrders], []⟩] :=
  ⟨by decide, by decide, (eq_partitionTasks_iff (by decide) (by decide)).1 (by rfl)⟩

end Orders

end Scan

end MergeOnRead
