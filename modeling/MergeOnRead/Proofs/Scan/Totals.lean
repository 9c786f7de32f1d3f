import MergeOnRead.Proofs.Saturating
import MergeOnRead.Proofs.Scan.Packing

/-!
# Totals do not depend on grouping

Bytes and records are summed up over the files of a partition, over the partitions of a combined task and
over those of a plan, and each of these sums stops at the top of the range. Still each of them is the
exact sum over the files it stands for, or the top if that is less (`Volume.Measures`), so it tells
nothing of how the files were grouped on the way.

Main statement: `totals_of_any_grouping`.
-/

namespace MergeOnRead.Scan

/-- The exact sum of a number that is known of files. -/
def exactTotal (number : File → UInt64) (files : List File) : Nat :=
  (files.map fun file => (number file).toNat).sum

/-- All files that a plan reads. -/
def Plan.files (plan : Plan) : List File := plan.partitions.flatMap (·.files)

namespace Volume

/-- The volume is that of files: the exact number of their bytes and of their records, or the largest
number in 64 bits if that is less. -/
structure Measures (volume : Volume) (files : List File) : Prop where
  size : volume.size.toNat = min (2 ^ 64 - 1) (exactTotal (·.size) files)
  rows : volume.rows.toNat = min (2 ^ 64 - 1) (exactTotal (·.records) files)

/-- The sum of volumes, at most the top of the range. -/
def total (volumes : List Volume) : Volume where
  size := Saturating.sum (volumes.map (·.size))
  rows := Saturating.sum (volumes.map (·.rows))

end Volume

def PartitionTask.volume (task : PartitionTask) : Volume := ⟨task.cost, task.recordCount⟩

def CombinedTask.volume (task : CombinedTask) : Volume := ⟨task.cost, task.recordCount⟩

section

variable {number : File → UInt64} {files : List File}

theorem exactTotal_perm {others : List File} (h : files.Perm others) :
    exactTotal number files = exactTotal number others := by
  unfold exactTotal
  exact (h.map _).sum_eq

theorem exactTotal_flatMap {γ : Type} (groups : List γ) (filesOf : γ → List File) :
    exactTotal number (groups.flatMap filesOf) =
      (groups.map fun g => exactTotal number (filesOf g)).sum := by
  induction groups with
  | nil => rfl
  | cons g groups ih =>
    have happend : exactTotal number (filesOf g ++ groups.flatMap filesOf) =
        exactTotal number (filesOf g) + exactTotal number (groups.flatMap filesOf) := by
      simp [exactTotal]
    rw [List.flatMap_cons, happend, ih, List.map_cons, List.sum_cons]

theorem toNat_sum_files (number : File → UInt64) (files : List File) :
    (Saturating.sum (files.map number)).toNat =
      min (2 ^ 64 - 1) (exactTotal number files) := by
  rw [Saturating.toNat_sum, Saturating.exactSum_eq_sum, List.map_map, Nat.min_comm]
  rfl

/-- A sum over groups whose parts are those of their files is that of all files. -/
theorem toNat_sum_parts {γ : Type} {part : γ → UInt64} {filesOf : γ → List File} {groups : List γ}
    (h : ∀ g ∈ groups, (part g).toNat = min (2 ^ 64 - 1) (exactTotal number (filesOf g))) :
    (Saturating.sum (groups.map part)).toNat =
      min (2 ^ 64 - 1) (exactTotal number (groups.flatMap filesOf)) := by
  rw [exactTotal_flatMap, Nat.min_comm]
  apply Saturating.toNat_sum_of_groups
  intro g hg
  rw [h g hg, Nat.min_comm]
  rfl

end

namespace Volume

variable {files : List File} {volume other : Volume}

/-- Files have one volume. -/
theorem Measures.unique (h : volume.Measures files) (hother : other.Measures files) :
    volume = other := by
  obtain ⟨size, rows⟩ := volume
  obtain ⟨size', rows'⟩ := other
  obtain rfl : size = size' := UInt64.toNat_inj.1 (h.size.trans hother.size.symm)
  obtain rfl : rows = rows' := UInt64.toNat_inj.1 (h.rows.trans hother.rows.symm)
  rfl

theorem Measures.perm {others : List File} (h : volume.Measures files) (hperm : files.Perm others) :
    volume.Measures others := by
  constructor
  · rw [h.size, exactTotal_perm hperm]
  · rw [h.rows, exactTotal_perm hperm]

/-- The sum of the volumes of groups of files is the volume of all files. -/
theorem measures_total {γ : Type} {groups : List γ} {volumeOf : γ → Volume}
    {filesOf : γ → List File} (h : ∀ g ∈ groups, (volumeOf g).Measures (filesOf g)) :
    (total (groups.map volumeOf)).Measures (groups.flatMap filesOf) := by
  unfold total
  rw [List.map_map, List.map_map]
  exact ⟨toNat_sum_parts fun g hg => (h g hg).size, toNat_sum_parts fun g hg => (h g hg).rows⟩

end Volume

theorem PartitionTask.measures_volume (task : PartitionTask) : task.volume.Measures task.files :=
  ⟨toNat_sum_files _ _, toNat_sum_files _ _⟩

theorem CombinedTask.measures_volume (task : CombinedTask) : task.volume.Measures task.files := by
  have hvolume : task.volume = Volume.total (task.tasks.map (·.volume)) := by
    simp [volume, Volume.total, cost, recordCount, Function.comp_def, PartitionTask.volume]
  rw [hvolume]
  exact Volume.measures_total fun partition _ => partition.measures_volume

namespace Plan

variable (plan : Plan)

theorem measures_volume : plan.volume.Measures plan.files := by
  have hvolume : plan.volume = Volume.total (plan.partitions.map (·.volume)) := by
    simp [volume, Volume.total, Function.comp_def, PartitionTask.volume]
  rw [hvolume]
  exact Volume.measures_total fun task _ => task.measures_volume

/-- The combined tasks have the files of the plan, each as often as the plan. -/
theorem flatMap_files_tasks : (plan.tasks.flatMap (·.files)).Perm plan.files := by
  have hpacked := (@Packing.flatten_pack _ plan.options.targetSize plan.options.lookback.toNat
    (weight plan.options) plan.partitions).flatMap_right (·.files)
  have htasks : plan.tasks.flatMap (·.files) =
      (Packing.pack plan.options.targetSize plan.options.lookback.toNat (weight plan.options)
        plan.partitions).flatten.flatMap (·.files) := by
    rw [tasks, List.flatMap_map, List.flatten_eq_flatMap, List.flatMap_assoc]
    rfl
  rw [htasks]
  exact hpacked

/-- However the partitions are packed, the combined tasks sum up to the volume of the plan. -/
theorem total_volume_tasks : Volume.total (plan.tasks.map (·.volume)) = plan.volume := by
  have htotal : (Volume.total (plan.tasks.map (·.volume))).Measures
      (plan.tasks.flatMap (·.files)) :=
    Volume.measures_total fun task _ => task.measures_volume
  exact (htotal.perm plan.flatMap_files_tasks).unique plan.measures_volume

end Plan

/-- With any options the combined tasks of a plan sum up to its volume, and this is the volume of all
files it reads, over a view those that are pending in the partitions it keeps. Each combined task and
each partition task has the volume of its own files. -/
theorem totals_of_any_grouping (plan : Plan) (options : Options) :
    Volume.total (({ plan with options } : Plan).tasks.map (·.volume)) = plan.volume ∧
      plan.volume.Measures plan.files ∧
      (∀ (metadata : Metadata) (pushed : PushedTerms) (view : TableView),
        (Plan.ofView metadata options pushed view).volume.Measures
          ((pendingFiles view).filter fun file =>
            keeps metadata.spec (pruningPredicate? (pushed.map (·.2))) file.partition)) ∧
      (∀ task : CombinedTask, task.volume.Measures task.files) ∧
      ∀ task : PartitionTask, task.volume.Measures task.files := by
  refine ⟨Plan.total_volume_tasks _, plan.measures_volume, ?_, CombinedTask.measures_volume,
    PartitionTask.measures_volume⟩
  intro metadata pushed view
  exact (Plan.measures_volume _).perm flatMap_files_partitionTasks

end MergeOnRead.Scan
