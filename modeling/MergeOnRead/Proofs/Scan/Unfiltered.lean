import MergeOnRead.Proofs.Scan.Grouping

/-!
# Plans without filters

A plan without filters reads every file of the base view and every change file that is above the
watermark which the base view has for its partition, as many times as the views have it. Nothing else
is read, and each task reads one partition.

Main statement: `Plan.combines_ofView`.
-/

namespace MergeOnRead

/-- Whether a change file is above the watermark that a base view has for its partition. -/
def SideView.awaits (base : SideView) (file : File) : Bool :=
  match file.transactionId with
  | none => false
  | some id => base.watermarks.number file.partition < id.val

theorem SideView.not_isAbsorbedBy (base : SideView) {file : File} (h : file.side = .change) :
    (!file.isAbsorbedBy (base.watermarks.get? file.partition)) = base.awaits file := by
  obtain ⟨id, hid⟩ := Option.isSome_iff_exists.1 (file.transactionId_isSome.2 h)
  rw [awaits, hid, Bool.eq_iff_iff, Bool.not_eq_true', ← Bool.not_eq_true, File.isAbsorbedBy_iff hid,
    Int.not_le, decide_eq_true_eq]

namespace Scan

section

variable {view : TableView}

/-- The pending change files are those above the watermarks of the base side. -/
theorem pendingFiles_eq (hchange : ∀ file ∈ view.change.files, file.side = .change) :
    pendingFiles view = view.base.files ++ view.change.files.filter view.base.awaits := by
  unfold pendingFiles
  refine congrArg (view.base.files ++ ·) (List.filter_congr fun file hfile => ?_)
  exact view.base.not_isAbsorbedBy (hchange file hfile)

theorem base_pendingFiles (hbase : ∀ file ∈ view.base.files, file.side = .base)
    (hchange : ∀ file ∈ view.change.files, file.side = .change) :
    (pendingFiles view).filter (fun file => file.side = .base) = view.base.files := by
  rw [pendingFiles_eq hchange, List.filter_append, List.filter_eq_self.2, List.filter_eq_nil_iff.2,
    List.append_nil]
  · intro file hfile
    simp [hchange file (List.mem_filter.1 hfile).1]
  · intro file hfile
    exact decide_eq_true (hbase file hfile)

theorem change_pendingFiles (hbase : ∀ file ∈ view.base.files, file.side = .base)
    (hchange : ∀ file ∈ view.change.files, file.side = .change) :
    (pendingFiles view).filter (fun file => file.side = .change) =
      view.change.files.filter view.base.awaits := by
  rw [pendingFiles_eq hchange, List.filter_append, List.filter_eq_nil_iff.2, List.filter_eq_self.2,
    List.nil_append]
  · intro file hfile
    exact decide_eq_true (hchange file (List.mem_filter.1 hfile).1)
  · intro file hfile
    simp [hbase file hfile]

end

namespace Plan

/-- A plan combines a view of the base side with one of the change side: it has all files of the first,
and those of the second that are above the watermarks of the first. -/
structure Combines (plan : Plan) (base change : SideView) : Prop where
  baseSnapshot : plan.baseSnapshot = base.snapshotId
  changeSnapshot : plan.changeSnapshot = change.snapshotId
  baseFiles : (plan.partitions.flatMap (·.base)).Perm base.files
  changeFiles : (plan.partitions.flatMap (·.changes)).Perm (change.files.filter base.awaits)
  inPartition : ∀ task ∈ plan.partitions, ∀ file ∈ task.files, file.partition = task.partition

variable {metadata : Metadata} {options : Options}

theorem filter_keeps_none (files : List File) :
    (files.filter fun file => keeps metadata.spec none file.partition) = files :=
  List.filter_eq_self.2 fun _ _ => rfl

/-- Without filters no partition is left out. -/
theorem combines_ofView {view : TableView}
    (hbase : ∀ file ∈ view.base.files, file.side = .base)
    (hchange : ∀ file ∈ view.change.files, file.side = .change) :
    (ofView metadata options [] view).Combines view.base view.change where
  baseSnapshot := rfl
  changeSnapshot := rfl
  baseFiles := by
    have h := @flatMap_base_partitionTasks (keeps metadata.spec none) view
    rwa [filter_keeps_none, base_pendingFiles hbase hchange] at h
  changeFiles := by
    have h := @flatMap_changes_partitionTasks (keeps metadata.spec none) view
    rwa [filter_keeps_none, change_pendingFiles hbase hchange] at h
  inPartition task htask file hfile := ((mem_files_iff htask).1 hfile).2

theorem make_unfiltered {source : Source} {view : TableView}
    (h : source.tableView options.ioTimeout = .now (.ok view)) :
    make metadata source options [] = .now (.ok (ofView metadata options [] view)) := by
  have hpushed : pushDown metadata.schema options.caseSensitive [] = .ok [] := by
    rw [pushDown, Predicate.conjunctsList, bindTerms]
  rw [make, hpushed]
  dsimp only
  rw [h, Reply.now_andThen]

end Plan

end Scan

end MergeOnRead
