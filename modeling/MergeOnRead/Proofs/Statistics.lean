import MergeOnRead.Proofs.Store.Accounting
import MergeOnRead.Statistics

/-!
# The totals in statistics

A commit writes the totals of a side as unsigned 64-bit numbers, but statistics read them as signed
ones. Totals below `2 ^ 63` are those of the live files. A total from there on does not read and is
reported as zero, though the commit was accepted and the total is a 64-bit number like the others.

Main statement: `Reachable.collect_totals`.
-/

namespace MergeOnRead

open FileMeasure

/-- A total as statistics report it. -/
def Statistics.reported (n : Nat) : Nat := if n < 0x8000000000000000 then n else 0

namespace Statistics

theorem toNat_total {snapshot : Snapshot} {key : String} {n : Nat}
    (h : snapshot.summary.get? key = some (toString n)) :
    (total snapshot key).toNat = reported n := by
  rw [total, Properties.number, h, Option.bind_some, Text.readInteger?_repr, reported]
  split
  · rename_i hn
    have hword : n < UInt64.size := Nat.lt_trans hn (by decide)
    rw [Option.getD_some, Int.toNat_natCast, UInt64.toNat_ofNat_of_lt' hword]
  · rfl

/-- The entries of statistics do not hide one another. -/
theorem get?_averageSizeKey {count visible first average : String} {detail : SnapshotDetail} :
    (OrderedMap.ofList
      ([(snapshotCountKey, count), (visibleTimeKey, visible), (firstCommitTimeKey, first),
          (averageSizeKey, average)] ++ detail.entries)).get? averageSizeKey = some average := by
  refine OrderedMap.get?_foldl_insert_of_mem ?_ (by simp)
  have hkeys : ([(snapshotCountKey, count), (visibleTimeKey, visible), (firstCommitTimeKey, first),
      (averageSizeKey, average)] ++ detail.entries).map (·.1) =
      [snapshotCountKey, visibleTimeKey, firstCommitTimeKey, averageSizeKey] ++
        SnapshotDetail.none.entries.map (·.1) := rfl
  rw [hkeys]
  decide

/-- Statistics hold all details of the current snapshot. -/
theorem get?_ofHistory_of_mem {table : TableId} {snapshots : List Snapshot} {current : Snapshot}
    (hcurrent : snapshots.getLast? = some current) {key value : String}
    (h : (key, value) ∈ (SnapshotDetail.ofSnapshot current).entries) :
    (ofHistory table snapshots).summary.get? key = some value := by
  obtain ⟨first, hfirst⟩ : ∃ first, snapshots.head? = some first := by
    cases snapshots with
    | nil => cases hcurrent
    | cons first _ => exact ⟨first, rfl⟩
  rw [ofHistory, hfirst, hcurrent]
  refine OrderedMap.get?_foldl_insert_of_mem ?_ (List.mem_append_right _ h)
  show ([snapshotCountKey, visibleTimeKey, firstCommitTimeKey, averageSizeKey] ++
    SnapshotDetail.none.entries.map (·.1)).Nodup
  decide

/-- The statistics of a side that can be reached are those of its history. -/
theorem collect_of_reach {s : Store} {side : Side} {state : SideState}
    (hstate : s.reach side = .ok state) (table : TableId) :
    collect table s.source side =
      .now (.ok (ofHistory table (state.history.map (·.snapshot)))) := by
  have hpresent : s.hasSide side = true := by
    rw [Store.hasSide, (Store.reach_eq_ok_iff.1 hstate).1]
    rfl
  have hsnapshots : s.snapshots side = .ok (state.history.map (·.snapshot)) := by
    rw [Store.snapshots, hstate]
    rfl
  have hread : read table s.source side =
      .now (.ok (some (ofHistory table (state.history.map (·.snapshot))))) := by
    rw [read, Store.source_hasSide, Reply.now_andThen, if_pos hpresent, Store.source_snapshots,
      hsnapshots, Reply.now_andThen]
  rw [collect, hread]
  rfl

/-- The statistics of a history whose versions record their totals. -/
theorem ofHistory_totals {table : TableId} {state : SideState} (hne : state.history ≠ [])
    (h : ∀ version ∈ state.history, version.RecordsTotals) :
    let statistics := ofHistory table (state.history.map (·.snapshot))
    statistics.totals.files.toNat = reported state.view.files.length ∧
      statistics.totals.size.toNat = reported (totalSize state.view.files) ∧
      statistics.summary.get? averageSizeKey =
        some (toString (reported (totalSize state.view.files) / state.history.length)) := by
  obtain ⟨first, hfirst⟩ : ∃ first, state.history.head? = some first :=
    ⟨_, List.head?_eq_some_head hne⟩
  obtain ⟨last, hlast⟩ : ∃ last, state.history.getLast? = some last :=
    ⟨_, List.getLast?_eq_some_getLast hne⟩
  have hview : state.view.files = last.files := by
    rw [SideState.view, SideState.current, hlast]
  have hrecords := h last (List.mem_of_getLast? hlast)
  have hfiles : (total last.snapshot SummaryKey.totalFiles).toNat = reported last.files.length := by
    rw [← count_files]
    exact toNat_total (hrecords.total .files)
  have hsize : (total last.snapshot SummaryKey.totalSize).toNat = reported (totalSize last.files) := by
    rw [← count_size]
    exact toNat_total (hrecords.total .size)
  unfold ofHistory
  rw [List.head?_map, List.getLast?_map, hfirst, hlast, hview]
  refine ⟨hfiles, hsize, get?_averageSizeKey.trans ?_⟩
  rw [hsize, List.length_map]

end Statistics

open Store in
/-- What statistics report of a side that can be reached and has a snapshot: the totals of its live
files, as far as they are signed 64-bit numbers. -/
theorem Store.Reachable.collect_totals {s : Store} (h : s.Reachable) {side : Side} {state : SideState}
    (hstate : s.reach side = .ok state) (hne : state.history ≠ []) (table : TableId) :
    ∃ statistics, Statistics.collect table s.source side = .now (.ok statistics) ∧
      statistics.totals.files.toNat = Statistics.reported state.view.files.length ∧
      statistics.totals.size.toNat = Statistics.reported (totalSize state.view.files) ∧
      statistics.summary.get? Statistics.averageSizeKey =
        some (toString (Statistics.reported (totalSize state.view.files) / state.history.length)) := by
  obtain ⟨hside, -⟩ := reach_eq_ok_iff.1 hstate
  exact ⟨_, Statistics.collect_of_reach hstate table,
    Statistics.ofHistory_totals hne (h.recordsTotals side state hside)⟩

/-! ## A side that is reported empty -/

namespace Statistics.HalfRange

def table : TableId := ⟨"lake", "shop", "orders"⟩

def file : File := .base "half" [.int32 1] 0x8000000000000000 1

def append : Transaction :=
  { Transaction.start .base none OrderedMap.empty with changes := [.append [file]] }

def store : Store :=
  (((Store.withSides [.base]).commit 100 append).toOption.map (·.2)).getD (Store.withSides [])

def state : SideState := store.base.getD SideState.created

theorem reachable_store : store.Reachable := by
  have hcommit : (Store.withSides [.base]).commit 100 append = .ok (_, store) := rfl
  exact .commit (.create [.base]) rfl (by decide) hcommit

/-- A file of `2 ^ 63` bytes is counted, but its bytes are not. -/
theorem collect_totals_store :
    ∃ statistics, Statistics.collect table store.source .base = .now (.ok statistics) ∧
      statistics.totals.files.toNat = 1 ∧ statistics.totals.size.toNat = 0 ∧
      totalSize state.view.files = 0x8000000000000000 := by
  have hstate : store.reach .base = .ok state := rfl
  obtain ⟨statistics, hcollect, hfiles, hsize, -⟩ :=
    reachable_store.collect_totals hstate (by decide) table
  exact ⟨statistics, hcollect, hfiles, hsize, rfl⟩

end Statistics.HalfRange

end MergeOnRead
