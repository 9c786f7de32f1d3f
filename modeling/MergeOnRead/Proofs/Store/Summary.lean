import Mathlib.Algebra.BigOperators.Group.List.Basic
import Mathlib.Algebra.GroupWithZero.Nat
import Mathlib.Data.List.Nodup
import MergeOnRead.Store.Commit

/-!
# What the summary of a commit counts

A summary counts three measures of the live, the added and the removed files: how many they are, their
bytes and their records. Totals are written whatever they are, the other counters only when they are
not zero, so a counter that is absent is read as zero.

Main statements: `balanced_applyAll`, no file is lost or counted twice on the way through the staged
changes, and `counter_added`, `counter_removed` and `get?_ofCommit_total`, what a summary says of the
three lists.
-/

namespace MergeOnRead

/-! ## Measures -/

/-- What is counted of a list of files. -/
inductive FileMeasure where
  | files
  | size
  | records
deriving DecidableEq, Repr

namespace FileMeasure

/-- What one file counts for. -/
def weight : FileMeasure → File → Nat
  | files, _ => 1
  | size, file => file.size.toNat
  | records, file => file.records.toNat

def count (m : FileMeasure) (files : List File) : Nat := (files.map m.weight).sum

def totalKey : FileMeasure → String
  | files => SummaryKey.totalFiles
  | size => SummaryKey.totalSize
  | records => SummaryKey.totalRecords

def addedKey : FileMeasure → String
  | files => SummaryKey.addedFiles
  | size => SummaryKey.addedSize
  | records => SummaryKey.addedRecords

def removedKey : FileMeasure → String
  | files => SummaryKey.removedFiles
  | size => SummaryKey.removedSize
  | records => SummaryKey.removedRecords

/-- All measures, in the order in which a summary is written. -/
def all : List FileMeasure := [files, size, records]

theorem mem_all (m : FileMeasure) : m ∈ all := by cases m <;> decide

variable (m : FileMeasure)

@[simp] theorem count_cons (file : File) (l : List File) :
    m.count (file :: l) = m.weight file + m.count l := by
  rw [count, List.map_cons, List.sum_cons, count]

@[simp] theorem count_append (l r : List File) : m.count (l ++ r) = m.count l + m.count r := by
  rw [count, List.map_append, List.sum_append, count, count]

/-- Splitting a list of files in two loses nothing. -/
theorem count_filter_add_count_filter_not (p : File → Bool) (l : List File) :
    m.count (l.filter p) + m.count (l.filter fun file => !p file) = m.count l := by
  induction l with
  | nil => rfl
  | cons file l ih =>
    rw [List.filter_cons, List.filter_cons, count_cons, ← ih]
    cases p file <;> simp <;> omega

theorem count_files (l : List File) : files.count l = l.length := by
  induction l with
  | nil => rfl
  | cons file l ih =>
    rw [count_cons, ih, List.length_cons, Nat.add_comm]
    rfl

theorem count_size (l : List File) : size.count l = MergeOnRead.totalSize l := by
  induction l with
  | nil => rfl
  | cons file l ih =>
    rw [count_cons, ih]
    rfl

theorem count_records (l : List File) : records.count l = MergeOnRead.totalRecords l := by
  induction l with
  | nil => rfl
  | cons file l ih =>
    rw [count_cons, ih]
    rfl

end FileMeasure

/-! ## Changes of files -/

namespace FileDelta

/-- Each file that was live before or was added is live now or was removed, by every measure. -/
def Balanced (live : List File) (delta : FileDelta) : Prop :=
  ∀ m : FileMeasure, m.count live + m.count delta.added = m.count delta.live + m.count delta.removed

theorem Balanced.apply {live : List File} {delta : FileDelta} (h : Balanced live delta)
    (change : StagedChange) : Balanced live (delta.apply change) := by
  intro m
  have hm := h m
  cases change with
  | append files =>
    change m.count live + m.count (delta.added ++ files) =
      m.count (delta.live ++ files) + m.count delta.removed
    rw [m.count_append, m.count_append]
    omega
  | replace files =>
    have hsplit := m.count_filter_add_count_filter_not (touches files) delta.live
    change m.count live + m.count (delta.added ++ files) =
      m.count (delta.live.filter (fun file => !touches files file) ++ files) +
        m.count (delta.removed ++ delta.live.filter (touches files))
    rw [m.count_append, m.count_append, m.count_append]
    omega

theorem balanced_applyAll (live : List File) (changes : List StagedChange) :
    Balanced live (applyAll live changes) := by
  have hfold : ∀ delta, Balanced live delta → Balanced live (changes.foldl apply delta) := by
    induction changes with
    | nil => exact fun _ h => h
    | cons change changes ih => exact fun _ h => ih _ (h.apply change)
  exact hfold _ fun _ => rfl

/-- All sums of a change of files are 64-bit numbers. -/
structure Fits (delta : FileDelta) : Prop where
  live : ∀ m : FileMeasure, m.count delta.live < UInt64.size
  added : ∀ m : FileMeasure, m.count delta.added < UInt64.size
  removed : ∀ m : FileMeasure, m.count delta.removed < UInt64.size

theorem fits_iff {delta : FileDelta} : delta.Fits ↔ ∀ m ∈ FileMeasure.all,
    m.count delta.live < UInt64.size ∧ m.count delta.added < UInt64.size ∧
      m.count delta.removed < UInt64.size := by
  constructor
  · exact fun h m _ => ⟨h.live m, h.added m, h.removed m⟩
  · exact fun h => ⟨fun m => (h m m.mem_all).1, fun m => (h m m.mem_all).2.1,
      fun m => (h m m.mem_all).2.2⟩

instance (delta : FileDelta) : Decidable delta.Fits := decidable_of_iff _ fits_iff.symm

end FileDelta

/-! ## Summaries -/

/-- The number under a counter of a summary. A counter that is absent counts as zero. -/
def Properties.counter (properties : Properties) (key : String) : Nat :=
  (((properties.get? key).bind Text.readWord?).map UInt64.toNat).getD 0

theorem Properties.counter_eq {properties : Properties} {key : String} {n : Nat}
    (h : properties.get? key = some (toString n)) (hn : n < UInt64.size) :
    properties.counter key = n := by
  rw [counter, h, Option.bind_some, Text.readWord?_repr hn, Option.map_some, Option.getD_some,
    UInt64.toNat_ofNat_of_lt' hn]

theorem Properties.counter_eq_zero {properties : Properties} {key : String}
    (h : properties.get? key = none) : properties.counter key = 0 := by
  rw [counter, h]
  rfl

namespace Summary

open FileMeasure

variable {extra : Properties} {operation : Operation} {delta : FileDelta} {m : FileMeasure}

theorem changeCounters_eq (delta : FileDelta) :
    changeCounters delta = all.map (fun m => (m.addedKey, m.count delta.added)) ++
      all.map (fun m => (m.removedKey, m.count delta.removed)) := by
  simp only [changeCounters, all, List.map_cons, List.map_nil, List.cons_append, List.nil_append,
    count_files, count_size, count_records, addedKey, removedKey]

theorem totalCounters_eq (delta : FileDelta) :
    totalCounters delta = all.map fun m => (m.totalKey, m.count delta.live) := by
  simp only [totalCounters, all, List.map_cons, List.map_nil, count_files, count_size, count_records,
    totalKey]

/-- The counters that a commit writes, as they stand in its summary. -/
def counterEntries (delta : FileDelta) : List (String × String) :=
  (counters delta).map fun counter => (counter.1, toString counter.2)

theorem ofCommit_eq : ofCommit extra operation delta =
    (counterEntries delta).foldl (fun acc entry => acc.insert entry.1 entry.2)
      (extra.insert SummaryKey.operation operation.text) := by
  rw [counterEntries, List.foldl_map]
  rfl

theorem keys_counterEntries : (counterEntries delta).map (·.1) = (counters delta).map (·.1) := by
  rw [counterEntries, List.map_map]
  rfl

/-- The keys of all counters that a commit may write. -/
def counterKeys : List String :=
  all.map addedKey ++ all.map removedKey ++ all.map totalKey

theorem counterKeys_nodup : counterKeys.Nodup := by decide

theorem operation_not_mem_counterKeys : SummaryKey.operation ∉ counterKeys := by decide

theorem counterKeys_eq (delta : FileDelta) :
    counterKeys = (changeCounters delta).map (·.1) ++ (totalCounters delta).map (·.1) := rfl

theorem keys_counters_sublist (delta : FileDelta) :
    ((counters delta).map (·.1)).Sublist counterKeys := by
  rw [counterKeys_eq delta, ← List.map_append, counters]
  exact (List.filter_sublist.append_right _).map _

theorem keys_counters_nodup (delta : FileDelta) : ((counters delta).map (·.1)).Nodup :=
  counterKeys_nodup.sublist (keys_counters_sublist delta)

/-- A counter of a change that is zero is not written. -/
theorem not_mem_counters {key : String} (h : (key, 0) ∈ changeCounters delta) :
    key ∉ (counters delta).map (·.1) := by
  have hnodup := counterKeys_nodup
  rw [counterKeys_eq delta] at hnodup
  intro hkey
  obtain ⟨written, hwritten, rfl⟩ := List.mem_map.1 hkey
  rcases List.mem_append.1 hwritten with hchange | htotal
  · obtain ⟨hchange, hne⟩ := List.mem_filter.1 hchange
    have heq := List.inj_on_of_nodup_map (List.Nodup.of_append_left hnodup) hchange h rfl
    rw [heq] at hne
    cases hne
  · have hkey : written.1 ∈ (changeCounters delta).map (·.1) :=
      List.mem_map.2 ⟨_, h, rfl⟩
    exact List.disjoint_of_nodup_append hnodup hkey (List.mem_map_of_mem htotal)

theorem get?_ofCommit_of_mem {key : String} {n : Nat} (h : (key, n) ∈ counters delta) :
    (ofCommit extra operation delta).get? key = some (toString n) := by
  rw [ofCommit_eq]
  refine OrderedMap.get?_foldl_insert_of_mem ?_ (List.mem_map.2 ⟨_, h, rfl⟩)
  rw [keys_counterEntries]
  exact keys_counters_nodup delta

theorem get?_ofCommit_of_not_mem {key : String} (h : key ∉ (counters delta).map (·.1)) :
    (ofCommit extra operation delta).get? key =
      if key = SummaryKey.operation then some operation.text else extra.get? key := by
  rw [ofCommit_eq, OrderedMap.get?_foldl_insert_of_not_mem (keys_counterEntries ▸ h),
    OrderedMap.get?_insert]

/-- The totals are those of the live files. -/
theorem get?_ofCommit_total (m : FileMeasure) :
    (ofCommit extra operation delta).get? m.totalKey = some (toString (m.count delta.live)) := by
  refine get?_ofCommit_of_mem (List.mem_append_right _ ?_)
  rw [totalCounters_eq]
  exact List.mem_map_of_mem (mem_all m)

theorem get?_ofCommit_operation :
    (ofCommit extra operation delta).get? SummaryKey.operation = some operation.text := by
  rw [get?_ofCommit_of_not_mem fun h =>
    operation_not_mem_counterKeys ((keys_counters_sublist delta).subset h), if_pos rfl]

/-- Under the key of a counter that is zero stands what the writer put there. -/
theorem get?_ofCommit_of_zero {key : String} (h : (key, 0) ∈ changeCounters delta) :
    (ofCommit extra operation delta).get? key = extra.get? key := by
  have hoperation : key ≠ SummaryKey.operation := by
    rintro rfl
    refine operation_not_mem_counterKeys ?_
    rw [counterKeys_eq delta]
    exact List.mem_append_left _ (List.mem_map_of_mem h)
  rw [get?_ofCommit_of_not_mem (not_mem_counters h), if_neg hoperation]

theorem get?_ofCommit_of_ne_zero {key : String} {n : Nat} (h : (key, n) ∈ changeCounters delta)
    (hn : n ≠ 0) : (ofCommit extra operation delta).get? key = some (toString n) :=
  get?_ofCommit_of_mem (List.mem_append_left _ (List.mem_filter.2 ⟨h, decide_eq_true hn⟩))

/-- A counter of a change is read as what it counts, unless the writer put an entry in its place. -/
theorem counter_ofCommit {key : String} {n : Nat} (hmem : (key, n) ∈ changeCounters delta)
    (hn : n < UInt64.size) (hextra : extra.get? key = none) :
    (ofCommit extra operation delta).counter key = n := by
  by_cases hzero : n = 0
  · subst hzero
    exact Properties.counter_eq_zero ((get?_ofCommit_of_zero hmem).trans hextra)
  · exact Properties.counter_eq (get?_ofCommit_of_ne_zero hmem hzero) hn

theorem counter_added (hfits : delta.Fits) (hextra : extra.get? m.addedKey = none) :
    (ofCommit extra operation delta).counter m.addedKey = m.count delta.added := by
  refine counter_ofCommit ?_ (hfits.added m) hextra
  rw [changeCounters_eq]
  exact List.mem_append_left _ (List.mem_map_of_mem (mem_all m))

theorem counter_removed (hfits : delta.Fits) (hextra : extra.get? m.removedKey = none) :
    (ofCommit extra operation delta).counter m.removedKey = m.count delta.removed := by
  refine counter_ofCommit ?_ (hfits.removed m) hextra
  rw [changeCounters_eq]
  exact List.mem_append_right _ (List.mem_map_of_mem (mem_all m))

theorem counter_total (hfits : delta.Fits) :
    (ofCommit extra operation delta).counter m.totalKey = m.count delta.live :=
  Properties.counter_eq (get?_ofCommit_total m) (hfits.live m)

theorem lt_of_mem_counters (hfits : delta.Fits) {counter : String × Nat}
    (h : counter ∈ counters delta) : counter.2 < UInt64.size := by
  rcases List.mem_append.1 h with hchange | htotal
  · have hmem := List.mem_of_mem_filter hchange
    rw [changeCounters_eq] at hmem
    rcases List.mem_append.1 hmem with hadded | hremoved
    · obtain ⟨m, -, rfl⟩ := List.mem_map.1 hadded
      exact hfits.added m
    · obtain ⟨m, -, rfl⟩ := List.mem_map.1 hremoved
      exact hfits.removed m
  · rw [totalCounters_eq] at htotal
    obtain ⟨m, -, rfl⟩ := List.mem_map.1 htotal
    exact hfits.live m

/-- What a commit writes under a counter is read as what it counts, whatever the writer put there. -/
theorem counter_of_mem (hfits : delta.Fits) {counter : String × Nat} (h : counter ∈ counters delta) :
    (ofCommit extra operation delta).counter counter.1 = counter.2 :=
  Properties.counter_eq (get?_ofCommit_of_mem h) (lt_of_mem_counters hfits h)

end Summary

/-- A commit overwrites exactly when one of its changes is a replacement. -/
theorem Operation.ofChanges_eq_overwrite_iff {changes : List StagedChange} :
    Operation.ofChanges changes = .overwrite ↔ ∃ files, .replace files ∈ changes := by
  unfold Operation.ofChanges
  split
  · rename_i hreplace
    refine iff_of_true rfl ?_
    obtain ⟨change, hchange, hreplace⟩ := List.any_eq_true.1 hreplace
    cases change with
    | replace files => exact ⟨files, hchange⟩
    | append files => cases hreplace
  · rename_i hnone
    refine iff_of_false (by decide) ?_
    rintro ⟨files, hfiles⟩
    exact hnone (List.any_eq_true.2 ⟨_, hfiles, rfl⟩)

end MergeOnRead
