import MergeOnRead.Proofs.Statistics

/-!
# Summary entries of writers

A writer may put entries of its own under any key of the summary to come. The operation and the
totals are written over them, and so are the counters that are not zero. A counter that is zero is
not written, and what the writer put under its key stands in its place: to a reader it is what the
commit counted.

Main statement: `Store.commit_otherEntries`, two commits that differ in the entries of the writer
alone read as the same counters exactly when the entries read alike under the keys of the counters
that are zero. The counters are exact sums here, so this is about commits whose sums are 64-bit
numbers.
-/

namespace MergeOnRead

/-- The same write with other entries for the summary. -/
def Transaction.withSummary (t : Transaction) (entries : Properties) : Transaction :=
  { t with summary := entries }

namespace Properties

variable {p q : Properties} {key : String}

theorem number_congr (h : p.get? key = q.get? key) : p.number key 0 = q.number key 0 := by
  rw [number, number, h]

end Properties

namespace Summary

variable {extra other : Properties} {operation : Operation} {delta : FileDelta}

/-- The entries of two writers read alike under the counters of a change that are zero. -/
def AgreeOnZeros (delta : FileDelta) (extra other : Properties) : Prop :=
  ∀ counter ∈ changeCounters delta, counter.2 = 0 →
    other.number counter.1 0 = extra.number counter.1 0

instance : Decidable (AgreeOnZeros delta extra other) :=
  inferInstanceAs (Decidable (∀ counter ∈ changeCounters delta, _))

/-- The totals are the same whatever the writer put in. -/
theorem number_totalKey (m : FileMeasure) :
    (ofCommit other operation delta).number m.totalKey 0 =
      (ofCommit extra operation delta).number m.totalKey 0 := by
  apply Properties.number_congr
  rw [get?_ofCommit_total, get?_ofCommit_total]

/-- A counter of a change depends on the writer only if it is zero. -/
theorem number_changeCounter_iff {counter : String × Nat} (h : counter ∈ changeCounters delta) :
    (ofCommit other operation delta).number counter.1 0 =
        (ofCommit extra operation delta).number counter.1 0 ↔
      (counter.2 = 0 → other.number counter.1 0 = extra.number counter.1 0) := by
  obtain ⟨key, n⟩ := counter
  show (ofCommit other operation delta).number key 0 =
    (ofCommit extra operation delta).number key 0 ↔ (n = 0 → _)
  by_cases hn : n = 0
  · subst hn
    have hshown : ∀ entries : Properties,
        (ofCommit entries operation delta).number key 0 = entries.number key 0 := by
      intro entries
      apply Properties.number_congr
      exact get?_ofCommit_of_zero h
    rw [hshown, hshown]
    exact ⟨fun heq _ => heq, fun heq => heq rfl⟩
  · have hsame : (ofCommit other operation delta).number key 0 =
        (ofCommit extra operation delta).number key 0 := by
      apply Properties.number_congr
      rw [get?_ofCommit_of_ne_zero h hn, get?_ofCommit_of_ne_zero h hn]
    exact ⟨fun _ hzero => absurd hzero hn, fun _ => hsame⟩

/-- All counters read alike exactly if those that are zero do. -/
theorem forall_number_iff :
    (∀ key ∈ counterKeys, (ofCommit other operation delta).number key 0 =
        (ofCommit extra operation delta).number key 0) ↔ AgreeOnZeros delta extra other := by
  constructor
  · intro h counter hcounter
    apply (number_changeCounter_iff hcounter).1
    apply h
    rw [counterKeys_eq delta]
    exact List.mem_append_left _ (List.mem_map_of_mem hcounter)
  · intro h key hkey
    rw [counterKeys_eq delta] at hkey
    rcases List.mem_append.1 hkey with hchange | htotal
    · obtain ⟨counter, hcounter, rfl⟩ := List.mem_map.1 hchange
      exact (number_changeCounter_iff hcounter).2 (h counter hcounter)
    · rw [totalCounters_eq, List.map_map] at htotal
      obtain ⟨m, -, rfl⟩ := List.mem_map.1 htotal
      exact number_totalKey m

end Summary

/-- Details of snapshots are their ids, operations and counters. -/
theorem SnapshotDetail.ofSnapshot_eq_iff {a b : Snapshot} :
    ofSnapshot a = ofSnapshot b ↔ a.id = b.id ∧ a.operation = b.operation ∧
      ∀ key ∈ Summary.counterKeys, a.summary.number key 0 = b.summary.number key 0 := by
  simp only [ofSnapshot, SnapshotDetail.mk.injEq, Option.some.injEq, Summary.counterKeys,
    FileMeasure.all, List.map_cons, List.map_nil, List.cons_append, List.nil_append,
    List.forall_mem_cons, FileMeasure.addedKey, FileMeasure.removedKey, FileMeasure.totalKey,
    List.not_mem_nil, false_implies, implies_true, and_true]
  tauto

namespace Store

variable {s s₁ : Store} {now : Int} {t : Transaction} {first : Snapshot}

/-- The statistics of a side whose last commit is the given snapshot show the details of the
snapshot. -/
def ShowsDetail (s : Store) (side : Side) (snapshot : Snapshot) : Prop :=
  ∀ table, ∃ statistics, Statistics.collect table s.source side = .now (.ok statistics) ∧
    ∀ entry ∈ (SnapshotDetail.ofSnapshot snapshot).entries,
      statistics.summary.get? entry.1 = some entry.2

theorem showsDetail_publish {side : Side} {state : SideState} {version : Version}
    (hstate : s.reach side = .ok state) :
    (s.publish side state version).ShowsDetail side version.snapshot := by
  intro table
  refine ⟨_, Statistics.collect_of_reach (reach_publish hstate) table, ?_⟩
  intro entry hentry
  apply Statistics.get?_ofHistory_of_mem _ hentry
  simp [SideState.extend]

/-- Two commits of the same changes with different entries of the writer, where all sums of the
change are 64-bit numbers. Both are accepted, record one operation and the same totals, and read
exactly what they count wherever a counter is written. Each counter of the change reads alike in
both unless it is zero and the entries under its key do not. Details and statistics are made from
these counters. -/
theorem commit_otherEntries {before : SideView} (hbefore : s.view t.side = .ok before)
    (hfits : (FileDelta.applyAll before.files t.changes).Fits)
    (h : s.commit now t = .ok (some first, s₁)) (now' : Int) (entries : Properties) :
    ∃ second s₂, s.commit now' (t.withSummary entries) = .ok (some second, s₂) ∧
      second.operation = first.operation ∧
      (∀ m : FileMeasure, second.summary.number m.totalKey 0 = first.summary.number m.totalKey 0) ∧
      (∀ counter ∈ Summary.counters (FileDelta.applyAll before.files t.changes),
        first.summary.counter counter.1 = counter.2 ∧
          second.summary.counter counter.1 = counter.2) ∧
      (∀ counter ∈ Summary.changeCounters (FileDelta.applyAll before.files t.changes),
        second.summary.number counter.1 0 = first.summary.number counter.1 0 ↔
          (counter.2 = 0 → entries.number counter.1 0 = t.summary.number counter.1 0)) ∧
      (SnapshotDetail.ofSnapshot second = SnapshotDetail.ofSnapshot first ↔
        Summary.AgreeOnZeros (FileDelta.applyAll before.files t.changes) t.summary entries) ∧
      s₁.ShowsDetail t.side first ∧ s₂.ShowsDetail t.side second := by
  obtain ⟨state, hstate, hcurrent, hresult⟩ := commit_eq_ok_iff.1 h
  obtain rfl : state.view = before :=
    Except.ok.inj ((view_eq_ok_iff.2 ⟨state, hstate, rfl⟩).symm.trans hbefore)
  split at hresult
  · cases hresult
  · rename_i hstaged
    cases hresult
    have hsecond : s.commit now' (t.withSummary entries) = .ok
        (some (nextVersion state s.ids.next.1 now' (t.withSummary entries)).snapshot,
          s.publish t.side state (nextVersion state s.ids.next.1 now' (t.withSummary entries))) :=
      commit_eq_ok_iff.2 ⟨state, hstate, hcurrent, (if_neg hstaged).symm⟩
    have hoperation :
        (nextVersion state s.ids.next.1 now' (t.withSummary entries)).snapshot.operation =
          (nextVersion state s.ids.next.1 now t).snapshot.operation := by
      rw [operation_nextVersion, operation_nextVersion]
      rfl
    refine ⟨_, _, hsecond, hoperation, Summary.number_totalKey,
      fun counter hcounter => ⟨Summary.counter_of_mem hfits hcounter,
        Summary.counter_of_mem hfits hcounter⟩,
      fun _ => Summary.number_changeCounter_iff, ?_, showsDetail_publish hstate,
      showsDetail_publish hstate⟩
    rw [SnapshotDetail.ofSnapshot_eq_iff]
    constructor
    · rintro ⟨-, -, hnumbers⟩
      exact Summary.forall_number_iff.1 hnumbers
    · intro hagree
      exact ⟨rfl, hoperation, Summary.forall_number_iff.2 hagree⟩

end Store

/-! ## A writer that removes files in its summary alone -/

namespace Store.FalseRemoval

def append : Transaction :=
  { Transaction.start .base none OrderedMap.empty with
    changes := [.append [.base "orders" [.int32 1] 10 1]] }

/-- The entries of a writer that says that the commit removed seven files. -/
def entries : Properties := OrderedMap.ofList [(SummaryKey.removedFiles, "7")]

/-- An append removes nothing, but its details say that it removed as many files as the writer
says. -/
theorem commit_otherEntries_append :
    ∃ first s₁ second s₂, (Store.create true).commit 100 append = .ok (some first, s₁) ∧
      (Store.create true).commit 100 (append.withSummary entries) = .ok (some second, s₂) ∧
      second.summary.number SummaryKey.removedFiles 0 ≠
        first.summary.number SummaryKey.removedFiles 0 ∧
      SnapshotDetail.ofSnapshot second ≠ SnapshotDetail.ofSnapshot first := by
  have hfirst : (Store.create true).commit 100 append = .ok (some _, _) := rfl
  have hbefore : (Store.create true).view append.side = .ok SideView.empty := rfl
  obtain ⟨second, s₂, hsecond, -, -, -, hcounters, hdetail, -⟩ :=
    commit_otherEntries hbefore (by decide) hfirst 100 entries
  refine ⟨_, _, second, s₂, hfirst, hsecond, ?_, ?_⟩
  · intro heq
    have hzero := (hcounters (SummaryKey.removedFiles, 0) (by decide)).1 heq rfl
    revert hzero
    decide
  · rw [ne_eq, hdetail]
    decide

end Store.FalseRemoval

end MergeOnRead
