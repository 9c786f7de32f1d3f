import MergeOnRead.Proofs.Store.Commit
import MergeOnRead.Proofs.Store.Summary

/-!
# Snapshots account for every file

The summary of a snapshot adds up the files that a commit adds and removes while the live files change,
and takes its totals from the live files at the end. Whatever was staged, the two agree: by every
measure, what was there before and what was added is what is there now and what was removed.

Main statements: `Reachable.recordsTotals`, every version of a store records the totals of its files,
and `Reachable.commit_accounts`, what a commit says about the files it changes.
-/

namespace MergeOnRead

/-! ## Totals -/

/-- The summary of a version has the totals of its live files. -/
structure Version.RecordsTotals (version : Version) : Prop where
  total : ∀ m : FileMeasure,
    version.snapshot.summary.get? m.totalKey = some (toString (m.count version.files))
  fits : ∀ m : FileMeasure, m.count version.files < UInt64.size

theorem Version.RecordsTotals.counter_total {version : Version} (h : version.RecordsTotals)
    (m : FileMeasure) : version.snapshot.summary.counter m.totalKey = m.count version.files :=
  Properties.counter_eq (h.total m) (h.fits m)

/-- A total that a reader of a side finds in its current snapshot, zero before the first. -/
def SideView.total (view : SideView) (m : FileMeasure) : Nat :=
  match view.snapshot with
  | none => 0
  | some snapshot => snapshot.summary.counter m.totalKey

theorem SideState.total_view {state : SideState}
    (h : ∀ version ∈ state.history, version.RecordsTotals) (m : FileMeasure) :
    state.view.total m = m.count state.view.files := by
  unfold view
  cases hcurrent : state.current with
  | none => rfl
  | some version => exact (h version (List.mem_of_getLast? hcurrent)).counter_total m

/-! ## Reachable stores -/

namespace Store

variable {s s' : Store} {side : Side}

/-- The stores that calls lead to. Any transaction may be committed, opened on this store or not, as
long as the sums of its files are 64-bit numbers. -/
inductive Reachable : Store → Prop where
  | create (sides : List Side) : Reachable (withSides sides)
  | commit {s s' : Store} {now : Int} {t : Transaction} {published : Option Snapshot}
    {before : SideView} : Reachable s → s.view t.side = .ok before →
    (FileDelta.applyAll before.files t.changes).Fits → s.commit now t = .ok (published, s') →
    Reachable s'
  | setUnavailable {s : Store} (side : Side) (unavailable : Bool) :
    Reachable s → Reachable (s.setUnavailable side unavailable)
  | dropSide {s : Store} (side : Side) : Reachable s → Reachable (s.dropSide side)

/-- Every version of both sides records the totals of its files. -/
def RecordsTotals (s : Store) : Prop :=
  ∀ side state, s.side? side = some state → ∀ version ∈ state.history, version.RecordsTotals

theorem recordsTotals_withSides (sides : List Side) : (withSides sides).RecordsTotals := by
  intro side state h version hversion
  rw [eq_created_of_side? h] at hversion
  cases hversion

theorem RecordsTotals.setSide (h : s.RecordsTotals) {state : Option SideState}
    (hstate : ∀ new, state = some new → ∀ version ∈ new.history, version.RecordsTotals) :
    (s.setSide side state).RecordsTotals := by
  intro other new hnew
  rw [side?_setSide] at hnew
  split at hnew
  · exact hstate new hnew
  · exact h other new hnew

theorem recordsTotals_nextVersion {state : SideState} {id : SnapshotId} {now : Int} {t : Transaction}
    (hfits : (FileDelta.applyAll state.view.files t.changes).Fits) :
    (nextVersion state id now t).RecordsTotals :=
  ⟨Summary.get?_ofCommit_total, hfits.live⟩

theorem operation_nextVersion {state : SideState} {id : SnapshotId} {now : Int} {t : Transaction} :
    (nextVersion state id now t).snapshot.operation = (Operation.ofChanges t.changes).text := by
  rw [Snapshot.operation, nextVersion, Summary.get?_ofCommit_operation, Option.getD_some]

theorem RecordsTotals.publish (h : s.RecordsTotals) {state : SideState} {version : Version}
    (hstate : s.side? side = some state) (hversion : version.RecordsTotals) :
    (s.publish side state version).RecordsTotals := by
  have hextend : ∀ v ∈ (state.extend version).history, v.RecordsTotals := by
    intro v hv
    rcases List.mem_append.1 hv with hv | hv
    · exact h side state hstate v hv
    · rwa [List.mem_singleton.1 hv]
  exact h.setSide fun new hnew => Option.some.inj hnew ▸ hextend

theorem RecordsTotals.commit (h : s.RecordsTotals) {now : Int} {t : Transaction}
    {published : Option Snapshot} {before : SideView} (hbefore : s.view t.side = .ok before)
    (hfits : (FileDelta.applyAll before.files t.changes).Fits)
    (hcommit : s.commit now t = .ok (published, s')) : s'.RecordsTotals := by
  obtain ⟨state, hstate, rfl⟩ := view_eq_ok_iff.1 hbefore
  obtain ⟨state', hstate', -, hresult⟩ := commit_eq_ok_iff.1 hcommit
  obtain rfl : state' = state := Except.ok.inj (hstate'.symm.trans hstate)
  split at hresult
  · cases hresult
    exact h
  · cases hresult
    exact h.publish (reach_eq_ok_iff.1 hstate).1 (recordsTotals_nextVersion hfits)

/-- Every version of a reachable store records the totals of its files. -/
theorem Reachable.recordsTotals (h : s.Reachable) : s.RecordsTotals := by
  induction h with
  | create sides => exact recordsTotals_withSides sides
  | commit _ hbefore hfits hcommit ih => exact ih.commit hbefore hfits hcommit
  | setUnavailable side unavailable _ ih =>
    refine ih.setSide fun new hnew => ?_
    obtain ⟨state, hstate, rfl⟩ := Option.map_eq_some_iff.1 hnew
    exact ih side state hstate
  | dropSide side _ ih => exact ih.setSide nofun

/-! ## Commits -/

/-- What a commit and its summary say of the live files before and after it. -/
structure Accounts (changes : List StagedChange) (before after : SideView) (snapshot : Snapshot) :
    Prop where
  published : after.snapshot = some snapshot
  files : after.files = changes.foldl StagedChange.applyTo before.files
  total : ∀ m : FileMeasure, snapshot.summary.get? m.totalKey = some (toString (m.count after.files))
  balance : ∀ m : FileMeasure, before.total m + snapshot.summary.counter m.addedKey =
    after.total m + snapshot.summary.counter m.removedKey
  operation : snapshot.operation = Operation.overwrite.text ↔ ∃ files, .replace files ∈ changes

/-- The version that a transaction adds to a side accounts for its changes. -/
theorem accounts_nextVersion {state : SideState} {id : SnapshotId} {now : Int} {t : Transaction}
    (hprevious : ∀ version ∈ state.history, version.RecordsTotals)
    (hfits : (FileDelta.applyAll state.view.files t.changes).Fits)
    (hextra : ∀ m : FileMeasure,
      t.summary.get? m.addedKey = none ∧ t.summary.get? m.removedKey = none) :
    Accounts t.changes state.view (state.extend (nextVersion state id now t)).view
      (nextVersion state id now t).snapshot := by
  have hrecords : (nextVersion state id now t).RecordsTotals := recordsTotals_nextVersion hfits
  rw [SideState.view_extend]
  refine ⟨rfl, nextVersion_files state id now t, hrecords.total, fun m => ?_, ?_⟩
  · rw [SideState.total_view hprevious, SideView.total, nextVersion]
    dsimp only
    rw [Summary.counter_added hfits (hextra m).1, Summary.counter_removed hfits (hextra m).2,
      Summary.counter_total hfits]
    exact FileDelta.balanced_applyAll _ _ m
  · rw [operation_nextVersion, ← Operation.ofChanges_eq_overwrite_iff]
    cases Operation.ofChanges t.changes <;> decide

/-- A commit of a transaction that has staged something publishes a snapshot that accounts for all files,
if its writer leaves the counters of added and removed files alone. -/
theorem Reachable.commit_accounts (h : s.Reachable) {now : Int} {t : Transaction}
    {published : Option Snapshot} {before : SideView} (hbefore : s.view t.side = .ok before)
    (hcommit : s.commit now t = .ok (published, s')) (hstaged : t.isEmpty = false)
    (hfits : (FileDelta.applyAll before.files t.changes).Fits)
    (hextra : ∀ m : FileMeasure,
      t.summary.get? m.addedKey = none ∧ t.summary.get? m.removedKey = none) :
    ∃ snapshot after, published = some snapshot ∧ s'.view t.side = .ok after ∧
      Accounts t.changes before after snapshot := by
  obtain ⟨state, hstate, rfl⟩ := view_eq_ok_iff.1 hbefore
  obtain ⟨state', hstate', -, hresult⟩ := commit_eq_ok_iff.1 hcommit
  obtain rfl : state' = state := Except.ok.inj (hstate'.symm.trans hstate)
  rw [hstaged, if_neg Bool.false_ne_true] at hresult
  cases hresult
  have hprevious := h.recordsTotals t.side state' (reach_eq_ok_iff.1 hstate).1
  refine ⟨_, _, rfl, ?_, accounts_nextVersion hprevious hfits hextra⟩
  rw [view_publish hstate, if_pos rfl, SideState.view_extend]

/-! ## A partition replaced twice in one commit -/

namespace ReplacedTwice

def file (path : String) (size : UInt64) : File := .base path [.int32 1] size 1

def first : Transaction :=
  { Transaction.start .base none OrderedMap.empty with changes := [.append [file "first" 10]] }

def store : Store := (((withSides [.base]).commit 100 first).toOption.map (·.2)).getD (withSides [])

/-- The third file is put beside the second, and the fourth in the place of both. -/
def second : Transaction :=
  { Transaction.start .base (some ⟨1⟩) OrderedMap.empty with
    changes := [.replace [file "second" 20], .append [file "third" 30], .replace [file "fourth" 40]] }

def before : SideView := (store.view .base).toOption.getD SideView.empty

theorem reachable_store : store.Reachable := by
  have hcommit : (withSides [.base]).commit 100 first = .ok (_, store) := rfl
  exact .commit (.create [.base]) rfl (by decide) hcommit

/-- Files that come and go in one commit count as added and as removed. -/
theorem commit_accounts_second :
    ∃ snapshot after, Accounts second.changes before after snapshot ∧
      after.files = [file "fourth" 40] ∧ before.total .size + 90 = after.total .size + 60 := by
  have hbefore : store.view second.side = .ok before := rfl
  have hcommit : store.commit 200 second = .ok (_, _) := rfl
  obtain ⟨snapshot, after, hpublished, -, haccounts⟩ :=
    reachable_store.commit_accounts hbefore hcommit rfl (by decide) fun _ => ⟨rfl, rfl⟩
  cases hpublished
  exact ⟨_, after, haccounts, haccounts.files, haccounts.balance .size⟩

end ReplacedTwice

end Store

end MergeOnRead
