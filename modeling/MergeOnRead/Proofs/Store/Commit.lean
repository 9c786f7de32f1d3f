import MergeOnRead.Proofs.InPlace
import MergeOnRead.Proofs.Result
import MergeOnRead.Store.Basic

/-!
# What a commit does to a store

A commit that is accepted either had nothing staged and leaves the store as it is, or adds one
version to the side of its transaction and takes one snapshot id. A commit that is not accepted has
changed nothing. The staged changes act on the live files one after the other, without a look at
what was added or removed on the way.

Main statements: `commit_eq_ok_iff`, when a commit is accepted and with which result,
`keepsOnFailure_commit`, and `live_applyAll`, the live files after a list of changes.
-/

namespace MergeOnRead

open InPlace Result

/-! ## Live files -/

def StagedChange.applyTo (live : List File) : StagedChange → List File
  | replace files =>
    live.filter (fun file => ¬∃ other ∈ files, other.partition = file.partition) ++ files
  | append files => live ++ files

namespace FileDelta

theorem live_apply (delta : FileDelta) (change : StagedChange) :
    (delta.apply change).live = change.applyTo delta.live := by
  cases change with
  | append files => rfl
  | replace files =>
    change delta.live.filter (fun file => !touches files file) ++ files = _
    congr 1
    refine List.filter_congr fun file _ => ?_
    unfold touches
    rw [Bool.eq_iff_iff, Bool.not_eq_true', ← Bool.not_eq_true, List.any_eq_true,
      decide_eq_true_eq]
    simp only [beq_iff_eq]

/-- The staged changes act on the live files in their order. -/
theorem live_applyAll (live : List File) (changes : List StagedChange) :
    (applyAll live changes).live = changes.foldl StagedChange.applyTo live := by
  have hfold : ∀ delta : FileDelta, (changes.foldl apply delta).live =
      changes.foldl StagedChange.applyTo delta.live := by
    induction changes with
    | nil => exact fun _ => rfl
    | cons change changes ih =>
      intro delta
      rw [List.foldl_cons, ih, live_apply, List.foldl_cons]
  exact hfold (start live)

end FileDelta

/-! ## Sides -/

namespace SideState

def extend (state : SideState) (version : Version) : SideState :=
  { state with history := state.history ++ [version] }

theorem current_extend (state : SideState) (version : Version) :
    (state.extend version).current = some version := by
  simp [current, extend]

theorem view_extend (state : SideState) (version : Version) :
    (state.extend version).view =
      ⟨some version.snapshot, version.files, version.watermarks⟩ := by
  rw [view, current_extend]

theorem snapshotId_view (state : SideState) :
    state.view.snapshotId = state.current.map (·.snapshot.id) := by
  unfold view SideView.snapshotId
  cases state.current <;> rfl

end SideState

namespace Store

variable {s : Store} {side other : Side}

theorem side?_setSide (state : Option SideState) :
    (s.setSide side state).side? other = if other = side then state else s.side? other := by
  cases side <;> cases other <;> rfl

/-- The sides of a new store have no commits. -/
theorem eq_created_of_side? {sides : List Side} {state : SideState}
    (h : (withSides sides).side? side = some state) : state = SideState.created := by
  cases side <;> simp only [side?, withSides] at h <;> split at h <;> cases h <;> rfl

theorem ids_setSide (state : Option SideState) : (s.setSide side state).ids = s.ids := by
  cases side <;> rfl

theorem reach_eq_ok_iff {state : SideState} :
    s.reach side = .ok state ↔ s.side? side = some state ∧ state.unavailable = false := by
  unfold reach
  cases s.side? side with
  | none => simp
  | some found =>
    dsimp only
    rw [Option.some.injEq]
    cases hunavailable : found.unavailable with
    | true =>
      rw [if_pos rfl]
      constructor
      · exact nofun
      · rintro ⟨rfl, hreachable⟩
        rw [hunavailable] at hreachable
        cases hreachable
    | false =>
      rw [if_neg Bool.false_ne_true, Except.ok.injEq]
      constructor
      · rintro rfl
        exact ⟨rfl, hunavailable⟩
      · exact And.left

theorem view_eq_ok_iff {view : SideView} :
    s.view side = .ok view ↔ ∃ state, s.reach side = .ok state ∧ state.view = view := by
  constructor
  · exact map_eq_ok
  · rintro ⟨state, hstate, rfl⟩
    rw [Store.view, hstate]
    rfl

theorem hasSide_of_view {view : SideView} (h : s.view side = .ok view) : s.hasSide side = true := by
  obtain ⟨state, hstate, -⟩ := view_eq_ok_iff.1 h
  rw [hasSide, (reach_eq_ok_iff.1 hstate).1]
  rfl

/-- A transaction starts from the view of its side. -/
theorem openTransaction_eq_ok_iff {t : Transaction} :
    s.openTransaction side = .ok t ↔ ∃ state, s.reach side = .ok state ∧
      t = .start side state.view.snapshotId state.view.watermarks := by
  constructor
  · intro h
    obtain ⟨view, hview, rfl⟩ := map_eq_ok h
    obtain ⟨state, hstate, rfl⟩ := view_eq_ok_iff.1 hview
    exact ⟨state, hstate, rfl⟩
  · rintro ⟨state, hstate, rfl⟩
    rw [openTransaction, Store.view, hstate]
    rfl

/-! ## Commits -/

/-- The store after a version was added to a side. -/
def publish (s : Store) (side : Side) (state : SideState) (version : Version) : Store :=
  { s.setSide side (some (state.extend version)) with ids := s.ids.next.2 }

theorem side?_publish (state : SideState) (version : Version) :
    (s.publish side state version).side? other =
      if other = side then some (state.extend version) else s.side? other :=
  side?_setSide _

/-- A side that can be reached can still be reached when a version was added to it. -/
theorem reach_publish {state : SideState} {version : Version} (hstate : s.reach side = .ok state) :
    (s.publish side state version).reach side = .ok (state.extend version) := by
  refine reach_eq_ok_iff.2 ⟨?_, (reach_eq_ok_iff.1 hstate).2⟩
  rw [side?_publish, if_pos rfl]

/-- After a version was added to a side that can be reached, it is what readers of the side see. -/
theorem view_publish {state : SideState} {version : Version} (hstate : s.reach side = .ok state) :
    (s.publish side state version).view other =
      if other = side then .ok ⟨some version.snapshot, version.files, version.watermarks⟩
      else s.view other := by
  by_cases h : other = side
  · subst h
    rw [if_pos rfl]
    exact view_eq_ok_iff.2 ⟨_, reach_publish hstate, SideState.view_extend ..⟩
  · rw [if_neg h, Store.view, Store.view, reach, reach, side?_publish, if_neg h]

/-- The files of a new version are the live files under the staged changes. -/
theorem nextVersion_files (state : SideState) (id : SnapshotId) (now : Int) (t : Transaction) :
    (nextVersion state id now t).files =
      t.changes.foldl StagedChange.applyTo state.view.files :=
  FileDelta.live_applyAll _ _

theorem setSide_with_ids (ids : SnapshotIds) (state : Option SideState) :
    ({ s with ids } : Store).setSide side state = { s.setSide side state with ids } := by
  cases side <;> rfl

/-- A transaction that is committed where it was opened takes an id and adds its version, if it has
anything staged. -/
theorem run_commit {state : SideState} {t : Transaction} (hstate : s.reach t.side = .ok state)
    (hcurrent : state.view.snapshotId = t.baseSnapshot) (now : Int) :
    (t.commit now).run s =
      if t.isEmpty then .ok none s
      else
        .ok (some (nextVersion state s.ids.next.1 now t).snapshot)
          (s.publish t.side state (nextVersion state s.ids.next.1 now t)) := by
  rw [Transaction.commit, run_get_bind, run_ofExcept_bind_of_ok hstate, if_neg (not_not.2 hcurrent)]
  by_cases hempty : t.isEmpty = true
  · rw [if_pos hempty, if_pos hempty]
    rfl
  · rw [if_neg hempty, if_neg hempty]
    exact congrArg (EStateM.Result.ok _) (setSide_with_ids ..)

/-- A commit is accepted exactly when its side can be reached and is still at the snapshot that the
transaction was opened on. -/
theorem commit_eq_ok_iff {now : Int} {t : Transaction} {result : Option Snapshot × Store} :
    s.commit now t = .ok result ↔
      ∃ state, s.reach t.side = .ok state ∧ state.view.snapshotId = t.baseSnapshot ∧
        result =
          if t.isEmpty then (none, s)
          else
            (some (nextVersion state s.ids.next.1 now t).snapshot,
              s.publish t.side state (nextVersion state s.ids.next.1 now t)) := by
  obtain ⟨published, s'⟩ := result
  have hrun {state : SideState} (hstate : s.reach t.side = .ok state)
      (hcurrent : state.view.snapshotId = t.baseSnapshot) :
      (t.commit now).run s = .ok published s' ↔
        (published, s') =
          if t.isEmpty then (none, s)
          else
            (some (nextVersion state s.ids.next.1 now t).snapshot,
              s.publish t.side state (nextVersion state s.ids.next.1 now t)) := by
    rw [run_commit hstate hcurrent]
    split <;> simp [eq_comm]
  rw [commit, result_eq_ok_iff]
  constructor
  · intro h
    have hchecks := h
    rw [Transaction.commit, run_get_bind, run_ofExcept_bind_eq_ok_iff] at hchecks
    obtain ⟨state, hstate, hchecks⟩ := hchecks
    have hcurrent := not_not.1 (run_check_eq_ok_iff.1 hchecks).1
    exact ⟨state, hstate, hcurrent, (hrun hstate hcurrent).1 h⟩
  · rintro ⟨state, hstate, hcurrent, hresult⟩
    exact (hrun hstate hcurrent).2 hresult

/-- A commit fails before it takes an id or adds a version. -/
theorem keepsOnFailure_commit (t : Transaction) (now : Int) : KeepsOnFailure (t.commit now) := by
  unfold Transaction.commit
  refine .after_reads reads_get fun s => .after_reads (reads_ofExcept _) fun state =>
    .after_check fun _ => ?_
  split
  · exact (reads_pure _).keepsOnFailure
  · exact Total.keepsOnFailure
      ((total_modifyGet _).bind fun id => (total_modify _).bind fun _ => total_pure _)

end Store

end MergeOnRead
