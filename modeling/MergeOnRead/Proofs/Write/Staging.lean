import MergeOnRead.Proofs.Store.Accounting
import MergeOnRead.Proofs.Watermarks
import MergeOnRead.Write.Append
import MergeOnRead.Write.Replacement

/-!
# What a write stages and commits

A write that is accepted stages its files and watermarks at once, or nothing when it has no files.
Committed on a transaction of its own, it adds at most one version to its side.

Main statements: `Replacement.run_apply_eq_ok_iff` and `Append.run_apply_eq_ok_iff`, when a write is
staged and what that does to a transaction, and `Replacement.commit_cases` and `Append.commit_cases`,
all that it may do to a store.
-/

namespace MergeOnRead

open InPlace Result

variable {t t' : Transaction} {files : List File}

theorem Transaction.checkSide_eq_ok_iff :
    t.checkSide files = .ok () ↔ ∀ file ∈ files, file.side = t.side := by
  have hfind : (∀ file ∈ files, file.side = t.side) ↔
      files.find? (fun file => file.side != t.side) = none := by simp
  rw [hfind, checkSide]
  split <;> simp_all

namespace Staging

variable {change : List File → StagedChange}

/-- A change is staged behind the others, and only with files of the side. -/
theorem run_stage_eq_ok_iff :
    (stage files change).run t = .ok () t' ↔
      (∀ file ∈ files, file.side = t.side) ∧
        t' = { t with changes := t.changes ++ [change files] } := by
  rw [stage, run_get_bind, run_ofExcept_bind_eq_ok_iff, ← Transaction.checkSide_eq_ok_iff]
  constructor
  · rintro ⟨⟨⟩, hcheck, h⟩
    cases h
    exact ⟨hcheck, rfl⟩
  · rintro ⟨hcheck, rfl⟩
    exact ⟨(), hcheck, rfl⟩

/-- A change is pushed after the files are checked. -/
theorem keepsOnFailure_stage (files : List File) (change : List File → StagedChange) :
    KeepsOnFailure (stage files change) :=
  .after_reads reads_get fun _ => .after_reads (reads_ofExcept _) fun _ =>
    (total_modify _).keepsOnFailure

end Staging

namespace Replacement

variable {metadata : Metadata} {r : Replacement} {marks : Watermarks}

/-- Whether a replacement has a file in a partition. -/
def Writes (r : Replacement) (partition : Partition.Key) : Prop :=
  partition ∈ r.files.map (·.partition)

instance (r : Replacement) (partition : Partition.Key) : Decidable (r.Writes partition) :=
  inferInstanceAs (Decidable (_ ∈ _))

theorem writes_iff {partition : Partition.Key} :
    r.Writes partition ↔ ∃ file ∈ r.files, file.partition = partition :=
  List.mem_map

/-- A replacement asks for its id on the partitions it writes. -/
theorem get?_batch (id : TransactionId) (partition : Partition.Key) :
    (r.batch id).get? partition = if r.Writes partition then some id else none := by
  have hpairs : r.files.map (fun file => (file.partition, id)) =
      (r.files.map (·.partition)).map fun p => (p, id) := by
    rw [List.map_map]
    rfl
  rw [batch, hpairs]
  exact Watermarks.get?_ofList_map _ id

/-- A replacement without files stages nothing; any other stages its files, and for the partitions it
writes the raised watermarks, which it gives. -/
theorem run_apply_eq_ok_iff :
    (r.apply metadata).run t = .ok marks t' ↔
      ∃ id, r.transactionId = .ok id ∧ marks = t'.watermarks ∧
        (r.files = [] ∧ t' = t ∨
          r.files ≠ [] ∧ t.side = .base ∧
            ((∀ file ∈ r.files, file.side = .base) ∧ metadata.checkPartitions r.files = .ok ()) ∧
            t' = { t with
              changes := t.changes ++ [.replace r.files]
              stagedWatermarks := some (t.watermarks.raiseAll (r.batch id))
              summary := t.summary.insert SummaryKey.transactionId id.text }) := by
  rw [apply, run_ofExcept_bind_eq_ok_iff]
  constructor
  · rintro ⟨id, hid, h⟩
    refine ⟨id, hid, ?_⟩
    by_cases hempty : r.files.isEmpty = true
    · rw [if_pos hempty] at h
      cases h
      exact ⟨rfl, .inl ⟨List.isEmpty_iff.1 hempty, rfl⟩⟩
    · rw [if_neg hempty, run_get_bind] at h
      obtain ⟨hnotSide, h⟩ := run_check_eq_ok_iff.1 h
      have hside := not_not.1 hnotSide
      obtain ⟨⟨⟩, hkeys, hrest⟩ := run_ofExcept_bind_eq_ok_iff.1 h
      obtain ⟨⟨⟩, staged, hstaged, hmarks⟩ := run_bind_eq_ok_iff.1 hrest
      obtain ⟨hsides, rfl⟩ := Staging.run_stage_eq_ok_iff.1 hstaged
      cases hmarks
      rw [hside] at hsides
      exact ⟨rfl, .inr ⟨fun hnil => hempty (List.isEmpty_iff.2 hnil), hside, ⟨hsides, hkeys⟩, rfl⟩⟩
  · rintro ⟨id, hid, rfl, ⟨hempty, rfl⟩ | ⟨hfiles, hside, ⟨hsides, hkeys⟩, rfl⟩⟩
    · refine ⟨id, hid, ?_⟩
      rw [if_pos (List.isEmpty_iff.2 hempty)]
      rfl
    · refine ⟨id, hid, ?_⟩
      rw [← hside] at hsides
      have hstaged : (Staging.replacePartitions r.files).run t =
          .ok () { t with changes := t.changes ++ [.replace r.files] } :=
        Staging.run_stage_eq_ok_iff.2 ⟨hsides, rfl⟩
      rw [if_neg fun hempty => hfiles (List.isEmpty_iff.1 hempty), run_get_bind,
        if_neg (not_not.2 hside), run_ofExcept_bind_of_ok hkeys, run_bind_of_ok hstaged]
      rfl

/-- A replacement in place makes all its checks before it changes anything. -/
theorem keepsOnFailure_apply (metadata : Metadata) (r : Replacement) :
    KeepsOnFailure (r.apply metadata) := by
  unfold apply
  refine .after_reads (reads_ofExcept _) fun id => ?_
  split
  · exact (reads_get.bind fun _ => reads_pure _).keepsOnFailure
  refine .after_reads reads_get fun t => .after_check fun _ =>
    .after_reads (reads_ofExcept _) fun _ => ?_
  -- from the push of the change on nothing fails
  refine .before_total (Staging.keepsOnFailure_stage _ _) fun _ => ?_
  exact total_get.bind fun _ =>
    (total_modify _).bind fun _ => (total_modify _).bind fun _ => total_pure _

theorem stage_eq_ok_iff :
    r.stage metadata t = .ok (marks, t') ↔ (r.apply metadata).run t = .ok marks t' :=
  result_eq_ok_iff

theorem keepsOnFailure_perform (metadata : Metadata) (r : Replacement) (now : Int) :
    KeepsOnFailure (r.perform metadata now) :=
  .after_reads reads_get fun _ => .after_reads (reads_ofExcept _) fun _ =>
    .before_total (Store.keepsOnFailure_commit _ now) fun _ => total_pure _

theorem commit_eq_ok_iff {s s' : Store} {now : Int} :
    r.commit metadata s now = .ok (marks, s') ↔
      ∃ t published, r.prepare metadata s = .ok (marks, t) ∧ s.commit now t = .ok (published, s') := by
  rw [commit, result_eq_ok_iff, perform, run_get_bind, run_ofExcept_bind_eq_ok_iff]
  simp only [Store.commit, result_eq_ok_iff]
  constructor
  · rintro ⟨⟨given, t⟩, hprepare, h⟩
    obtain ⟨published, after, hcommit, heq⟩ := run_bind_eq_ok_iff.1 h
    cases heq
    exact ⟨t, published, hprepare, hcommit⟩
  · rintro ⟨t, published, hprepare, hcommit⟩
    exact ⟨(marks, t), hprepare, (run_bind_of_ok hcommit _).trans rfl⟩

/-- A replacement that commits either had no files and leaves the store as it is, or adds a version
to the base side. The watermarks it gives are those that are then current. -/
theorem commit_cases {s s' : Store} {now : Int} (h : r.commit metadata s now = .ok (marks, s')) :
    ∃ id state, r.transactionId = .ok id ∧ s.reach .base = .ok state ∧
      (r.files = [] ∧ s' = s ∧ marks = state.view.watermarks ∨
        r.files ≠ [] ∧ (∀ file ∈ r.files, file.side = .base) ∧
          marks = state.view.watermarks.raiseAll (r.batch id) ∧
          ∃ version, s' = s.publish .base state version ∧
            version.files = (StagedChange.replace r.files).applyTo state.view.files ∧
            version.watermarks = marks) := by
  obtain ⟨t, published, hprepare, hcommit⟩ := commit_eq_ok_iff.1 h
  obtain ⟨opened, hopen, hstage⟩ := bind_eq_ok hprepare
  obtain ⟨state, hstate, rfl⟩ := Store.openTransaction_eq_ok_iff.1 hopen
  obtain ⟨id, hid, rfl, hcases⟩ :=
    run_apply_eq_ok_iff.1 (stage_eq_ok_iff.1 hstage)
  obtain ⟨state', hstate', -, hresult⟩ := Store.commit_eq_ok_iff.1 hcommit
  refine ⟨id, state, hid, hstate, ?_⟩
  rcases hcases with ⟨hfiles, rfl⟩ | ⟨hfiles, -, ⟨hsides, -⟩, rfl⟩
  · cases hresult
    exact .inl ⟨hfiles, rfl, rfl⟩
  · obtain rfl : state' = state := Except.ok.inj (hstate'.symm.trans hstate)
    cases hresult
    exact .inr ⟨hfiles, hsides, rfl, _, rfl, Store.nextVersion_files .., rfl⟩

/-- Replacements keep a store reachable, as long as the sums of its files are 64-bit numbers. -/
theorem reachable_commit {s s' : Store} {now : Int} {before : SideView} (hs : s.Reachable)
    (hbefore : s.view .base = .ok before)
    (hfits : (FileDelta.applyAll before.files [.replace r.files]).Fits)
    (h : r.commit metadata s now = .ok (marks, s')) : s'.Reachable := by
  obtain ⟨t, published, hprepare, hcommit⟩ := commit_eq_ok_iff.1 h
  obtain ⟨opened, hopen, hstage⟩ := bind_eq_ok hprepare
  obtain ⟨state, -, rfl⟩ := Store.openTransaction_eq_ok_iff.1 hopen
  obtain ⟨id, -, rfl, ⟨-, rfl⟩ | ⟨-, -, -, rfl⟩⟩ :=
    run_apply_eq_ok_iff.1 (stage_eq_ok_iff.1 hstage)
  · obtain ⟨state', -, -, hresult⟩ := Store.commit_eq_ok_iff.1 hcommit
    cases hresult
    exact hs
  · exact .commit hs hbefore hfits hcommit

end Replacement

namespace Append

variable {metadata : Metadata} {a : Append}

/-- The summary of a transaction on which files are appended has their highest transaction id. -/
def summary (a : Append) (before : Properties) : Properties :=
  match a.highest with
  | none => before
  | some id => before.insert SummaryKey.transactionId id.text

/-- An append without files stages nothing; any other stages its files. -/
theorem run_apply_eq_ok_iff :
    (a.apply metadata).run t = .ok () t' ↔
      a.files = [] ∧ t' = t ∨
        a.files ≠ [] ∧ t.side = .change ∧
          ((∀ file ∈ a.files, file.side = .change) ∧ metadata.checkPartitions a.files = .ok ()) ∧
          t' = { t with
            changes := t.changes ++ [.append a.files]
            summary := a.summary t.summary } := by
  rw [apply]
  by_cases hempty : a.files.isEmpty = true
  · have hfiles : a.files = [] := List.isEmpty_iff.1 hempty
    rw [if_pos hempty]
    constructor
    · rintro ⟨⟩
      exact .inl ⟨hfiles, rfl⟩
    · rintro (⟨-, rfl⟩ | ⟨hne, -⟩)
      · rfl
      · exact absurd hfiles hne
  rw [if_neg hempty, run_get_bind]
  have hfiles : a.files ≠ [] := fun hnil => hempty (List.isEmpty_iff.2 hnil)
  constructor
  · intro h
    obtain ⟨hnotSide, h⟩ := run_check_eq_ok_iff.1 h
    have hside := not_not.1 hnotSide
    obtain ⟨⟨⟩, hkeys, hrest⟩ := run_ofExcept_bind_eq_ok_iff.1 h
    obtain ⟨⟨⟩, staged, hstaged, hsummary⟩ := run_bind_eq_ok_iff.1 hrest
    obtain ⟨hsides, rfl⟩ := Staging.run_stage_eq_ok_iff.1 hstaged
    rw [hside] at hsides
    refine .inr ⟨hfiles, hside, ⟨hsides, hkeys⟩, ?_⟩
    unfold summary
    cases hhighest : a.highest with
    | none =>
      rw [hhighest] at hsummary
      cases hsummary
      rfl
    | some id =>
      rw [hhighest] at hsummary
      cases hsummary
      rfl
  · rintro (⟨hnil, -⟩ | ⟨-, hside, ⟨hsides, hkeys⟩, rfl⟩)
    · exact absurd hnil hfiles
    · rw [← hside] at hsides
      have hstaged : (Staging.append a.files).run t =
          .ok () { t with changes := t.changes ++ [.append a.files] } :=
        Staging.run_stage_eq_ok_iff.2 ⟨hsides, rfl⟩
      rw [if_neg (not_not.2 hside), run_ofExcept_bind_of_ok hkeys, run_bind_of_ok hstaged]
      unfold summary
      cases a.highest <;> rfl

/-- An append in place makes all its checks before it changes anything. -/
theorem keepsOnFailure_apply (metadata : Metadata) (a : Append) :
    KeepsOnFailure (a.apply metadata) := by
  unfold apply
  split
  · exact (reads_pure _).keepsOnFailure
  refine .after_reads reads_get fun t => .after_check fun _ =>
    .after_reads (reads_ofExcept _) fun _ => ?_
  refine .before_total (Staging.keepsOnFailure_stage _ _) fun _ => ?_
  split
  · exact total_pure _
  · exact total_modify _

theorem stage_eq_ok_iff : a.stage metadata t = .ok t' ↔ (a.apply metadata).run t = .ok () t' := by
  rw [stage, ← result_eq_ok_iff]
  cases (a.apply metadata).result t with
  | error e => simp [Except.map]
  | ok pair => simp [Except.map, Prod.ext_iff]

theorem keepsOnFailure_perform (metadata : Metadata) (a : Append) (now : Int) :
    KeepsOnFailure (a.perform metadata now) :=
  .after_reads reads_get fun _ => .after_reads (reads_ofExcept _) fun t =>
    Store.keepsOnFailure_commit t now

theorem commit_eq_ok_iff {s s' : Store} {now : Int} {published : Option Snapshot} :
    a.commit metadata s now = .ok (published, s') ↔
      ∃ t, a.prepare metadata s = .ok t ∧ s.commit now t = .ok (published, s') := by
  rw [commit, result_eq_ok_iff, perform, run_get_bind, run_ofExcept_bind_eq_ok_iff]
  simp only [Store.commit, result_eq_ok_iff]

/-- An append that commits either had no files and leaves the store as it is, or adds a version to
the change side. -/
theorem commit_cases {s s' : Store} {now : Int} {published : Option Snapshot}
    (h : a.commit metadata s now = .ok (published, s')) :
    ∃ state, s.reach .change = .ok state ∧
      (a.files = [] ∧ s' = s ∨
        a.files ≠ [] ∧ (∀ file ∈ a.files, file.side = .change) ∧
          ∃ version, s' = s.publish .change state version ∧
            version.files = state.view.files ++ a.files) := by
  obtain ⟨t, hprepare, hcommit⟩ := commit_eq_ok_iff.1 h
  obtain ⟨opened, hopen, hstage⟩ := bind_eq_ok hprepare
  obtain ⟨state, hstate, rfl⟩ := Store.openTransaction_eq_ok_iff.1 hopen
  obtain ⟨state', hstate', -, hresult⟩ := Store.commit_eq_ok_iff.1 hcommit
  refine ⟨state, hstate, ?_⟩
  rcases run_apply_eq_ok_iff.1 (stage_eq_ok_iff.1 hstage) with
    ⟨hfiles, rfl⟩ | ⟨hfiles, -, ⟨hsides, -⟩, rfl⟩
  · cases hresult
    exact .inl ⟨hfiles, rfl⟩
  · obtain rfl : state' = state := Except.ok.inj (hstate'.symm.trans hstate)
    cases hresult
    exact .inr ⟨hfiles, hsides, _, rfl, Store.nextVersion_files ..⟩

/-- Appends keep a store reachable, as long as the sums of its files are 64-bit numbers. -/
theorem reachable_commit {s s' : Store} {now : Int} {published : Option Snapshot}
    {before : SideView} (hs : s.Reachable) (hbefore : s.view .change = .ok before)
    (hfits : (FileDelta.applyAll before.files [.append a.files]).Fits)
    (h : a.commit metadata s now = .ok (published, s')) : s'.Reachable := by
  obtain ⟨t, hprepare, hcommit⟩ := commit_eq_ok_iff.1 h
  obtain ⟨opened, hopen, hstage⟩ := bind_eq_ok hprepare
  obtain ⟨state, -, rfl⟩ := Store.openTransaction_eq_ok_iff.1 hopen
  rcases run_apply_eq_ok_iff.1 (stage_eq_ok_iff.1 hstage) with ⟨-, rfl⟩ | ⟨-, -, -, rfl⟩
  · obtain ⟨state', -, -, hresult⟩ := Store.commit_eq_ok_iff.1 hcommit
    cases hresult
    exact hs
  · exact .commit hs hbefore hfits hcommit

end Append

end MergeOnRead
