import MergeOnRead.Proofs.Write.Staging

/-!
# Which writes are accepted

Whether a write on a transaction of its own is accepted depends on the write and on the table, and of
the store only on whether the side can be reached: nothing that was committed before matters.

Main statements: `Replacement.exists_commit_iff` and `Append.Valid.exists_commit`.
-/

namespace MergeOnRead

open Result

variable {metadata : Metadata} {s : Store} {state : SideState} {t t' : Transaction}

/-- A transaction that is opened on the current state of its side is accepted. -/
theorem Store.exists_commit_of_opened (hstate : s.reach t.side = .ok state)
    (hopened : t.baseSnapshot = state.view.snapshotId) (now : Int) :
    ∃ result, s.commit now t = .ok result :=
  ⟨_, commit_eq_ok_iff.2 ⟨state, hstate, hopened.symm, rfl⟩⟩

namespace Replacement

variable {r : Replacement} {marks : Watermarks}

/-- A replacement that a table accepts: its transaction id is positive, and its files are base files
with keys of the table. -/
structure Valid (metadata : Metadata) (r : Replacement) : Prop where
  id : ∃ id, r.transactionId = .ok id
  sides : ∀ file ∈ r.files, file.side = .base
  keys : metadata.checkPartitions r.files = .ok ()

theorem Valid.exists_stage (h : r.Valid metadata) (hside : t.side = .base) :
    ∃ marks t', r.stage metadata t = .ok (marks, t') ∧ t'.side = t.side ∧
      t'.baseSnapshot = t.baseSnapshot := by
  obtain ⟨id, hid⟩ := h.id
  simp only [stage_eq_ok_iff, run_apply_eq_ok_iff]
  by_cases hfiles : r.files = []
  · exact ⟨_, t, ⟨id, hid, rfl, .inl ⟨hfiles, rfl⟩⟩, rfl, rfl⟩
  · exact ⟨_, _, ⟨id, hid, rfl, .inr ⟨hfiles, hside, ⟨h.sides, h.keys⟩, rfl⟩⟩, rfl, rfl⟩

theorem valid_of_stage (h : r.stage metadata t = .ok (marks, t')) : r.Valid metadata := by
  obtain ⟨id, hid, -, ⟨hfiles, -⟩ | ⟨-, -, ⟨hsides, hkeys⟩, -⟩⟩ :=
    run_apply_eq_ok_iff.1 (stage_eq_ok_iff.1 h)
  · have hkeys : metadata.checkPartitions r.files = .ok () := by
      rw [hfiles]
      rfl
    exact ⟨⟨id, hid⟩, by simp [hfiles], hkeys⟩
  · exact ⟨⟨id, hid⟩, hsides, hkeys⟩

/-- A replacement of its own is accepted exactly if it is valid, whatever is in the store. -/
theorem exists_commit_iff (hstate : s.reach .base = .ok state) {now : Int} :
    (∃ result, r.commit metadata s now = .ok result) ↔ r.Valid metadata := by
  constructor
  · rintro ⟨⟨marks, s'⟩, h⟩
    obtain ⟨t, published, hprepare, -⟩ := commit_eq_ok_iff.1 h
    obtain ⟨opened, -, hstage⟩ := bind_eq_ok hprepare
    exact valid_of_stage hstage
  · intro h
    have hopen := Store.openTransaction_eq_ok_iff.2 ⟨state, hstate, rfl⟩
    obtain ⟨marks, t, hstage, hside, hopened⟩ :=
      h.exists_stage (t := .start .base state.view.snapshotId state.view.watermarks) rfl
    have hprepare : r.prepare metadata s = .ok (marks, t) := by
      rw [prepare, bind_of_eq_ok hopen]
      exact hstage
    have hreach : s.reach t.side = .ok state := hside ▸ hstate
    obtain ⟨⟨published, s'⟩, hcommit⟩ := Store.exists_commit_of_opened hreach hopened now
    exact ⟨(marks, s'), commit_eq_ok_iff.2 ⟨t, published, hprepare, hcommit⟩⟩

/-- A replacement on a base side that cannot be reached fails as the side does. -/
theorem commit_of_unreached {e : Error} (hstate : s.reach .base = .error e) (now : Int) :
    r.commit metadata s now = .error e := by
  have hprepare : r.prepare metadata s = .error e := by
    rw [prepare, Store.openTransaction, Store.view, hstate]
    rfl
  rw [commit, InPlace.result, perform, InPlace.run_get_bind, hprepare]
  rfl

end Replacement

namespace Append

variable {a : Append}

/-- An append that a table accepts: its files are change files with keys of the table. -/
structure Valid (metadata : Metadata) (a : Append) : Prop where
  sides : ∀ file ∈ a.files, file.side = .change
  keys : metadata.checkPartitions a.files = .ok ()

theorem Valid.exists_stage (h : a.Valid metadata) (hside : t.side = .change) :
    ∃ t', a.stage metadata t = .ok t' ∧ t'.side = t.side ∧ t'.baseSnapshot = t.baseSnapshot := by
  simp only [stage_eq_ok_iff, run_apply_eq_ok_iff]
  by_cases hfiles : a.files = []
  · exact ⟨t, .inl ⟨hfiles, rfl⟩, rfl, rfl⟩
  · exact ⟨_, .inr ⟨hfiles, hside, ⟨h.sides, h.keys⟩, rfl⟩, rfl, rfl⟩

/-- A valid append of its own is accepted, whatever is in the store. -/
theorem Valid.exists_commit (h : a.Valid metadata) (hstate : s.reach .change = .ok state)
    (now : Int) : ∃ result, a.commit metadata s now = .ok result := by
  have hopen := Store.openTransaction_eq_ok_iff.2 ⟨state, hstate, rfl⟩
  obtain ⟨t, hstage, hside, hopened⟩ :=
    h.exists_stage (t := .start .change state.view.snapshotId state.view.watermarks) rfl
  have hprepare : a.prepare metadata s = .ok t := by
    rw [prepare, bind_of_eq_ok hopen]
    exact hstage
  have hreach : s.reach t.side = .ok state := hside ▸ hstate
  obtain ⟨result, hcommit⟩ := Store.exists_commit_of_opened hreach hopened now
  exact ⟨result, commit_eq_ok_iff.2 ⟨t, hprepare, hcommit⟩⟩

end Append

end MergeOnRead
