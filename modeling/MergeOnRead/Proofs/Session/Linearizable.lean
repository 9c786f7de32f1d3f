import MergeOnRead.Proofs.Session.Invariant

/-!
# Commits are linearizable

However transactions on one store are interleaved, what a side holds is what its published
transactions leave when each is made at once, in the order of their commits. No update is lost, since
a commit is accepted only if nothing was committed to its side since its transaction was opened; and
what is not accepted, or has nothing staged, leaves the store as it is.

Main statement: `linearizable_run`.
-/

namespace MergeOnRead.Session

variable {session : Session} {handle : Handle} {number : Nat} {now : Int}

def Accepts (session : Session) (handle : Handle) (now : Int) : Prop :=
  ∃ result, session.store.commit now handle.transaction = .ok result

/-- Commits of open transactions have the effect of one transaction after the other. -/
structure Linearizable (session : Session) : Prop where
  /-- A commit is accepted exactly when its side exists, can be reached and is at the version that
  the transaction was opened on. -/
  accepts_iff : ∀ handle ∈ session.handles, ∀ now, session.Accepts handle now ↔
    ∃ state, session.store.side? handle.side = some state ∧ state.unavailable = false ∧
      state.current = handle.openedOn
  /-- A commit that is not accepted, or has nothing staged, leaves store and log as they are. -/
  unchanged : ∀ (number : Nat) (now : Int) (handle : Handle), session.handles[number]? = some handle →
    (¬session.Accepts handle now ∨ handle.stages = false) →
    (session.commit number now).store = session.store ∧
      (session.commit number now).log = session.log
  /-- Any other commit is published, with the number of the publication as its snapshot id. -/
  published : ∀ (number : Nat) (now : Int) (handle : Handle), session.handles[number]? = some handle →
    session.Accepts handle now → handle.stages = true →
    ∃ snapshot : Snapshot, (session.commit number now).log = session.log ++ [⟨handle, snapshot⟩] ∧
      snapshot.id.val = session.log.length + 1
  /-- A commit to one side leaves the other side as it is. -/
  other_side : ∀ (number : Nat) (now : Int) (handle : Handle), session.handles[number]? = some handle →
    ∀ side, side ≠ handle.side →
    (session.commit number now).store.side? side = session.store.side? side
  /-- The snapshots of the store are numbered in the order of their publication. -/
  ids : ∀ (n : Nat) (publication : Publication), session.log[n]? = some publication →
    publication.snapshot.id.val = n + 1
  /-- A side that was not dropped holds what its publications leave, one made after the other. -/
  contents : ∀ side state, session.store.side? side = some state →
    state.view.contents = Contents.after (session.publishedOn side)
  /-- Its history has the snapshots of these publications, each with the one before as its parent. -/
  records : ∀ side state, session.store.side? side = some state →
    Publication.Records (session.publishedOn side) state.history

theorem Inv.accepts_iff (h : session.Inv) (hhandle : handle ∈ session.handles) :
    session.Accepts handle now ↔
      ∃ state, session.store.side? handle.side = some state ∧ state.unavailable = false ∧
        state.current = handle.openedOn := by
  unfold Accepts
  constructor
  · rintro ⟨result, hcommit⟩
    obtain ⟨state, hreach, hcurrent, -⟩ := (h.commit_eq_ok_iff hhandle).1 hcommit
    obtain ⟨hside, havailable⟩ := Store.reach_eq_ok_iff.1 hreach
    exact ⟨state, hside, havailable, hcurrent⟩
  · rintro ⟨state, hside, havailable, hcurrent⟩
    exact ⟨_, (h.commit_eq_ok_iff hhandle).2
      ⟨state, Store.reach_eq_ok_iff.2 ⟨hside, havailable⟩, hcurrent, rfl⟩⟩

theorem commit_of_not_accepts (hhandle : session.handles[number]? = some handle)
    (h : ¬session.Accepts handle now) : session.commit number now = session := by
  rw [commit_eq hhandle]
  cases hcommit : session.store.commit now handle.transaction with
  | error e => rfl
  | ok result => exact absurd ⟨result, hcommit⟩ h

/-- What a commit that is accepted does to the session. -/
theorem Inv.commit_of_accepts (h : session.Inv) (hhandle : session.handles[number]? = some handle)
    (haccepts : session.Accepts handle now) :
    ∃ state, session.store.reach handle.side = .ok state ∧ state.current = handle.openedOn ∧
      session.commit number now =
        if handle.stages then
          let version := Store.nextVersion state session.store.ids.next.1 now handle.transaction
          ⟨session.store.publish handle.side state version, session.handles,
            session.log ++ [⟨handle, version.snapshot⟩]⟩
        else session := by
  obtain ⟨result, hcommit⟩ := haccepts
  obtain ⟨state, hreach, hcurrent, rfl⟩ :=
    (h.commit_eq_ok_iff (List.mem_of_getElem? hhandle)).1 hcommit
  refine ⟨state, hreach, hcurrent, ?_⟩
  rw [commit_eq hhandle, hcommit]
  cases handle.stages <;> rfl

theorem Inv.linearizable (h : session.Inv) : session.Linearizable where
  accepts_iff handle hhandle now := h.accepts_iff hhandle
  unchanged number now handle hhandle hunchanged := by
    by_cases haccepts : session.Accepts handle now
    · obtain ⟨state, -, -, hcommit⟩ := h.commit_of_accepts hhandle haccepts
      rw [hcommit, hunchanged.resolve_left (not_not.2 haccepts)]
      exact ⟨rfl, rfl⟩
    · rw [commit_of_not_accepts hhandle haccepts]
      exact ⟨rfl, rfl⟩
  published number now handle hhandle haccepts hstages := by
    obtain ⟨state, -, -, hcommit⟩ := h.commit_of_accepts hhandle haccepts
    rw [hcommit, hstages]
    refine ⟨_, rfl, ?_⟩
    change (session.store.ids.issued : Int) + 1 = _
    rw [h.issued]
  other_side number now handle hhandle side hside := by
    by_cases haccepts : session.Accepts handle now
    · obtain ⟨state, -, -, hcommit⟩ := h.commit_of_accepts hhandle haccepts
      rw [hcommit]
      cases handle.stages with
      | false => rfl
      | true => exact (Store.side?_publish _ _).trans (if_neg hside)
    · rw [commit_of_not_accepts hhandle haccepts]
  ids := h.ids
  contents side state hstate := by
    rw [state.contents_view]
    exact (h.records side state hstate).contents_current
  records := h.records

/-- Commits are linearizable after any steps of a new session, in any order: any number of
transactions on both sides, with any calls, committed at any time, also while sides become
unreachable or are dropped. -/
theorem linearizable_run (sides : List Side) (actions : List Action) :
    ((start sides).run actions).Linearizable :=
  ((inv_start sides).run actions).linearizable

namespace StaleWriter

def file (path : String) : File := .base path [] 10 1

/-- Two transactions are opened on the empty side, and the first is committed. Then two more are
opened, of which the last stages nothing. -/
def actions : List Action :=
  [.openOn .base, .openOn .base, .stage 0 (.append [file "first"]),
    .stage 1 (.append [file "stale"]), .commit 0 100, .openOn .base, .openOn .base,
    .stage 2 (.append [file "second"])]

/-- The second transaction is stale, so its commit is a conflict and leaves the store as it is. The
third is published as the second snapshot. The last is accepted, and publishes nothing. -/
theorem linearizable_actions :
    let session := (start [.base]).run actions
    ∃ stale second idle, session.handles[1]? = some stale ∧ session.handles[2]? = some second ∧
      session.handles[3]? = some idle ∧
      (stale.stages = true ∧
        session.store.commit 200 stale.transaction = .error (.conflict .base none (some ⟨1⟩)) ∧
        (session.commit 1 200).store = session.store ∧
        (session.commit 1 200).log = session.log) ∧
      (session.Accepts second 200 ∧ ∃ snapshot : Snapshot,
        (session.commit 2 200).log = session.log ++ [⟨second, snapshot⟩] ∧ snapshot.id.val = 2) ∧
      session.Accepts idle 200 ∧ (session.commit 3 200).store = session.store ∧
        (session.commit 3 200).log = session.log := by
  intro session
  have h : session.Linearizable := linearizable_run [.base] actions
  have hconflict : session.store.commit 200 (session.handles.get ⟨1, by decide⟩).transaction =
      .error (.conflict .base none (some ⟨1⟩)) := rfl
  have hstale : ¬session.Accepts (session.handles.get ⟨1, by decide⟩) 200 := by
    rintro ⟨result, hresult⟩
    rw [hconflict] at hresult
    cases hresult
  have hsecond : session.Accepts (session.handles.get ⟨2, by decide⟩) 200 := ⟨_, rfl⟩
  have hidle : session.Accepts (session.handles.get ⟨3, by decide⟩) 200 := ⟨_, rfl⟩
  refine ⟨_, _, _, rfl, rfl, rfl, ⟨rfl, hconflict, ?_⟩, ⟨hsecond, ?_⟩, hidle, ?_⟩
  · exact h.unchanged 1 200 _ rfl (.inl hstale)
  · exact h.published 2 200 _ rfl hsecond rfl
  · exact h.unchanged 3 200 _ rfl (.inr rfl)

end StaleWriter

end MergeOnRead.Session
