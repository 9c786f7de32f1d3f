import Mathlib.Data.List.Nodup
import MergeOnRead.Proofs.Lists
import MergeOnRead.Proofs.Session.Basic

/-!
# What a session keeps

The work that is staged on a transaction has the effect of its calls, and a side has the history of
what was published on it: each version holds the contents that the publications up to it leave, one
made on the other. Both are kept by every step, since a commit is only accepted on the version that the
transaction was opened on.

Main statement: `Inv.run`, the invariant holds after any run of a new session.
-/

namespace MergeOnRead

open InPlace

/-! ## Staged work -/

/-- The contents that a transaction publishes on a side with the given live files. -/
def Transaction.contents (t : Transaction) (live : List File) : Contents :=
  ⟨t.changes.foldl StagedChange.applyTo live, t.watermarks⟩

theorem StagedChange.applyTo_replace_nil (live : List File) :
    (replace []).applyTo live = live := by
  simp [applyTo]

namespace StagingCall

variable {call : StagingCall} {t t' : Transaction}

/-- A call that succeeds has its effect on what the transaction will publish, and keeps what it was
opened on. -/
structure Staged (call : StagingCall) (t t' : Transaction) : Prop where
  side : t'.side = t.side
  baseSnapshot : t'.baseSnapshot = t.baseSnapshot
  baseWatermarks : t'.baseWatermarks = t.baseWatermarks
  contents : ∀ live, t'.contents live = call.applyTo (t.contents live)
  isEmpty : t'.isEmpty = (t.isEmpty && !call.stages)

theorem contents_concat (change : StagedChange) (live : List File) :
    Transaction.contents { t with changes := t.changes ++ [change] } live =
      ⟨change.applyTo (t.contents live).files, t.watermarks⟩ := by
  simp only [Transaction.contents, List.foldl_append, List.foldl_cons, List.foldl_nil]
  rfl

theorem isEmpty_concat (change : StagedChange) :
    Transaction.isEmpty { t with changes := t.changes ++ [change] } = false := by
  simp [Transaction.isEmpty]

theorem staged_change {files : List File} {change : List File → StagedChange}
    (h : (Staging.stage files change).run t = .ok () t') (hstages : call.stages = true)
    (happly : ∀ contents, call.applyTo contents =
      { contents with files := (change files).applyTo contents.files }) :
    Staged call t t' := by
  obtain ⟨-, rfl⟩ := Staging.run_stage_eq_ok_iff.1 h
  refine ⟨rfl, rfl, rfl, fun live => ?_, ?_⟩
  · rw [contents_concat, happly]
    rfl
  · rw [isEmpty_concat, hstages, Bool.not_true, Bool.and_false]

theorem staged_replace {metadata : Metadata} {r : Replacement} {marks : Watermarks}
    (h : (r.apply metadata).run t = .ok marks t') : Staged (.replace metadata r) t t' := by
  obtain ⟨id, hid, -, hcases⟩ := Replacement.run_apply_eq_ok_iff.1 h
  rcases hcases with ⟨hfiles, rfl⟩ | ⟨hfiles, -, -, rfl⟩
  · refine ⟨rfl, rfl, rfl, fun live => ?_, by simp [stages, hfiles]⟩
    -- without files nothing is replaced, and no partition asks for the id
    have hbatch : ∀ marks : Watermarks, marks.raiseAll (r.batch id) = marks := by
      intro marks
      rw [Replacement.batch, hfiles]
      rfl
    simp only [applyTo, hid, hfiles, StagedChange.applyTo_replace_nil, hbatch]
  · refine ⟨rfl, rfl, rfl, fun live => ?_, by simp [stages, Transaction.isEmpty, hfiles]⟩
    simp only [applyTo, hid, Transaction.contents, List.foldl_append, List.foldl_cons,
      List.foldl_nil]
    rfl

theorem staged_appendChanges {metadata : Metadata} {a : Append}
    (h : (a.apply metadata).run t = .ok () t') : Staged (.appendChanges metadata a) t t' := by
  rcases Append.run_apply_eq_ok_iff.1 h with ⟨hfiles, rfl⟩ | ⟨hfiles, -, -, rfl⟩
  · exact ⟨rfl, rfl, rfl, fun live => by simp [applyTo, hfiles], by simp [stages, hfiles]⟩
  · have hstages : a.files.isEmpty = false := List.isEmpty_eq_false_iff.2 hfiles
    refine ⟨rfl, rfl, rfl, fun live => ?_, by simp [stages, Transaction.isEmpty, hstages]⟩
    simp only [applyTo, Transaction.contents, List.foldl_append, List.foldl_cons, List.foldl_nil]
    rfl

theorem staged_of_stage (h : call.stage.run t = .ok () t') : Staged call t t' := by
  cases call with
  | replacePartitions files => exact staged_change h rfl fun _ => rfl
  | append files => exact staged_change h rfl fun _ => rfl
  | setWatermarks marks =>
    cases h
    refine ⟨rfl, rfl, rfl, fun _ => rfl, ?_⟩
    simp [stages, Transaction.isEmpty, Transaction.setWatermarks]
  | setSummary key value =>
    cases h
    refine ⟨rfl, rfl, rfl, fun _ => rfl, ?_⟩
    simp [stages, Transaction.isEmpty, Transaction.setSummary]
  | replace metadata r =>
    obtain ⟨marks, mid, hr, heq⟩ := run_bind_eq_ok_iff.1 h
    cases heq
    exact staged_replace hr
  | appendChanges metadata a => exact staged_appendChanges h

end StagingCall

/-! ## Open transactions -/

/-- The contents of the version that is current, if there is any. -/
def Contents.ofCurrent : Option Version → Contents
  | none => empty
  | some version => version.contents

theorem SideState.contents_view (state : SideState) :
    state.view.contents = Contents.ofCurrent state.current := by
  unfold view
  cases state.current <;> rfl

namespace Handle

/-- What is staged on a transaction is the effect of its calls on what it was opened on. -/
structure Valid (handle : Handle) : Prop where
  baseSnapshot : handle.transaction.baseSnapshot = handle.openedOn.map (·.snapshot.id)
  baseWatermarks :
    handle.transaction.baseWatermarks = (Contents.ofCurrent handle.openedOn).watermarks
  contents : ∀ live,
    handle.transaction.contents live = handle.applyTo ⟨live, handle.transaction.baseWatermarks⟩
  isEmpty : handle.transaction.isEmpty = !handle.stages

theorem valid_opened {side : Side} {state : SideState} :
    Valid ⟨state.current,
      .start side state.view.snapshotId state.view.watermarks, []⟩ where
  baseSnapshot := state.snapshotId_view
  baseWatermarks := congrArg Contents.watermarks state.contents_view
  contents _ := rfl
  isEmpty := rfl

theorem Valid.stage {handle : Handle} {call : StagingCall} {t : Transaction} (h : handle.Valid)
    (hcall : call.stage.run handle.transaction = .ok () t) :
    Valid { handle with transaction := t, calls := handle.calls ++ [call] } := by
  have hstaged := StagingCall.staged_of_stage hcall
  refine ⟨?_, ?_, fun live => ?_, ?_⟩
  · rw [hstaged.baseSnapshot, h.baseSnapshot]
  · rw [hstaged.baseWatermarks, h.baseWatermarks]
  · rw [hstaged.contents, h.contents, hstaged.baseWatermarks, applyTo, applyTo, List.foldl_append]
    rfl
  · rw [hstaged.isEmpty, h.isEmpty, stages, stages, List.any_append]
    simp

/-- Where a transaction is committed on what it was opened on, the contents after the commit are the
effect of its calls. -/
theorem Valid.nextVersion_contents {handle : Handle} (h : handle.Valid) {state : SideState}
    (hcurrent : state.current = handle.openedOn) (id : SnapshotId) (now : Int) :
    (Store.nextVersion state id now handle.transaction).contents =
      handle.applyTo (Contents.ofCurrent state.current) := by
  have hview : state.view.contents = Contents.ofCurrent state.current := state.contents_view
  have hnext : (Store.nextVersion state id now handle.transaction).contents =
      handle.transaction.contents state.view.files := by
    rw [Version.contents, Store.nextVersion_files]
    rfl
  rw [hnext, h.contents, h.baseWatermarks, ← hcurrent, ← hview]
  rfl

end Handle

/-! ## Histories -/

/-- A history is that of publications: it has their snapshots, each version has the contents that the
publications up to it leave, and the snapshots form a chain. -/
structure Publication.Records (publications : List Publication) (history : List Version) : Prop where
  snapshots : history.map (·.snapshot) = publications.map (·.snapshot)
  contents : ∀ n version, history[n]? = some version →
    version.contents = Contents.after (publications.take (n + 1))
  parent : ∀ n version, history[n]? = some version →
    version.snapshot.parent = (history.take n).getLast?.map (·.snapshot.id)

namespace Publication

variable {publications : List Publication} {history : List Version}

theorem records_nil : Records [] [] := ⟨rfl, by simp, by simp⟩

theorem Records.length_eq (h : Records publications history) :
    history.length = publications.length := by
  simpa using congrArg List.length h.snapshots

theorem after_concat (publication : Publication) :
    Contents.after (publications ++ [publication]) =
      publication.handle.applyTo (Contents.after publications) := by
  rw [Contents.after, Contents.after, List.foldl_append]
  rfl

/-- A version is what its publication makes of the version before. -/
theorem Records.contents_succ (h : Records publications history) {n : Nat} {v w : Version}
    (hv : history[n]? = some v) (hw : history[n + 1]? = some w) :
    ∃ publication ∈ publications, w.contents = publication.handle.applyTo v.contents := by
  obtain ⟨hlt, -⟩ := List.getElem?_eq_some_iff.1 hw
  rw [h.length_eq] at hlt
  refine ⟨publications[n + 1], List.getElem_mem hlt, ?_⟩
  rw [h.contents n v hv, h.contents (n + 1) w hw, ← after_concat,
    List.take_append_getElem hlt]

/-- The latest version has the contents that all publications leave. -/
theorem Records.contents_current (h : Records publications history) :
    Contents.ofCurrent history.getLast? = Contents.after publications := by
  rcases List.eq_nil_or_concat' history with rfl | ⟨before, version, rfl⟩
  · have hnil : publications = [] := List.length_eq_zero_iff.1 h.length_eq.symm
    rw [hnil]
    rfl
  · have hlength := h.length_eq
    rw [List.length_append, List.length_singleton] at hlength
    have hcontents := h.contents before.length version (by simp)
    rw [hlength, List.take_length] at hcontents
    rw [List.getLast?_concat, ← hcontents]
    rfl

/-- A publication on the latest version adds the next one. -/
theorem Records.concat (h : Records publications history) {publication : Publication}
    {version : Version} (hsnapshot : version.snapshot = publication.snapshot)
    (hcontents : version.contents =
      publication.handle.applyTo (Contents.ofCurrent history.getLast?))
    (hparent : version.snapshot.parent = history.getLast?.map (·.snapshot.id)) :
    Records (publications ++ [publication]) (history ++ [version]) := by
  have hlength := h.length_eq
  refine ⟨?_, fun n v hv => ?_, fun n v hv => ?_⟩
  · rw [List.map_append, List.map_append, h.snapshots, List.map_singleton, List.map_singleton,
      hsnapshot]
  · rcases getElem?_concat_cases hv with ⟨hlt, hv⟩ | ⟨rfl, rfl⟩
    · rw [h.contents n v hv, List.take_append_of_le_length (by omega)]
    · rw [hcontents, h.contents_current, hlength, List.take_of_length_le (by simp), after_concat]
  · rcases getElem?_concat_cases hv with ⟨hlt, hv⟩ | ⟨rfl, rfl⟩
    · rw [h.parent n v hv, List.take_append_of_le_length (by omega)]
    · rw [hparent, List.take_left]

end Publication

/-! ## Sessions -/

namespace Session

/-- What holds of a session after any steps: snapshot ids are handed out in the order of the commits,
each side has the history of what was published on it, and each open transaction holds the work of its
calls and was opened on a version of its side. -/
structure Inv (session : Session) : Prop where
  issued : session.store.ids.issued = session.log.length
  ids : ∀ (n : Nat) (publication : Publication), session.log[n]? = some publication →
    publication.snapshot.id.val = n + 1
  records : ∀ side state, session.store.side? side = some state →
    Publication.Records (session.publishedOn side) state.history
  valid : ∀ handle ∈ session.handles, handle.Valid
  opened : ∀ handle ∈ session.handles, ∀ state, session.store.side? handle.side = some state →
    ∀ version, handle.openedOn = some version → version ∈ state.history

variable {session : Session}

theorem inv_start (sides : List Side) : (start sides).Inv where
  issued := rfl
  ids := by simp [start]
  records side state h := by
    rw [Store.eq_created_of_side? h]
    exact Publication.records_nil
  valid := by simp [start]
  opened := by simp [start]

theorem Inv.nodup_ids (h : session.Inv) :
    (session.log.map (·.snapshot.id)).Nodup := by
  refine List.nodup_iff_getElem?_ne_getElem?.2 fun i j hij hj heq => ?_
  rw [List.length_map] at hj
  have hfirst := List.getElem?_eq_getElem (Nat.lt_trans hij hj)
  have hsecond := List.getElem?_eq_getElem hj
  rw [List.getElem?_map, List.getElem?_map, hfirst, hsecond, Option.map_some, Option.map_some,
    Option.some.injEq] at heq
  have hid := h.ids i _ hfirst
  rw [heq, h.ids j _ hsecond] at hid
  omega

/-- Versions of a side with the same snapshot id are the same. -/
theorem Inv.version_eq (h : session.Inv) {side : Side} {state : SideState}
    (hstate : session.store.side? side = some state) {v w : Version} (hv : v ∈ state.history)
    (hw : w ∈ state.history) (hid : v.snapshot.id = w.snapshot.id) : v = w := by
  have hnodup : (state.history.map (·.snapshot.id)).Nodup := by
    have hmap : state.history.map (·.snapshot.id) =
        (session.publishedOn side).map (·.snapshot.id) := by
      have hids := congrArg (List.map Snapshot.id) (h.records side state hstate).snapshots
      rwa [List.map_map, List.map_map] at hids
    rw [hmap]
    exact h.nodup_ids.sublist (List.filter_sublist.map _)
  exact List.inj_on_of_nodup_map hnodup hv hw hid

/-- The snapshot of a side is still that of an open transaction exactly when nothing was committed
since. -/
theorem Inv.current_iff (h : session.Inv) {handle : Handle} (hhandle : handle ∈ session.handles)
    {state : SideState} (hstate : session.store.side? handle.side = some state) :
    state.view.snapshotId = handle.transaction.baseSnapshot ↔ state.current = handle.openedOn := by
  rw [SideState.snapshotId_view, (h.valid handle hhandle).baseSnapshot]
  constructor
  · intro heq
    cases hcurrent : state.current with
    | none =>
      rw [hcurrent, Option.map_none] at heq
      exact (Option.map_eq_none_iff.1 heq.symm).symm
    | some v =>
      rw [hcurrent, Option.map_some] at heq
      obtain ⟨w, hw, hid⟩ := Option.map_eq_some_iff.1 heq.symm
      -- both are versions of the side, and no two versions have the same id
      have hmem : v ∈ state.history := List.mem_of_getLast? hcurrent
      rw [hw, h.version_eq hstate hmem (h.opened handle hhandle state hstate w hw) hid.symm]
  · intro heq
    rw [heq]

/-- A commit of an open transaction is accepted exactly when its side can be reached and nothing was
committed there since the transaction was opened. -/
theorem Inv.commit_eq_ok_iff (h : session.Inv) {handle : Handle}
    (hhandle : handle ∈ session.handles) {now : Int} {result : Option Snapshot × Store} :
    session.store.commit now handle.transaction = .ok result ↔
      ∃ state, session.store.reach handle.side = .ok state ∧ state.current = handle.openedOn ∧
        result =
          if handle.stages then
            let version :=
              Store.nextVersion state session.store.ids.next.1 now handle.transaction
            (some version.snapshot, session.store.publish handle.side state version)
          else (none, session.store) := by
  rw [Store.commit_eq_ok_iff]
  refine exists_congr fun state => and_congr_right fun hreach => ?_
  rw [h.current_iff hhandle (Store.reach_eq_ok_iff.1 hreach).1, (h.valid handle hhandle).isEmpty]
  cases handle.stages <;> rfl

/-- A store in which the sides that exist have the histories they had keeps the invariant. -/
theorem Inv.withStore (h : session.Inv) {store : Store} (hids : store.ids = session.store.ids)
    (hsides : ∀ side state, store.side? side = some state →
      ∃ before, session.store.side? side = some before ∧ state.history = before.history) :
    Inv { session with store } where
  issued := by
    rw [hids]
    exact h.issued
  ids := h.ids
  records side state hstate := by
    obtain ⟨before, hbefore, hhistory⟩ := hsides side state hstate
    rw [hhistory]
    exact h.records side before hbefore
  valid := h.valid
  opened handle hhandle state hstate version hversion := by
    obtain ⟨before, hbefore, hhistory⟩ := hsides handle.side state hstate
    rw [hhistory]
    exact h.opened handle hhandle before hbefore version hversion

theorem Inv.setUnavailable (h : session.Inv) (side : Side) (unavailable : Bool) :
    Inv { session with store := session.store.setUnavailable side unavailable } := by
  refine h.withStore (Store.ids_setSide _) fun other state hstate => ?_
  rw [Store.setUnavailable, Store.side?_setSide] at hstate
  split at hstate
  · rename_i hother
    obtain ⟨before, hbefore, rfl⟩ := Option.map_eq_some_iff.1 hstate
    exact ⟨before, hother ▸ hbefore, rfl⟩
  · exact ⟨state, hstate, rfl⟩

theorem Inv.dropSide (h : session.Inv) (side : Side) :
    Inv { session with store := session.store.dropSide side } := by
  refine h.withStore (Store.ids_setSide _) fun other state hstate => ?_
  rw [Store.dropSide, Store.side?_setSide] at hstate
  split at hstate
  · cases hstate
  · exact ⟨state, hstate, rfl⟩

theorem Inv.openOn (h : session.Inv) (side : Side) : (session.openOn side).Inv := by
  unfold Session.openOn
  split
  · exact h
  · rename_i t ht
    obtain ⟨state, hstate, rfl⟩ := Store.openTransaction_eq_ok_iff.1 ht
    obtain ⟨hside, -⟩ := Store.reach_eq_ok_iff.1 hstate
    refine ⟨h.issued, h.ids, h.records, fun handle hhandle => ?_, ?_⟩
    · rcases List.mem_append.1 hhandle with hhandle | hhandle
      · exact h.valid handle hhandle
      · rw [List.mem_singleton.1 hhandle, hside]
        exact Handle.valid_opened
    · intro handle hhandle state' hstate' version hversion
      rcases List.mem_append.1 hhandle with hhandle | hhandle
      · exact h.opened handle hhandle state' hstate' version hversion
      -- a new transaction is opened on the last version of the history
      · rw [List.mem_singleton.1 hhandle] at hstate' hversion
        obtain rfl : state = state' := Option.some.inj (hside.symm.trans hstate')
        rw [hside] at hversion
        exact List.mem_of_getLast? hversion

theorem Inv.stage (h : session.Inv) (number : Nat) (call : StagingCall) :
    (session.stage number call).Inv := by
  rcases session.stage_cases number call with heq | ⟨handle, t, hhandle, ht, heq⟩
  · rw [heq]
    exact h
  · rw [heq]
    have hmem : handle ∈ session.handles := List.mem_of_getElem? hhandle
    have hside := (StagingCall.staged_of_stage ht).side
    refine ⟨h.issued, h.ids, h.records, fun other hother => ?_, fun other hother => ?_⟩
    · rcases List.mem_or_eq_of_mem_set hother with hother | rfl
      · exact h.valid other hother
      · exact (h.valid handle hmem).stage ht
    · rcases List.mem_or_eq_of_mem_set hother with hother | rfl
      · exact h.opened other hother
      · intro state hstate version hversion
        rw [Handle.side, hside] at hstate
        exact h.opened handle hmem state hstate version hversion

/-- A commit that is accepted with staged work keeps the invariant. -/
theorem Inv.publish (h : session.Inv) {handle : Handle} (hhandle : handle ∈ session.handles)
    {state : SideState} (hstate : session.store.side? handle.side = some state)
    (hcurrent : state.current = handle.openedOn) (now : Int) :
    let version := Store.nextVersion state session.store.ids.next.1 now handle.transaction
    Inv ⟨session.store.publish handle.side state version, session.handles,
      session.log ++ [⟨handle, version.snapshot⟩]⟩ := by
  intro version
  refine ⟨?_, ?_, ?_, h.valid, ?_⟩
  · change session.store.ids.issued + 1 = _
    rw [h.issued, List.length_append, List.length_singleton]
  · intro n publication hn
    rcases getElem?_concat_cases hn with ⟨-, hn⟩ | ⟨rfl, rfl⟩
    · exact h.ids n publication hn
    · change (session.store.ids.issued : Int) + 1 = _
      rw [h.issued]
  · intro side state' hstate'
    rw [Store.side?_publish] at hstate'
    unfold publishedOn
    rw [List.filter_append]
    split at hstate'
    · rename_i hside
      cases hstate'
      subst hside
      -- the log of this side has one publication more, made on the current version
      rw [List.filter_cons_of_pos (by simp), List.filter_nil]
      refine (h.records _ state hstate).concat rfl ?_ ?_
      · exact (h.valid handle hhandle).nextVersion_contents hcurrent _ _
      · exact state.snapshotId_view
    · rename_i hside
      rw [List.filter_cons_of_neg (by simpa using Ne.symm hside), List.filter_nil,
        List.append_nil]
      exact h.records side state' hstate'
  · intro other hother state' hstate' v hv
    rw [Store.side?_publish] at hstate'
    split at hstate'
    · rename_i hside
      cases hstate'
      -- what other transactions were opened on stays in the history
      rw [← hside] at hstate
      exact List.mem_append_left _ (h.opened other hother state hstate v hv)
    · exact h.opened other hother state' hstate' v hv

theorem Inv.commit (h : session.Inv) (number : Nat) (now : Int) :
    (session.commit number now).Inv := by
  cases hhandle : session.handles[number]? with
  | none =>
    rw [Session.commit, hhandle]
    exact h
  | some handle =>
    have hmem : handle ∈ session.handles := List.mem_of_getElem? hhandle
    rw [commit_eq hhandle]
    split
    · exact h
    · rename_i store hcommit
      obtain ⟨state, -, -, hresult⟩ := (h.commit_eq_ok_iff hmem).1 hcommit
      split at hresult
      · cases hresult
      · cases hresult
        exact h
    · rename_i snapshot store hcommit
      obtain ⟨state, hreach, hcurrent, hresult⟩ := (h.commit_eq_ok_iff hmem).1 hcommit
      split at hresult
      · cases hresult
        exact h.publish hmem (Store.reach_eq_ok_iff.1 hreach).1 hcurrent now
      · cases hresult

theorem Inv.step (h : session.Inv) (action : Action) : (session.step action).Inv := by
  cases action with
  | openOn side => exact h.openOn side
  | stage number call => exact h.stage number call
  | commit number now => exact h.commit number now
  | setUnavailable side unavailable => exact h.setUnavailable side unavailable
  | dropSide side => exact h.dropSide side

/-- The invariant holds after any run of a new session. -/
theorem Inv.run (h : session.Inv) (actions : List Action) : (session.run actions).Inv := by
  induction actions generalizing session with
  | nil => exact h
  | cons action actions ih => exact ih (h.step action)

end Session

end MergeOnRead
