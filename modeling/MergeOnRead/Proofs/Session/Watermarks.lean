import MergeOnRead.Proofs.Session.Linearizable

/-!
# Watermarks over committed replacements

As long as nobody sets watermarks by hand, the watermark of a partition is the highest id of the
replacements that wrote the partition in published transactions, and is unset without any, whatever
else is staged, rejected or never committed in between. A transaction computes its watermarks from those
that it was opened on, so this rests on commits being linearizable.

Main statement: `marksHighest_run`.
-/

namespace MergeOnRead

open Result

namespace Watermarks

variable {marks marks' : Watermarks} {partition : Partition.Key}

theorem raised_append (mark : Option TransactionId) (ids more : List TransactionId) :
    raised mark (ids ++ more) = raised (raised mark ids) more :=
  List.foldl_append

/-- A mark stays, and only moves up. -/
theorem exists_le_raised (mark : TransactionId) (ids : List TransactionId) :
    ∃ other, raised (some mark) ids = some other ∧ mark ≤ other := by
  induction ids generalizing mark with
  | nil => exact ⟨mark, rfl, le_refl mark⟩
  | cons id ids ih =>
    obtain ⟨other, hother, hle⟩ := ih (max mark id)
    refine ⟨other, hother, le_trans ?_ hle⟩
    rw [max_def]
    split
    · assumption
    · exact le_refl mark

/-- Raising a watermark never makes its number smaller. -/
theorem number_le_of_raised {ids : List TransactionId}
    (h : marks'.get? partition = raised (marks.get? partition) ids) :
    marks.number partition ≤ marks'.number partition := by
  unfold number
  cases hmark : marks.get? partition with
  | none =>
    cases marks'.get? partition with
    | none => exact Int.le_refl _
    | some other =>
      have := other.positive
      simp only [unset]
      omega
  | some mark =>
    rw [hmark] at h
    obtain ⟨other, hother, hle⟩ := exists_le_raised mark ids
    rw [h, hother]
    exact Int.ofNat_le.2 hle

/-- A partition shows the number of an unset watermark exactly when it has none. -/
theorem number_eq_unset_iff : marks.number partition = unset ↔ marks.get? partition = none := by
  unfold number
  cases marks.get? partition with
  | none => simp
  | some mark =>
    have hne : (mark.val : Int) ≠ unset := by
      unfold unset
      omega
    exact ⟨fun h => absurd h hne, nofun⟩

/-- The highest of some ids is unset exactly when there are none. -/
theorem IsHighest.eq_none_iff {ids : List TransactionId} {mark : Option TransactionId}
    (h : IsHighest ids mark) : mark = none ↔ ids = [] := by
  cases mark with
  | none => exact ⟨fun _ => h, fun _ => rfl⟩
  | some mark =>
    constructor
    · exact nofun
    · intro hids
      rw [hids] at h
      exact absurd h.1 List.not_mem_nil

end Watermarks

namespace StagingCall

/-- Whether a call sets watermarks by hand. -/
def setsWatermarks : StagingCall → Bool
  | setWatermarks _ => true
  | _ => false

/-- The id that a replacement gives to a partition, if the call is one that writes the partition. -/
def replacementId? (partition : Partition.Key) : StagingCall → Option TransactionId
  | replace _ r => if r.Writes partition then r.transactionId.toOption else none
  | _ => none

/-- A call that does not set watermarks raises those that its replacement writes. -/
theorem get?_applyTo {call : StagingCall} (h : call.setsWatermarks = false) (contents : Contents)
    (partition : Partition.Key) :
    (call.applyTo contents).watermarks.get? partition =
      Watermarks.raised (contents.watermarks.get? partition)
        (call.replacementId? partition).toList := by
  cases call with
  | setWatermarks marks => cases h
  | replace metadata r =>
    cases hid : r.transactionId with
    | error e =>
      simp only [applyTo, replacementId?, hid, Except.toOption, ite_self]
      rfl
    | ok id =>
      simp only [applyTo, replacementId?, hid, Except.toOption]
      rw [Watermarks.get?_raiseAll, Replacement.get?_batch]
  | replacePartitions files => rfl
  | append files => rfl
  | setSummary key value => rfl
  | appendChanges metadata a => rfl

end StagingCall

/-- The ids that the replacements of a transaction give to a partition, in the order of the calls. -/
def Handle.replacementIds (handle : Handle) (partition : Partition.Key) : List TransactionId :=
  handle.calls.filterMap (·.replacementId? partition)

/-- The ids that the replacements of publications give to a partition. -/
def Publication.replacementIds (publications : List Publication) (partition : Partition.Key) :
    List TransactionId :=
  publications.flatMap fun publication => publication.handle.replacementIds partition

theorem Handle.get?_applyTo {handle : Handle} (h : ∀ call ∈ handle.calls, call.setsWatermarks = false)
    (contents : Contents) (partition : Partition.Key) :
    (handle.applyTo contents).watermarks.get? partition =
      Watermarks.raised (contents.watermarks.get? partition) (handle.replacementIds partition) := by
  unfold applyTo replacementIds
  generalize handle.calls = calls at h
  induction calls generalizing contents with
  | nil => rfl
  | cons call calls ih =>
    obtain ⟨hcall, hcalls⟩ := List.forall_mem_cons.1 h
    rw [List.foldl_cons, ih _ hcalls, StagingCall.get?_applyTo hcall, ← Watermarks.raised_append]
    cases hid : call.replacementId? partition with
    | none => rw [List.filterMap_cons_none hid, Option.toList_none, List.nil_append]
    | some id => rw [List.filterMap_cons_some hid]; rfl

/-- What publications leave as the watermark of a partition. -/
theorem Contents.get?_after {publications : List Publication}
    (h : ∀ publication ∈ publications, ∀ call ∈ publication.handle.calls,
      call.setsWatermarks = false) (partition : Partition.Key) :
    (after publications).watermarks.get? partition =
      Watermarks.raised none (Publication.replacementIds publications partition) := by
  induction publications using List.reverseRecOn with
  | nil => rfl
  | append_singleton publications publication ih =>
    obtain ⟨hbefore, hlast⟩ := List.forall_mem_append.1 h
    have hcalls := hlast publication (List.mem_singleton_self _)
    rw [Publication.after_concat, Handle.get?_applyTo hcalls, ih hbefore,
      ← Watermarks.raised_append]
    simp [Publication.replacementIds]

namespace Session

variable {session : Session}

/-! ## Calls of a session -/

/-- A property of all calls that were made in a session. -/
structure AllCalls (P : StagingCall → Prop) (session : Session) : Prop where
  handles : ∀ handle ∈ session.handles, ∀ call ∈ handle.calls, P call
  log : ∀ publication ∈ session.log, ∀ call ∈ publication.handle.calls, P call

/-- A property of the calls that are still to be made holds of all calls in the end. -/
theorem AllCalls.step {P : StagingCall → Prop} (h : session.AllCalls P) {action : Action}
    (haction : ∀ number call, action = .stage number call → P call) :
    (session.step action).AllCalls P := by
  cases action with
  | openOn side =>
    rw [Session.step, openOn]
    split
    · exact h
    · refine ⟨fun handle hhandle => ?_, h.log⟩
      rcases List.mem_append.1 hhandle with hhandle | hhandle
      · exact h.handles handle hhandle
      · rw [List.mem_singleton.1 hhandle]
        exact fun _ hcall => absurd hcall List.not_mem_nil
  | stage number call =>
    rw [Session.step]
    rcases session.stage_cases number call with heq | ⟨handle, t, hhandle, -, heq⟩
    · rw [heq]
      exact h
    · rw [heq]
      refine ⟨fun other hother => ?_, h.log⟩
      rcases List.mem_or_eq_of_mem_set hother with hother | rfl
      · exact h.handles other hother
      · intro other hother
        rcases List.mem_append.1 hother with hother | hother
        · exact h.handles handle (List.mem_of_getElem? hhandle) other hother
        · rw [List.mem_singleton.1 hother]
          exact haction number call rfl
  | commit number now =>
    rw [Session.step, commit]
    split
    · exact h
    · rename_i handle hhandle
      split
      · exact ⟨h.handles, h.log⟩
      · exact ⟨h.handles, h.log⟩
      · refine ⟨h.handles, fun publication hpublication => ?_⟩
        rcases List.mem_append.1 hpublication with hpublication | hpublication
        · exact h.log publication hpublication
        · rw [List.mem_singleton.1 hpublication]
          exact h.handles handle (List.mem_of_getElem? hhandle)
  | setUnavailable side unavailable => exact ⟨h.handles, h.log⟩
  | dropSide side => exact ⟨h.handles, h.log⟩

theorem AllCalls.run {P : StagingCall → Prop} (h : session.AllCalls P) {actions : List Action}
    (hactions : ∀ number call, .stage number call ∈ actions → P call) :
    (session.run actions).AllCalls P := by
  induction actions generalizing session with
  | nil => exact h
  | cons action actions ih =>
    refine ih (h.step fun number call heq => ?_) fun number call hmem => ?_
    · exact hactions number call (heq ▸ List.mem_cons_self)
    · exact hactions number call (List.mem_cons_of_mem _ hmem)

/-! ## Watermarks of a session -/

/-- The ids that the replacements in published transactions on the base side give to a partition. -/
def replacementIds (session : Session) (partition : Partition.Key) : List TransactionId :=
  Publication.replacementIds (session.publishedOn .base) partition

/-- The watermarks of the base side are the highest ids of the published replacements. -/
structure MarksHighest (session : Session) : Prop where
  /-- The watermark of a partition is the highest id of the published replacements that write it. -/
  highest : ∀ state, session.store.side? .base = some state → ∀ partition,
    Watermarks.IsHighest (session.replacementIds partition)
      (state.view.watermarks.get? partition)
  /-- It shows as unset exactly when no published replacement writes the partition. -/
  unset_iff : ∀ state, session.store.side? .base = some state → ∀ partition,
    state.view.watermarks.number partition = Watermarks.unset ↔
      session.replacementIds partition = []
  /-- From one version to the next no watermark goes down or gets lost. -/
  monotone : ∀ state, session.store.side? .base = some state → ∀ (n : Nat) (v w : Version),
    state.history[n]? = some v → state.history[n + 1]? = some w → ∀ partition,
    v.watermarks.number partition ≤ w.watermarks.number partition
  /-- After a commit that is accepted, a reader loads the watermarks that the last replacement of the
  transaction gave when it was staged. -/
  loaded : ∀ (number : Nat) (now : Int) (handle : Handle),
    session.handles[number]? = some handle → handle.side = .base → session.Accepts handle now →
    ∃ view, (session.commit number now).store.view .base = .ok view ∧
      view.watermarks = handle.transaction.watermarks ∧
      ∀ metadata r t marks,
        Replacement.stage metadata r t = .ok (marks, handle.transaction) → view.watermarks = marks
  /-- A replacement that is committed on its own gives the watermarks that a reader loads then. -/
  returned : ∀ (metadata : Metadata) (r : Replacement) (now : Int) (marks : Watermarks)
    (store : Store), r.commit metadata session.store now = .ok (marks, store) →
    ∃ view, store.view .base = .ok view ∧ view.watermarks = marks

theorem Inv.loaded (h : session.Inv) {handle : Handle} {number : Nat} {now : Int}
    (hhandle : session.handles[number]? = some handle) (haccepts : session.Accepts handle now) :
    ∃ view, (session.commit number now).store.view handle.side = .ok view ∧
      view.watermarks = handle.transaction.watermarks := by
  obtain ⟨state, hreach, hcurrent, hcommit⟩ := h.commit_of_accepts hhandle haccepts
  rw [hcommit]
  have hvalid := h.valid handle (List.mem_of_getElem? hhandle)
  cases hstages : handle.stages with
  | true => exact ⟨_, (Store.view_publish hreach).trans (if_pos rfl), rfl⟩
  | false =>
    refine ⟨state.view, Store.view_eq_ok_iff.2 ⟨state, hreach, rfl⟩, ?_⟩
    -- nothing is staged, so the transaction publishes what it was opened on
    have hempty : handle.transaction.isEmpty = true := by
      rw [hvalid.isEmpty, hstages]
      rfl
    have hstaged : handle.transaction.stagedWatermarks = none :=
      Option.isNone_iff_eq_none.1 (Bool.and_eq_true_iff.1 hempty).2
    rw [Transaction.watermarks, hstaged, Option.getD_none, hvalid.baseWatermarks, ← hcurrent,
      ← state.contents_view]
    rfl

/-- A replacement on a transaction of its own gives the watermarks that are then current. -/
theorem returned {metadata : Metadata} {r : Replacement} {s s' : Store} {now : Int}
    {marks : Watermarks} (h : r.commit metadata s now = .ok (marks, s')) :
    ∃ view, s'.view .base = .ok view ∧ view.watermarks = marks := by
  obtain ⟨id, state, -, hreach, hcases⟩ := Replacement.commit_cases h
  rcases hcases with ⟨-, rfl, rfl⟩ | ⟨-, -, -, version, rfl, -, hmarks⟩
  · exact ⟨state.view, Store.view_eq_ok_iff.2 ⟨state, hreach, rfl⟩, rfl⟩
  · exact ⟨_, (Store.view_publish hreach).trans (if_pos rfl), hmarks⟩

theorem Inv.marksHighest (h : session.Inv)
    (hcalls : session.AllCalls fun call => call.setsWatermarks = false) :
    session.MarksHighest := by
  have hpublished : ∀ publication ∈ session.publishedOn .base,
      ∀ call ∈ publication.handle.calls, call.setsWatermarks = false :=
    fun publication hpublication =>
      hcalls.log publication (List.mem_of_mem_filter hpublication)
  have hhighest : ∀ state, session.store.side? .base = some state → ∀ partition,
      Watermarks.IsHighest (session.replacementIds partition)
        (state.view.watermarks.get? partition) := by
    intro state hstate partition
    -- the side holds what its publications leave, and each of them only raises watermarks
    have hcontents : state.view.contents = Contents.after (session.publishedOn .base) :=
      h.linearizable.contents .base state hstate
    have hmarks : state.view.watermarks =
        (Contents.after (session.publishedOn .base)).watermarks :=
      congrArg Contents.watermarks hcontents
    rw [hmarks, Contents.get?_after hpublished]
    have hstart : Watermarks.IsHighest [] none := rfl
    exact Watermarks.isHighest_raised hstart _
  refine ⟨hhighest, fun state hstate partition => ?_, ?_, ?_, ?_⟩
  · rw [Watermarks.number_eq_unset_iff]
    exact (hhighest state hstate partition).eq_none_iff
  · intro state hstate n v w hv hw partition
    obtain ⟨publication, hpublication, hcontents⟩ :=
      (h.records .base state hstate).contents_succ hv hw
    have hmarks : w.watermarks = (publication.handle.applyTo v.contents).watermarks :=
      congrArg Contents.watermarks hcontents
    have hraised : w.watermarks.get? partition = Watermarks.raised (v.watermarks.get? partition)
        (publication.handle.replacementIds partition) := by
      rw [hmarks, Handle.get?_applyTo (hpublished publication hpublication)]
      rfl
    exact Watermarks.number_le_of_raised hraised
  · intro number now handle hhandle hside haccepts
    obtain ⟨view, hview, hmarks⟩ := h.loaded hhandle haccepts
    rw [hside] at hview
    refine ⟨view, hview, hmarks, fun metadata r t marks hstage => ?_⟩
    obtain ⟨id, -, hgiven, -⟩ :=
      Replacement.run_apply_eq_ok_iff.1 (Replacement.stage_eq_ok_iff.1 hstage)
    rw [hmarks, hgiven]
  · intro metadata r now marks store hcommit
    exact returned hcommit

/-- After any steps of a new session in which nobody sets watermarks by hand, the watermarks of the
base side are the highest ids of the replacements in its published transactions. -/
theorem marksHighest_run (sides : List Side) (actions : List Action)
    (h : ∀ number marks, .stage number (.setWatermarks marks) ∉ actions) :
    ((start sides).run actions).MarksHighest := by
  refine ((inv_start sides).run actions).marksHighest (AllCalls.run ⟨?_, ?_⟩ ?_)
  · exact fun _ hhandle => absurd hhandle List.not_mem_nil
  · exact fun _ hpublication => absurd hpublication List.not_mem_nil
  · intro number call hcall
    cases call with
    | setWatermarks marks => exact absurd hcall (h number marks)
    | replacePartitions files => rfl
    | append files => rfl
    | setSummary key value => rfl
    | replace metadata r => rfl
    | appendChanges metadata a => rfl

/-! ## Two replacements at once -/

namespace Race

def metadata : Metadata := ⟨⟨"lake", "shop", "orders"⟩, [], [], ⟨[]⟩, OrderedMap.empty⟩

/-- A replacement of the whole table. -/
def replaceAll (path : String) (id : Int) : StagingCall :=
  .replace metadata ⟨[.base path [] 10 1], some id⟩

/-- Two transactions are opened together. The commit of the second is rejected, and it is made again
on a transaction of its own. -/
def actions : List Action :=
  [.openOn .base, .openOn .base, .stage 0 (replaceAll "new" 7), .stage 1 (replaceAll "old" 3),
    .commit 0 100, .commit 1 200, .openOn .base, .stage 2 (replaceAll "old" 3), .commit 2 300]

/-- The rejected transaction does not count, and the older one does not move the watermark down. -/
theorem isHighest_actions : ∃ state, ((start [.base]).run actions).store.side? .base = some state ∧
    Watermarks.IsHighest [⟨7, by decide, by decide⟩, ⟨3, by decide, by decide⟩]
      (state.view.watermarks.get? []) := by
  have hcalls : ∀ number marks, .stage number (.setWatermarks marks) ∉ actions := by
    intro number marks hmem
    simp [actions, replaceAll] at hmem
  have hmarks := marksHighest_run [.base] actions hcalls
  exact ⟨_, rfl, hmarks.highest _ rfl []⟩

end Race

end Session

end MergeOnRead
