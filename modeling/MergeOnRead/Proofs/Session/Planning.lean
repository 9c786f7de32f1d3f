import MergeOnRead.Proofs.Scan.Unfiltered
import MergeOnRead.Proofs.Session.Linearizable

/-!
# Planning beside writers

A plan loads the base side and the change side at two moments, and writers may commit before, between
and after them. Files and watermarks of a side are published together, so whatever base version the
plan gets, it gets its watermarks with it. The change side only grows, so the change files that were
there when planning started are there at the later moment too. Hence a change file is left out only if
the base version of the plan covers it, in whichever order the sides are loaded.

Main statements: `Written.run`, what writers do to both sides, and `plan_beside_writers`.
-/

namespace MergeOnRead

open InPlace Result

/-! ## What writers stage -/

/-- A change that writers stage for a side: replacements of base files and appends of change files. -/
def StagedChange.FitsSide (side : Side) : StagedChange → Prop
  | replace files => side = .base ∧ ∀ file ∈ files, file.side = .base
  | append files => side = .change ∧ ∀ file ∈ files, file.side = .change

namespace StagedChange

variable {side : Side} {change : StagedChange} {changes : List StagedChange} {live : List File}

theorem FitsSide.side_applyTo (h : change.FitsSide side) (hlive : ∀ file ∈ live, file.side = side) :
    ∀ file ∈ change.applyTo live, file.side = side := by
  cases change with
  | replace files =>
    obtain ⟨rfl, hfiles⟩ := h
    intro file hfile
    rcases List.mem_append.1 hfile with hfile | hfile
    · exact hlive file (List.mem_filter.1 hfile).1
    · exact hfiles file hfile
  | append files =>
    obtain ⟨rfl, hfiles⟩ := h
    exact List.forall_mem_append.2 ⟨hlive, hfiles⟩

theorem side_foldl_applyTo (h : ∀ change ∈ changes, change.FitsSide side)
    (hlive : ∀ file ∈ live, file.side = side) :
    ∀ file ∈ changes.foldl applyTo live, file.side = side := by
  induction changes generalizing live with
  | nil => exact hlive
  | cons change changes ih =>
    obtain ⟨hchange, hrest⟩ := List.forall_mem_cons.1 h
    exact ih hrest (hchange.side_applyTo hlive)

/-- Nothing that writers stage for the change side takes a file away. -/
theorem prefix_foldl_applyTo (h : ∀ change ∈ changes, change.FitsSide .change) :
    live <+: changes.foldl applyTo live := by
  induction changes generalizing live with
  | nil => exact List.prefix_refl live
  | cons change changes ih =>
    obtain ⟨hchange, hrest⟩ := List.forall_mem_cons.1 h
    refine List.IsPrefix.trans ?_ (ih hrest)
    cases change with
    | replace files => cases hchange.1
    | append files => exact List.prefix_append live files

end StagedChange

/-- Whether a call is one of those that writers make. -/
def StagingCall.isWrite : StagingCall → Bool
  | replace _ _ => true
  | appendChanges _ _ => true
  | _ => false

/-- Whether a step is one of a writer, which opens a transaction, stages its files and commits. -/
def Action.isWrite : Action → Bool
  | openOn _ => true
  | stage _ call => call.isWrite
  | commit _ _ => true
  | _ => false

theorem StagingCall.fitsSide_of_stage {call : StagingCall} {t t' : Transaction}
    (hwrite : call.isWrite = true) (h : call.stage.run t = .ok () t')
    (ht : ∀ change ∈ t.changes, change.FitsSide t.side) :
    ∀ change ∈ t'.changes, change.FitsSide t'.side := by
  cases call with
  | replace metadata r =>
    obtain ⟨marks, mid, hstage, heq⟩ := run_bind_eq_ok_iff.1 h
    cases heq
    obtain ⟨id, -, -, ⟨-, rfl⟩ | ⟨-, hside, ⟨hfiles, -⟩, rfl⟩⟩ :=
      Replacement.run_apply_eq_ok_iff.1 hstage
    · exact ht
    · exact List.forall_mem_append.2 ⟨ht, List.forall_mem_singleton.2 ⟨hside, hfiles⟩⟩
  | appendChanges metadata a =>
    rcases Append.run_apply_eq_ok_iff.1 h with ⟨-, rfl⟩ | ⟨-, hside, ⟨hfiles, -⟩, rfl⟩
    · exact ht
    · exact List.forall_mem_append.2 ⟨ht, List.forall_mem_singleton.2 ⟨hside, hfiles⟩⟩
  | replacePartitions files => cases hwrite
  | append files => cases hwrite
  | setWatermarks marks => cases hwrite
  | setSummary key value => cases hwrite

/-- The live files of a side, none if it cannot be read. -/
def Store.live (s : Store) (side : Side) : List File :=
  match s.view side with
  | .ok view => view.files
  | .error _ => []

theorem Store.live_eq {s : Store} {side : Side} {view : SideView} (h : s.view side = .ok view) :
    s.live side = view.files := by
  rw [live, h]

namespace Session

/-! ## Steps of writers -/

/-- What holds of a session that only writers have used: both sides can be read, each has files of its
own, and so have the open transactions. -/
structure Written (session : Session) : Prop where
  view : ∀ side, ∃ view, session.store.view side = .ok view ∧ ∀ file ∈ view.files, file.side = side
  staged : ∀ handle ∈ session.handles, ∀ change ∈ handle.transaction.changes,
    change.FitsSide handle.side

/-- A session goes on as writers let it: the change side keeps its files in their places. -/
structure Advances (session later : Session) : Prop where
  written : later.Written
  grows : session.store.live .change <+: later.store.live .change

variable {session : Session}

theorem written_start : (start [.base, .change]).Written where
  view side := by
    cases side <;>
      exact ⟨SideView.empty, rfl, fun _ hfile => absurd hfile List.not_mem_nil⟩
  staged _ hhandle := absurd hhandle List.not_mem_nil

/-- A step that leaves the store as it is lets it advance. -/
theorem Written.advances_handles (h : session.Written) {handles : List Handle}
    (hstaged : ∀ handle ∈ handles, ∀ change ∈ handle.transaction.changes,
      change.FitsSide handle.side) :
    session.Advances { session with handles } :=
  ⟨⟨h.view, hstaged⟩, List.prefix_refl _⟩

theorem Written.openOn (h : session.Written) (side : Side) :
    session.Advances (session.openOn side) := by
  unfold Session.openOn
  split
  · exact ⟨h, List.prefix_refl _⟩
  · rename_i t ht
    obtain ⟨state, -, rfl⟩ := Store.openTransaction_eq_ok_iff.1 ht
    refine h.advances_handles (List.forall_mem_append.2 ⟨h.staged, ?_⟩)
    -- a new transaction has staged nothing
    exact List.forall_mem_singleton.2 fun _ hchange => absurd hchange List.not_mem_nil

theorem Written.stage (h : session.Written) (number : Nat) {call : StagingCall}
    (hwrite : call.isWrite = true) : session.Advances (session.stage number call) := by
  rcases session.stage_cases number call with heq | ⟨handle, t, hhandle, ht, heq⟩
  · rw [heq]
    exact ⟨h, List.prefix_refl _⟩
  · rw [heq]
    refine h.advances_handles fun other hother => ?_
    rcases List.mem_or_eq_of_mem_set hother with hother | rfl
    · exact h.staged other hother
    · exact StagingCall.fitsSide_of_stage hwrite ht
        (h.staged handle (List.mem_of_getElem? hhandle))

/-- A new version with files of its side, and on the change side with those of the version before. -/
theorem Written.publish (h : session.Written) {side : Side} {state : SideState} {version : Version}
    (hstate : session.store.reach side = .ok state) (hfiles : ∀ file ∈ version.files, file.side = side)
    (hgrows : side = .change → state.view.files <+: version.files) (log : List Publication) :
    session.Advances ⟨session.store.publish side state version, session.handles, log⟩ := by
  refine ⟨⟨fun other => ?_, h.staged⟩, ?_⟩
  · by_cases hother : other = side
    · exact ⟨_, (Store.view_publish hstate).trans (if_pos hother), hother ▸ hfiles⟩
    · obtain ⟨view, hview, hsides⟩ := h.view other
      exact ⟨view, (Store.view_publish hstate).trans ((if_neg hother).trans hview), hsides⟩
  · by_cases hside : side = .change
    · have hview : session.store.view .change = .ok state.view :=
        Store.view_eq_ok_iff.2 ⟨state, hside ▸ hstate, rfl⟩
      rw [Store.live_eq hview,
        Store.live_eq ((Store.view_publish hstate).trans (if_pos hside.symm))]
      exact hgrows hside
    · obtain ⟨view, hview, -⟩ := h.view .change
      have hsame : session.store.live .change =
          (session.store.publish side state version).live .change := by
        rw [Store.live_eq hview,
          Store.live_eq ((Store.view_publish hstate).trans ((if_neg (Ne.symm hside)).trans hview))]
      exact hsame ▸ List.prefix_refl _

theorem Written.commit (h : session.Written) (number : Nat) (now : Int) :
    session.Advances (session.commit number now) := by
  cases hhandle : session.handles[number]? with
  | none =>
    rw [Session.commit, hhandle]
    exact ⟨h, List.prefix_refl _⟩
  | some handle =>
    rw [commit_eq hhandle]
    cases hcommit : session.store.commit now handle.transaction with
    | error e => exact ⟨h, List.prefix_refl _⟩
    | ok result =>
      obtain ⟨state, hstate, -, rfl⟩ := Store.commit_eq_ok_iff.1 hcommit
      by_cases hempty : handle.transaction.isEmpty = true
      · rw [if_pos hempty]
        exact ⟨h, List.prefix_refl _⟩
      · have hstaged := h.staged handle (List.mem_of_getElem? hhandle)
        obtain ⟨view, hview, hsides⟩ := h.view handle.side
        obtain rfl : state.view = view :=
          Except.ok.inj ((Store.view_eq_ok_iff.2 ⟨state, hstate, rfl⟩).symm.trans hview)
        rw [if_neg hempty]
        refine h.publish hstate ?_ (fun hside => ?_) _
        · rw [Store.nextVersion_files]
          exact StagedChange.side_foldl_applyTo hstaged hsides
        · rw [Store.nextVersion_files]
          exact StagedChange.prefix_foldl_applyTo (hside ▸ hstaged)

theorem Written.step (h : session.Written) {action : Action} (hwrite : action.isWrite = true) :
    session.Advances (session.step action) := by
  cases action with
  | openOn side => exact h.openOn side
  | stage number call => exact h.stage number hwrite
  | commit number now => exact h.commit number now
  | setUnavailable side unavailable => cases hwrite
  | dropSide side => cases hwrite

/-- Any steps of writers, in any order. -/
theorem Written.run (h : session.Written) {actions : List Action}
    (hwrites : ∀ action ∈ actions, action.isWrite = true) :
    session.Advances (session.run actions) := by
  induction actions generalizing session with
  | nil => exact ⟨h, List.prefix_refl _⟩
  | cons action actions ih =>
    obtain ⟨hwrite, hrest⟩ := List.forall_mem_cons.1 hwrites
    have hstep := h.step hwrite
    have hrun := ih hstep.written hrest
    exact ⟨hrun.written, hstep.grows.trans hrun.grows⟩

/-! ## Moments of a run -/

/-- A new session on both sides after the first steps of a run. -/
def moment (actions : List Action) (n : Nat) : Session := (start [.base, .change]).run (actions.take n)

section

variable {actions : List Action}

theorem written_moment (hwrites : ∀ action ∈ actions, action.isWrite = true) (n : Nat) :
    (moment actions n).Written :=
  (written_start.run fun action haction => hwrites action (List.mem_of_mem_take haction)).written

/-- Between two moments of a run the change side only grows. -/
theorem live_moment_prefix (hwrites : ∀ action ∈ actions, action.isWrite = true) {m n : Nat}
    (h : m ≤ n) : (moment actions m).store.live .change <+: (moment actions n).store.live .change := by
  have htake : (actions.take n).take m = actions.take m := by
    rw [List.take_take, Nat.min_eq_left h]
  have hlater : moment actions n = (moment actions m).run ((actions.take n).drop m) := by
    unfold moment run
    rw [← List.foldl_append, ← htake, List.take_append_drop]
  rw [hlater]
  refine ((written_moment hwrites m).run fun action haction => hwrites action ?_).grows
  exact List.mem_of_mem_take (List.mem_of_mem_drop haction)

end

/-! ## Plans -/

/-- A source that answers whether the change side exists, and with each side, at different moments. -/
def sourceAcross (asked loadedBase loadedChange : Session) : Source :=
  { loadedChange.store.source with
    hasSide := asked.store.source.hasSide
    view := fun
      | .base => loadedBase.store.source.view .base
      | .change => loadedChange.store.source.view .change }

/-- A plan that is made while writers go on, with its calls at any moments after it was started. It
combines the base side of one moment with the change side of another, so the change files that were
there at the start are read unless the base version of the plan covers them. -/
theorem plan_beside_writers (metadata : Metadata) (options : Scan.Options) {actions : List Action}
    (hwrites : ∀ action ∈ actions, action.isWrite = true)
    {started asked loadedChange : Nat} (hasked : started ≤ asked) (hchange : asked ≤ loadedChange)
    (loadedBase : Nat) :
    ∃ plan before base change later,
      Scan.Plan.make metadata
        (sourceAcross (moment actions asked) (moment actions loadedBase)
          (moment actions loadedChange)) options [] = .now (.ok plan) ∧
      (moment actions started).store.view .change = .ok before ∧
      (moment actions loadedBase).store.view .base = .ok base ∧
      (moment actions loadedChange).store.view .change = .ok change ∧
      base.contents = Contents.after ((moment actions loadedBase).publishedOn .base) ∧
      plan.Combines base change ∧ change.files = before.files ++ later ∧
      (plan.partitions.flatMap (·.changes)).Perm
        (before.files.filter base.awaits ++ later.filter base.awaits) := by
  obtain ⟨before, hbefore, -⟩ := (written_moment hwrites started).view .change
  obtain ⟨base, hbaseView, hbaseFiles⟩ := (written_moment hwrites loadedBase).view .base
  obtain ⟨change, hchangeView, hchangeFiles⟩ := (written_moment hwrites loadedChange).view .change
  obtain ⟨asking, hasking, -⟩ := (written_moment hwrites asked).view .change
  obtain ⟨later, hlater⟩ : before.files <+: change.files := by
    rw [← Store.live_eq hbefore, ← Store.live_eq hchangeView]
    exact live_moment_prefix hwrites (Nat.le_trans hasked hchange)
  have hview : (sourceAcross (moment actions asked) (moment actions loadedBase)
      (moment actions loadedChange)).tableView options.ioTimeout = .now (.ok ⟨base, change⟩) := by
    refine Source.tableView_eq_now ?_ (congrArg Reply.now hbaseView) (congrArg Reply.now hchangeView)
    exact congrArg (fun present => Reply.now (.ok present)) (Store.hasSide_of_view hasking)
  have hcombines : (Scan.Plan.ofView metadata options [] ⟨base, change⟩).Combines base change :=
    Scan.Plan.combines_ofView hbaseFiles hchangeFiles
  refine ⟨_, before, base, change, later, Scan.Plan.make_unfiltered hview, hbefore, hbaseView,
    hchangeView, ?_, hcombines, hlater.symm, ?_⟩
  · obtain ⟨state, hstate, rfl⟩ := Store.view_eq_ok_iff.1 hbaseView
    exact ((inv_start _).run _).linearizable.contents .base state (Store.reach_eq_ok_iff.1 hstate).1
  · rw [← List.filter_append, hlater]
    exact hcombines.changeFiles

/-! ## A rewrite between the two loads -/

namespace RewriteBetween

def metadata : Metadata := ⟨⟨"lake", "shop", "orders"⟩, [], [], ⟨[]⟩, OrderedMap.empty⟩

def orders : File := ⟨"orders", .insert, [], 5, 1, some ⟨6, by decide, by decide⟩, by decide⟩

def compacted : File := .base "compacted" [] 10 1

/-- Orders are appended in the first three steps and compacted in the others. -/
def actions : List Action :=
  [.openOn .change, .stage 0 (.appendChanges metadata ⟨[orders]⟩), .commit 0 100, .openOn .base,
    .stage 1 (.replace metadata ⟨[compacted], some 7⟩), .commit 1 200]

/-- If the base side is loaded last, the orders are read as compacted; if it is loaded first, they are
read as they were appended. They are never read twice or left out. -/
theorem plan_reads_orders_once :
    (∃ plan, Scan.Plan.make metadata
        (sourceAcross (moment actions 3) (moment actions 6) (moment actions 3)) default [] =
          .now (.ok plan) ∧
      (plan.partitions.flatMap (·.base)).Perm [compacted] ∧
      (plan.partitions.flatMap (·.changes)).Perm []) ∧
    ∃ plan, Scan.Plan.make metadata
        (sourceAcross (moment actions 3) (moment actions 3) (moment actions 6)) default [] =
          .now (.ok plan) ∧
      (plan.partitions.flatMap (·.base)).Perm [] ∧
      (plan.partitions.flatMap (·.changes)).Perm [orders] := by
  have hwrites : ∀ action ∈ actions, action.isWrite = true := by decide
  constructor
  · obtain ⟨plan, before, base, change, later, hplan, -, hbase, hchange, -, hcombines, -⟩ :=
      plan_beside_writers metadata default hwrites (Nat.le_refl 3) (Nat.le_refl 3) 6
    cases hbase
    cases hchange
    exact ⟨plan, hplan, hcombines.baseFiles, hcombines.changeFiles⟩
  · obtain ⟨plan, before, base, change, later, hplan, -, hbase, hchange, -, hcombines, -⟩ :=
      plan_beside_writers metadata default hwrites (Nat.le_refl 3) (by decide : 3 ≤ 6) 3
    cases hbase
    cases hchange
    exact ⟨plan, hplan, hcombines.baseFiles, hcombines.changeFiles⟩

end RewriteBetween

end Session

end MergeOnRead
