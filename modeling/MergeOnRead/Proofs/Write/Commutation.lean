import MergeOnRead.Proofs.Write.Acceptance
import MergeOnRead.Proofs.Write.Hiding

/-!
# The order of replacements

A replacement acts on each partition by itself: it puts its files in the place of those of the
partitions it writes and raises their watermarks, and leaves the other partitions alone. Replacements
of different partitions may therefore be committed in any order, and a replacement may be committed
again as long as no other wrote one of its partitions in between. The lists of all live files and the
snapshots may differ, but no reader of watermarks or plans can tell.

Main statement: `Write.replacements_commute`.
-/

namespace MergeOnRead

open Result

/-! ## Partitions one by one -/

/-- What the base side has of one partition. -/
structure Cell where
  files : List File
  mark : Option TransactionId

def SideView.cell (view : SideView) (partition : Partition.Key) : Cell :=
  ⟨filesIn partition view.files, view.watermarks.get? partition⟩

theorem Watermarks.atLeast_atLeast (id : TransactionId) (mark : Option TransactionId) :
    atLeast id (some (atLeast id mark)) = atLeast id mark := by
  cases mark with
  | none => simp [atLeast]
  | some mark => simp [atLeast]

namespace Replacement

variable {metadata : Metadata} {r r₁ r₂ : Replacement} {partition : Partition.Key} {cell : Cell}

/-- What a replacement makes of a partition. -/
def update (r : Replacement) (partition : Partition.Key) (cell : Cell) : Cell :=
  match r.transactionId with
  | .ok id =>
    if r.Writes partition then
      ⟨filesIn partition r.files, some (Watermarks.atLeast id cell.mark)⟩
    else cell
  | .error _ => cell

theorem update_of_writes {id : TransactionId} (hid : r.transactionId = .ok id)
    (h : r.Writes partition) :
    r.update partition cell =
      ⟨filesIn partition r.files, some (Watermarks.atLeast id cell.mark)⟩ := by
  rw [update, hid]
  exact if_pos h

theorem update_of_not_writes (h : ¬r.Writes partition) : r.update partition cell = cell := by
  unfold update
  split
  · exact if_neg h
  · rfl

/-- Replacements that do not both write a partition may come in any order. -/
theorem update_comm (h : r₁.Writes partition → ¬r₂.Writes partition) :
    r₂.update partition (r₁.update partition cell) =
      r₁.update partition (r₂.update partition cell) := by
  by_cases h₁ : r₁.Writes partition
  · rw [update_of_not_writes (h h₁), update_of_not_writes (h h₁)]
  · rw [update_of_not_writes h₁, update_of_not_writes h₁]

/-- A replacement that comes again changes nothing. -/
theorem update_update : r.update partition (r.update partition cell) = r.update partition cell := by
  by_cases h : r.Writes partition
  · cases hid : r.transactionId with
    | error e => simp only [update, hid]
    | ok id =>
      rw [update_of_writes hid h, update_of_writes hid h, Watermarks.atLeast_atLeast]
  · rw [update_of_not_writes h]

/-- A commit makes of each partition what its replacement does, and leaves the change side alone. -/
theorem cell_commit {s s' : Store} {state : SideState} {now : Int} {marks : Watermarks}
    (hstate : s.reach .base = .ok state) (h : r.commit metadata s now = .ok (marks, s')) :
    ∃ state', s'.reach .base = .ok state' ∧ s'.side? .change = s.side? .change ∧
      ∀ partition, state'.view.cell partition = r.update partition (state.view.cell partition) := by
  obtain ⟨id, found, hid, hfound, hcases⟩ := commit_cases h
  obtain rfl : found = state := Except.ok.inj (hfound.symm.trans hstate)
  rcases hcases with ⟨hfiles, rfl, -⟩ | ⟨-, -, rfl, version, rfl, hversion, hmarks⟩
  · refine ⟨found, hstate, rfl, ?_⟩
    intro partition
    rw [update_of_not_writes]
    simp [Writes, hfiles]
  · refine ⟨_, Store.reach_publish hstate, ?_, ?_⟩
    · rw [Store.side?_publish, if_neg (by decide)]
    · intro partition
      rw [SideState.view_extend, SideView.cell]
      dsimp only
      rw [hversion, hmarks, filesIn_applyTo, Watermarks.get?_raiseAll, get?_batch]
      by_cases hwrites : r.Writes partition
      · rw [if_pos hwrites, if_pos hwrites, update_of_writes hid hwrites]
        rfl
      · rw [if_neg hwrites, if_neg hwrites, update_of_not_writes hwrites]
        rfl

end Replacement

/-! ## Runs of replacements -/

namespace Write

variable {metadata : Metadata} {s : Store} {state : SideState}

/-- Replacements as writes, each at its time. -/
def replaceAll (rs : List (Replacement × Int)) : List (Write × Int) :=
  rs.map fun r => (replace r.1, r.2)

/-- What replacements make of a partition one after the other. -/
def updateAll (rs : List (Replacement × Int)) (partition : Partition.Key) (cell : Cell) : Cell :=
  rs.foldl (fun cell r => r.1.update partition cell) cell

/-- Valid replacements are all accepted, and act on each partition by itself. -/
theorem exists_commitAll_replaceAll {rs : List (Replacement × Int)}
    (hvalid : ∀ r ∈ rs, r.1.Valid metadata) (hstate : s.reach .base = .ok state) :
    ∃ s' state', commitAll metadata s (replaceAll rs) = .ok s' ∧ s'.reach .base = .ok state' ∧
      s'.side? .change = s.side? .change ∧
      ∀ partition, state'.view.cell partition =
        updateAll rs partition (state.view.cell partition) := by
  induction rs generalizing s state with
  | nil => exact ⟨s, state, rfl, hstate, rfl, fun _ => rfl⟩
  | cons r rs ih =>
    obtain ⟨r, now⟩ := r
    obtain ⟨hr, hrs⟩ := List.forall_mem_cons.1 hvalid
    obtain ⟨⟨marks, s₁⟩, hcommit⟩ := (Replacement.exists_commit_iff hstate).2 hr
    obtain ⟨state₁, hstate₁, hchange₁, hcell₁⟩ := Replacement.cell_commit hstate hcommit
    obtain ⟨s', state', hrun, hstate', hchange, hcell⟩ := ih hrs hstate₁
    have hfirst : (replace r).commit metadata s now = .ok s₁ := map_of_eq_ok hcommit (·.2)
    refine ⟨s', state', ?_, hstate', hchange.trans hchange₁, ?_⟩
    · show ((replace r).commit metadata s now >>= fun s₁ =>
        commitAll metadata s₁ (replaceAll rs)) = .ok s'
      rw [bind_of_eq_ok hfirst]
      exact hrun
    · intro partition
      rw [hcell, hcell₁]
      rfl

/-- The first replacement fails on a base side that cannot be reached. -/
theorem commitAll_of_unreached {e : Error} (hstate : s.reach .base = .error e)
    (r : Replacement × Int) (rs : List (Replacement × Int)) :
    commitAll metadata s (replaceAll (r :: rs)) = .error e := by
  show (((r.1.commit metadata s r.2).map (·.2)) >>= fun s₁ =>
    commitAll metadata s₁ (replaceAll rs)) = .error e
  rw [Replacement.commit_of_unreached hstate]
  rfl

end Write

/-! ## Readers -/

theorem SideView.watermarks_eq_of_cell {view other : SideView}
    (h : ∀ partition, view.cell partition = other.cell partition) :
    view.watermarks = other.watermarks := by
  apply OrderedMap.ext_get?
  intro partition
  exact congrArg Cell.mark (h partition)

/-- A plan without the ids of the snapshots that it was made over. -/
def Scan.Plan.withoutSnapshots (plan : Plan) : Plan :=
  { plan with baseSnapshot := none, changeSnapshot := none }

/-- Two stores read alike: with the same watermarks, and for all filters and options with the same
plan but for the ids of snapshots, or the same failure. -/
structure Store.ReadsAlike (metadata : Metadata) (s s' : Store) : Prop where
  watermarks : s.source.watermarks = s'.source.watermarks
  plans : ∀ (options : Scan.Options) (filters : List Predicate),
    (Scan.Plan.make metadata s.source options filters).andThen
        (fun plan => .now (.ok plan.withoutSnapshots)) =
      (Scan.Plan.make metadata s'.source options filters).andThen
        (fun plan => .now (.ok plan.withoutSnapshots))

namespace Store

variable {metadata : Metadata} {s s' : Store} {base base' change : SideView}

theorem changeView_congr (h : s.side? .change = s'.side? .change) (limit : Option Duration) :
    s.source.changeView limit = s'.source.changeView limit := by
  have hpresent : s.source.hasSide .change = s'.source.hasSide .change := by
    rw [source_hasSide, source_hasSide, hasSide, hasSide, h]
  have hview : s.source.view .change = s'.source.view .change := by
    show Reply.now (s.view .change) = Reply.now (s'.view .change)
    rw [view, view, reach, reach, h]
  rw [Source.changeView, Source.changeView, hpresent, hview]

/-- A plan is made of what the base side has of each partition. -/
theorem withoutSnapshots_ofView (hcell : ∀ partition, base.cell partition = base'.cell partition)
    (options : Scan.Options) (pushed : Scan.PushedTerms) :
    (Scan.Plan.ofView metadata options pushed ⟨base, change⟩).withoutSnapshots =
      (Scan.Plan.ofView metadata options pushed ⟨base', change⟩).withoutSnapshots := by
  have hfiles : ∀ partition, filesIn partition base.files = filesIn partition base'.files := by
    intro partition
    exact congrArg Cell.files (hcell partition)
  have htasks : ∀ keep, Scan.partitionTasks keep ⟨base, change⟩ =
      Scan.partitionTasks keep ⟨base', change⟩ := by
    intro keep
    apply Scan.partitionTasks_congr
    intro partition
    rw [Scan.pendingFiles, Scan.pendingFiles, filesIn_append, filesIn_append, hfiles,
      SideView.watermarks_eq_of_cell hcell]
  simp only [Scan.Plan.ofView, Scan.Plan.withoutSnapshots, htasks]

/-- Stores with the same partitions on the base side and the same change side read alike. -/
theorem readsAlike_of_cell {state state' : SideState} (hstate : s.reach .base = .ok state)
    (hstate' : s'.reach .base = .ok state')
    (hcell : ∀ partition, state.view.cell partition = state'.view.cell partition)
    (hchange : s.side? .change = s'.side? .change) : ReadsAlike metadata s s' := by
  have hview : s.source.view .base = .now (.ok state.view) :=
    congrArg Reply.now (view_eq_ok_iff.2 ⟨state, hstate, rfl⟩)
  have hview' : s'.source.view .base = .now (.ok state'.view) :=
    congrArg Reply.now (view_eq_ok_iff.2 ⟨state', hstate', rfl⟩)
  refine ⟨?watermarks, ?plans⟩
  case watermarks =>
    rw [Source.watermarks, Source.watermarks, hview, hview', Reply.now_andThen, Reply.now_andThen,
      SideView.watermarks_eq_of_cell hcell]
  case plans =>
    intro options filters
    unfold Scan.Plan.make
    cases Scan.pushDown metadata.schema options.caseSensitive filters with
    | error e => rfl
    | ok pushed =>
      dsimp only
      rw [Source.tableView, Source.tableView, hview, hview', Reply.within_now, Reply.within_now,
        changeView_congr hchange]
      -- the change side answers both stores alike
      cases s'.source.changeView options.ioTimeout with
      | never => rfl
      | after delay result =>
        cases result with
        | error e => rfl
        | ok change =>
          have hplan := @withoutSnapshots_ofView metadata _ _ change hcell options pushed
          simp only [Reply.now, Reply.both, Reply.andThen, hplan]

end Store

/-! ## Orders of replacements -/

namespace Write

variable {metadata : Metadata} {s : Store}

/-- Two runs of commits from one store end alike: with stores that read alike if the base side can be
reached, else with the failure to reach it. -/
def EndAlike (metadata : Metadata) (s : Store) (writes writes' : List (Write × Int)) : Prop :=
  match s.reach .base with
  | .ok _ => ∃ s₁ s₂, commitAll metadata s writes = .ok s₁ ∧ commitAll metadata s writes' = .ok s₂ ∧
      s₁.ReadsAlike metadata s₂
  | .error e => commitAll metadata s writes = .error e ∧ commitAll metadata s writes' = .error e

/-- Runs of valid replacements that make the same of each partition end alike. -/
theorem endAlike_of_updateAll {r r' : Replacement × Int} {rs rs' : List (Replacement × Int)}
    (hvalid : ∀ other ∈ r :: rs, other.1.Valid metadata)
    (hvalid' : ∀ other ∈ r' :: rs', other.1.Valid metadata)
    (h : ∀ partition cell, updateAll (r :: rs) partition cell = updateAll (r' :: rs') partition cell) :
    EndAlike metadata s (replaceAll (r :: rs)) (replaceAll (r' :: rs')) := by
  unfold EndAlike
  cases hstate : s.reach .base with
  | error e => exact ⟨commitAll_of_unreached hstate r rs, commitAll_of_unreached hstate r' rs'⟩
  | ok state =>
    obtain ⟨s₁, state₁, hrun₁, hstate₁, hchange₁, hcell₁⟩ :=
      exists_commitAll_replaceAll hvalid hstate
    obtain ⟨s₂, state₂, hrun₂, hstate₂, hchange₂, hcell₂⟩ :=
      exists_commitAll_replaceAll hvalid' hstate
    refine ⟨s₁, s₂, hrun₁, hrun₂, Store.readsAlike_of_cell hstate₁ hstate₂ ?_ ?_⟩
    · intro partition
      rw [hcell₁, hcell₂, h]
    · rw [hchange₁, hchange₂]

theorem updateAll_append (rs rs' : List (Replacement × Int)) (partition : Partition.Key)
    (cell : Cell) :
    updateAll (rs ++ rs') partition cell = updateAll rs' partition (updateAll rs partition cell) :=
  List.foldl_append

/-- A replacement may be moved over others that write none of its partitions. -/
theorem update_updateAll {r : Replacement} {rs : List (Replacement × Int)}
    {partition : Partition.Key}
    (h : ∀ other ∈ rs, r.Writes partition → ¬other.1.Writes partition) (cell : Cell) :
    r.update partition (updateAll rs partition cell) =
      updateAll rs partition (r.update partition cell) := by
  induction rs generalizing cell with
  | nil => rfl
  | cons other rs ih =>
    obtain ⟨hother, hrs⟩ := List.forall_mem_cons.1 h
    show r.update partition (updateAll rs partition (other.1.update partition cell)) =
      updateAll rs partition (other.1.update partition (r.update partition cell))
    rw [ih hrs, Replacement.update_comm hother]

/-- On every store, two valid replacements of different partitions may be committed in either order,
and a valid replacement may be committed again after valid ones that write none of its partitions.
The times of the commits do not matter. -/
theorem replacements_commute (metadata : Metadata) (s : Store) :
    (∀ r₁ r₂ : Replacement, r₁.Valid metadata → r₂.Valid metadata →
      (∀ partition, r₁.Writes partition → ¬r₂.Writes partition) → ∀ now₁ now₂ now₁' now₂' : Int,
      EndAlike metadata s [(replace r₁, now₁), (replace r₂, now₂)]
        [(replace r₂, now₂'), (replace r₁, now₁')]) ∧
    ∀ (r : Replacement) (rs : List (Replacement × Int)), r.Valid metadata →
      (∀ other ∈ rs, other.1.Valid metadata ∧
        ∀ partition, r.Writes partition → ¬other.1.Writes partition) → ∀ now again : Int,
      EndAlike metadata s ((replace r, now) :: (replaceAll rs ++ [(replace r, again)]))
        ((replace r, now) :: replaceAll rs) := by
  refine ⟨?commute, ?again⟩
  case commute =>
    intro r₁ r₂ h₁ h₂ hdisjoint now₁ now₂ now₁' now₂'
    apply @endAlike_of_updateAll metadata s (r₁, now₁) (r₂, now₂') [(r₂, now₂)] [(r₁, now₁')]
    · simp [h₁, h₂]
    · simp [h₁, h₂]
    · intro partition cell
      exact Replacement.update_comm (hdisjoint partition)
  case again =>
    intro r rs hr hrs now again
    have hlist : replaceAll rs ++ [(replace r, again)] = replaceAll (rs ++ [(r, again)]) := by
      simp [replaceAll]
    rw [hlist]
    have hvalid : ∀ other ∈ rs, other.1.Valid metadata := fun other hother => (hrs other hother).1
    apply @endAlike_of_updateAll metadata s (r, now) (r, now) (rs ++ [(r, again)]) rs
    · intro other hother
      rcases List.mem_cons.1 hother with rfl | hother
      · exact hr
      · rcases List.mem_append.1 hother with hother | hother
        · exact hvalid other hother
        · rw [List.mem_singleton.1 hother]
          exact hr
    · exact List.forall_mem_cons.2 ⟨hr, hvalid⟩
    · intro partition cell
      show updateAll (rs ++ [(r, again)]) partition (r.update partition cell) =
        updateAll rs partition (r.update partition cell)
      rw [updateAll_append]
      show r.update partition (updateAll rs partition (r.update partition cell)) = _
      rw [update_updateAll fun other hother => (hrs other hother).2 partition,
        Replacement.update_update]

/-! ## Two days of orders -/

namespace TwoDays

def first : Replacement := ⟨[.base "day-1" [.int32 1] 10 1], some 7⟩

def second : Replacement := ⟨[.base "day-2" [.int32 2] 10 1], some 3⟩

theorem valid_first : first.Valid Scan.Orders.metadata :=
  ⟨⟨_, rfl⟩, by decide, by decide⟩

theorem valid_second : second.Valid Scan.Orders.metadata :=
  ⟨⟨_, rfl⟩, by decide, by decide⟩

theorem first_disjoint_second (partition : Partition.Key) :
    first.Writes partition → ¬second.Writes partition := by
  intro hfirst hsecond
  rw [List.mem_singleton.1 hfirst] at hsecond
  revert hsecond
  decide

/-- In both orders both days are written and read alike, and so they are when the first day is written
again. -/
theorem replacements_commute_days :
    (∃ s₁ s₂, commitAll Scan.Orders.metadata (Store.create true)
        [(replace first, 100), (replace second, 200)] = .ok s₁ ∧
      commitAll Scan.Orders.metadata (Store.create true)
        [(replace second, 100), (replace first, 200)] = .ok s₂ ∧
      s₁.ReadsAlike Scan.Orders.metadata s₂ ∧ s₁ ≠ s₂) ∧
    ∃ s₁ s₂, commitAll Scan.Orders.metadata (Store.create true)
        [(replace first, 100), (replace second, 200), (replace first, 300)] = .ok s₁ ∧
      commitAll Scan.Orders.metadata (Store.create true)
        [(replace first, 100), (replace second, 200)] = .ok s₂ ∧
      s₁.ReadsAlike Scan.Orders.metadata s₂ := by
  obtain ⟨hcommute, hagain⟩ := replacements_commute Scan.Orders.metadata (Store.create true)
  constructor
  · obtain ⟨s₁, s₂, h₁, h₂, halike⟩ :=
      hcommute first second valid_first valid_second first_disjoint_second 100 200 200 100
    refine ⟨s₁, s₂, h₁, h₂, halike, ?_⟩
    rintro rfl
    exact absurd (h₁.trans h₂.symm) (by decide)
  · refine hagain first [(second, 200)] valid_first ?_ 100 300
    intro other hother
    rw [List.mem_singleton.1 hother]
    exact ⟨valid_second, first_disjoint_second⟩

end TwoDays

end Write

end MergeOnRead
