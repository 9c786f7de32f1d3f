import MergeOnRead.Proofs.Scan.Coverage
import MergeOnRead.Proofs.Write.Staging

/-!
# Change files that a plan leaves out

Writers commit replacements and appends one after the other, and then a plan without filters is made.
The base files of a partition are those of the latest replacement that wrote it, but its watermark is
the highest id of all of them. A change file is left out because of the watermark, so it may be left
out though the live base files come from an older transaction: this happens exactly when some earlier
replacement of the partition was at least as new as the file and the latest is not.

Main statements: `Follows.commitAll`, what the base side holds after any run of commits, and
`hides_iff`, which change files are left out then.
-/

namespace MergeOnRead

open Result

/-- A write on a transaction of its own. -/
inductive Write where
  | replace (r : Replacement)
  | append (a : Append)
deriving DecidableEq, Repr

/-- Whether the writer of a replacement is at least as new as a transaction. -/
def Replacement.Covers (r : Replacement) (id : TransactionId) : Prop :=
  ∃ mark, r.transactionId = .ok mark ∧ id ≤ mark

/-- A plan leaves a file out: none of its tasks has it. -/
def Scan.Plan.Hides (plan : Plan) (file : File) : Prop :=
  ∀ task ∈ plan.partitions, file ∉ task.files

/-- A store in memory that can be reached answers with both views, whatever the limit. -/
theorem Store.tableView_source {s : Store} {base change : SideView} {limit : Option Duration}
    (hbase : s.view .base = .ok base) (hchange : s.view .change = .ok change) :
    s.source.tableView limit = .now (.ok ⟨base, change⟩) := by
  refine Source.tableView_eq_now ?_ (congrArg Reply.now hbase) (congrArg Reply.now hchange)
  rw [source_hasSide, hasSide_of_view hchange]

namespace Write

def commit (metadata : Metadata) (s : Store) (now : Int) : Write → Except Error Store
  | replace r => (r.commit metadata s now).map (·.2)
  | append a => (a.commit metadata s now).map (·.2)

/-- Commits writes one after the other, each at its time. All of them have to succeed. -/
def commitAll (metadata : Metadata) (s : Store) : List (Write × Int) → Except Error Store
  | [] => .ok s
  | (write, now) :: rest => do commitAll metadata (← write.commit metadata s now) rest

/-- The replacement in a write, if it writes a partition. -/
def replacementOf? (partition : Partition.Key) : Write → Option Replacement
  | replace r => if r.Writes partition then some r else none
  | append _ => none

/-- The replacements that write a partition, in the order in which they are committed. -/
def replacementsOf (partition : Partition.Key) (writes : List (Write × Int)) : List Replacement :=
  writes.filterMap fun write => write.1.replacementOf? partition

/-- The files that the latest replacement of a partition has in it. -/
def latestFiles (partition : Partition.Key) (writes : List (Write × Int)) : List File :=
  match (replacementsOf partition writes).getLast? with
  | none => []
  | some r => filesIn partition r.files

def idsOf (partition : Partition.Key) (writes : List (Write × Int)) : List TransactionId :=
  (replacementsOf partition writes).filterMap (·.transactionId.toOption)

section

variable {partition : Partition.Key} {writes : List (Write × Int)} {r : Replacement} {now : Int}

theorem replacementsOf_concat (write : Write) :
    replacementsOf partition (writes ++ [(write, now)]) =
      replacementsOf partition writes ++ (write.replacementOf? partition).toList := by
  unfold replacementsOf
  rw [List.filterMap_append]
  cases h : write.replacementOf? partition <;> simp [h]

theorem mem_idsOf_iff {id : TransactionId} :
    id ∈ idsOf partition writes ↔
      ∃ r ∈ replacementsOf partition writes, r.transactionId = .ok id := by
  unfold idsOf
  rw [List.mem_filterMap]
  refine exists_congr fun r => and_congr_right fun _ => ?_
  cases r.transactionId <;> simp [Except.toOption]

theorem replacementsOf_replace (h : r.Writes partition) :
    replacementsOf partition (writes ++ [(replace r, now)]) =
      replacementsOf partition writes ++ [r] := by
  rw [replacementsOf_concat, replacementOf?, if_pos h]
  rfl

theorem replacementsOf_of_not_writes {write : Write} (h : write.replacementOf? partition = none) :
    replacementsOf partition (writes ++ [(write, now)]) = replacementsOf partition writes := by
  rw [replacementsOf_concat, h, Option.toList_none, List.append_nil]

end

end Write

/-- A replacement puts its own files in the place of those of the partitions it writes. -/
theorem Replacement.filesIn_applyTo (r : Replacement) (partition : Partition.Key)
    (live : List File) :
    filesIn partition ((StagedChange.replace r.files).applyTo live) =
      if r.Writes partition then filesIn partition r.files else filesIn partition live := by
  have hkeep : filesIn partition
        (live.filter fun file => ¬∃ other ∈ r.files, other.partition = file.partition) =
      if decide ¬∃ other ∈ r.files, other.partition = partition then filesIn partition live else [] :=
    filesIn_filter fun p => decide ¬∃ other ∈ r.files, other.partition = p
  rw [StagedChange.applyTo, filesIn_append, hkeep]
  by_cases h : r.Writes partition
  · rw [if_pos h, if_neg (by simpa using writes_iff.1 h), List.nil_append]
  · have hnil : filesIn partition r.files = [] := by
      refine List.filter_eq_nil_iff.2 fun file hfile heq => ?_
      exact h (writes_iff.2 ⟨file, hfile, of_decide_eq_true heq⟩)
    rw [if_neg h, if_pos (by simpa using mt writes_iff.2 h), hnil, List.append_nil]

namespace Write

section

variable {metadata : Metadata} {writes : List (Write × Int)} {now : Int}

/-- What a store holds after commits: both sides can be reached, the base files of each partition are
those of its latest replacement, and its watermark is the highest id of all of its replacements. -/
structure Follows (writes : List (Write × Int)) (s : Store) : Prop where
  base : ∃ view, s.view .base = .ok view ∧ (∀ file ∈ view.files, file.side = .base) ∧
    ∀ partition, filesIn partition view.files = latestFiles partition writes ∧
      Watermarks.IsHighest (idsOf partition writes) (view.watermarks.get? partition)
  change : ∃ view, s.view .change = .ok view ∧ ∀ file ∈ view.files, file.side = .change
  ids : ∀ partition, ∀ r ∈ replacementsOf partition writes, ∃ id, r.transactionId = .ok id

theorem follows_create : Follows [] (Store.create true) where
  base := ⟨_, rfl, by simp [SideState.view, SideState.created, SideState.current, SideView.empty],
    fun _ => ⟨rfl, rfl⟩⟩
  change := ⟨_, rfl, by simp [SideState.view, SideState.created, SideState.current, SideView.empty]⟩
  ids := by simp [replacementsOf]

/-- A write without a replacement leaves what is known of the replacements as it is. -/
theorem Follows.concat_of_none {s : Store} {write : Write} (h : Follows writes s)
    (hnone : ∀ partition, write.replacementOf? partition = none) :
    Follows (writes ++ [(write, now)]) s := by
  have hsame : ∀ partition, replacementsOf partition (writes ++ [(write, now)]) =
      replacementsOf partition writes := fun partition =>
    replacementsOf_of_not_writes (hnone partition)
  obtain ⟨view, hview, hsides, hfollows⟩ := h.base
  refine ⟨⟨view, hview, hsides, fun partition => ?_⟩, h.change, fun partition r hr => ?_⟩
  · rw [latestFiles, idsOf, hsame]
    exact hfollows partition
  · rw [hsame] at hr
    exact h.ids partition r hr

/-- Replacing partitions moves their files and watermarks to the new replacement and leaves the other
partitions alone. -/
theorem follows_replace {s s' : Store} {r : Replacement} (h : Follows writes s)
    (hcommit : (replace r).commit metadata s now = .ok s') :
    Follows (writes ++ [(replace r, now)]) s' := by
  obtain ⟨⟨marks, s''⟩, hr, rfl⟩ := map_eq_ok hcommit
  obtain ⟨view, hview, hsides, hfollows⟩ := h.base
  obtain ⟨id, state, hid, hstate, hcases⟩ := Replacement.commit_cases hr
  rcases hcases with ⟨hfiles, rfl, -⟩ | ⟨-, hbase, hmarks, version, rfl, hversion, hmarks'⟩
  · refine h.concat_of_none fun partition => ?_
    rw [replacementOf?, if_neg]
    simp [Replacement.Writes, hfiles]
  -- the replacement was staged on the base side that the writes before left
  obtain rfl : state.view = view := by
    obtain ⟨state', hstate', rfl⟩ := Store.view_eq_ok_iff.1 hview
    rw [Except.ok.inj (hstate.symm.trans hstate')]
  refine ⟨⟨_, Store.view_publish hstate, ?_, fun partition => ?_⟩, ?_, fun partition r' hr' => ?_⟩
  · intro file hfile
    dsimp only at hfile
    rw [hversion, StagedChange.applyTo, List.mem_append] at hfile
    rcases hfile with hfile | hfile
    · exact hsides file (List.mem_of_mem_filter hfile)
    · exact hbase file hfile
  · obtain ⟨hlatest, hhighest⟩ := hfollows partition
    dsimp only
    rw [hversion, Replacement.filesIn_applyTo, hmarks', hmarks, Watermarks.get?_raiseAll,
      Replacement.get?_batch]
    by_cases hwrites : r.Writes partition
    · rw [if_pos hwrites, if_pos hwrites, latestFiles, idsOf, replacementsOf_replace hwrites,
        List.getLast?_concat, List.filterMap_append]
      refine ⟨rfl, ?_⟩
      have hids : [r].filterMap (·.transactionId.toOption) = [id] := by
        simp [hid, Except.toOption]
      rw [hids]
      exact Watermarks.isHighest_append hhighest id
    · have hnone : (replace r).replacementOf? partition = none := if_neg hwrites
      rw [if_neg hwrites, if_neg hwrites, latestFiles, idsOf, replacementsOf_of_not_writes hnone]
      exact ⟨hlatest, hhighest⟩
  -- the change side is not touched
  · obtain ⟨change, hchange, hchanges⟩ := h.change
    refine ⟨change, ?_, hchanges⟩
    rw [Store.view_publish hstate, if_neg (by decide)]
    exact hchange
  · rw [replacementsOf_concat, List.mem_append] at hr'
    rcases hr' with hr' | hr'
    · exact h.ids partition r' hr'
    · obtain rfl : r' = r := by
        rw [replacementOf?] at hr'
        split at hr'
        · simpa using hr'
        · cases hr'
      exact ⟨id, hid⟩

theorem follows_append {s s' : Store} {a : Append} (h : Follows writes s)
    (hcommit : (append a).commit metadata s now = .ok s') :
    Follows (writes ++ [(append a, now)]) s' := by
  obtain ⟨⟨published, s''⟩, ha, rfl⟩ := map_eq_ok hcommit
  have hconcat : Follows (writes ++ [(append a, now)]) s := h.concat_of_none fun _ => rfl
  obtain ⟨state, hstate, hcases⟩ := Append.commit_cases ha
  rcases hcases with ⟨-, rfl⟩ | ⟨-, hsides, version, rfl, hversion⟩
  · exact hconcat
  · obtain ⟨view, hview, hbase⟩ := hconcat.base
    obtain ⟨change, hchange, hchanges⟩ := hconcat.change
    obtain ⟨state', hstate', rfl⟩ := Store.view_eq_ok_iff.1 hchange
    obtain rfl : state' = state := Except.ok.inj (hstate'.symm.trans hstate)
    refine ⟨⟨view, ?_, hbase⟩, ⟨_, Store.view_publish hstate, ?_⟩, hconcat.ids⟩
    · rw [Store.view_publish hstate, if_neg (by decide)]
      exact hview
    · intro file hfile
      dsimp only at hfile
      rw [hversion, List.mem_append] at hfile
      rcases hfile with hfile | hfile
      · exact hchanges file hfile
      · exact hsides file hfile

/-- What a store holds is known after any run of commits. -/
theorem Follows.commitAll {s s' : Store} {more : List (Write × Int)} (h : Follows writes s)
    (hrun : commitAll metadata s more = .ok s') : Follows (writes ++ more) s' := by
  induction more generalizing writes s with
  | nil =>
    cases hrun
    rwa [List.append_nil]
  | cons write more ih =>
    obtain ⟨write, now⟩ := write
    obtain ⟨s₁, hwrite, hrest⟩ := bind_eq_ok hrun
    rw [List.append_cons]
    refine ih ?_ hrest
    cases write with
    | replace r => exact follows_replace h hwrite
    | append a => exact follows_append h hwrite

/-- The highest id of the replacements reaches an id exactly when one of them covers it. -/
theorem le_highest_iff {partition : Partition.Key} {marks : Watermarks} {id : TransactionId}
    (h : Watermarks.IsHighest (idsOf partition writes) (marks.get? partition)) :
    (id.val : Int) ≤ marks.number partition ↔
      ∃ r ∈ replacementsOf partition writes, r.Covers id := by
  unfold Watermarks.number
  cases hmark : marks.get? partition with
  | none =>
    rw [hmark] at h
    have hids : idsOf partition writes = [] := h
    -- an id is positive, so it is above the number of an unset watermark
    have hpositive := id.positive
    constructor
    · intro hle
      dsimp only [Watermarks.unset] at hle
      omega
    · rintro ⟨r, hr, mark, hid, -⟩
      have hmem := mem_idsOf_iff.2 ⟨r, hr, hid⟩
      rw [hids] at hmem
      cases hmem
  | some mark =>
    rw [hmark] at h
    obtain ⟨hmem, hle⟩ := h
    rw [Int.ofNat_le]
    constructor
    · intro hid
      obtain ⟨r, hr, hmark⟩ := mem_idsOf_iff.1 hmem
      exact ⟨r, hr, mark, hmark, hid⟩
    · rintro ⟨r, hr, other, hother, hid⟩
      exact le_trans hid (hle other (mem_idsOf_iff.2 ⟨r, hr, hother⟩))

/-- A plan over a store that follows the commits leaves a change file out exactly when one of the
replacements of its partition covers the file. -/
theorem hides_of_follows {s : Store} {options : Scan.Options} {plan : Scan.Plan} {file : File}
    {id : TransactionId} {change : SideView} (h : Follows writes s)
    (hplan : (Scan.Plan.make metadata s.source options []).result? = some (.ok plan))
    (hchange : s.view .change = .ok change) (hfile : file ∈ change.files)
    (hid : file.transactionId = some id) :
    plan.Hides file ↔ ∃ r ∈ replacementsOf file.partition writes, r.Covers id := by
  obtain ⟨base, hbase, hsides, hfollows⟩ := h.base
  have hview : s.source.tableView options.ioTimeout = .now (.ok ⟨base, change⟩) :=
    Store.tableView_source hbase hchange
  obtain ⟨pushed, hpushed, rfl⟩ := Scan.Plan.eq_ofView_of_make (by rw [hview]; rfl) hplan
  cases hpushed
  -- only change files have a transaction id
  have hnotBase : file ∉ base.files := by
    intro hmem
    have hside := hsides file hmem
    have hchangeSide : file.side = .change := file.transactionId_isSome.1 (by rw [hid]; rfl)
    rw [hchangeSide] at hside
    cases hside
  have hpending : file ∈ Scan.pendingFiles ⟨base, change⟩ ↔
      ¬file.isAbsorbedBy (base.watermarks.get? file.partition) = true := by
    unfold Scan.pendingFiles
    rw [List.mem_append, List.mem_filter, Bool.not_eq_true', ← Bool.not_eq_true]
    exact ⟨fun hmem => (hmem.resolve_left hnotBase).2, fun hnot => .inr ⟨hfile, hnot⟩⟩
  rw [← le_highest_iff (hfollows file.partition).2, ← File.isAbsorbedBy_iff hid,
    ← not_iff_not, ← hpending]
  unfold Scan.Plan.Hides
  push Not
  exact Scan.exists_task_iff.trans (and_iff_left rfl)

/-- The latest replacement of a partition, from which its base files come, is at least as new as a
transaction. -/
def LatestCovers (partition : Partition.Key) (writes : List (Write × Int)) (id : TransactionId) :
    Prop :=
  ∃ r ∈ (replacementsOf partition writes).getLast?, r.Covers id

/-- If some replacement covers a transaction, then the latest does or one before it. -/
theorem exists_covers_iff {partition : Partition.Key} {id : TransactionId} :
    (∃ r ∈ replacementsOf partition writes, r.Covers id) ↔
      LatestCovers partition writes id ∨
        ∃ r ∈ (replacementsOf partition writes).dropLast, r.Covers id := by
  unfold LatestCovers
  rcases List.eq_nil_or_concat (replacementsOf partition writes) with hnil | ⟨before, last, hlast⟩
  · simp [hnil]
  · rw [hlast]
    simp [or_comm]

/-- After any run of commits, the base files of a partition are those of its latest replacement, and a
plan without filters leaves a live change file out exactly when some replacement of the partition
covers it. It is left out wrongly, with older base files in its place, exactly when only replacements
before the latest cover it. -/
theorem hides_iff {s : Store} {options : Scan.Options} {plan : Scan.Plan} {change : SideView}
    {file : File} (hrun : commitAll metadata (Store.create true) writes = .ok s)
    (hplan : (Scan.Plan.make metadata s.source options []).result? = some (.ok plan))
    (hchange : s.view .change = .ok change) (hfile : file ∈ change.files) :
    ∃ id base, file.transactionId = some id ∧ s.view .base = .ok base ∧
      filesIn file.partition base.files = latestFiles file.partition writes ∧
      (plan.Hides file ↔ ∃ r ∈ replacementsOf file.partition writes, r.Covers id) ∧
      (plan.Hides file ∧ ¬LatestCovers file.partition writes id ↔
        ¬LatestCovers file.partition writes id ∧
          ∃ r ∈ (replacementsOf file.partition writes).dropLast, r.Covers id) := by
  have hfollows : Follows writes s := by
    have h := follows_create.commitAll hrun
    rwa [List.nil_append] at h
  obtain ⟨base, hbase, -, hbaseFollows⟩ := hfollows.base
  obtain ⟨view, hview, hsides⟩ := hfollows.change
  obtain rfl : view = change := Except.ok.inj (hview.symm.trans hchange)
  obtain ⟨id, hid⟩ : ∃ id, file.transactionId = some id :=
    Option.isSome_iff_exists.1 (file.transactionId_isSome.2 (hsides file hfile))
  have hides := hides_of_follows hfollows hplan hchange hfile hid
  refine ⟨id, base, hid, hbase, (hbaseFollows file.partition).1, hides, ?_⟩
  rw [hides, exists_covers_iff]
  constructor
  · rintro ⟨hsome, hlatest⟩
    exact ⟨hlatest, hsome.resolve_left hlatest⟩
  · rintro ⟨hlatest, hearlier⟩
    exact ⟨.inr hearlier, hlatest⟩

end

/-! ## Replacements out of order -/

namespace OutOfOrder

/-- Orders that come in between the two replacements. -/
def orders : File := ⟨"orders", .insert, [.int32 1], 5, 1, some ⟨5, by decide, by decide⟩, by decide⟩

/-- A replacement and then an older one of the same partition, before the orders are appended. -/
def writes : List (Write × Int) :=
  [(replace ⟨[.base "new" [.int32 1] 10 1], some 7⟩, 100),
    (replace ⟨[.base "old" [.int32 1] 10 1], some 3⟩, 200), (append ⟨[orders]⟩, 300)]

def store : Store :=
  (commitAll Scan.Orders.metadata (Store.create true) writes).toOption.getD (Store.create true)

def base : SideView := (store.view .base).toOption.getD SideView.empty

def plan : Scan.Plan :=
  .ofView Scan.Orders.metadata default [] ⟨base, (store.view .change).toOption.getD SideView.empty⟩

/-- The orders are left out, though the live base file is older than they are. -/
theorem plan_hides_orders :
    plan.Hides orders ∧ filesIn [.int32 1] base.files = [.base "old" [.int32 1] 10 1] ∧
      ¬LatestCovers [.int32 1] writes ⟨5, by decide, by decide⟩ := by
  obtain ⟨id, view, hid, hview, hfiles, -, hwrong⟩ :=
    @hides_iff Scan.Orders.metadata writes store default plan
      ((store.view .change).toOption.getD SideView.empty) orders rfl rfl rfl (by decide)
  obtain rfl : id = ⟨5, by decide, by decide⟩ := Option.some.inj hid.symm
  obtain rfl : view = base := Except.ok.inj hview.symm
  have hlatest : ¬LatestCovers [.int32 1] writes ⟨5, by decide, by decide⟩ := by
    rintro ⟨r, hr, mark, hmark, hle⟩
    cases hr
    cases hmark
    exact absurd hle (by decide)
  have hearlier : ∃ r ∈ (replacementsOf [.int32 1] writes).dropLast,
      r.Covers ⟨5, by decide, by decide⟩ :=
    ⟨_, List.mem_singleton_self _, ⟨7, by decide, by decide⟩, rfl, by decide⟩
  exact ⟨(hwrong.2 ⟨hlatest, hearlier⟩).1, hfiles, hlatest⟩

end OutOfOrder

end Write

end MergeOnRead
