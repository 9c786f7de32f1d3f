import MergeOnRead.Proofs.Encoding.Partition
import MergeOnRead.Proofs.Scan.Unfiltered
import MergeOnRead.Proofs.Write.Acceptance
import MergeOnRead.Proofs.Write.Hiding

/-!
# Two spellings of one partition

Two keys denote the same partition when they read back as one key. Replacements, watermarks and tasks
go by the bits of keys, and a table takes keys with any float bits. So a partition that is written
under two spellings falls apart: its files are in two tasks, a replacement of one spelling leaves the
files of the other, and its watermark does not hide their changes. Writers that only use keys which
are canonical, as those that were read are, have one spelling for each partition.

Main statement: `Write.onePartition_iff`.
-/

namespace MergeOnRead

open Result

/-- Keys that denote the same partition: they are read back as one key. -/
def Partition.Key.SamePartition (p q : Partition.Key) : Prop := decode p.encode = decode q.encode

theorem Partition.Key.samePartition_iff {p q : Partition.Key} :
    p.SamePartition q ↔ p.canonical = q.canonical := by
  rw [SamePartition, decode_encode, decode_encode, Except.ok.injEq]

namespace Write

/-! ## Runs of valid writes -/

/-- A write that a table accepts. -/
def Valid (metadata : Metadata) : Write → Prop
  | replace r => r.Valid metadata
  | append a => a.Valid metadata

section

variable {metadata : Metadata} {writes : List (Write × Int)} {s s' : Store}

theorem Follows.exists_commit (h : Follows writes s) {write : Write} (hvalid : write.Valid metadata)
    (now : Int) : ∃ s', write.commit metadata s now = .ok s' := by
  cases write with
  | replace r =>
    obtain ⟨view, hview, -⟩ := h.base
    obtain ⟨state, hstate, -⟩ := Store.view_eq_ok_iff.1 hview
    obtain ⟨result, hcommit⟩ := (Replacement.exists_commit_iff hstate).2 hvalid
    exact ⟨result.2, map_of_eq_ok hcommit _⟩
  | append a =>
    obtain ⟨view, hview, -⟩ := h.change
    obtain ⟨state, hstate, -⟩ := Store.view_eq_ok_iff.1 hview
    obtain ⟨result, hcommit⟩ := Append.Valid.exists_commit hvalid hstate now
    exact ⟨result.2, map_of_eq_ok hcommit _⟩

theorem commitAll_concat {write : Write} {now : Int} {s'' : Store}
    (hrun : commitAll metadata s writes = .ok s') (h : write.commit metadata s' now = .ok s'') :
    commitAll metadata s (writes ++ [(write, now)]) = .ok s'' := by
  induction writes generalizing s with
  | nil =>
    cases hrun
    rw [List.nil_append, commitAll, bind_of_eq_ok h]
    rfl
  | cons w writes ih =>
    obtain ⟨first, time⟩ := w
    obtain ⟨s₁, hfirst, hrest⟩ := bind_eq_ok hrun
    rw [List.cons_append, commitAll, bind_of_eq_ok hfirst]
    exact ih hrest

theorem follows_of_commitAll (hrun : commitAll metadata (Store.create true) writes = .ok s) :
    Follows writes s := by
  have h := follows_create.commitAll hrun
  rwa [List.nil_append] at h

/-- The plan without filters over both views of a store. -/
theorem result?_make_unfiltered {base change : SideView} (hbase : s.view .base = .ok base)
    (hchange : s.view .change = .ok change) (options : Scan.Options) :
    (Scan.Plan.make metadata s.source options []).result? =
      some (.ok (.ofView metadata options [] ⟨base, change⟩)) := by
  rw [Scan.Plan.make_unfiltered (Store.tableView_source hbase hchange)]
  rfl

end

/-! ## What it means for two keys to be one partition -/

/-- All files of both keys are in one task of every plan without filters. -/
def SharesTask (metadata : Metadata) (p q : Partition.Key) : Prop :=
  ∀ (writes : List (Write × Int)) (s : Store),
    commitAll metadata (Store.create true) writes = .ok s →
    ∀ (options : Scan.Options) (plan : Scan.Plan),
      (Scan.Plan.make metadata s.source options []).result? = some (.ok plan) →
      ∀ task ∈ plan.partitions, ∀ other ∈ plan.partitions, ∀ file ∈ task.files,
        ∀ file' ∈ other.files, file.partition = p → file'.partition = q → task = other

/-- A replacement that writes one of the keys leaves no files of either but its own. -/
def ReplacedTogether (metadata : Metadata) (p q : Partition.Key) : Prop :=
  ∀ (writes : List (Write × Int)) (s s' : Store),
    commitAll metadata (Store.create true) writes = .ok s →
    ∀ (r : Replacement) (now : Int), (replace r).commit metadata s now = .ok s' →
      r.Writes p ∨ r.Writes q → ∀ base, s'.view .base = .ok base →
        filesIn p base.files = filesIn p r.files ∧ filesIn q base.files = filesIn q r.files

/-- Both keys have the same watermark. -/
def SharesWatermark (metadata : Metadata) (p q : Partition.Key) : Prop :=
  ∀ (writes : List (Write × Int)) (s : Store),
    commitAll metadata (Store.create true) writes = .ok s →
    ∀ base, s.view .base = .ok base → base.watermarks.get? p = base.watermarks.get? q

/-- When a replacement wrote one of the keys, no plan without filters has a change file of either that
the replacement covers. -/
def AbsorbedTogether (metadata : Metadata) (p q : Partition.Key) : Prop :=
  ∀ (writes : List (Write × Int)) (s : Store),
    commitAll metadata (Store.create true) writes = .ok s →
    ∀ (r : Replacement) (now : Int), (replace r, now) ∈ writes → r.Writes p ∨ r.Writes q →
      ∀ change, s.view .change = .ok change → ∀ file ∈ change.files,
        file.partition = p ∨ file.partition = q →
        ∀ id, file.transactionId = some id → r.Covers id →
          ∀ (options : Scan.Options) (plan : Scan.Plan),
            (Scan.Plan.make metadata s.source options []).result? = some (.ok plan) →
            plan.Hides file

/-- Two keys are one partition of a table in all that may be committed. -/
structure OnePartition (metadata : Metadata) (p q : Partition.Key) : Prop where
  task : SharesTask metadata p q
  replaced : ReplacedTogether metadata p q
  watermark : SharesWatermark metadata p q
  absorbed : AbsorbedTogether metadata p q

/-! ## One spelling -/

section

variable {metadata : Metadata} {p : Partition.Key}

theorem sharesTask_self : SharesTask metadata p p := by
  intro writes s hrun options plan hplan task htask other hother file hfile file' hfile' hp hp'
  obtain ⟨base, hbase, -⟩ := (follows_of_commitAll hrun).base
  obtain ⟨change, hchange, -⟩ := (follows_of_commitAll hrun).change
  rw [result?_make_unfiltered hbase hchange] at hplan
  cases hplan
  obtain ⟨-, -, heq⟩ := Scan.mem_partitionTasks_iff.1 htask
  obtain ⟨-, -, heq'⟩ := Scan.mem_partitionTasks_iff.1 hother
  rw [heq, Scan.PartitionTask.mem_files_ofFiles_iff, mem_filesIn_iff] at hfile
  rw [heq', Scan.PartitionTask.mem_files_ofFiles_iff, mem_filesIn_iff] at hfile'
  rw [heq, heq', ← hfile.2, ← hfile'.2, hp, hp']

theorem replacedTogether_self : ReplacedTogether metadata p p := by
  intro writes s s' hrun r now hcommit hwrites base hbase
  have hwrites : r.Writes p := hwrites.elim id id
  have hfollows := follows_replace (follows_of_commitAll hrun) hcommit
  obtain ⟨view, hview, -, hfiles⟩ := hfollows.base
  obtain rfl : view = base := Except.ok.inj (hview.symm.trans hbase)
  have hlatest := (hfiles p).1
  rw [latestFiles, replacementsOf_replace hwrites, List.getLast?_concat] at hlatest
  exact ⟨hlatest, hlatest⟩

theorem absorbedTogether_self : AbsorbedTogether metadata p p := by
  intro writes s hrun r now hmem hwrites change hchange file hfile hp fileId hid hcovers options plan
    hplan
  have hwrites : r.Writes p := hwrites.elim id id
  have hp : file.partition = p := hp.elim id id
  refine (hides_of_follows (follows_of_commitAll hrun) hplan hchange hfile hid).2 ⟨r, ?_, hcovers⟩
  rw [hp, replacementsOf, List.mem_filterMap]
  exact ⟨_, hmem, if_pos hwrites⟩

theorem onePartition_self : OnePartition metadata p p :=
  ⟨sharesTask_self, replacedTogether_self, fun _ _ _ _ _ => rfl, absorbedTogether_self⟩

end

/-! ## Two spellings -/

namespace Apart

def lowId : TransactionId := ⟨1, by decide, by decide⟩

def highId : TransactionId := ⟨2, by decide, by decide⟩

def fileOf (partition : Partition.Key) : File := .base "base" partition 1 1

/-- A change file that is covered by the higher id. -/
def changeOf (partition : Partition.Key) : File :=
  ⟨"change", .insert, partition, 1, 1, some highId, by decide⟩

def replacementOf (partition : Partition.Key) (id : Int) : Replacement :=
  ⟨[fileOf partition], some id⟩

/-- Both keys are replaced, the second one first and under the lower id. -/
def replaced (p q : Partition.Key) : List (Write × Int) :=
  [(replace (replacementOf q 1), 0), (replace (replacementOf p 2), 0)]

/-- Then a change of the second key is appended. -/
def writes (p q : Partition.Key) : List (Write × Int) :=
  replaced p q ++ [(append ⟨[changeOf q]⟩, 0)]

variable {metadata : Metadata} {p q : Partition.Key}

theorem checkPartitions_singleton {file : File} {key : Partition.Key} (hpartition : file.partition = key)
    (hkey : metadata.spec.checkKey metadata.schema key = .ok ()) :
    metadata.checkPartitions [file] = .ok () := by
  rw [Metadata.checkPartitions, forM_eq_ok_iff]
  intro other hother
  rw [List.mem_singleton.1 hother, hpartition]
  exact hkey

theorem valid_replacementOf {key : Partition.Key} {raw : Int} {id : TransactionId}
    (hkey : metadata.spec.checkKey metadata.schema key = .ok ())
    (hid : TransactionId.check raw = .ok id) : (replacementOf key raw).Valid metadata := by
  refine ⟨⟨id, hid⟩, ?_, checkPartitions_singleton rfl hkey⟩
  intro file hfile
  rw [List.mem_singleton.1 hfile]
  rfl

theorem valid_append {key : Partition.Key}
    (hkey : metadata.spec.checkKey metadata.schema key = .ok ()) :
    Append.Valid metadata ⟨[changeOf key]⟩ := by
  refine ⟨?_, checkPartitions_singleton rfl hkey⟩
  intro file hfile
  rw [List.mem_singleton.1 hfile]
  rfl

theorem writes_replacementOf_iff {key other : Partition.Key} {id : Int} :
    (replacementOf key id).Writes other ↔ key = other := by
  rw [Replacement.writes_iff]
  simp [replacementOf, fileOf, File.base]

theorem replacementsOf_left (hne : p ≠ q) :
    replacementsOf p (replaced p q) = [replacementOf p 2] := by
  have hfirst : (replace (replacementOf q 1)).replacementOf? p = none :=
    if_neg fun h => hne (writes_replacementOf_iff.1 h).symm
  have hsecond : (replace (replacementOf p 2)).replacementOf? p = some (replacementOf p 2) :=
    if_pos (writes_replacementOf_iff.2 rfl)
  simp only [replacementsOf, replaced, List.filterMap_cons, hfirst, hsecond, List.filterMap_nil]

theorem replacementsOf_right (hne : p ≠ q) :
    replacementsOf q (replaced p q) = [replacementOf q 1] := by
  have hfirst : (replace (replacementOf q 1)).replacementOf? q = some (replacementOf q 1) :=
    if_pos (writes_replacementOf_iff.2 rfl)
  have hsecond : (replace (replacementOf p 2)).replacementOf? q = none :=
    if_neg fun h => hne (writes_replacementOf_iff.1 h)
  simp only [replacementsOf, replaced, List.filterMap_cons, hfirst, hsecond, List.filterMap_nil]

theorem filesIn_replacementOf (key : Partition.Key) (id : Int) :
    filesIn key (replacementOf key id).files = [fileOf key] := by
  rw [replacementOf, filesIn_singleton]
  exact if_pos rfl

/-- The run: a store after the first replacement, after the second one and after the append. Each key
has its own files and its own watermark, and the change is there. -/
structure Run (metadata : Metadata) (p q : Partition.Key) (first second s : Store)
    (base change : SideView) : Prop where
  beforeSecond : commitAll metadata (Store.create true) [(replace (replacementOf q 1), 0)] = .ok first
  commitSecond : (replace (replacementOf p 2)).commit metadata first 0 = .ok second
  all : commitAll metadata (Store.create true) (writes p q) = .ok s
  baseOfSecond : second.view .base = .ok base
  baseView : s.view .base = .ok base
  changeView : s.view .change = .ok change
  left : filesIn p base.files = [fileOf p]
  right : filesIn q base.files = [fileOf q]
  leftMark : base.watermarks.get? p = some highId
  rightMark : base.watermarks.get? q = some lowId
  appended : changeOf q ∈ change.files

/-- The highest of one id is this id. -/
theorem eq_of_isHighest_singleton {id : TransactionId} {mark : Option TransactionId}
    (h : Watermarks.IsHighest [id] mark) : mark = some id := by
  cases mark with
  | none => cases h
  | some mark => rw [List.mem_singleton.1 h.1]

theorem exists_run (hp : metadata.spec.checkKey metadata.schema p = .ok ())
    (hq : metadata.spec.checkKey metadata.schema q = .ok ()) (hne : p ≠ q) :
    ∃ first second s base change, Run metadata p q first second s base change := by
  have hvalid : (replace (replacementOf q 1)).Valid metadata :=
    @valid_replacementOf metadata q 1 lowId hq rfl
  have hvalid' : (replace (replacementOf p 2)).Valid metadata :=
    @valid_replacementOf metadata p 2 highId hp rfl
  have happend : (append ⟨[changeOf q]⟩).Valid metadata := valid_append hq
  obtain ⟨first, hfirst⟩ := follows_create.exists_commit hvalid 0
  have hrun : commitAll metadata (Store.create true) [(replace (replacementOf q 1), 0)] =
      .ok first := by
    rw [commitAll, bind_of_eq_ok hfirst]
    rfl
  obtain ⟨second, hsecond⟩ := (follows_of_commitAll hrun).exists_commit hvalid' 0
  have hreplaced : commitAll metadata (Store.create true) (replaced p q) = .ok second :=
    commitAll_concat hrun hsecond
  have hfollows := follows_of_commitAll hreplaced
  obtain ⟨s, hs⟩ := hfollows.exists_commit happend 0
  -- each key was replaced once, so it has the files and the id of its own replacement
  obtain ⟨base, hbase, -, hfiles⟩ := hfollows.base
  obtain ⟨hleft, hmark⟩ := hfiles p
  obtain ⟨hright, hmark'⟩ := hfiles q
  rw [latestFiles, replacementsOf_left hne] at hleft
  rw [latestFiles, replacementsOf_right hne] at hright
  rw [idsOf, replacementsOf_left hne] at hmark
  rw [idsOf, replacementsOf_right hne] at hmark'
  -- the append leaves the base side as it is
  obtain ⟨⟨published, s'⟩, hcommit, rfl⟩ := map_eq_ok hs
  obtain ⟨state, hstate, ⟨hnil, -⟩ | ⟨-, -, version, rfl, hversion⟩⟩ := Append.commit_cases hcommit
  · cases hnil
  refine ⟨first, second, _, base, _, hrun, hsecond, commitAll_concat hreplaced hs, hbase, ?_,
    Store.view_publish hstate, hleft.trans (filesIn_replacementOf p 2),
    hright.trans (filesIn_replacementOf q 1), eq_of_isHighest_singleton hmark,
    eq_of_isHighest_singleton hmark', ?_⟩
  · rw [Store.view_publish hstate, if_neg (by decide)]
    exact hbase
  · dsimp only
    rw [hversion]
    exact List.mem_append_right _ (List.mem_singleton_self _)

section

variable {first second s : Store} {base change : SideView}

theorem Run.not_sharesTask (h : Run metadata p q first second s base change) (hne : p ≠ q) :
    ¬SharesTask metadata p q := by
  intro hshares
  have hplan := @result?_make_unfiltered metadata s base change h.baseView h.changeView default
  have hexists : ∀ key, filesIn key base.files = [fileOf key] →
      ∃ task ∈ (Scan.Plan.ofView metadata default [] ⟨base, change⟩).partitions,
        task.partition = key ∧ fileOf key ∈ task.files := by
    intro key hkey
    have hmem : fileOf key ∈ filesIn key base.files := by
      rw [hkey]
      exact List.mem_singleton_self _
    have hpending : fileOf key ∈ Scan.pendingFiles ⟨base, change⟩ :=
      List.mem_append_left _ (mem_filesIn_iff.1 hmem).1
    exact Scan.exists_task_of_mem_pendingFiles hpending rfl
  obtain ⟨task, htask, hleft, hfile⟩ := hexists p h.left
  obtain ⟨other, hother, hright, hfile'⟩ := hexists q h.right
  have heq : task = other := hshares _ _ h.all default _ hplan task htask other hother _ hfile _
    hfile' rfl rfl
  rw [← hleft, ← hright, heq] at hne
  exact hne rfl

theorem Run.not_replacedTogether (h : Run metadata p q first second s base change) (hne : p ≠ q) :
    ¬ReplacedTogether metadata p q := by
  intro htogether
  have hfiles := (htogether _ _ _ h.beforeSecond (replacementOf p 2) 0 h.commitSecond
    (.inl (writes_replacementOf_iff.2 rfl)) base h.baseOfSecond).2
  have hnone : filesIn q (replacementOf p 2).files = [] := by
    rw [replacementOf, filesIn_singleton]
    exact if_neg hne
  rw [h.right, hnone] at hfiles
  cases hfiles

theorem Run.not_sharesWatermark (h : Run metadata p q first second s base change) :
    ¬SharesWatermark metadata p q := by
  intro hshares
  have hmark := hshares _ _ h.all base h.baseView
  rw [h.leftMark, h.rightMark] at hmark
  exact absurd hmark (by decide)

theorem Run.not_absorbedTogether (h : Run metadata p q first second s base change) (hne : p ≠ q) :
    ¬AbsorbedTogether metadata p q := by
  intro htogether
  have hplan := @result?_make_unfiltered metadata s base change h.baseView h.changeView default
  have hcovers : (replacementOf p 2).Covers highId := ⟨highId, rfl, le_refl _⟩
  have hides := htogether _ _ h.all (replacementOf p 2) 0 (by simp [writes, replaced])
    (.inl (writes_replacementOf_iff.2 rfl)) change h.changeView (changeOf q) h.appended (.inr rfl)
    highId rfl hcovers default _ hplan
  obtain ⟨r, hr, id, hid, hle⟩ :=
    (hides_of_follows (follows_of_commitAll h.all) hplan h.changeView h.appended rfl).1 hides
  -- only the replacement with the lower id wrote the second key
  have hwrites : replacementsOf q (writes p q) = [replacementOf q 1] := by
    rw [writes, replacementsOf_of_not_writes rfl, replacementsOf_right hne]
  rw [show (changeOf q).partition = q from rfl, hwrites, List.mem_singleton] at hr
  subst hr
  cases hid
  exact absurd hle (by decide)

end

end Apart

/-! ## One partition, one spelling -/

/-- Two keys that a table accepts are treated as the same partition exactly if they are the same key,
though others may denote the same partition too; if they are spelled apart, then nothing of what makes
them one partition holds. Canonical keys that denote the same partition are the same. -/
theorem onePartition_iff {metadata : Metadata} {p q : Partition.Key}
    (hp : metadata.spec.checkKey metadata.schema p = .ok ())
    (hq : metadata.spec.checkKey metadata.schema q = .ok ()) (hsame : p.SamePartition q) :
    (OnePartition metadata p q ↔ p = q) ∧
    (p.canonical = p → q.canonical = q → OnePartition metadata p q) ∧
    (p ≠ q → ¬SharesTask metadata p q ∧ ¬ReplacedTogether metadata p q ∧
      ¬SharesWatermark metadata p q ∧ ¬AbsorbedTogether metadata p q) := by
  have hapart : p ≠ q → ¬SharesTask metadata p q ∧ ¬ReplacedTogether metadata p q ∧
      ¬SharesWatermark metadata p q ∧ ¬AbsorbedTogether metadata p q := by
    intro hne
    obtain ⟨first, second, s, base, change, hrun⟩ := Apart.exists_run hp hq hne
    exact ⟨hrun.not_sharesTask hne, hrun.not_replacedTogether hne, hrun.not_sharesWatermark,
      hrun.not_absorbedTogether hne⟩
  refine ⟨⟨?_, ?_⟩, ?_, hapart⟩
  · intro hone
    by_contra hne
    exact (hapart hne).1 hone.task
  · rintro rfl
    exact onePartition_self
  · intro hcanonical hcanonical'
    have heq : p = q := by
      rw [← hcanonical, Partition.Key.samePartition_iff.1 hsame, hcanonical']
    subst heq
    exact onePartition_self

/-! ## Two zeros -/

namespace TwoZeros

/-- A table of measurements, partitioned by their score. -/
def metadata : Metadata where
  id := ⟨"lake", "lab", "measurements"⟩
  schema := [⟨"id", .int64⟩, ⟨"score", .float64⟩]
  primaryKey := ["id"]
  spec := ⟨[⟨"score", .identity⟩]⟩
  properties := OrderedMap.empty

def zero : Partition.Key := [.float64 0]

def negativeZero : Partition.Key := [.float64 0x8000000000000000]

/-- A table accepts both zeros and takes them for two partitions. -/
theorem not_onePartition_zeros :
    metadata.spec.checkKey metadata.schema zero = .ok () ∧
      metadata.spec.checkKey metadata.schema negativeZero = .ok () ∧
      zero.SamePartition negativeZero ∧ ¬SharesTask metadata zero negativeZero ∧
      ¬ReplacedTogether metadata zero negativeZero ∧ ¬SharesWatermark metadata zero negativeZero ∧
      ¬AbsorbedTogether metadata zero negativeZero := by
  have hzero : metadata.spec.checkKey metadata.schema zero = .ok () := by decide
  have hnegative : metadata.spec.checkKey metadata.schema negativeZero = .ok () := by decide
  have hsame : zero.SamePartition negativeZero :=
    Partition.Key.samePartition_iff.2 (by decide)
  exact ⟨hzero, hnegative, hsame, (onePartition_iff hzero hnegative hsame).2.2 (by decide)⟩

end TwoZeros

end Write

end MergeOnRead
