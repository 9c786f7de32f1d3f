import MergeOnRead.Proofs.Scan.Filter
import MergeOnRead.Proofs.Scan.Grouping
import MergeOnRead.Proofs.Schema

/-!
# Plans read all that may match

Pruning loses no row. The key of a partition tells the value of the source columns of all rows of
the partition, so a bound term that is false of the key is true of no row, and a partition that is
left out holds no row of which all filters are true.

Main statement: `Plan.reads_of_filterTruths`, over every source, every list of filters and all
options. Filters compare floats as numbers, where both zeros are one: `plan_leaves_out_zero` shows
that the total order of float bits would not do.
-/

namespace MergeOnRead

open Result

namespace Partition.Spec

variable {spec : Spec} {schema : Schema} {key : Key}

/-- A spec that is accepted has identity fields only, so its columns are those of all its fields. -/
theorem identityColumns_of_validate (h : spec.validate schema = .ok ()) :
    spec.identityColumns = spec.fields.map (·.source) := by
  unfold identityColumns
  rw [List.filter_eq_self.2]
  intro field hfield
  have hcheck := forM_eq_ok_iff.1 h field hfield
  unfold checkField at hcheck
  dsimp only at hcheck
  split at hcheck
  · cases hcheck
  · split at hcheck
    · cases hcheck
    · rename_i htransform
      simpa using htransform

/-- Each value of a key that is accepted has the type of the source column of its field. -/
theorem hasType_of_checkKey {place : Nat} {field : Field} {value : Value} {column : Column}
    (h : spec.checkKey schema key = .ok ()) (hfield : spec.fields[place]? = some field)
    (hvalue : key[place]? = some value) (hcolumn : schema.column? field.source = some column) :
    value.hasType column.type = true := by
  unfold checkKey at h
  split at h
  · cases h
  · have hmem : (field, value) ∈ spec.fields.zip key := by
      refine List.mem_of_getElem? (i := place) ?_
      rw [List.getElem?_zip_eq_some]
      exact ⟨hfield, hvalue⟩
    have hcheck := forM_eq_ok_iff.1 h _ hmem
    simp only [checkValue, hcolumn] at hcheck
    split at hcheck
    · rename_i htype
      exact htype
    · cases hcheck

/-- A value that a key tells of a column is the one at the place of a field over the column. -/
theorem exists_field_of_valueOf? {name : String} {value : Value}
    (hspec : spec.validate schema = .ok ()) (h : spec.valueOf? key name = some value) :
    ∃ (place : Nat) (field : Field), spec.fields[place]? = some field ∧ field.source = name ∧
      key[place]? = some value := by
  unfold valueOf? at h
  rw [identityColumns_of_validate hspec] at h
  split at h
  · rename_i place hplace
    obtain ⟨hlt, hname, -⟩ := List.findIdx?_eq_some_iff_getElem.1 hplace
    rw [List.length_map] at hlt
    rw [List.getElem_map, beq_iff_eq] at hname
    exact ⟨place, spec.fields[place], List.getElem?_eq_getElem hlt, hname, h⟩
  · cases h

end Partition.Spec

/-- A file that a reader of a view needs: a base file, or a change file whose transaction is above
the watermark of its partition. -/
def TableView.Pending (view : TableView) (file : File) : Prop :=
  file ∈ view.base.files ∨
    file ∈ view.change.files ∧
      ∃ id, file.transactionId = some id ∧ view.base.watermarks.number file.partition < id.val

theorem TableView.Pending.mem_files {view : TableView} {file : File} (h : view.Pending file) :
    file ∈ view.base.files ++ view.change.files :=
  List.mem_append.2 (h.imp_right And.left)

theorem Metadata.validate_of_check {metadata : Metadata} (h : metadata.check = .ok ()) :
    metadata.spec.validate metadata.schema = .ok () := by
  unfold check at h
  split at h
  · cases h
  · exact h

/-- A row of a partition: the source columns of the fields hold the values of the key, up to the
bits that the same float may have. -/
def Row.InPartition (schema : Schema) (spec : Partition.Spec) (key : Partition.Key) (row : Row) :
    Prop :=
  ∀ (place : Nat) (field : Partition.Field) (value : Partition.Value) (index : Nat)
    (column : Column), spec.fields[place]? = some field → key[place]? = some value →
    schema.resolve? true field.source = some (index, column) →
    (row index).canonical = value.canonical

/-- What a key tells of columns is known of all rows of the partition. -/
theorem knownOf_valueOf? {schema : Schema} {caseSensitive : Bool} {spec : Partition.Spec}
    {key : Partition.Key} {row : Row} (hspec : spec.validate schema = .ok ())
    (hkey : spec.checkKey schema key = .ok ()) (hcanon : key.canonical = key)
    (hrow : row.InPartition schema spec key) :
    Predicate.KnownOf schema caseSensitive (spec.valueOf? key) row := by
  intro name index column value hresolve hvalue
  obtain ⟨place, field, hfield, hsource, hplace⟩ :=
    Partition.Spec.exists_field_of_valueOf? hspec hvalue
  have hexact : schema.resolve? true field.source = some (index, column) := by
    rw [hsource]
    exact resolve?_name hresolve
  constructor
  · rw [hrow place field value index column hfield hplace hexact]
    rw [← hcanon, Partition.Key.canonical, List.getElem?_map, Option.map_eq_some_iff] at hplace
    obtain ⟨v, -, rfl⟩ := hplace
    exact Partition.Value.canonical_canonical v
  · exact Partition.Spec.hasType_of_checkKey hkey hfield hplace (column?_of_resolve? hexact)

namespace Scan

theorem mem_pendingFiles_of_pending {view : TableView} {file : File} (h : view.Pending file) :
    file ∈ pendingFiles view := by
  unfold pendingFiles
  rw [List.mem_append]
  rcases h with h | ⟨hmem, id, hid, hmark⟩
  · exact .inl h
  · refine .inr (List.mem_filter.2 ⟨hmem, ?_⟩)
    rw [Bool.not_eq_true', ← Bool.not_eq_true, File.isAbsorbedBy_iff hid, Int.not_le]
    exact hmark

/-- A partition that holds a row of which all filters are true is kept. -/
theorem keeps_of_filterTruths {schema : Schema} {spec : Partition.Spec} {caseSensitive : Bool}
    {filters : List Predicate} {pushed : PushedTerms} {key : Partition.Key} {row : Row}
    {free : Predicate → Kleene.Truth} (hpushed : pushDown schema caseSensitive filters = .ok pushed)
    (hknown : Predicate.KnownOf schema caseSensitive (spec.valueOf? key) row)
    (htrue : filterTruths schema caseSensitive row free filters = some true) :
    keeps spec (pruningPredicate? (pushed.map (·.2))) key = true := by
  refine keeps_iff.2 fun b hb => ?_
  obtain ⟨⟨term, b⟩, hpair, rfl⟩ := List.mem_map.1 hb
  obtain ⟨-, hbind⟩ := mem_of_pushDown hpushed _ hpair
  refine Partition.Spec.mayMatch_iff.2 fun hfalse => ?_
  exact (Predicate.outcome_approximates hknown hbind).of_false hfalse
    (truth_of_filterTruths hpushed htrue _ hpair)

namespace Plan

/-- A plan that is made is the plan over the view that the source answers with. -/
theorem eq_ofView_of_make {metadata : Metadata} {source : Source} {options : Options}
    {filters : List Predicate} {view : TableView} {plan : Plan}
    (hview : (source.tableView options.ioTimeout).result? = some (.ok view))
    (hplan : (make metadata source options filters).result? = some (.ok plan)) :
    ∃ pushed, pushDown metadata.schema options.caseSensitive filters = .ok pushed ∧
      plan = ofView metadata options pushed view := by
  unfold make at hplan
  split at hplan
  · cases hplan
  · rename_i pushed hpushed
    refine ⟨pushed, hpushed, ?_⟩
    cases hreply : source.tableView options.ioTimeout with
    | never =>
      rw [hreply] at hview
      cases hview
    | after delay result =>
      rw [hreply] at hview hplan
      cases hview
      cases hplan
      rfl

/-- A plan reads a file: it has a task for the partition of the file, only one, and the task has the
file. -/
def Reads (plan : Plan) (file : File) : Prop :=
  ∃ task ∈ plan.partitions, task.partition = file.partition ∧ file ∈ task.files ∧
    ∀ other ∈ plan.partitions, other.partition = file.partition → other = task

/-- A plan over a view reads the pending files of the partitions that are kept. -/
theorem reads_ofView {metadata : Metadata} {options : Options} {pushed : PushedTerms}
    {view : TableView} {file : File} (hfile : file ∈ pendingFiles view)
    (hkeep : keeps metadata.spec (pruningPredicate? (pushed.map (·.2))) file.partition = true) :
    (ofView metadata options pushed view).Reads file := by
  obtain ⟨task, htask, hpartition, hmem⟩ := exists_task_of_mem_pendingFiles hfile hkeep
  refine ⟨task, htask, hpartition, hmem, fun other hother hsame => ?_⟩
  obtain ⟨-, -, heq⟩ := mem_partitionTasks_iff.1 htask
  obtain ⟨-, -, hother⟩ := mem_partitionTasks_iff.1 hother
  rw [heq, hother, hsame, hpartition]

/-- Planning never reads too little: every pending file of a partition with a row of which all
filters are true is read, so a partition without a task has no such row. Terms that do not bind may
have any truth. -/
theorem reads_of_filterTruths {metadata : Metadata} {source : Source} {options : Options}
    {filters : List Predicate} {view : TableView} {plan : Plan} (hmetadata : metadata.check = .ok ())
    (hview : (source.tableView options.ioTimeout).result? = some (.ok view))
    (hkeys : ∀ file ∈ view.base.files ++ view.change.files,
      metadata.spec.checkKey metadata.schema file.partition = .ok () ∧
        file.partition.canonical = file.partition)
    (hplan : (make metadata source options filters).result? = some (.ok plan)) {file : File}
    (hfile : view.Pending file) :
    (∀ row free, row.InPartition metadata.schema metadata.spec file.partition →
        (∀ filter ∈ filters,
          filterTruth metadata.schema options.caseSensitive row free filter = some true) →
        plan.Reads file) ∧
      ((∀ task ∈ plan.partitions, task.partition ≠ file.partition) →
        ∀ row free, row.InPartition metadata.schema metadata.spec file.partition →
          ∃ filter ∈ filters,
            filterTruth metadata.schema options.caseSensitive row free filter ≠ some true) := by
  obtain ⟨pushed, hpushed, rfl⟩ := eq_ofView_of_make hview hplan
  have hreads : ∀ row free, row.InPartition metadata.schema metadata.spec file.partition →
      (∀ filter ∈ filters,
        filterTruth metadata.schema options.caseSensitive row free filter = some true) →
      (ofView metadata options pushed view).Reads file := by
    intro row free hrow htrue
    obtain ⟨hkey, hcanon⟩ := hkeys file hfile.mem_files
    refine reads_ofView (mem_pendingFiles_of_pending hfile) ?_
    refine keeps_of_filterTruths hpushed ?_ (filterTruths_eq_true_of_forall htrue)
    exact knownOf_valueOf? (Metadata.validate_of_check hmetadata) hkey hcanon hrow
  refine ⟨hreads, fun hnone row free hrow => ?_⟩
  by_contra hall
  obtain ⟨task, htask, hpartition, -⟩ := hreads row free hrow fun filter hfilter => by
    by_contra hne
    exact hall ⟨filter, hfilter, hne⟩
  exact hnone task htask hpartition

end Plan

/-- A source that answers with a view without waiting. -/
def sourceOf (view : TableView) : Source where
  hasSide _ := .now (.ok true)
  snapshots _ := .now (.ok [])
  currentSnapshot _ := .now (.ok none)
  view
    | .base => .now (.ok view.base)
    | .change => .now (.ok view.change)

namespace Orders

/-- A table of orders, partitioned by day. -/
def metadata : Metadata where
  id := ⟨"lake", "shop", "orders"⟩
  schema := [⟨"order", .int64⟩, ⟨"day", .int32⟩]
  primaryKey := ["order"]
  spec := ⟨[⟨"day", .identity⟩]⟩
  properties := OrderedMap.empty

/-- Orders of the first day that are not compacted yet. -/
def lateOrders : File :=
  ⟨"late", .insert, [.int32 1], 5, 1, some ⟨9, by decide, by decide⟩, by decide⟩

/-- The files of two days, the first of them compacted up to an earlier transaction. -/
def view : TableView where
  base :=
    ⟨none, [.base "day-1" [.int32 1] 10 1, .base "day-2" [.int32 2] 10 1],
      Watermarks.ofList [([.int32 1], ⟨7, by decide, by decide⟩)]⟩
  change := ⟨none, [lateOrders], OrderedMap.empty⟩

def source : Source := sourceOf view

/-- The first day, and a term over a column that the table does not have. -/
def filters : List Predicate :=
  [.all [.compare "day" .eq (.int64 1), .compare "region" .eq (.utf8 "north")]]

def plan : Plan :=
  .ofView metadata default
    [(.compare "day" .eq (.int64 1), .compare ⟨1, ⟨"day", .int32⟩⟩ .eq (.int32 1))] view

/-- The late orders are read, since a row of the first day may pass the filters. -/
theorem plan_reads_lateOrders : plan.Reads lateOrders := by
  have hpending : view.Pending lateOrders :=
    .inr ⟨by decide, ⟨9, by decide, by decide⟩, rfl, by decide⟩
  have hreads := @Plan.reads_of_filterTruths metadata source default filters view plan (by decide)
    rfl (by decide) rfl lateOrders hpending
  refine hreads.1 (fun _ => .int32 1) (fun _ => some true) ?_ ?_
  · intro place field value index column hfield hvalue _
    have hplace : place = 0 := by
      rcases place with _ | place
      · rfl
      · cases hvalue
    subst hplace
    cases hvalue
    rfl
  · intro filter hfilter
    cases List.mem_singleton.1 hfilter
    rfl

end Orders

namespace SignedZeros

/-- A table of measurements, partitioned by their score. -/
def metadata : Metadata where
  id := ⟨"lake", "lab", "measurements"⟩
  schema := [⟨"id", .int64⟩, ⟨"score", .float64⟩]
  primaryKey := ["id"]
  spec := ⟨[⟨"score", .identity⟩]⟩
  properties := OrderedMap.empty

/-- The measurements with the score 0.0. -/
def zero : File := .base "zero" [.float64 0] 10 1

def view : TableView where
  base := ⟨none, [zero], OrderedMap.empty⟩
  change := ⟨none, [], OrderedMap.empty⟩

def source : Source := sourceOf view

/-- The bits of -0.0. -/
def negativeZero : UInt64 := 0x8000000000000000

/-- Scores above -0.0. -/
def filters : List Predicate := [.compare "score" .gt (.float64 negativeZero)]

/-- The literal is bound as 0.0. -/
def plan : Plan :=
  .ofView metadata default
    [(.compare "score" .gt (.float64 negativeZero),
      .compare ⟨1, ⟨"score", .float64⟩⟩ .gt (.float64 0))] view

/-- A measurement with the score 0.0. -/
def row : Row
  | 0 => .int64 1
  | _ => .float64 0

/-- In the total order of float bits the score 0.0 is above -0.0, but to a filter both are one
number, and the plan has no task for the measurements. -/
theorem plan_leaves_out_zero :
    metadata.check = .ok () ∧
      (∀ file ∈ view.base.files ++ view.change.files,
        metadata.spec.checkKey metadata.schema file.partition = .ok () ∧
          file.partition.canonical = file.partition) ∧
      (source.tableView (default : Options).ioTimeout).result? = some (.ok view) ∧
      (Plan.make metadata source default filters).result? = some (.ok plan) ∧
      view.Pending zero ∧ row.InPartition metadata.schema metadata.spec zero.partition ∧
      metadata.schema.resolve? true "score" = some (1, ⟨"score", .float64⟩) ∧
      Comparison.gt.holds (compare (row 1) (.float64 negativeZero)) = true ∧ ¬plan.Reads zero := by
  refine ⟨by decide, by decide, rfl, rfl, .inl (by decide), ?_, rfl, by decide, ?_⟩
  · intro place field value index column hfield hvalue hresolve
    rcases place with _ | place
    · cases hfield
      cases hvalue
      cases hresolve
      rfl
    · cases hvalue
  · rintro ⟨task, htask, -⟩
    have hnone : plan.partitions = [] := by decide
    rw [hnone] at htask
    cases htask

end SignedZeros
end Scan

end MergeOnRead
