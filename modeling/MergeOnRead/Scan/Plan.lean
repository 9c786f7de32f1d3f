import MergeOnRead.Predicate.Pruning
import MergeOnRead.Scan.Options
import MergeOnRead.Scan.Packing
import MergeOnRead.Scan.Task
import MergeOnRead.View

/-!
# Scan plans

A plan reads, for every partition that the filters do not rule out, all base files and those change
files that are not yet folded into them. Filters are taken apart into terms; a term that does not
bind to the schema is dropped, since it only makes the plan read more, but a malformed filter fails
the plan.
-/

namespace MergeOnRead.Scan

/-- The terms of filters that are used for pruning, each with its bound form. -/
abbrev PushedTerms := List (Predicate × BoundPredicate)

/-- Binds terms from left to right. Terms that do not bind are dropped; a malformed term fails. -/
def bindTerms (schema : Schema) (caseSensitive : Bool) : List Predicate → Except Error PushedTerms
  | [] => .ok []
  | term :: terms =>
    match term.bind schema caseSensitive with
    | .ok bound => (bindTerms schema caseSensitive terms).map ((term, bound) :: ·)
    | .error e =>
      if e.isStructural then .error (.unbound e) else bindTerms schema caseSensitive terms

/-- Binds the terms of filters. -/
def pushDown (schema : Schema) (caseSensitive : Bool) (filters : List Predicate) :
    Except Error PushedTerms :=
  bindTerms schema caseSensitive (Predicate.conjunctsList filters)

/-- The one predicate that a partition has to pass: none, the only one, or all of them. -/
def pruningPredicate? : List BoundPredicate → Option BoundPredicate
  | [] => none
  | [p] => some p
  | ps => some (.all ps)

/-- Whether a partition may hold matching rows. Without a predicate every partition may. -/
def keeps (spec : Partition.Spec) (predicate : Option BoundPredicate) (key : Partition.Key) :
    Bool :=
  match predicate with
  | none => true
  | some p => spec.mayMatch p key

/-- The files that a plan reads: all base files, then the change files that are not absorbed by the
watermark of their partition. -/
def pendingFiles (view : TableView) : List File :=
  view.base.files ++
    view.change.files.filter fun file =>
      !file.isAbsorbedBy (view.base.watermarks.get? file.partition)

/-- Adds a file to the task of its partition. -/
def addFile (tasks : OrderedMap Partition.Key PartitionTask) (file : File) :
    OrderedMap Partition.Key PartitionTask :=
  tasks.upsert file.partition fun task => (task.getD (.empty file.partition)).push file

/-- Groups the files of the partitions that are kept, in partition order. -/
def partitionTasks (keep : Partition.Key → Bool) (view : TableView) : List PartitionTask :=
  (((pendingFiles view).filter fun file => keep file.partition).foldl addFile
    OrderedMap.empty).values

structure Plan where
  baseSnapshot : Option SnapshotId
  changeSnapshot : Option SnapshotId
  pushed : List Predicate
  partitions : List PartitionTask
  options : Options

namespace Plan

def weight (options : Options) (task : PartitionTask) : UInt64 :=
  max task.cost options.openFileCost

/-- The partition tasks, packed into combined tasks. -/
def tasks (plan : Plan) : List CombinedTask :=
  (Packing.pack plan.options.targetSize plan.options.lookback.toNat (weight plan.options)
    plan.partitions).map CombinedTask.mk

def volume (plan : Plan) : Volume where
  size := Saturating.sum (plan.partitions.map (·.cost))
  rows := Saturating.sum (plan.partitions.map (·.recordCount))

/-- The plan over a view. -/
def ofView (metadata : Metadata) (options : Options) (pushed : PushedTerms) (view : TableView) :
    Plan where
  baseSnapshot := view.base.snapshotId
  changeSnapshot := view.change.snapshotId
  pushed := pushed.map (·.1)
  partitions :=
    partitionTasks (keeps metadata.spec (pruningPredicate? (pushed.map (·.2)))) view
  options

/-- Plans a scan: binds the filters, then loads the view. -/
def make (metadata : Metadata) (source : Source) (options : Options) (filters : List Predicate) :
    Reply Plan :=
  match pushDown metadata.schema options.caseSensitive filters with
  | .error e => .now (.error e)
  | .ok pushed =>
    (source.tableView options.ioTimeout).andThen fun view =>
      .now (.ok (ofView metadata options pushed view))

end Plan

end MergeOnRead.Scan
