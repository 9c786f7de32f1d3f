import MergeOnRead.Event
import MergeOnRead.Scan.Plan
import MergeOnRead.Statistics
import MergeOnRead.Warehouse
import MergeOnRead.Write.Append
import MergeOnRead.Write.Replacement

/-!
# Journals

The events that each operation reports, in the order in which they are reported. They are functions
of the same arguments as the operations, so an operation can be studied without them.
-/

namespace MergeOnRead

/-- A commit reports a lost race and a published snapshot. -/
def Store.commitEvents (s : Store) (now : Int) (t : Transaction) : List Event :=
  match s.commit now t with
  | .error (.conflict side expected actual) => [.commitConflict side expected actual]
  | .error _ => []
  | .ok (none, _) => []
  | .ok (some snapshot, after) =>
    let live := ((after.side? t.side).map fun state => state.view.files.length).getD 0
    [.snapshotCommitted t.side snapshot.id (.ofChanges t.changes) live]

def Store.published? (s : Store) (now : Int) (t : Transaction) : Option Snapshot :=
  match s.commit now t with
  | .ok (snapshot, _) => snapshot
  | .error _ => none

def partitionCount (files : List File) : Nat :=
  (OrderedMap.ofList (files.map fun file => (file.partition, ()))).size

/-- A replacement reports its commit, and what it wrote if it published a snapshot. -/
def Replacement.commitEvents (metadata : Metadata) (r : Replacement) (s : Store) (now : Int) :
    List Event :=
  match r.prepare metadata s with
  | .error _ => []
  | .ok (_, t) =>
    s.commitEvents now t ++
      match s.published? now t with
      | none => []
      | some snapshot =>
        [.replacementCommitted metadata.id snapshot.id r.transaction r.files.length
          (partitionCount r.files)]

/-- An append reports its commit, and what it wrote if it published a snapshot. -/
def Append.commitEvents (metadata : Metadata) (a : Append) (s : Store) (now : Int) : List Event :=
  match a.prepare metadata s with
  | .error _ => []
  | .ok t =>
    s.commitEvents now t ++
      match s.published? now t with
      | none => []
      | some snapshot => [.changeAppended metadata.id snapshot.id a.files.length]

namespace Scan

/-- Reading options from properties reports the properties that are ignored. -/
def Options.events (properties : Properties) : List Event :=
  (Options.ignored properties).map fun entry => .propertyIgnored entry.1 entry.2

/-- Binding terms reports those that are dropped, up to the first malformed one. -/
def droppedEvents (table : TableId) (schema : Schema) (caseSensitive : Bool) :
    List Predicate → List Event
  | [] => []
  | term :: terms =>
    match term.bind schema caseSensitive with
    | .ok _ => droppedEvents table schema caseSensitive terms
    | .error e =>
      if e.isStructural then []
      else .termDropped table term e :: droppedEvents table schema caseSensitive terms

/-- Planning reports its start, the terms it drops and, if it succeeds, what came of it. -/
def Plan.events (metadata : Metadata) (source : Source) (options : Options)
    (filters : List Predicate) : List Event :=
  .planningStarted metadata.id filters.length ::
    droppedEvents metadata.id metadata.schema options.caseSensitive
      (Predicate.conjunctsList filters) ++
    match (Plan.make metadata source options filters).result? with
    | some (.ok plan) =>
      [.planningFinished metadata.id plan.partitions.length plan.tasks.length]
    | _ => []

end Scan

/-- Collecting statistics reports its start and why there are no figures. -/
def Statistics.events (table : TableId) (source : Source) (side : Side) : List Event :=
  .collectStarted table side ::
    match (Statistics.read table source side).result? with
    | none => []
    | some (.ok (some _)) => []
    | some (.ok none) => [.sideMissing table side none]
    | some (.error e) =>
      if e.kind = .notFound then [.sideMissing table side (some e)]
      else [.collectFailed table side e]

namespace Catalog

def createDatabaseEvents (c : Catalog) (name : String) : List Event :=
  if ((createDatabase name).result c).isOk then [.databaseCreated c.name name] else []

def dropDatabaseEvents (c : Catalog) (name : String) : List Event :=
  if ((dropDatabase name).result c).isOk then [.databaseDropped c.name name] else []

end Catalog

namespace Warehouse

def createTableEvents (w : Warehouse) (definition : Metadata) (now : Int) : List Event :=
  if ((createTable definition now).result w).isOk then
    [.tableCreated definition.id definition.isKeyed]
  else []

def dropTableEvents (w : Warehouse) (id : TableId) (purge : Bool) : List Event :=
  if ((dropTable id purge).result w).isOk then [.tableDropped id purge] else []

end Warehouse

end MergeOnRead
