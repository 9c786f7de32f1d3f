import MergeOnRead.Error
import MergeOnRead.Snapshot

/-!
# Events

What operations report to a log. An event is data; its level and its fields are functions of it, and
every field is text.
-/

namespace MergeOnRead

/-- How serious an event is. -/
inductive Level where
  | debug
  | info
  | warn
  | error
deriving DecidableEq, Repr

def Level.text : Level → String
  | debug => "DEBUG"
  | info => "INFO"
  | warn => "WARN"
  | error => "ERROR"

/-- Something that an operation reports. -/
inductive Event where
  | planningStarted (table : TableId) (filters : Nat)
  | termDropped (table : TableId) (term : Predicate) (reason : BindError)
  | planningFinished (table : TableId) (partitions tasks : Nat)
  | propertyIgnored (key value : String)
  | collectStarted (table : TableId) (side : Side)
  | sideMissing (table : TableId) (side : Side) (error : Option Error)
  | collectFailed (table : TableId) (side : Side) (error : Error)
  | commitConflict (side : Side) (expected actual : Option SnapshotId)
  | snapshotCommitted (side : Side) (snapshot : SnapshotId) (operation : Operation)
      (liveFiles : Nat)
  | replacementCommitted (table : TableId) (snapshot : SnapshotId) (transaction : Option Int)
      (files partitions : Nat)
  | changeAppended (table : TableId) (snapshot : SnapshotId) (files : Nat)
  | databaseCreated (catalog database : String)
  | databaseDropped (catalog database : String)
  | tableCreated (table : TableId) (keyed : Bool)
  | tableDropped (table : TableId) (purge : Bool)

namespace Event

def level : Event → Level
  | termDropped .. => .debug
  | snapshotCommitted .. => .debug
  | propertyIgnored .. => .warn
  | sideMissing .. => .warn
  | commitConflict .. => .warn
  | collectFailed .. => .error
  | _ => .info

/-- The part of the library that reports an event. -/
def component : Event → String
  | planningStarted .. | termDropped .. | planningFinished .. | propertyIgnored .. => "scan"
  | collectStarted .. | sideMissing .. | collectFailed .. => "stats"
  | commitConflict .. | snapshotCommitted .. => "store"
  | replacementCommitted .. | changeAppended .. => "rewrite"
  | databaseCreated .. | databaseDropped .. | tableCreated .. | tableDropped .. => "catalog"

def name : Event → String
  | planningStarted .. => "planning_started"
  | termDropped .. => "filter_term_dropped"
  | planningFinished .. => "planning_finished"
  | propertyIgnored .. => "invalid_table_property"
  | collectStarted .. => "collect_started"
  | sideMissing .. => "table_side_missing"
  | collectFailed .. => "collect_failed"
  | commitConflict .. => "commit_conflict"
  | snapshotCommitted .. => "snapshot_committed"
  | replacementCommitted .. => "rewrite_committed"
  | changeAppended .. => "change_appended"
  | databaseCreated .. => "database_created"
  | databaseDropped .. => "database_dropped"
  | tableCreated .. => "table_created"
  | tableDropped .. => "table_dropped"

/-- The word for a truth value. -/
def flag (b : Bool) : String := if b then "true" else "false"

def details : Event → List (String × String)
  | planningStarted table filters => [("table", table.text), ("filters", toString filters)]
  | termDropped table term reason =>
    [("table", table.text), ("term", term.text), ("reason", reason.message)]
  | planningFinished table partitions tasks =>
    [("table", table.text), ("partitions", toString partitions), ("tasks", toString tasks)]
  | propertyIgnored key value => [("key", key), ("value", value)]
  | collectStarted table side => [("table", table.text), ("side", side.text)]
  | sideMissing table side none => [("table", table.text), ("side", side.text)]
  | sideMissing table side (some error) =>
    [("table", table.text), ("side", side.text), ("error", error.message)]
  | collectFailed table side error =>
    [("table", table.text), ("side", side.text), ("error", error.message)]
  | commitConflict side expected actual =>
    [("side", side.text), ("expected", SnapshotId.optionText expected),
      ("actual", SnapshotId.optionText actual)]
  | snapshotCommitted side snapshot operation liveFiles =>
    [("side", side.text), ("snapshot_id", snapshot.text), ("operation", operation.text),
      ("live_files", toString liveFiles)]
  | replacementCommitted table snapshot transaction files partitions =>
    let shown :=
      match transaction with
      | none => "None"
      | some id => "Some(" ++ toString id ++ ")"
    [("table", table.text), ("snapshot_id", snapshot.text), ("transaction_id", shown),
      ("files", toString files), ("partitions", toString partitions)]
  | changeAppended table snapshot files =>
    [("table", table.text), ("snapshot_id", snapshot.text), ("files", toString files)]
  | databaseCreated catalog database => [("catalog", catalog), ("database", database)]
  | databaseDropped catalog database => [("catalog", catalog), ("database", database)]
  | tableCreated table keyed => [("table", table.text), ("keyed", flag keyed)]
  | tableDropped table purge => [("table", table.text), ("purge", flag purge)]

/-- All fields of an event. -/
def fields (event : Event) : List (String × String) :=
  [("level", event.level.text), ("component", event.component), ("event", event.name)] ++
    event.details

end Event

end MergeOnRead
