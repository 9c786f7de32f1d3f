import MergeOnRead.ColumnType
import MergeOnRead.Duration
import MergeOnRead.Encoding.File
import MergeOnRead.Encoding.Identifier
import MergeOnRead.Encoding.Json
import MergeOnRead.Encoding.Json.Scalar
import MergeOnRead.Encoding.Json.Text
import MergeOnRead.Encoding.Json.Token
import MergeOnRead.Encoding.Partition
import MergeOnRead.Encoding.Predicate
import MergeOnRead.Encoding.Report
import MergeOnRead.Encoding.Snapshot
import MergeOnRead.Encoding.Task
import MergeOnRead.Error
import MergeOnRead.Event
import MergeOnRead.File.Basic
import MergeOnRead.File.Content
import MergeOnRead.Floating.Exact
import MergeOnRead.Floating.Format
import MergeOnRead.Floating.Shortest
import MergeOnRead.Floating.Text
import MergeOnRead.Identifier
import MergeOnRead.InPlace
import MergeOnRead.Journal
import MergeOnRead.Kleene
import MergeOnRead.OrderedMap
import MergeOnRead.Partition.Key
import MergeOnRead.Partition.Spec
import MergeOnRead.Partition.Transform
import MergeOnRead.Partition.Value
import MergeOnRead.Predicate.Basic
import MergeOnRead.Predicate.Bound
import MergeOnRead.Predicate.Pruning
import MergeOnRead.Proofs.Encoding.File
import MergeOnRead.Proofs.Encoding.Json
import MergeOnRead.Proofs.Encoding.Partition
import MergeOnRead.Proofs.Encoding.Task
import MergeOnRead.Proofs.Floating.Conversion
import MergeOnRead.Proofs.Floating.Number
import MergeOnRead.Proofs.Floating.Representable
import MergeOnRead.Proofs.Floating.TotalOrder
import MergeOnRead.Proofs.InPlace
import MergeOnRead.Proofs.Kleene
import MergeOnRead.Proofs.Lists
import MergeOnRead.Proofs.Loading
import MergeOnRead.Proofs.Partition.Order
import MergeOnRead.Proofs.Polling
import MergeOnRead.Proofs.Predicate.Binding
import MergeOnRead.Proofs.Predicate.Conjuncts
import MergeOnRead.Proofs.Predicate.Exactness
import MergeOnRead.Proofs.Predicate.Literal
import MergeOnRead.Proofs.Predicate.Malformed
import MergeOnRead.Proofs.Predicate.Outcome
import MergeOnRead.Proofs.Predicate.Pruning
import MergeOnRead.Proofs.Predicate.Rewriting
import MergeOnRead.Proofs.Predicate.Scalar
import MergeOnRead.Proofs.Predicate.Truth
import MergeOnRead.Proofs.Reply
import MergeOnRead.Proofs.Result
import MergeOnRead.Proofs.Saturating
import MergeOnRead.Proofs.Scan.Coverage
import MergeOnRead.Proofs.Scan.Filter
import MergeOnRead.Proofs.Scan.FirstFit
import MergeOnRead.Proofs.Scan.Grouping
import MergeOnRead.Proofs.Scan.Narrowing
import MergeOnRead.Proofs.Scan.Packing
import MergeOnRead.Proofs.Scan.Partitions
import MergeOnRead.Proofs.Scan.Terms
import MergeOnRead.Proofs.Scan.Totals
import MergeOnRead.Proofs.Scan.Unfiltered
import MergeOnRead.Proofs.Schema
import MergeOnRead.Proofs.Session.Basic
import MergeOnRead.Proofs.Session.Invariant
import MergeOnRead.Proofs.Session.Linearizable
import MergeOnRead.Proofs.Session.Planning
import MergeOnRead.Proofs.Session.Watermarks
import MergeOnRead.Proofs.Statistics
import MergeOnRead.Proofs.Statistics.Isolation
import MergeOnRead.Proofs.Store.Accounting
import MergeOnRead.Proofs.Store.Commit
import MergeOnRead.Proofs.Store.Summary
import MergeOnRead.Proofs.Store.WriterEntries
import MergeOnRead.Proofs.View
import MergeOnRead.Proofs.Warehouse.Catalog
import MergeOnRead.Proofs.Warehouse.Invariant
import MergeOnRead.Proofs.Warehouse.Refinement
import MergeOnRead.Proofs.Warehouse.Run
import MergeOnRead.Proofs.Watermarks
import MergeOnRead.Proofs.Watermarks.Join
import MergeOnRead.Proofs.Write.Acceptance
import MergeOnRead.Proofs.Write.Atomicity
import MergeOnRead.Proofs.Write.Commutation
import MergeOnRead.Proofs.Write.Hiding
import MergeOnRead.Proofs.Write.Spelling
import MergeOnRead.Proofs.Write.Staging
import MergeOnRead.Reply
import MergeOnRead.Saturating
import MergeOnRead.Scan.Options
import MergeOnRead.Scan.Packing
import MergeOnRead.Scan.Plan
import MergeOnRead.Scan.Task
import MergeOnRead.Schema
import MergeOnRead.Side
import MergeOnRead.Snapshot
import MergeOnRead.Statistics
import MergeOnRead.Store.Basic
import MergeOnRead.Store.Commit
import MergeOnRead.Table
import MergeOnRead.Text.Blank
import MergeOnRead.Text.Hex
import MergeOnRead.Text.Numeral
import MergeOnRead.Transaction
import MergeOnRead.View
import MergeOnRead.Warehouse
import MergeOnRead.Watermarks
import MergeOnRead.Write.Append
import MergeOnRead.Write.Replacement
