import MergeOnRead.Reply
import MergeOnRead.Store.Basic

/-!
# Views of a table

What a table store answers to a reader, and the view of both sides that is loaded from it. The two
sides are read side by side; the change side is asked for only if it exists, and each call is bounded
on its own.
-/

namespace MergeOnRead

/-- What a table store answers to the questions of a reader. -/
structure Source where
  hasSide : Side → Reply Bool
  snapshots : Side → Reply (List Snapshot)
  currentSnapshot : Side → Reply (Option Snapshot)
  view : Side → Reply SideView

/-- A store in memory answers without waiting. -/
def Store.source (s : Store) : Source where
  hasSide side := .now (.ok (s.hasSide side))
  snapshots side := .now (s.snapshots side)
  currentSnapshot side := .now (s.currentSnapshot side)
  view side := .now (s.view side)

theorem Store.source_hasSide (s : Store) (side : Side) :
    s.source.hasSide side = .now (.ok (s.hasSide side)) := rfl

theorem Store.source_snapshots (s : Store) (side : Side) :
    s.source.snapshots side = .now (s.snapshots side) := rfl

/-- What a reader sees of a table. -/
structure TableView where
  base : SideView
  change : SideView
deriving DecidableEq, Repr

namespace Source

/-- Loads the change side, which is empty when it does not exist. -/
def changeView (source : Source) (limit : Option Duration) : Reply SideView :=
  ((source.hasSide .change).within limit).andThen fun present =>
    if present then (source.view .change).within limit else .now (.ok SideView.empty)

def tableView (source : Source) (limit : Option Duration) : Reply TableView :=
  (((source.view .base).within limit).both (source.changeView limit)).andThen fun sides =>
    .now (.ok ⟨sides.1, sides.2⟩)

/-- A source that answers without waiting is not affected by a limit. -/
theorem tableView_eq_now {source : Source} {base change : SideView} {limit : Option Duration}
    (hpresent : source.hasSide .change = .now (.ok true))
    (hbase : source.view .base = .now (.ok base))
    (hchange : source.view .change = .now (.ok change)) :
    source.tableView limit = .now (.ok ⟨base, change⟩) := by
  have hchangeView : source.changeView limit = .now (.ok change) := by
    rw [changeView, hpresent, Reply.within_now, Reply.now_andThen, if_pos rfl, hchange,
      Reply.within_now]
  rw [tableView, hchangeView, hbase, Reply.within_now]
  rfl

/-- The current watermarks, which the base side keeps. -/
def watermarks (source : Source) : Reply Watermarks :=
  (source.view .base).andThen fun view => .now (.ok view.watermarks)

end Source

end MergeOnRead
