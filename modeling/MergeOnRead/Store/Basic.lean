import MergeOnRead.Store.Commit

/-!
# Stores

A store keeps both sides of one table in memory. A side is the history of its commits; a commit is
accepted only if its transaction was opened on the snapshot that is still current, and then appends
one version with new files and new watermarks together.
-/

namespace MergeOnRead

/-- A committed state of a side: its snapshot, its live files and its watermarks. -/
structure Version where
  snapshot : Snapshot
  files : List File
  watermarks : Watermarks
deriving DecidableEq, Repr

/-- What a reader sees of a side. Before the first commit there is no snapshot and nothing else. -/
structure SideView where
  snapshot : Option Snapshot
  files : List File
  watermarks : Watermarks
deriving DecidableEq, Repr

namespace SideView

/-- The view of a side without commits, and of a side that does not exist. -/
def empty : SideView := ⟨none, [], OrderedMap.empty⟩

def snapshotId (view : SideView) : Option SnapshotId := view.snapshot.map (·.id)

end SideView

/-- The commits of a side, the oldest first, and whether the side can be reached. -/
structure SideState where
  history : List Version
  unavailable : Bool
deriving DecidableEq, Repr

namespace SideState

def created : SideState := ⟨[], false⟩

def current (state : SideState) : Option Version := state.history.getLast?

def view (state : SideState) : SideView :=
  match state.current with
  | none => SideView.empty
  | some version => ⟨some version.snapshot, version.files, version.watermarks⟩

/-- The time of the next commit: the present, but always after the commit before. -/
def nextTime (state : SideState) (now : Int) : Int :=
  match state.current with
  | none => now
  | some version => max now (version.snapshot.time + 1)

end SideState

/-- Both sides of a table, each of which may be missing, and the ids for its snapshots. -/
structure Store where
  base : Option SideState
  change : Option SideState
  ids : SnapshotIds
deriving DecidableEq, Repr

namespace Store

/-- A new store with the given sides. -/
def withSides (sides : List Side) : Store where
  base := if .base ∈ sides then some SideState.created else none
  change := if .change ∈ sides then some SideState.created else none
  ids := SnapshotIds.fresh

/-- A new store for a table with or without a primary key: only keyed tables have a change side. -/
def create (keyed : Bool) : Store := withSides (if keyed then [.base, .change] else [.base])

/-- The state of a side, if it exists. -/
def side? (s : Store) : Side → Option SideState
  | .base => s.base
  | .change => s.change

/-- Puts a state in the place of a side. -/
def setSide (s : Store) (side : Side) (state : Option SideState) : Store :=
  match side with
  | .base => { s with base := state }
  | .change => { s with change := state }

def dropSide (s : Store) (side : Side) : Store := s.setSide side none

/-- Makes a side unreachable, or reachable again. A missing side stays missing. -/
def setUnavailable (s : Store) (side : Side) (unavailable : Bool) : Store :=
  s.setSide side ((s.side? side).map fun state => { state with unavailable })

/-- Whether a side exists. A side that cannot be reached exists. -/
def hasSide (s : Store) (side : Side) : Bool := (s.side? side).isSome

/-- The state of a side that can be reached. -/
def reach (s : Store) (side : Side) : Except Error SideState :=
  match s.side? side with
  | none => .error (.notFound (.side side))
  | some state => if state.unavailable then .error (.unavailable (.unreachable side)) else .ok state

/-- What a reader sees of a side. -/
def view (s : Store) (side : Side) : Except Error SideView := (s.reach side).map (·.view)

/-- The snapshots of a side, the oldest first. -/
def snapshots (s : Store) (side : Side) : Except Error (List Snapshot) :=
  (s.reach side).map fun state => state.history.map (·.snapshot)

def currentSnapshot (s : Store) (side : Side) : Except Error (Option Snapshot) :=
  (s.reach side).map fun state => state.current.map (·.snapshot)

/-- Starts a write on what is current. -/
def openTransaction (s : Store) (side : Side) : Except Error Transaction :=
  (s.view side).map fun view => Transaction.start side view.snapshotId view.watermarks

/-- The version that a transaction adds to a side. -/
def nextVersion (state : SideState) (id : SnapshotId) (now : Int) (t : Transaction) : Version :=
  let delta := FileDelta.applyAll state.view.files t.changes
  { snapshot :=
      ⟨id, state.view.snapshotId, state.nextTime now,
        Summary.ofCommit t.summary (.ofChanges t.changes) delta⟩
    files := delta.live
    watermarks := t.watermarks }

end Store

/-- Publishes all that a transaction has staged, if the side is still where the transaction was
opened. A transaction that staged nothing leaves the store as it is. -/
def Transaction.commit (t : Transaction) (now : Int) : InPlace Store (Option Snapshot) := do
  let state ← InPlace.ofExcept ((← get).reach t.side)
  if state.view.snapshotId ≠ t.baseSnapshot then
    throw (.conflict t.side t.baseSnapshot state.view.snapshotId)
  if t.isEmpty then
    return none
  let id ← modifyGet fun s => (s.ids.next.1, { s with ids := s.ids.next.2 })
  let version := Store.nextVersion state id now t
  let committed := { state with history := state.history ++ [version] }
  modify fun s => s.setSide t.side (some committed)
  return some version.snapshot

/-- What a commit gives and leaves, if it is accepted. -/
def Store.commit (s : Store) (now : Int) (t : Transaction) : Except Error (Option Snapshot × Store) :=
  (t.commit now).result s

end MergeOnRead
