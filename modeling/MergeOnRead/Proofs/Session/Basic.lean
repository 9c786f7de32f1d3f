import MergeOnRead.Proofs.Write.Staging

/-!
# Sessions

Any number of transactions on one store, in any interleaving: transactions are opened, staged on and
committed, a transaction may be committed at any later time and again, and sides become unreachable
or are dropped in between. A session keeps, beside the store, the open transactions with the calls
that were made on them, and the commits that published a snapshot. Calls and commits work in place,
and what they leave is kept also when they fail; it is then what was there before
(`Session.stage_cases`, `Session.commit_eq`).

What a transaction means apart from all others is told by its calls: each has an effect on the
contents of a side, as if it were made there at once (`StagingCall.applyTo`).
-/

namespace MergeOnRead

open InPlace

/-- What a side holds for its readers. -/
structure Contents where
  files : List File
  watermarks : Watermarks
deriving DecidableEq, Repr

namespace Contents

def empty : Contents := ⟨[], OrderedMap.empty⟩

end Contents

def Version.contents (version : Version) : Contents := ⟨version.files, version.watermarks⟩

def SideView.contents (view : SideView) : Contents := ⟨view.files, view.watermarks⟩

/-- A call that stages work on a transaction. -/
inductive StagingCall where
  | replacePartitions (files : List File)
  | append (files : List File)
  | setWatermarks (marks : Watermarks)
  | setSummary (key value : String)
  | replace (metadata : Metadata) (r : Replacement)
  | appendChanges (metadata : Metadata) (a : Append)

namespace StagingCall

/-- What a call does to a transaction in place. -/
def stage : StagingCall → Staging Unit
  | replacePartitions files => Staging.replacePartitions files
  | append files => Staging.append files
  | setWatermarks marks => modify (·.setWatermarks marks)
  | setSummary key value => modify (·.setSummary key value)
  | replace metadata r => do
    let _ ← r.apply metadata
  | appendChanges metadata a => a.apply metadata

/-- A call makes all its checks before it changes anything. -/
theorem keepsOnFailure_stage (call : StagingCall) :
    KeepsOnFailure call.stage := by
  cases call with
  | replacePartitions files => exact Staging.keepsOnFailure_stage _ _
  | append files => exact Staging.keepsOnFailure_stage _ _
  | setWatermarks marks => exact (total_modify _).keepsOnFailure
  | setSummary key value => exact (total_modify _).keepsOnFailure
  | replace metadata r => exact .before_total (r.keepsOnFailure_apply metadata) fun _ => total_pure _
  | appendChanges metadata a => exact a.keepsOnFailure_apply metadata

/-- The effect of a call on the contents of a side. -/
def applyTo (contents : Contents) : StagingCall → Contents
  | replacePartitions files =>
    { contents with files := (StagedChange.replace files).applyTo contents.files }
  | append files => { contents with files := contents.files ++ files }
  | setWatermarks marks => { contents with watermarks := marks }
  | setSummary _ _ => contents
  | replace _ r =>
    match r.transactionId with
    | .ok id =>
      ⟨(StagedChange.replace r.files).applyTo contents.files,
        contents.watermarks.raiseAll (r.batch id)⟩
    | .error _ => contents
  | appendChanges _ a => { contents with files := contents.files ++ a.files }

/-- Whether a call stages anything to publish. -/
def stages : StagingCall → Bool
  | setSummary _ _ => false
  | replace _ r => !r.files.isEmpty
  | appendChanges _ a => !a.files.isEmpty
  | _ => true

end StagingCall

/-- An open transaction: the version that was current when it was opened, and the calls that
succeeded on it. -/
structure Handle where
  openedOn : Option Version
  transaction : Transaction
  calls : List StagingCall

namespace Handle

def side (handle : Handle) : Side := handle.transaction.side

/-- The effect of all calls of a transaction, one after the other. -/
def applyTo (contents : Contents) (handle : Handle) : Contents :=
  handle.calls.foldl StagingCall.applyTo contents

/-- Whether any call of a transaction has staged something to publish. -/
def stages (handle : Handle) : Bool := handle.calls.any (·.stages)

end Handle

/-- A commit that published a snapshot, with its transaction as it was then. -/
structure Publication where
  handle : Handle
  snapshot : Snapshot

/-- A store in use: the transactions that are open, and what was published so far. -/
structure Session where
  store : Store
  handles : List Handle
  log : List Publication

/-- A step of a session. Open transactions are named by their number. -/
inductive Action where
  | openOn (side : Side)
  | stage (number : Nat) (call : StagingCall)
  | commit (number : Nat) (now : Int)
  | setUnavailable (side : Side) (unavailable : Bool)
  | dropSide (side : Side)

namespace Session

def start (sides : List Side) : Session := ⟨Store.withSides sides, [], []⟩

def openOn (session : Session) (side : Side) : Session :=
  match session.store.openTransaction side with
  | .error _ => session
  | .ok t =>
    let current := (session.store.side? side).bind (·.current)
    { session with handles := session.handles ++ [⟨current, t, []⟩] }

/-- Makes a call on an open transaction, which is then what the call leaves, also if it fails. -/
def stage (session : Session) (number : Nat) (call : StagingCall) : Session :=
  match session.handles[number]? with
  | none => session
  | some handle =>
    match call.stage.run handle.transaction with
    | .error _ t =>
      { session with handles := session.handles.set number { handle with transaction := t } }
    | .ok () t =>
      let staged : Handle := { handle with transaction := t, calls := handle.calls ++ [call] }
      { session with handles := session.handles.set number staged }

/-- Commits an open transaction as it is now. It stays open, so it may be committed again. The store
is what the commit leaves, also if the commit fails. -/
def commit (session : Session) (number : Nat) (now : Int) : Session :=
  match session.handles[number]? with
  | none => session
  | some handle =>
    match (handle.transaction.commit now).run session.store with
    | .error _ store => { session with store }
    | .ok none store => { session with store }
    | .ok (some snapshot) store =>
      { session with store, log := session.log ++ [⟨handle, snapshot⟩] }

def step (session : Session) : Action → Session
  | .openOn side => session.openOn side
  | .stage number call => session.stage number call
  | .commit number now => session.commit number now
  | .setUnavailable side unavailable =>
    { session with store := session.store.setUnavailable side unavailable }
  | .dropSide side => { session with store := session.store.dropSide side }

def run (session : Session) (actions : List Action) : Session := actions.foldl step session

/-- What was published on a side, in the order of the commits. -/
def publishedOn (session : Session) (side : Side) : List Publication :=
  session.log.filter fun publication => publication.handle.side = side

/-! ### Steps that fail -/

variable {session : Session} {handle : Handle} {number : Nat} {now : Int}

/-- A call that fails leaves the session as it is. Any other changes its transaction. -/
theorem stage_cases (session : Session) (number : Nat) (call : StagingCall) :
    session.stage number call = session ∨
      ∃ handle t, session.handles[number]? = some handle ∧
        call.stage.run handle.transaction = .ok () t ∧
        let staged : Handle := { handle with transaction := t, calls := handle.calls ++ [call] }
        session.stage number call = { session with handles := session.handles.set number staged } := by
  unfold stage
  split
  · exact .inl rfl
  · rename_i handle hhandle
    split
    · rename_i e t hfails
      obtain ⟨hnumber, rfl⟩ := List.getElem?_eq_some_iff.1 hhandle
      rw [call.keepsOnFailure_stage hfails, List.set_getElem_self hnumber]
      exact .inl rfl
    · rename_i t ht
      exact .inr ⟨handle, t, hhandle, ht, rfl⟩

/-- A commit that is not accepted leaves the session as it is. -/
theorem commit_eq (hhandle : session.handles[number]? = some handle) :
    session.commit number now =
      match session.store.commit now handle.transaction with
      | .error _ => session
      | .ok (none, store) => { session with store }
      | .ok (some snapshot, store) =>
        { session with store, log := session.log ++ [⟨handle, snapshot⟩] } := by
  rw [commit, hhandle, Store.commit, InPlace.result]
  dsimp only
  cases h : (handle.transaction.commit now).run session.store with
  | ok published store => cases published <;> rfl
  | error e store =>
    rw [Store.keepsOnFailure_commit _ _ h]

end Session

/-- The contents that publications leave when each is made on those before it. -/
def Contents.after (publications : List Publication) : Contents :=
  publications.foldl (fun contents publication => publication.handle.applyTo contents) empty

end MergeOnRead
