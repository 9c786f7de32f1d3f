import Mathlib.Data.List.Induction
import MergeOnRead.Proofs.Warehouse.Catalog
import MergeOnRead.Proofs.Write.Staging

/-!
# Warehouses in use

Any calls of a catalog, one after the other, and between them commits through the table handles that
were given out, also through those of tables that were dropped since. A run keeps, beside the
warehouse, the handles and the calls that succeeded, with their answers.

The log tells what is registered without a look at the warehouse: a table is live if it was created
after it was dropped for the last time (`Run.Live`). It also tells what became of the store of a
table, by the entries that are about this very table (`Tenure.record`).

Main statements: `effect_of_run`, all that a call can do, and `keepsOnFailure_perform`.
-/

namespace MergeOnRead

open InPlace

/-- A commit through a table handle: of a transaction, or of a write on a transaction of its own. -/
inductive Commit where
  | transaction (t : Transaction)
  | replacement (r : Replacement)
  | append (a : Append)

namespace Commit

/-- Makes a commit on a store in place. -/
def perform (metadata : Metadata) (now : Int) : Commit → InPlace Store Unit
  | transaction t => do
    let _ ← t.commit now
  | replacement r => do
    let _ ← r.perform metadata now
  | append a => do
    let _ ← a.perform metadata now

/-- The store after a commit, if it is accepted. -/
def apply (metadata : Metadata) (now : Int) (s : Store) (work : Commit) : Except Error Store :=
  ((work.perform metadata now).result s).map (·.2)

theorem apply_eq_ok_iff {metadata : Metadata} {now : Int} {s after : Store} {work : Commit} :
    work.apply metadata now s = .ok after ↔ (work.perform metadata now).run s = .ok () after := by
  rw [apply, ← result_eq_ok_iff]
  cases (work.perform metadata now).result s with
  | error e => simp [Except.map]
  | ok pair => simp [Except.map, Prod.ext_iff]

/-- A commit that is not accepted leaves the store as it is. -/
theorem keepsOnFailure_perform (metadata : Metadata) (now : Int) (work : Commit) :
    KeepsOnFailure (work.perform metadata now) := by
  cases work with
  | transaction t => exact .before_total (Store.keepsOnFailure_commit t now) fun _ => total_pure _
  | replacement r => exact .before_total (r.keepsOnFailure_perform metadata now) fun _ => total_pure _
  | append a => exact .before_total (a.keepsOnFailure_perform metadata now) fun _ => total_pure _

end Commit

namespace Warehouse

/-- A call of the catalog, or a commit through a handle. -/
inductive Call where
  | createDatabase (name : String)
  | dropDatabase (name : String)
  | listTables (database : String)
  | createTable (definition : Metadata) (now : Int)
  | dropTable (id : TableId) (purge : Bool)
  | loadTable (id : TableId)
  | tableExists (id : TableId)
  | commit (handle : TableHandle) (work : Commit) (now : Int)

inductive Answer where
  | done
  | table (handle : TableHandle)
  | found (registered : Bool)
  | tables (ids : List TableId)

def Answer.handle? : Answer → Option TableHandle
  | table handle => some handle
  | _ => none

/-- Makes a call in place and gives its answer. -/
def Call.perform : Call → InPlace Warehouse Answer
  | createDatabase name => do
    onCatalog (Catalog.createDatabase name)
    return .done
  | dropDatabase name => do
    onCatalog (Catalog.dropDatabase name)
    return .done
  | listTables database => do
    let ids ← InPlace.ofExcept ((← get).catalog.listTables database)
    return .tables ids
  | createTable definition now => do
    let handle ← Warehouse.createTable definition now
    return .table handle
  | dropTable id purge => do
    Warehouse.dropTable id purge
    return .done
  | loadTable id => do
    let handle ← InPlace.ofExcept ((← get).catalog.loadTable id)
    return .table handle
  | tableExists id => do
    let found ← InPlace.ofExcept ((← get).catalog.tableExists id)
    return .found found
  | commit handle work now => do
    onStore handle (work.perform handle.metadata now)
    return .done

/-- What a call answers, and the warehouse that it leaves, if it succeeds. -/
def answer (w : Warehouse) (call : Call) : Except Error (Answer × Warehouse) := call.perform.result w

namespace Call

/-- The identifier that a call is given. -/
def id? : Call → Option TableId
  | createTable definition _ => some definition.id
  | dropTable id _ => some id
  | loadTable id => some id
  | tableExists id => some id
  | _ => none

/-- Whether a call only reads. -/
def reads : Call → Bool
  | listTables _ => true
  | loadTable _ => true
  | tableExists _ => true
  | _ => false

/-- A commit can be made only through a handle that was given out. -/
def isPossible (handles : List TableHandle) : Call → Bool
  | commit handle _ _ => handle ∈ handles
  | _ => true

end Call

/-- A call that succeeded, with its answer. -/
structure Entry where
  call : Call
  answer : Answer

namespace Entry

def CreatesDatabase (name : String) (entry : Entry) : Prop := entry.call = .createDatabase name

def DropsDatabase (name : String) (entry : Entry) : Prop := entry.call = .dropDatabase name

/-- A table was created under an identifier, and its handle given out. -/
def Creates (id : TableId) (handle : TableHandle) (entry : Entry) : Prop :=
  ∃ definition now, definition.id = id ∧ entry = ⟨.createTable definition now, .table handle⟩

def Drops (id : TableId) (entry : Entry) : Prop := ∃ purge, entry.call = .dropTable id purge

/-- The handle of a table that was created. -/
def created? : Entry → Option TableHandle
  | ⟨.createTable _ _, .table handle⟩ => some handle
  | _ => none

theorem created?_eq_some_iff {entry : Entry} {handle : TableHandle} :
    entry.created? = some handle ↔ ∃ id, entry.Creates id handle := by
  unfold created? Creates
  split
  · simp [eq_comm]
  · rename_i hnot
    constructor
    · exact nofun
    · rintro ⟨id, definition, now, -, rfl⟩
      exact absurd rfl (hnot definition now handle)

end Entry

/-- A warehouse with the handles that were given out and the calls that succeeded on it, the oldest
first. -/
structure Run where
  warehouse : Warehouse
  handles : List TableHandle
  log : List Entry

namespace Run

def start (catalog : String) : Run := ⟨create catalog, [], []⟩

/-- Makes a call. The warehouse is what the call leaves, also if it fails. -/
def step (run : Run) (call : Call) : Run :=
  if call.isPossible run.handles then
    match call.perform.run run.warehouse with
    | .error _ left => { run with warehouse := left }
    | .ok answer after =>
      ⟨after, run.handles ++ answer.handle?.toList, run.log ++ [⟨call, answer⟩]⟩
  else run

/-- The handles of the tables that were created, the oldest first. -/
def created (run : Run) : List TableHandle := run.log.filterMap Entry.created?

/-- A new warehouse after calls. -/
def after (catalog : String) (calls : List Call) : Run := calls.foldl step (start catalog)

end Run

/-! ## What a log tells -/

/-- A log has an entry of one kind, and after it none of another. -/
def Since (opens closes : Entry → Prop) (log : List Entry) : Prop :=
  ∃ before entry after, log = before ++ entry :: after ∧ opens entry ∧ ∀ later ∈ after, ¬closes later

namespace Run

/-- The database was created, and not dropped since. -/
def HasDatabase (run : Run) (name : String) : Prop :=
  Since (Entry.CreatesDatabase name) (Entry.DropsDatabase name) run.log

/-- A table was created under the identifier, and none was dropped under it since. -/
def Live (run : Run) (id : TableId) : Prop :=
  Since (fun entry => ∃ handle, entry.Creates id handle) (Entry.Drops id) run.log

/-- The last table that was created under the identifier has this handle, and was not dropped. -/
def Latest (run : Run) (id : TableId) (handle : TableHandle) : Prop :=
  Since (Entry.Creates id handle)
    (fun entry => entry.Drops id ∨ ∃ other, entry.Creates id other) run.log

end Run

/-- What becomes of a table: its store, and whether it is still registered. -/
structure Tenure where
  store : Store
  registered : Bool

namespace Tenure

/-- A table that was just created. A base side is there at once, a change side only if the table has
a primary key. -/
def start (handle : TableHandle) : Tenure where
  store :=
    { base := some SideState.created
      change := if handle.metadata.primaryKey = [] then none else some SideState.created
      ids := SnapshotIds.fresh }
  registered := true

/-- What an entry means for a table: it is about this table if it is a commit through its own handle,
or drops its identifier while the table is registered. -/
def record (handle : TableHandle) (tenure : Tenure) (entry : Entry) : Tenure :=
  match entry.call with
  | .commit other work now =>
    if other = handle then
      let after := work.apply handle.metadata now tenure.store
      { tenure with store := after.toOption.getD tenure.store }
    else tenure
  | .dropTable id purge =>
    if tenure.registered ∧ id = handle.metadata.id then
      ⟨if purge then tenure.store.purge else tenure.store, false⟩
    else tenure
  | _ => tenure

variable {handle other : TableHandle} {tenure : Tenure}

theorem record_commit (work : Commit) (now : Int) (answer : Answer) :
    tenure.record handle ⟨.commit other work now, answer⟩ =
      if other = handle then
        let after := work.apply handle.metadata now tenure.store
        { tenure with store := after.toOption.getD tenure.store }
      else tenure :=
  rfl

theorem record_dropTable (id : TableId) (purge : Bool) (answer : Answer) :
    tenure.record handle ⟨.dropTable id purge, answer⟩ =
      if tenure.registered ∧ id = handle.metadata.id then
        ⟨if purge then tenure.store.purge else tenure.store, false⟩
      else tenure :=
  rfl

end Tenure

section

variable {opens closes : Entry → Prop} {log before after : List Entry} {entry last : Entry}

/-- An entry of a log with one more at the end is the last, or stands before it. -/
theorem concat_eq_append_cons_iff :
    log ++ [last] = before ++ entry :: after ↔
      after = [] ∧ log = before ∧ last = entry ∨
        ∃ rest, after = rest ++ [last] ∧ log = before ++ entry :: rest := by
  constructor
  · intro h
    rcases List.eq_nil_or_concat after with rfl | ⟨rest, final, rfl⟩
    · obtain ⟨hlog, hlast⟩ := List.append_inj' h rfl
      exact .inl ⟨rfl, hlog, List.singleton_inj.1 hlast⟩
    · rw [List.concat_eq_append, ← List.cons_append, ← List.append_assoc] at h
      obtain ⟨hlog, hlast⟩ := List.append_inj' h rfl
      rw [List.concat_eq_append, List.singleton_inj.1 hlast]
      exact .inr ⟨rest, rfl, hlog⟩
  · rintro (⟨rfl, rfl, rfl⟩ | ⟨rest, rfl, rfl⟩)
    · rfl
    · simp

theorem not_since_nil : ¬Since opens closes [] := by
  rintro ⟨before, entry, after, h, -⟩
  simp at h

theorem since_concat_iff :
    Since opens closes (log ++ [entry]) ↔
      opens entry ∨ Since opens closes log ∧ ¬closes entry := by
  constructor
  · rintro ⟨before, opening, after, h, hopens, hafter⟩
    rcases concat_eq_append_cons_iff.1 h with ⟨-, -, rfl⟩ | ⟨rest, rfl, rfl⟩
    · exact .inl hopens
    · obtain ⟨hrest, hentry⟩ := List.forall_mem_append.1 hafter
      exact .inr ⟨⟨before, opening, rest, rfl, hopens, hrest⟩, hentry entry List.mem_cons_self⟩
  · rintro (hopens | ⟨⟨before, opening, after, rfl, hopens, hafter⟩, hentry⟩)
    · exact ⟨log, entry, [], rfl, hopens, fun _ hmem => absurd hmem List.not_mem_nil⟩
    · refine ⟨before, opening, after ++ [entry], by simp, hopens, ?_⟩
      exact List.forall_mem_append.2 ⟨hafter, by simpa using hentry⟩

/-- An identifier is live exactly if it has a last table that was not dropped. -/
theorem Run.live_iff_exists_latest {run : Run} {id : TableId} :
    run.Live id ↔ ∃ handle, run.Latest id handle := by
  unfold Live Latest
  induction run.log using List.reverseRecOn with
  | nil => simp [not_since_nil]
  | append_singleton log entry ih =>
    simp only [since_concat_iff, ih]
    constructor
    · rintro (⟨handle, hcreates⟩ | ⟨⟨handle, hlatest⟩, hdrops⟩)
      · exact ⟨handle, .inl hcreates⟩
      · by_cases hcreates : ∃ other, entry.Creates id other
        · obtain ⟨other, hother⟩ := hcreates
          exact ⟨other, .inl hother⟩
        · exact ⟨handle, .inr ⟨hlatest, not_or.2 ⟨hdrops, hcreates⟩⟩⟩
    · rintro ⟨handle, hcreates | ⟨hlatest, hnot⟩⟩
      · exact .inl ⟨handle, hcreates⟩
      · exact .inr ⟨⟨handle, hlatest⟩, fun hdrops => hnot (.inl hdrops)⟩

end

/-! ## What a call does -/

/-- What a call that succeeds answers, what it finds and what it leaves. -/
inductive Effect (w : Warehouse) : Call → Answer → Warehouse → Prop
  | createDatabase {name} (hnew : w.catalog.databases.get? name = none) :
    Effect w (.createDatabase name) .done ⟨w.catalog.put name OrderedMap.empty, w.stores⟩
  | dropDatabase {name} (hempty : w.catalog.databases.get? name = some OrderedMap.empty) :
    Effect w (.dropDatabase name) .done ⟨w.catalog.erase name, w.stores⟩
  | listTables {database ids} : Effect w (.listTables database) (.tables ids) w
  | createTable {definition now tables handle} (hname : definition.id.catalog = w.catalog.name)
    (htables : w.catalog.databases.get? definition.id.database = some tables)
    (hfree : tables.get? definition.id.table = none)
    (hhandle : handle = ⟨metadataAt definition now, w.stores.length⟩) :
    Effect w (.createTable definition now) (.table handle)
      ⟨w.catalog.put definition.id.database (tables.insert definition.id.table handle),
        w.stores ++ [Store.create definition.isKeyed]⟩
  | dropTable {id purge tables handle} (hname : id.catalog = w.catalog.name)
    (htables : w.catalog.databases.get? id.database = some tables)
    (hfound : tables.get? id.table = some handle) :
    Effect w (.dropTable id purge) .done
      ⟨w.catalog.put id.database (tables.erase id.table),
        if purge then w.stores.set handle.store (w.store handle).purge else w.stores⟩
  | loadTable {id handle} (hname : id.catalog = w.catalog.name)
    (hfound : w.catalog.find? id = some handle) : Effect w (.loadTable id) (.table handle) w
  | tableExists {id found} : Effect w (.tableExists id) (.found found) w
  | commit {handle work now after}
    (hafter : work.apply handle.metadata now (w.store handle) = .ok after) :
    Effect w (.commit handle work now) .done (w.setStore handle after)

variable {w w' : Warehouse} {call : Call} {result : Answer}

theorem effect_of_run (h : call.perform.run w = .ok result w') : Effect w call result w' := by
  cases call with
  | createDatabase name =>
    obtain ⟨⟨⟩, after, hafter, heq⟩ := run_bind_eq_ok_iff.1 h
    cases heq
    obtain ⟨catalog, hcatalog, rfl⟩ := run_onPart_eq_ok_iff.1 hafter
    obtain ⟨hnew, rfl⟩ := Catalog.run_createDatabase_eq_ok_iff.1 hcatalog
    exact .createDatabase hnew
  | dropDatabase name =>
    obtain ⟨⟨⟩, after, hafter, heq⟩ := run_bind_eq_ok_iff.1 h
    cases heq
    obtain ⟨catalog, hcatalog, rfl⟩ := run_onPart_eq_ok_iff.1 hafter
    obtain ⟨hempty, rfl⟩ := Catalog.run_dropDatabase_eq_ok_iff.1 hcatalog
    exact .dropDatabase hempty
  | listTables database =>
    rw [Call.perform, run_get_bind] at h
    obtain ⟨ids, -, heq⟩ := run_ofExcept_bind_eq_ok_iff.1 h
    cases heq
    exact .listTables
  | createTable definition now =>
    obtain ⟨handle, after, hafter, heq⟩ := run_bind_eq_ok_iff.1 h
    cases heq
    obtain ⟨hname, -, hhandle, tables, htables, hfree, rfl⟩ := run_createTable_eq_ok_iff.1 hafter
    exact .createTable hname htables hfree hhandle
  | dropTable id purge =>
    obtain ⟨⟨⟩, after, hafter, heq⟩ := run_bind_eq_ok_iff.1 h
    cases heq
    obtain ⟨handle, catalog, hcatalog, rfl⟩ := run_dropTable_eq_ok_iff.1 hafter
    obtain ⟨hname, tables, htables, hfound, rfl⟩ := Catalog.run_unregister_eq_ok_iff.1 hcatalog
    exact .dropTable hname htables hfound
  | loadTable id =>
    rw [Call.perform, run_get_bind] at h
    obtain ⟨handle, hhandle, heq⟩ := run_ofExcept_bind_eq_ok_iff.1 h
    cases heq
    obtain ⟨hname, hfound⟩ := Catalog.loadTable_eq_ok_iff.1 hhandle
    exact .loadTable hname hfound
  | tableExists id =>
    rw [Call.perform, run_get_bind] at h
    obtain ⟨found, -, heq⟩ := run_ofExcept_bind_eq_ok_iff.1 h
    cases heq
    exact .tableExists
  | commit handle work now =>
    obtain ⟨⟨⟩, after, hafter, heq⟩ := run_bind_eq_ok_iff.1 h
    cases heq
    obtain ⟨store, hstore, rfl⟩ := run_onPart_eq_ok_iff.1 hafter
    exact .commit (Commit.apply_eq_ok_iff.2 hstore)

/-- A call that fails leaves the warehouse as it is. -/
theorem keepsOnFailure_perform (call : Call) : KeepsOnFailure call.perform := by
  have hcatalog {step : InPlace Catalog Unit} (h : KeepsOnFailure step) :
      KeepsOnFailure (onCatalog step) := h.onPart fun _ => rfl
  cases call with
  | createDatabase name =>
    exact .before_total (hcatalog (Catalog.keepsOnFailure_createDatabase name)) fun _ => total_pure _
  | dropDatabase name =>
    exact .before_total (hcatalog (Catalog.keepsOnFailure_dropDatabase name)) fun _ => total_pure _
  | createTable definition now =>
    exact .before_total (keepsOnFailure_createTable definition now) fun _ => total_pure _
  | dropTable id purge =>
    exact .before_total (keepsOnFailure_dropTable id purge) fun _ => total_pure _
  | commit handle work now =>
    have hstore : KeepsOnFailure (onStore handle (work.perform handle.metadata now)) :=
      (work.keepsOnFailure_perform handle.metadata now).onPart (setStore_store · handle)
    exact .before_total hstore fun _ => total_pure _
  | _ =>
    exact Reads.keepsOnFailure
      (reads_get.bind fun _ => (reads_ofExcept _).bind fun _ => reads_pure _)

end Warehouse

end MergeOnRead
