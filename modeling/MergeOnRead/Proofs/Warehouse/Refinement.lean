import MergeOnRead.Proofs.Warehouse.Invariant

/-!
# A catalog is a map of live tables

After any calls, what a catalog answers can be told from the calls that succeeded: an identifier is
registered if its last table was not dropped, and loading it gives the handle of this table. A table
that is created under the name of an earlier one shares nothing with it: commits through the old
handles do not reach its store, and neither does a purge of the old table.

Main statement: `refines_after`.
-/

namespace MergeOnRead.Warehouse.Run

open InPlace

/-- Whether a call succeeds after the calls so far. -/
def Succeeds (run : Run) (call : Call) : Prop := ∃ result, run.warehouse.answer call = .ok result

/-- A catalog answers as its log tells. -/
structure Refines (name : String) (run : Run) : Prop where
  /-- A call that fails leaves the warehouse as it is, and so does one that only reads. -/
  unchanged : ∀ call, ¬run.Succeeds call ∨ call.reads = true →
    (run.step call).warehouse = run.warehouse
  /-- No call accepts an identifier of another catalog. -/
  foreign : ∀ call id, call.id? = some id → id.catalog ≠ name →
    run.warehouse.answer call = .error (.invalid (.foreignTable id name))
  createDatabase_iff : ∀ database,
    run.Succeeds (.createDatabase database) ↔ ¬run.HasDatabase database
  /-- A database can be dropped if it exists and no table of it is live. -/
  dropDatabase_iff : ∀ database, run.Succeeds (.dropDatabase database) ↔
    run.HasDatabase database ∧ ∀ id, id.catalog = name → id.database = database → ¬run.Live id
  createTable_iff : ∀ definition now, run.Succeeds (.createTable definition now) ↔
    definition.id.catalog = name ∧ definition.check = .ok () ∧
      run.HasDatabase definition.id.database ∧ ¬run.Live definition.id
  dropTable_iff : ∀ id purge, run.Succeeds (.dropTable id purge) ↔ id.catalog = name ∧ run.Live id
  tableExists : ∀ id, id.catalog = name →
    ∃ found, run.warehouse.catalog.tableExists id = .ok found ∧ (found = true ↔ run.Live id)
  loadTable_iff : ∀ id handle, run.warehouse.catalog.loadTable id = .ok handle ↔
    id.catalog = name ∧ run.Latest id handle
  /-- Tables are registered under their own identifiers. -/
  registered : ∀ database tables table handle,
    run.warehouse.catalog.databases.get? database = some tables →
    tables.get? table = some handle → handle.metadata.id = ⟨name, database, table⟩
  /-- The live tables of a database are listed in the order of their names. -/
  listTables : ∀ database, run.HasDatabase database →
    ∃ ids, run.warehouse.catalog.listTables database = .ok ids ∧
      ((ids.map (·.table)).Pairwise fun a b => compare a b = .lt) ∧
      ∀ id, id ∈ ids ↔ id.catalog = name ∧ id.database = database ∧ run.Live id
  listTables_missing : ∀ database, ¬run.HasDatabase database →
    run.warehouse.catalog.listTables database = .error (.notFound (.database database))
  /-- A new table can be loaded. It has a base side, and a change side if it has a primary key. -/
  created : ∀ definition now handle after,
    (Warehouse.createTable definition now).run run.warehouse = .ok handle after →
    handle.metadata = metadataAt definition now ∧ after.catalog.loadTable definition.id = .ok handle ∧
      after.store handle =
        { base := some SideState.created
          change := if definition.primaryKey = [] then none else some SideState.created
          ids := SnapshotIds.fresh }
  handles : ∀ handle ∈ run.handles, handle ∈ run.created
  /-- No two tables share a store. -/
  separate : (run.created.map (·.store)).Nodup
  /-- The store of a table is what the entries since its creation make of it that are about this
  table. -/
  store : ∀ before entry after id handle, run.log = before ++ entry :: after →
    entry.Creates id handle →
    run.warehouse.store handle = (after.foldl (Tenure.record handle) (Tenure.start handle)).store
  /-- It changes only by commits through the handle of the table, and when the table is purged. -/
  untouched : ∀ handle ∈ run.created, ∀ call, (∀ work now, call ≠ .commit handle work now) →
    (∀ id, call = .dropTable id true → run.warehouse.catalog.loadTable id ≠ .ok handle) →
    (run.step call).warehouse.store handle = run.warehouse.store handle

variable {run : Run} {name database : String} {call : Call} {id : TableId} {handle : TableHandle}

theorem succeeds_iff :
    run.Succeeds call ↔ ∃ result after, call.perform.run run.warehouse = .ok result after := by
  unfold Succeeds answer
  simp only [Prod.exists, result_eq_ok_iff]

/-- A call that does not succeed has done nothing to the warehouse by the time it fails. -/
theorem step_of_not_succeeds (h : ¬run.Succeeds call) : run.step call = run := by
  unfold step
  split
  · split
    · rename_i e left hfails
      rw [keepsOnFailure_perform call hfails]
    · rename_i result after hresult
      exact absurd (succeeds_iff.2 ⟨result, after, hresult⟩) h
  · rfl

/-- What a step does to the warehouse: nothing, or the effect of its call. -/
theorem step_cases (run : Run) (call : Call) :
    (run.step call).warehouse = run.warehouse ∨
      call.isPossible run.handles = true ∧
        ∃ result, Effect run.warehouse call result (run.step call).warehouse := by
  unfold step
  split
  · rename_i hpossible
    split
    · rename_i e left hfails
      exact .inl (keepsOnFailure_perform call hfails)
    · rename_i answer after hanswer
      exact .inr ⟨hpossible, answer, effect_of_run hanswer⟩
  · exact .inl rfl

theorem Inv.live_iff (h : run.Inv name) (hid : id.catalog = name) :
    run.Live id ↔ ∃ handle, run.warehouse.catalog.find? id = some handle := by
  rw [live_iff_exists_latest]
  exact exists_congr fun handle => (h.latest_iff id handle hid).symm

theorem Inv.not_live_iff (h : run.Inv name) (hid : id.catalog = name) :
    ¬run.Live id ↔ run.warehouse.catalog.find? id = none := by
  rw [h.live_iff hid, not_exists, Option.eq_none_iff_forall_ne_some]

theorem Inv.hasDatabase_iff (h : run.Inv name) :
    run.HasDatabase database ↔
      ∃ tables, run.warehouse.catalog.databases.get? database = some tables := by
  rw [← h.database_iff, OrderedMap.contains, Option.isSome_iff_exists]

theorem Inv.registered (h : run.Inv name) {tables : OrderedMap String TableHandle} {table : String}
    (htables : run.warehouse.catalog.databases.get? database = some tables)
    (hfound : tables.get? table = some handle) :
    handle.metadata.id = ⟨name, database, table⟩ := by
  have hfind : run.warehouse.catalog.find? ⟨name, database, table⟩ = some handle :=
    Catalog.find?_eq_some_iff.2 ⟨tables, htables, hfound⟩
  exact (h.mem_created_of_find? rfl hfind).2

/-! ## Calls -/

theorem unchanged (h : ¬run.Succeeds call ∨ call.reads = true) :
    (run.step call).warehouse = run.warehouse := by
  rcases h with hfails | hreads
  · rw [step_of_not_succeeds hfails]
  · rcases run.step_cases call with heq | ⟨-, result, heffect⟩
    · exact heq
    · generalize (run.step call).warehouse = after at heffect ⊢
      cases heffect with
      | listTables => rfl
      | loadTable hname hfound => rfl
      | tableExists => rfl
      | _ => cases hreads

theorem Inv.foreign (h : run.Inv name) (hcall : call.id? = some id) (hid : id.catalog ≠ name) :
    run.warehouse.answer call = .error (.invalid (.foreignTable id name)) := by
  rw [← h.name_eq] at hid ⊢
  have hfails : call.perform.run run.warehouse =
      .error (.invalid (.foreignTable id run.warehouse.catalog.name)) run.warehouse := by
    cases call with
    | createTable definition now =>
      cases hcall
      exact run_bind_of_error (run_createTable_of_ne hid) _
    | dropTable other purge =>
      cases hcall
      exact run_bind_of_error (run_dropTable_of_ne hid) _
    | loadTable other =>
      cases hcall
      rw [Call.perform, run_get_bind, Catalog.loadTable_of_ne hid]
      rfl
    | tableExists other =>
      cases hcall
      rw [Call.perform, run_get_bind, Catalog.tableExists, Catalog.loadTable_of_ne hid]
      rfl
    | _ => cases hcall
  exact result_of_run_error hfails

/-- A call that answers with the result of a step succeeds exactly if the step does. -/
theorem succeeds_iff_of_bind {α : Type} {step : InPlace Warehouse α} {result : α → Answer}
    (hcall : call.perform = step >>= fun a => pure (result a)) :
    run.Succeeds call ↔ ∃ a after, step.run run.warehouse = .ok a after := by
  rw [succeeds_iff, hcall]
  exact exists_run_bind_eq_ok_iff fun a s => ⟨_, s, rfl⟩

theorem Inv.createDatabase_iff (h : run.Inv name) :
    run.Succeeds (.createDatabase database) ↔ ¬run.HasDatabase database := by
  rw [succeeds_iff_of_bind rfl, h.hasDatabase_iff, not_exists,
    ← Option.eq_none_iff_forall_ne_some]
  refine exists_run_onPart_eq_ok_iff.trans ?_
  constructor
  · rintro ⟨⟨⟩, catalog, hcatalog⟩
    exact (Catalog.run_createDatabase_eq_ok_iff.1 hcatalog).1
  · exact fun hnone => ⟨(), _, Catalog.run_createDatabase_eq_ok_iff.2 ⟨hnone, rfl⟩⟩

theorem Inv.dropDatabase_iff (h : run.Inv name) :
    run.Succeeds (.dropDatabase database) ↔
      run.HasDatabase database ∧
        ∀ id, id.catalog = name → id.database = database → ¬run.Live id := by
  rw [succeeds_iff_of_bind rfl, h.hasDatabase_iff]
  refine exists_run_onPart_eq_ok_iff.trans ?_
  constructor
  · rintro ⟨⟨⟩, catalog, hcatalog⟩
    obtain ⟨hempty, -⟩ := Catalog.run_dropDatabase_eq_ok_iff.1 hcatalog
    refine ⟨⟨_, hempty⟩, ?_⟩
    rintro id hid rfl
    rw [h.not_live_iff hid, Catalog.find?_of_get? hempty, OrderedMap.get?_empty]
  · rintro ⟨⟨tables, htables⟩, hnone⟩
    have hempty : tables = OrderedMap.empty := OrderedMap.ext_get? fun table => by
      have hfind := (h.not_live_iff rfl).1 (hnone ⟨name, database, table⟩ rfl rfl)
      rw [Catalog.find?_of_get? htables] at hfind
      rw [hfind, OrderedMap.get?_empty]
    exact ⟨(), _, Catalog.run_dropDatabase_eq_ok_iff.2 ⟨hempty ▸ htables, rfl⟩⟩

theorem Inv.createTable_iff (h : run.Inv name) {definition : Metadata} {now : Int} :
    run.Succeeds (.createTable definition now) ↔
      definition.id.catalog = name ∧ definition.check = .ok () ∧
        run.HasDatabase definition.id.database ∧ ¬run.Live definition.id := by
  rw [succeeds_iff_of_bind rfl, h.hasDatabase_iff]
  constructor
  · rintro ⟨handle, after, hafter⟩
    obtain ⟨hname, hcheck, -, tables, htables, hfree, -⟩ := run_createTable_eq_ok_iff.1 hafter
    rw [h.name_eq] at hname
    refine ⟨hname, hcheck, ⟨tables, htables⟩, ?_⟩
    rw [h.not_live_iff hname, Catalog.find?_of_get? htables, hfree]
  · rintro ⟨hname, hcheck, ⟨tables, htables⟩, hlive⟩
    rw [h.not_live_iff hname, Catalog.find?_of_get? htables] at hlive
    exact ⟨_, _, run_createTable_eq_ok_iff.2
      ⟨hname.trans h.name_eq.symm, hcheck, rfl, tables, htables, hlive, rfl⟩⟩

theorem Inv.dropTable_iff (h : run.Inv name) {purge : Bool} :
    run.Succeeds (.dropTable id purge) ↔ id.catalog = name ∧ run.Live id := by
  rw [succeeds_iff_of_bind rfl]
  constructor
  · rintro ⟨⟨⟩, after, hafter⟩
    obtain ⟨handle, catalog, hcatalog, -⟩ := run_dropTable_eq_ok_iff.1 hafter
    obtain ⟨hname, tables, htables, hfound, -⟩ := Catalog.run_unregister_eq_ok_iff.1 hcatalog
    rw [h.name_eq] at hname
    exact ⟨hname, (h.live_iff hname).2 ⟨handle, Catalog.find?_eq_some_iff.2 ⟨tables, htables, hfound⟩⟩⟩
  · rintro ⟨hname, hlive⟩
    obtain ⟨handle, hfind⟩ := (h.live_iff hname).1 hlive
    obtain ⟨tables, htables, hfound⟩ := Catalog.find?_eq_some_iff.1 hfind
    exact ⟨(), _, run_dropTable_eq_ok_iff.2 ⟨handle, _, Catalog.run_unregister_eq_ok_iff.2
      ⟨hname.trans h.name_eq.symm, tables, htables, hfound, rfl⟩, rfl⟩⟩

theorem Inv.tableExists (h : run.Inv name) (hid : id.catalog = name) :
    ∃ found, run.warehouse.catalog.tableExists id = .ok found ∧ (found = true ↔ run.Live id) := by
  refine ⟨_, Catalog.tableExists_eq (hid.trans h.name_eq.symm), ?_⟩
  rw [h.live_iff hid, Option.isSome_iff_exists]

theorem Inv.loadTable_iff (h : run.Inv name) :
    run.warehouse.catalog.loadTable id = .ok handle ↔ id.catalog = name ∧ run.Latest id handle := by
  rw [Catalog.loadTable_eq_ok_iff, h.name_eq]
  exact and_congr_right fun hid => h.latest_iff id handle hid

/-- The tables of a database are listed under the names by which they are registered. -/
theorem Inv.listTables (h : run.Inv name) (hdatabase : run.HasDatabase database) :
    ∃ ids, run.warehouse.catalog.listTables database = .ok ids ∧
      ((ids.map (·.table)).Pairwise fun a b => compare a b = .lt) ∧
      ∀ id, id ∈ ids ↔ id.catalog = name ∧ id.database = database ∧ run.Live id := by
  obtain ⟨tables, htables⟩ := h.hasDatabase_iff.1 hdatabase
  have hentry : ∀ entry ∈ tables.entries, entry.2.metadata.id = ⟨name, database, entry.1⟩ :=
    fun entry hentry => h.registered htables (OrderedMap.mem_toList_iff.1 hentry)
  have hids : tables.values.map (·.metadata.id) =
      tables.keys.map fun table => (⟨name, database, table⟩ : TableId) := by
    unfold OrderedMap.values OrderedMap.keys
    rw [List.map_map, List.map_map]
    exact List.map_congr_left hentry
  refine ⟨_, Catalog.listTables_eq_ok_iff.2 ⟨tables, htables, rfl⟩, ?_, fun id => ?_⟩
  · rw [hids, List.map_map]
    change (tables.keys.map id).Pairwise _
    rw [List.map_id]
    exact tables.keys_ordered
  · rw [hids, List.mem_map]
    constructor
    · rintro ⟨table, htable, rfl⟩
      obtain ⟨handle, hfound⟩ := OrderedMap.mem_keys_iff.1 htable
      exact ⟨rfl, rfl, (h.live_iff rfl).2
        ⟨handle, Catalog.find?_eq_some_iff.2 ⟨tables, htables, hfound⟩⟩⟩
    · rintro ⟨hid, rfl, hlive⟩
      obtain ⟨handle, hfind⟩ := (h.live_iff hid).1 hlive
      rw [Catalog.find?_of_get? htables] at hfind
      exact ⟨id.table, OrderedMap.mem_keys_iff.2 ⟨handle, hfind⟩, hid ▸ rfl⟩

theorem Inv.listTables_missing (h : run.Inv name) (hdatabase : ¬run.HasDatabase database) :
    run.warehouse.catalog.listTables database = .error (.notFound (.database database)) := by
  rw [h.hasDatabase_iff, not_exists, ← Option.eq_none_iff_forall_ne_some] at hdatabase
  rw [Catalog.listTables, Catalog.database, hdatabase]
  rfl

/-! ## Tables -/

theorem created_of_createTable {definition : Metadata} {now : Int} {after : Warehouse}
    (hafter : (Warehouse.createTable definition now).run run.warehouse = .ok handle after) :
    handle.metadata = metadataAt definition now ∧ after.catalog.loadTable definition.id = .ok handle ∧
      after.store handle =
        { base := some SideState.created
          change := if definition.primaryKey = [] then none else some SideState.created
          ids := SnapshotIds.fresh } := by
  obtain ⟨hname, -, hhandle, tables, htables, -, rfl⟩ := run_createTable_eq_ok_iff.1 hafter
  refine ⟨by rw [hhandle], Catalog.loadTable_eq_ok_iff.2 ⟨hname, ?_⟩, ?_⟩
  · rw [Catalog.find?_put_insert rfl htables, if_pos rfl]
  · rw [store_concat_self _ _ (by rw [hhandle]), Store.create_isKeyed]

/-- A call that is not about a table does not reach its store. -/
theorem Inv.untouched (h : run.Inv name) (hhandle : handle ∈ run.created)
    (hcommit : ∀ work now, call ≠ .commit handle work now)
    (hpurge : ∀ id, call = .dropTable id true → run.warehouse.catalog.loadTable id ≠ .ok handle) :
    (run.step call).warehouse.store handle = run.warehouse.store handle := by
  rcases run.step_cases call with heq | ⟨hpossible, result, heffect⟩
  · rw [heq]
  · change ((run.step call).warehouse.tenure handle).store = (run.warehouse.tenure handle).store
    rw [h.tenure_step hpossible heffect hhandle]
    cases call with
    | commit other work now =>
      have hne : other ≠ handle := fun heq => hcommit work now (heq ▸ rfl)
      rw [Tenure.record_commit, if_neg hne]
    | dropTable id purge =>
      rw [Tenure.record_dropTable]
      split
      · rename_i hdropped
        obtain ⟨hregistered, rfl⟩ := hdropped
        cases purge with
        | false => rfl
        | true =>
          have hown := (h.of_mem_created hhandle).1.trans h.name_eq.symm
          have hloaded := Catalog.loadTable_eq_ok_iff.2 ⟨hown, registered_tenure_iff.1 hregistered⟩
          exact absurd hloaded (hpurge _ rfl)
      · rfl
    | _ => rfl

theorem Inv.refines (h : run.Inv name) : run.Refines name where
  unchanged _ := unchanged
  foreign _ _ := h.foreign
  createDatabase_iff _ := h.createDatabase_iff
  dropDatabase_iff _ := h.dropDatabase_iff
  createTable_iff _ _ := h.createTable_iff
  dropTable_iff _ _ := h.dropTable_iff
  tableExists _ := h.tableExists
  loadTable_iff _ _ := h.loadTable_iff
  registered _ _ _ _ := h.registered
  listTables _ := h.listTables
  listTables_missing _ := h.listTables_missing
  created _ _ _ _ := created_of_createTable
  handles := h.handles
  separate := h.stores ▸ List.nodup_range
  store before entry after id handle hlog hcreates := by
    rw [h.tenure before entry after id handle hlog hcreates]
    rfl
  untouched _ hhandle _ := h.untouched hhandle

/-- After any calls on a new warehouse, and commits through any of the handles given out by then, the
catalog is the map of the tables that are live. -/
theorem refines_after (name : String) (calls : List Call) : (after name calls).Refines name :=
  (inv_after name calls).refines

end MergeOnRead.Warehouse.Run
