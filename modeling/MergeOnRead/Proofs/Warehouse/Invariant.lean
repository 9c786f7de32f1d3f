import Mathlib.Data.List.Nodup
import MergeOnRead.Proofs.Warehouse.Run

/-!
# What a run keeps

The catalog holds what its log tells, each table has a store of its own, and this store and the
registration of the table are what the entries since its creation make of them.

Main statement: `inv_after`, the invariant holds after any calls on a new warehouse.
-/

namespace MergeOnRead.Warehouse

/-- A table as the warehouse has it. -/
def tenure (w : Warehouse) (handle : TableHandle) : Tenure :=
  ⟨w.store handle, w.catalog.find? handle.metadata.id = some handle⟩

theorem registered_tenure_iff {w : Warehouse} {handle : TableHandle} :
    (w.tenure handle).registered = true ↔
      w.catalog.find? handle.metadata.id = some handle :=
  decide_eq_true_iff

/-! ## What a call changes -/

section

variable {w w' : Warehouse} {call : Call} {result : Answer} {id : TableId} {handle : TableHandle}

theorem Effect.name_eq (h : Effect w call result w') : w'.catalog.name = w.catalog.name := by
  cases h <;> rfl

theorem Effect.contains_iff (h : Effect w call result w') {name : String} :
    w'.catalog.databases.contains name = true ↔
      call = .createDatabase name ∨
        w.catalog.databases.contains name = true ∧ call ≠ .dropDatabase name := by
  -- tables are put only under a database that exists
  have hput {database : String} {tables changed : OrderedMap String TableHandle}
      (htables : w.catalog.databases.get? database = some tables) :
      (w.catalog.put database changed).databases.contains name = true ↔
        w.catalog.databases.contains name = true := by
    rw [Catalog.contains_put, or_iff_right_iff_imp]
    rintro rfl
    rw [OrderedMap.contains, htables]
    rfl
  cases h with
  | createDatabase hnew => simp [Catalog.contains_put, @eq_comm _ name]
  | dropDatabase hempty => simp [Catalog.contains_erase, @eq_comm _ name]
  | createTable hname htables hfree hhandle => simp [hput htables]
  | dropTable hname htables hfound => simp [hput htables]
  | commit hafter => simp [setStore]
  | _ => simp

theorem Effect.find?_iff (h : Effect w call result w') (hid : id.catalog = w.catalog.name) :
    w'.catalog.find? id = some handle ↔
      Entry.Creates id handle ⟨call, result⟩ ∨ w.catalog.find? id = some handle ∧
        ¬(Entry.Drops id ⟨call, result⟩ ∨ ∃ other, Entry.Creates id other ⟨call, result⟩) := by
  cases h with
  | createDatabase hnew => simp [Entry.Creates, Entry.Drops, Catalog.find?_put_empty hnew]
  | dropDatabase hempty => simp [Entry.Creates, Entry.Drops, Catalog.find?_erase_empty hempty]
  | @createTable definition now tables table hname htables hfree hhandle =>
    rw [Catalog.find?_put_insert (hid.trans hname.symm) htables]
    by_cases heq : id = definition.id
    · simp [Entry.Creates, Entry.Drops, heq]
    · simp [Entry.Creates, Entry.Drops, heq, Ne.symm heq]
  | @dropTable other purge tables table hname htables hfound =>
    rw [Catalog.find?_put_erase (hid.trans hname.symm) htables]
    by_cases heq : id = other
    · simp [Entry.Creates, Entry.Drops, heq]
    · simp [Entry.Creates, Entry.Drops, heq, Ne.symm heq]
  | _ => simp [Entry.Creates, Entry.Drops, setStore]

/-- A table that is created gets the next store. No other call makes one. -/
theorem Effect.stores (h : Effect w call result w') :
    (Entry.mk call result).created? = none ∧ w'.stores.length = w.stores.length ∨
      ∃ handle, (Entry.mk call result).created? = some handle ∧ handle.store = w.stores.length ∧
        w'.stores.length = w.stores.length + 1 := by
  cases h with
  | createTable hname htables hfree hhandle =>
    exact .inr ⟨_, rfl, by rw [hhandle], List.length_append⟩
  | @dropTable _ purge =>
    refine .inl ⟨rfl, ?_⟩
    cases purge <;> simp
  | commit hafter => exact .inl ⟨rfl, List.length_set⟩
  | _ => exact .inl ⟨rfl, rfl⟩

theorem tenure_eq (hstore : w'.store handle = w.store handle)
    (hfind : w'.catalog.find? handle.metadata.id = some handle ↔
      w.catalog.find? handle.metadata.id = some handle) : w'.tenure handle = w.tenure handle := by
  rw [tenure, tenure, hstore, decide_eq_decide.2 hfind]

/-- A new table is registered, and its store has no commits. -/
theorem Effect.tenure_created (h : Effect w call result w')
    (hcreates : Entry.Creates id handle ⟨call, result⟩) : w'.tenure handle = Tenure.start handle := by
  obtain ⟨definition, now, -, heq⟩ := hcreates
  cases heq
  cases h with
  | createTable hname htables hfree hhandle =>
    have hid : handle.metadata.id = definition.id := by rw [hhandle]; rfl
    have hkey : handle.metadata.primaryKey = definition.primaryKey := by rw [hhandle]; rfl
    have hstore : handle.store = w.stores.length := by rw [hhandle]
    unfold tenure Tenure.start
    rw [store_concat_self _ _ hstore, hid, Catalog.find?_put_insert rfl htables, if_pos rfl,
      decide_eq_true rfl, hkey, Store.create_isKeyed]

end

namespace Run

variable {run : Run} {name : String} {call : Call} {result : Answer} {w' : Warehouse}
  {id : TableId} {handle other : TableHandle}

theorem mem_created_iff :
    handle ∈ run.created ↔ ∃ entry ∈ run.log, ∃ id, entry.Creates id handle := by
  unfold created
  rw [List.mem_filterMap]
  simp only [Entry.created?_eq_some_iff]

theorem created_concat (w : Warehouse) (handles : List TableHandle) (entry : Entry) :
    (Run.mk w handles (run.log ++ [entry])).created = run.created ++ entry.created?.toList := by
  unfold created
  rw [List.filterMap_append]
  cases h : entry.created? <;> simp [h]

/-- The catalog and the stores of a warehouse in use are what the log of its calls tells. -/
structure Inv (name : String) (run : Run) : Prop where
  name_eq : run.warehouse.catalog.name = name
  database_iff : ∀ database,
    run.warehouse.catalog.databases.contains database = true ↔ run.HasDatabase database
  latest_iff : ∀ id handle, id.catalog = name →
    (run.warehouse.catalog.find? id = some handle ↔ run.Latest id handle)
  created : ∀ definition now handle, ⟨.createTable definition now, .table handle⟩ ∈ run.log →
    definition.id.catalog = name ∧ handle.metadata = metadataAt definition now
  /-- The tables have the stores in the order of their creation. -/
  stores : run.created.map (·.store) = List.range run.warehouse.stores.length
  handles : ∀ handle ∈ run.handles, handle ∈ run.created
  tenure : ∀ before entry after id handle, run.log = before ++ entry :: after →
    entry.Creates id handle →
    after.foldl (Tenure.record handle) (Tenure.start handle) = run.warehouse.tenure handle

/-! ## Tables of a run -/

theorem Inv.of_mem_created (h : run.Inv name) (hhandle : handle ∈ run.created) :
    handle.metadata.id.catalog = name ∧ handle.store < run.warehouse.stores.length := by
  constructor
  · obtain ⟨entry, hentry, -, definition, now, -, rfl⟩ := mem_created_iff.1 hhandle
    obtain ⟨hname, hmetadata⟩ := h.created definition now handle hentry
    rw [hmetadata]
    exact hname
  · have hstore : handle.store ∈ run.created.map (·.store) := List.mem_map_of_mem hhandle
    rw [h.stores] at hstore
    exact List.mem_range.1 hstore

/-- Tables with the same store are the same table. -/
theorem Inv.eq_of_store (h : run.Inv name) (hhandle : handle ∈ run.created)
    (hother : other ∈ run.created) (heq : other.store = handle.store) : other = handle := by
  have hnodup : (run.created.map (·.store)).Nodup := h.stores ▸ List.nodup_range
  exact List.inj_on_of_nodup_map hnodup hother hhandle heq

theorem Inv.mem_created_of_find? (h : run.Inv name) (hid : id.catalog = name)
    (hfind : run.warehouse.catalog.find? id = some handle) :
    handle ∈ run.created ∧ handle.metadata.id = id := by
  obtain ⟨before, entry, after, hlog, hcreates, -⟩ := (h.latest_iff id handle hid).1 hfind
  have hentry : entry ∈ run.log := by simp [hlog]
  refine ⟨mem_created_iff.2 ⟨entry, hentry, id, hcreates⟩, ?_⟩
  obtain ⟨definition, now, rfl, rfl⟩ := hcreates
  rw [(h.created definition now handle hentry).2]
  rfl

/-! ## Steps -/

/-- Dropping an identifier is about a table only if the table is registered under it. -/
theorem Inv.tenure_dropTable (h : run.Inv name) (hhandle : handle ∈ run.created) (purge : Bool)
    {tables : OrderedMap String TableHandle} (hname : id.catalog = run.warehouse.catalog.name)
    (htables : run.warehouse.catalog.databases.get? id.database = some tables)
    (hfound : tables.get? id.table = some other) :
    (⟨run.warehouse.catalog.put id.database (tables.erase id.table),
        if purge then run.warehouse.stores.set other.store (run.warehouse.store other).purge
        else run.warehouse.stores⟩ : Warehouse).tenure handle =
      (run.warehouse.tenure handle).record handle ⟨.dropTable id purge, .done⟩ := by
  obtain ⟨hown, hstore⟩ := h.of_mem_created hhandle
  have hcatalog := hown.trans (h.name_eq.symm.trans hname.symm)
  have hfind := Catalog.find?_eq_some_iff.2 ⟨tables, htables, hfound⟩
  obtain ⟨hother, rfl⟩ := h.mem_created_of_find? (hname.trans h.name_eq) hfind
  rw [Tenure.record_dropTable]
  by_cases hsame : other = handle
  · subst hsame
    have hregistered := registered_tenure_iff.2 hfind
    rw [if_pos (And.intro hregistered rfl), Warehouse.tenure, Catalog.find?_put_erase rfl htables,
      if_pos rfl]
    cases purge with
    | false => rfl
    | true => exact congrArg (Tenure.mk · false) ((store_setStore _ hstore).trans (if_pos rfl))
  · have hstores : handle.store ≠ other.store := fun heq =>
      hsame (h.eq_of_store hhandle hother heq.symm)
    have hnot : ¬((run.warehouse.tenure handle).registered = true ∧
        other.metadata.id = handle.metadata.id) := by
      rintro ⟨hregistered, heq⟩
      rw [heq] at hfind
      exact hsame (Option.some.inj (hfind.symm.trans (registered_tenure_iff.1 hregistered)))
    rw [if_neg hnot]
    refine tenure_eq ?_ ?_
    · cases purge with
      | false => rfl
      | true => exact (store_setStore _ hstore).trans (if_neg hstores)
    · rw [Catalog.find?_put_erase hcatalog htables]
      split
      · rename_i heq
        simp [heq, hfind, hsame]
      · exact Iff.rfl

/-- A call does to a table what its entry says. -/
theorem Inv.tenure_step (h : run.Inv name) (hpossible : call.isPossible run.handles = true)
    (heffect : Effect run.warehouse call result w') (hhandle : handle ∈ run.created) :
    w'.tenure handle = (run.warehouse.tenure handle).record handle ⟨call, result⟩ := by
  obtain ⟨hown, hstore⟩ := h.of_mem_created hhandle
  cases heffect with
  | createDatabase hnew => exact tenure_eq rfl (by rw [Catalog.find?_put_empty hnew])
  | dropDatabase hempty => exact tenure_eq rfl (by rw [Catalog.find?_erase_empty hempty])
  | @createTable definition now tables table hname htables hfree htable =>
    refine tenure_eq (store_concat _ _ hstore) ?_
    rw [Catalog.find?_put_insert (hown.trans (h.name_eq.symm.trans hname.symm)) htables]
    split
    · rename_i heq
      -- the name was free, and the new table has a store that the other cannot have
      have hne : table ≠ handle := by
        rintro rfl
        rw [htable] at hstore
        exact Nat.lt_irrefl _ hstore
      have hnone : run.warehouse.catalog.find? handle.metadata.id = none := by
        rw [heq, Catalog.find?_of_get? htables, hfree]
      simp [hne, hnone]
    · exact Iff.rfl
  | dropTable hname htables hfound => exact h.tenure_dropTable hhandle _ hname htables hfound
  | @commit table work now after hafter =>
    have htable := h.handles table (of_decide_eq_true hpossible)
    rw [Tenure.record_commit]
    by_cases hsame : table = handle
    · subst hsame
      rw [if_pos rfl, Warehouse.tenure, Warehouse.tenure, hafter, store_setStore _ hstore, if_pos rfl]
      rfl
    · rw [if_neg hsame]
      refine tenure_eq ?_ Iff.rfl
      rw [store_setStore _ hstore, if_neg fun heq => hsame (h.eq_of_store hhandle htable heq.symm)]
  | _ => rfl

theorem inv_start (name : String) : (start name).Inv name where
  name_eq := rfl
  database_iff _ := iff_of_false Bool.false_ne_true not_since_nil
  latest_iff _ _ _ := iff_of_false nofun not_since_nil
  created _ _ _ := nofun
  stores := rfl
  handles _ := nofun
  tenure before entry after _ _ hlog := absurd hlog (by simp [start])

/-- The invariant is kept by what a call does. -/
theorem Inv.of_effect (h : run.Inv name) (hpossible : call.isPossible run.handles = true)
    (heffect : Effect run.warehouse call result w') :
    Inv name ⟨w', run.handles ++ result.handle?.toList, run.log ++ [⟨call, result⟩]⟩ where
  name_eq := heffect.name_eq.trans h.name_eq
  database_iff database := by
    rw [HasDatabase, since_concat_iff, heffect.contains_iff, h.database_iff]
    rfl
  latest_iff id handle hid := by
    rw [Latest, since_concat_iff, heffect.find?_iff (hid.trans h.name_eq.symm),
      h.latest_iff id handle hid]
    rfl
  created definition now handle hentry := by
    rcases List.mem_append.1 hentry with hentry | hentry
    · exact h.created definition now handle hentry
    · cases List.mem_singleton.1 hentry
      cases heffect with
      | createTable hname htables hfree hhandle => exact ⟨hname.trans h.name_eq, by rw [hhandle]⟩
  stores := by
    rw [created_concat]
    rcases heffect.stores with ⟨hnone, hlength⟩ | ⟨handle, hsome, hstore, hlength⟩
    · rw [hnone, Option.toList_none, List.append_nil, hlength, h.stores]
    · rw [hsome, Option.toList_some, List.map_append, h.stores, hlength, List.range_succ, ← hstore]
      rfl
  handles handle hhandle := by
    rw [created_concat, List.mem_append, Option.mem_toList]
    rcases List.mem_append.1 hhandle with hold | hnew
    · exact .inl (h.handles handle hold)
    · rw [Option.mem_toList] at hnew
      -- a handle is given out by a creation, or by loading a table that was created before
      cases heffect with
      | createTable hname htables hfree htable => exact .inr hnew
      | loadTable hname hfound =>
        cases hnew
        exact .inl (h.mem_created_of_find? (hname.trans h.name_eq) hfound).1
      | _ => cases hnew
  tenure before entry after id handle hlog hcreates := by
    rcases concat_eq_append_cons_iff.1 hlog with ⟨rfl, rfl, rfl⟩ | ⟨rest, rfl, hrest⟩
    · exact (heffect.tenure_created hcreates).symm
    · have hhandle : handle ∈ run.created :=
        mem_created_iff.2 ⟨entry, by simp [hrest], id, hcreates⟩
      rw [List.foldl_append, h.tenure before entry rest id handle hrest hcreates,
        List.foldl_cons, List.foldl_nil, h.tenure_step hpossible heffect hhandle]

theorem Inv.step (h : run.Inv name) (call : Call) : (run.step call).Inv name := by
  unfold Run.step
  split
  · rename_i hpossible
    split
    · rename_i e left hfails
      rw [keepsOnFailure_perform call hfails]
      exact h
    · rename_i answer after hanswer
      exact h.of_effect hpossible (effect_of_run hanswer)
  · exact h

theorem Inv.foldl_step (h : run.Inv name) (calls : List Call) :
    (calls.foldl Run.step run).Inv name := by
  induction calls generalizing run with
  | nil => exact h
  | cons call calls ih => exact ih (h.step call)

theorem inv_after (name : String) (calls : List Call) : (after name calls).Inv name :=
  (inv_start name).foldl_step calls

end Run

end MergeOnRead.Warehouse
