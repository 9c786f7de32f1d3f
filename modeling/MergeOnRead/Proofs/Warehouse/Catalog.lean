import MergeOnRead.Proofs.InPlace
import MergeOnRead.Proofs.Result
import MergeOnRead.Warehouse

/-!
# What the calls of a catalog do

Each call of a catalog that succeeds is told by what it finds and by the catalog it leaves: creating
and dropping databases, registering tables under their identifiers and removing them. A catalog
changes only by tables that are put under a database, or by a database that is erased (`find?_put`,
`find?_erase`). A call that fails has changed nothing.

Main statements: `run_createTable_eq_ok_iff` and `run_dropTable_eq_ok_iff`, when tables are created
and dropped in a warehouse and what that leaves of its catalog and of its stores, and
`keepsOnFailure_createTable` and `keepsOnFailure_dropTable`.
-/

namespace MergeOnRead

open InPlace Result

theorem OrderedMap.isEmpty_iff {κ α : Type} [Ord κ] {m : OrderedMap κ α} :
    m.isEmpty = true ↔ m = OrderedMap.empty := by
  obtain ⟨entries, hordered⟩ := m
  simp [OrderedMap.isEmpty, OrderedMap.empty]

namespace Catalog

variable {c c' : Catalog} {id : TableId} {handle : TableHandle} {name database : String}
  {tables : OrderedMap String TableHandle}

theorem find?_eq_some_iff :
    c.find? id = some handle ↔
      ∃ tables, c.databases.get? id.database = some tables ∧ tables.get? id.table = some handle :=
  Option.bind_eq_some_iff

theorem find?_of_get? (h : c.databases.get? id.database = some tables) :
    c.find? id = tables.get? id.table := by
  rw [find?, h, Option.bind_some]

theorem find?_put :
    (c.put name tables).find? id =
      if id.database = name then tables.get? id.table else c.find? id := by
  unfold find? put
  rw [OrderedMap.get?_insert]
  split <;> rfl

theorem find?_erase :
    (c.erase name).find? id = if id.database = name then none else c.find? id := by
  unfold find? erase
  rw [OrderedMap.get?_erase]
  split <;> rfl

/-- No table is found in a database that does not exist, and none in one that was just created. -/
theorem find?_put_empty (h : c.databases.get? name = none) :
    (c.put name OrderedMap.empty).find? id = c.find? id := by
  rw [find?_put]
  split
  · rename_i heq
    rw [find?, heq, h]
    rfl
  · rfl

theorem find?_erase_empty (h : c.databases.get? name = some OrderedMap.empty) :
    (c.erase name).find? id = c.find? id := by
  rw [find?_erase]
  split
  · rename_i heq
    rw [find?, heq, h]
    rfl
  · rfl

theorem eq_iff_of_catalog {other : TableId} (h : id.catalog = other.catalog) :
    id = other ↔ id.database = other.database ∧ id.table = other.table := by
  obtain ⟨catalog, database, table⟩ := id
  obtain ⟨_, database', table'⟩ := other
  cases h
  simp

/-- If the tables of a database change under one name, then one identifier of the catalog changes. -/
theorem find?_put_of_get? {other : TableId} {changed : OrderedMap String TableHandle}
    {value : Option TableHandle} (hcatalog : id.catalog = other.catalog)
    (h : c.databases.get? other.database = some tables)
    (hchanged : ∀ table, changed.get? table = if table = other.table then value else tables.get? table) :
    (c.put other.database changed).find? id = if id = other then value else c.find? id := by
  by_cases hid : id = other
  · subst hid
    rw [find?_put, if_pos rfl, hchanged, if_pos rfl, if_pos rfl]
  · rw [find?_put, if_neg hid]
    split
    · rename_i hdatabase
      have htable : id.table ≠ other.table := fun htable =>
        hid ((eq_iff_of_catalog hcatalog).2 ⟨hdatabase, htable⟩)
      rw [hchanged, if_neg htable, find?_of_get? (hdatabase ▸ h)]
    · rfl

theorem find?_put_insert {other : TableId} (hcatalog : id.catalog = other.catalog)
    (h : c.databases.get? other.database = some tables) :
    (c.put other.database (tables.insert other.table handle)).find? id =
      if id = other then some handle else c.find? id :=
  find?_put_of_get? hcatalog h fun _ => OrderedMap.get?_insert ..

theorem find?_put_erase {other : TableId} (hcatalog : id.catalog = other.catalog)
    (h : c.databases.get? other.database = some tables) :
    (c.put other.database (tables.erase other.table)).find? id =
      if id = other then none else c.find? id :=
  find?_put_of_get? hcatalog h fun _ => OrderedMap.get?_erase ..

theorem contains_put :
    (c.put name tables).databases.contains database = true ↔
      database = name ∨ c.databases.contains database = true := by
  unfold put OrderedMap.contains
  rw [OrderedMap.get?_insert]
  by_cases h : database = name <;> simp [h]

theorem contains_erase :
    (c.erase name).databases.contains database = true ↔
      c.databases.contains database = true ∧ database ≠ name := by
  unfold erase OrderedMap.contains
  rw [OrderedMap.get?_erase]
  by_cases h : database = name <;> simp [h]

/-! ## Databases -/

theorem run_createDatabase_eq_ok_iff :
    (createDatabase name).run c = .ok () c' ↔
      c.databases.get? name = none ∧ c' = c.put name OrderedMap.empty := by
  have hnew : ¬c.databases.contains name = true ↔ c.databases.get? name = none := by
    simp [OrderedMap.contains]
  rw [createDatabase, run_get_bind, ← hnew]
  refine run_check_eq_ok_iff.trans (and_congr_right fun _ => ?_)
  change EStateM.Result.ok () _ = _ ↔ _
  simp [eq_comm]

theorem keepsOnFailure_createDatabase (name : String) : KeepsOnFailure (createDatabase name) :=
  .after_reads reads_get fun _ => .after_check fun _ => (total_modify _).keepsOnFailure

theorem database_eq_ok_iff : c.database name = .ok tables ↔ c.databases.get? name = some tables := by
  unfold database
  cases c.databases.get? name <;> simp

/-- A database is dropped only if it holds no table. -/
theorem run_dropDatabase_eq_ok_iff :
    (dropDatabase name).run c = .ok () c' ↔
      c.databases.get? name = some OrderedMap.empty ∧ c' = c.erase name := by
  rw [dropDatabase, run_get_bind, run_ofExcept_bind_eq_ok_iff]
  constructor
  · rintro ⟨tables, htables, h⟩
    obtain ⟨hempty, h⟩ := run_check_eq_ok_iff.1 h
    cases h
    have hnone : tables.isEmpty = true := by simpa using hempty
    rw [OrderedMap.isEmpty_iff.1 hnone] at htables
    exact ⟨database_eq_ok_iff.1 htables, rfl⟩
  · rintro ⟨htables, rfl⟩
    exact ⟨_, database_eq_ok_iff.2 htables, rfl⟩

theorem keepsOnFailure_dropDatabase (name : String) : KeepsOnFailure (dropDatabase name) :=
  .after_reads reads_get fun _ => .after_reads (reads_ofExcept _) fun _ => .after_check fun _ =>
    (total_modify _).keepsOnFailure

theorem listTables_eq_ok_iff {ids : List TableId} :
    c.listTables name = .ok ids ↔
      ∃ tables, c.databases.get? name = some tables ∧ ids = tables.values.map (·.metadata.id) := by
  unfold listTables
  constructor
  · intro h
    obtain ⟨tables, htables, rfl⟩ := map_eq_ok h
    exact ⟨tables, database_eq_ok_iff.1 htables, rfl⟩
  · rintro ⟨tables, htables, rfl⟩
    exact map_of_eq_ok (database_eq_ok_iff.2 htables) _

/-! ## Tables -/

theorem checkName_eq_ok_iff : c.checkName id = .ok () ↔ id.catalog = c.name := by
  unfold checkName
  split <;> simp_all

theorem checkName_of_ne (h : id.catalog ≠ c.name) :
    c.checkName id = .error (.invalid (.foreignTable id c.name)) :=
  if_neg h

theorem loadTable_eq (h : id.catalog = c.name) :
    c.loadTable id =
      match c.find? id with
      | some handle => .ok handle
      | none => .error (.notFound (.table id)) := by
  rw [loadTable, bind_of_eq_ok (checkName_eq_ok_iff.2 h)]
  rfl

theorem loadTable_of_ne (h : id.catalog ≠ c.name) :
    c.loadTable id = .error (.invalid (.foreignTable id c.name)) := by
  rw [loadTable, checkName_of_ne h]
  rfl

theorem loadTable_eq_ok_iff :
    c.loadTable id = .ok handle ↔ id.catalog = c.name ∧ c.find? id = some handle := by
  by_cases hname : id.catalog = c.name
  · rw [loadTable_eq hname]
    cases c.find? id <;> simp [hname]
  · rw [loadTable_of_ne hname]
    simp [hname]

theorem tableExists_eq (h : id.catalog = c.name) :
    c.tableExists id = .ok (c.find? id).isSome := by
  rw [tableExists, loadTable_eq h]
  cases c.find? id <;> rfl

/-- There is room for a table in a database that exists, under a name that is free. -/
theorem room_eq_ok_iff :
    c.room id = .ok tables ↔
      c.databases.get? id.database = some tables ∧ tables.get? id.table = none := by
  have hfree (found : OrderedMap String TableHandle) :
      found.contains id.table = true ↔ found.get? id.table ≠ none := by
    rw [OrderedMap.contains, Option.isSome_iff_ne_none]
  unfold room
  constructor
  · intro h
    obtain ⟨found, hfound, h⟩ := bind_eq_ok h
    by_cases hcontains : found.contains id.table = true
    · rw [if_pos hcontains] at h
      cases h
    · rw [if_neg hcontains] at h
      cases h
      exact ⟨database_eq_ok_iff.1 hfound, not_not.1 fun hne => hcontains ((hfree _).2 hne)⟩
  · rintro ⟨htables, hnone⟩
    rw [bind_of_eq_ok (database_eq_ok_iff.2 htables), if_neg fun hcontains => (hfree _).1 hcontains hnone]
    rfl

theorem run_unregister_eq_ok_iff :
    (unregister id).run c = .ok handle c' ↔
      id.catalog = c.name ∧ ∃ tables, c.databases.get? id.database = some tables ∧
        tables.get? id.table = some handle ∧ c' = c.put id.database (tables.erase id.table) := by
  rw [unregister, run_get_bind, run_ofExcept_bind_eq_ok_iff]
  constructor
  · rintro ⟨⟨⟩, hname, h⟩
    rw [run_get_bind] at h
    split at h
    · cases h
    · rename_i tables htables
      split at h
      · cases h
      · rename_i found hfound
        cases h
        exact ⟨checkName_eq_ok_iff.1 hname, tables, htables, hfound, rfl⟩
  · rintro ⟨hname, tables, htables, hfound, rfl⟩
    refine ⟨(), checkName_eq_ok_iff.2 hname, ?_⟩
    rw [run_get_bind, htables]
    dsimp only
    rw [hfound]
    rfl

theorem keepsOnFailure_unregister (id : TableId) : KeepsOnFailure (unregister id) := by
  refine .after_reads reads_get fun _ => .after_reads (reads_ofExcept _) fun _ =>
    .after_reads reads_get fun c => ?_
  split
  · exact (reads_throw _).keepsOnFailure
  split
  · exact (reads_throw _).keepsOnFailure
  · exact ((total_modify _).bind fun _ => total_pure _).keepsOnFailure

end Catalog

/-- The store without its sides. -/
def Store.purge (s : Store) : Store := { s with base := none, change := none }

/-- The store of a new table has a change side only if the table has a primary key. -/
theorem Store.create_isKeyed (metadata : Metadata) :
    Store.create metadata.isKeyed =
      { base := some SideState.created
        change := if metadata.primaryKey = [] then none else some SideState.created
        ids := SnapshotIds.fresh } := by
  unfold Metadata.isKeyed
  cases metadata.primaryKey <;> rfl

namespace Warehouse

variable {w w' : Warehouse} {definition : Metadata} {now : Int} {handle other : TableHandle}
  {id : TableId} {purge : Bool}

/-! ## Stores -/

theorem store_setStore (s : Store) (h : other.store < w.stores.length) :
    (w.setStore handle s).store other = if other.store = handle.store then s else w.store other := by
  unfold store setStore
  rw [List.getD_eq_getElem?_getD, List.getElem?_set, List.getD_eq_getElem?_getD]
  by_cases heq : other.store = handle.store
  · rw [if_pos heq, if_pos heq.symm, ← heq, if_pos h, Option.getD_some]
  · rw [if_neg heq, if_neg (Ne.symm heq)]

theorem setStore_store (w : Warehouse) (handle : TableHandle) :
    w.setStore handle (w.store handle) = w := by
  unfold setStore store
  by_cases h : handle.store < w.stores.length
  · rw [List.getD_eq_getElem?_getD, List.getElem?_eq_getElem h, Option.getD_some,
      List.set_getElem_self h]
  · rw [List.set_eq_of_length_le (Nat.le_of_not_lt h)]

/-- A new store leaves the others as they are. -/
theorem store_concat (catalog : Catalog) (s : Store) (h : handle.store < w.stores.length) :
    (⟨catalog, w.stores ++ [s]⟩ : Warehouse).store handle = w.store handle := by
  unfold store
  rw [List.getD_eq_getElem?_getD, List.getElem?_append_left h, ← List.getD_eq_getElem?_getD]

theorem store_concat_self (catalog : Catalog) (s : Store) (h : handle.store = w.stores.length) :
    (⟨catalog, w.stores ++ [s]⟩ : Warehouse).store handle = s := by
  unfold store
  rw [h, List.getD_eq_getElem?_getD, List.getElem?_concat_length, Option.getD_some]

/-! ## Tables -/

/-- The metadata of a table that is created. -/
def metadataAt (definition : Metadata) (now : Int) : Metadata :=
  { definition with properties := creationProperties definition now }

/-- A table is created if its definition fits together, its database exists and its name is free
there. It gets the next store. -/
theorem run_createTable_eq_ok_iff :
    (createTable definition now).run w = .ok handle w' ↔
      definition.id.catalog = w.catalog.name ∧ definition.check = .ok () ∧
        handle = ⟨metadataAt definition now, w.stores.length⟩ ∧
        ∃ tables, w.catalog.databases.get? definition.id.database = some tables ∧
          tables.get? definition.id.table = none ∧
          w' = ⟨w.catalog.put definition.id.database (tables.insert definition.id.table handle),
            w.stores ++ [Store.create definition.isKeyed]⟩ := by
  rw [createTable, run_get_bind, run_ofExcept_bind_eq_ok_iff]
  constructor
  · rintro ⟨⟨⟩, hname, h⟩
    obtain ⟨metadata, hmetadata, hrest⟩ := run_ofExcept_bind_eq_ok_iff.1 h
    obtain ⟨⟨⟩, hcheck, rfl⟩ := map_eq_ok hmetadata
    rw [run_get_bind] at hrest
    obtain ⟨tables, hroom, hgrown⟩ := run_ofExcept_bind_eq_ok_iff.1 hrest
    obtain ⟨htables, hfree⟩ := Catalog.room_eq_ok_iff.1 hroom
    cases hgrown
    exact ⟨Catalog.checkName_eq_ok_iff.1 hname, hcheck, rfl, tables, htables, hfree, rfl⟩
  · rintro ⟨hname, hcheck, rfl, tables, htables, hfree, rfl⟩
    have hmetadata : (metadataAt definition now).checked = .ok (metadataAt definition now) :=
      map_of_eq_ok hcheck _
    refine ⟨(), Catalog.checkName_eq_ok_iff.2 hname, ?_⟩
    refine (run_ofExcept_bind_of_ok hmetadata _).trans ?_
    rw [run_get_bind, run_ofExcept_bind_of_ok (Catalog.room_eq_ok_iff.2 ⟨htables, hfree⟩)]
    rfl

theorem run_createTable_of_ne (h : definition.id.catalog ≠ w.catalog.name) :
    (createTable definition now).run w =
      .error (.invalid (.foreignTable definition.id w.catalog.name)) w := by
  rw [createTable, run_get_bind, Catalog.checkName_of_ne h]
  rfl

/-- A table is created only after everything about it was checked. -/
theorem keepsOnFailure_createTable (definition : Metadata) (now : Int) :
    KeepsOnFailure (createTable definition now) :=
  .after_reads reads_get fun _ => .after_reads (reads_ofExcept _) fun _ =>
    .after_reads (reads_ofExcept _) fun _ => .after_reads reads_get fun _ =>
    .after_reads (reads_ofExcept _) fun _ => Total.keepsOnFailure
      ((total_modifyGet _).bind fun _ => (total_modify _).onPart.bind fun _ => total_pure _)

/-- A table is dropped by removing it from the catalog; purging empties its store, too. -/
theorem run_dropTable_eq_ok_iff :
    (dropTable id purge).run w = .ok () w' ↔
      ∃ handle catalog, (Catalog.unregister id).run w.catalog = .ok handle catalog ∧
        w' = ⟨catalog,
          if purge then w.stores.set handle.store (w.store handle).purge else w.stores⟩ := by
  rw [dropTable, run_bind_eq_ok_iff]
  constructor
  · rintro ⟨handle, left, hleft, h⟩
    obtain ⟨catalog, hunregister, rfl⟩ := run_onPart_eq_ok_iff.1 hleft
    refine ⟨handle, catalog, hunregister, ?_⟩
    cases purge <;> cases h <;> rfl
  · rintro ⟨handle, catalog, hunregister, rfl⟩
    refine ⟨handle, ⟨catalog, w.stores⟩, run_onPart_eq_ok_iff.2 ⟨catalog, hunregister, rfl⟩, ?_⟩
    cases purge <;> rfl

theorem run_dropTable_of_ne (h : id.catalog ≠ w.catalog.name) :
    (dropTable id purge).run w = .error (.invalid (.foreignTable id w.catalog.name)) w := by
  have hunregister : (Catalog.unregister id).run w.catalog =
      .error (.invalid (.foreignTable id w.catalog.name)) w.catalog := by
    rw [Catalog.unregister, run_get_bind, Catalog.checkName_of_ne h]
    rfl
  rw [dropTable]
  exact run_bind_of_error (run_onPart_of_error hunregister _) _

/-- Once a table was removed from the catalog nothing fails. -/
theorem keepsOnFailure_dropTable (id : TableId) (purge : Bool) :
    KeepsOnFailure (dropTable id purge) := by
  refine .before_total ((Catalog.keepsOnFailure_unregister id).onPart fun _ => rfl) fun handle => ?_
  split
  · exact ((total_modify _).bind fun _ => total_modify _).onPart
  · exact total_pure _

end Warehouse

end MergeOnRead
