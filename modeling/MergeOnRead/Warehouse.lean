import MergeOnRead.Store.Basic
import MergeOnRead.Table

/-!
# Warehouses

A warehouse holds a catalog and the stores of its tables. The catalog lists tables under databases;
a table handle names the store it was created with. Dropping a table removes it from the catalog;
handles given out before keep their store, and a table created later under the same name gets a
store of its own.
-/

namespace MergeOnRead

/-- A table with the place of its store in the warehouse. -/
structure TableHandle where
  metadata : Metadata
  store : Nat
deriving DecidableEq, Repr

/-- The tables of a catalog, by database and name. -/
structure Catalog where
  name : String
  databases : OrderedMap String (OrderedMap String TableHandle)
deriving DecidableEq, Repr

/-- A catalog and all stores that were ever created. -/
structure Warehouse where
  catalog : Catalog
  stores : List Store
deriving DecidableEq, Repr

namespace Catalog

def create (name : String) : Catalog := ⟨name, OrderedMap.empty⟩

/-- Checks that an identifier belongs to the catalog. -/
def checkName (c : Catalog) (id : TableId) : Except Error Unit :=
  if id.catalog = c.name then .ok () else .error (.invalid (.foreignTable id c.name))

def database (c : Catalog) (name : String) : Except Error (OrderedMap String TableHandle) :=
  match c.databases.get? name with
  | some tables => .ok tables
  | none => .error (.notFound (.database name))

/-- The names of the databases in order. -/
def listDatabases (c : Catalog) : List String := c.databases.keys

/-- The catalog with the given tables under a database. -/
def put (c : Catalog) (database : String) (tables : OrderedMap String TableHandle) : Catalog :=
  { c with databases := c.databases.insert database tables }

/-- The catalog without a database. -/
def erase (c : Catalog) (database : String) : Catalog :=
  { c with databases := c.databases.erase database }

def createDatabase (name : String) : InPlace Catalog Unit := do
  if (← get).databases.contains name then
    throw (.alreadyExists (.database name))
  modify fun c => c.put name OrderedMap.empty

/-- Removes a database that holds no table. -/
def dropDatabase (name : String) : InPlace Catalog Unit := do
  let tables ← InPlace.ofExcept ((← get).database name)
  if !tables.isEmpty then
    throw (.invalid (.databaseNotEmpty name tables.size))
  modify fun c => c.erase name

/-- The identifiers of the tables of a database, in the order of their names. -/
def listTables (c : Catalog) (name : String) : Except Error (List TableId) :=
  (c.database name).map fun tables => tables.values.map (·.metadata.id)

/-- The registered table with an identifier. -/
def find? (c : Catalog) (id : TableId) : Option TableHandle :=
  (c.databases.get? id.database).bind (·.get? id.table)

def loadTable (c : Catalog) (id : TableId) : Except Error TableHandle := do
  c.checkName id
  match c.find? id with
  | some handle => return handle
  | none => throw (.notFound (.table id))

def tableExists (c : Catalog) (id : TableId) : Except Error Bool :=
  match c.loadTable id with
  | .ok _ => .ok true
  | .error (.notFound _) => .ok false
  | .error e => .error e

/-- The tables among which a new one takes its place: those of its database, if its name is free
there. -/
def room (c : Catalog) (id : TableId) : Except Error (OrderedMap String TableHandle) := do
  let tables ← c.database id.database
  if tables.contains id.table then
    throw (.alreadyExists (.table id))
  return tables

/-- Removes a table from its database. -/
def unregister (id : TableId) : InPlace Catalog TableHandle := do
  InPlace.ofExcept ((← get).checkName id)
  match (← get).databases.get? id.database with
  | none => throw (.notFound (.table id))
  | some tables =>
    match tables.get? id.table with
    | none => throw (.notFound (.table id))
    | some handle =>
      modify fun c => c.put id.database (tables.erase id.table)
      return handle

end Catalog

namespace Warehouse

/-- A warehouse with an empty catalog and no stores. -/
def create (catalog : String) : Warehouse := ⟨Catalog.create catalog, []⟩

/-- Adds a store for a table, without registering the table. -/
def addStore (w : Warehouse) (metadata : Metadata) (store : Store) : TableHandle × Warehouse :=
  (⟨metadata, w.stores.length⟩, { w with stores := w.stores ++ [store] })

def store (w : Warehouse) (handle : TableHandle) : Store :=
  w.stores.getD handle.store (Store.withSides [])

/-- Puts a store in the place of the one that a table has. -/
def setStore (w : Warehouse) (handle : TableHandle) (store : Store) : Warehouse :=
  { w with stores := w.stores.set handle.store store }

/-- A step on the catalog of a warehouse. -/
def onCatalog {α : Type} (step : InPlace Catalog α) : InPlace Warehouse α :=
  step.onPart catalog fun w catalog => { w with catalog }

/-- A step on the store of a table. -/
def onStore {α : Type} (handle : TableHandle) (step : InPlace Store α) : InPlace Warehouse α :=
  step.onPart (·.store handle) (·.setStore handle)

/-- The properties of a new table: those of its definition, the time of creation and, for a keyed
table, the format version. -/
def creationProperties (definition : Metadata) (now : Int) : Properties :=
  let timed := definition.properties.insert PropertyKey.createTime (toString now)
  if definition.isKeyed then timed.insert PropertyKey.formatVersion "2" else timed

/-- Creates a table with a new store and registers it. -/
def createTable (definition : Metadata) (now : Int) : InPlace Warehouse TableHandle := do
  InPlace.ofExcept ((← get).catalog.checkName definition.id)
  let properties := creationProperties definition now
  let metadata ← InPlace.ofExcept (Metadata.checked { definition with properties })
  let tables ← InPlace.ofExcept ((← get).catalog.room definition.id)
  let handle ← modifyGet fun w => w.addStore metadata (Store.create metadata.isKeyed)
  onCatalog (modify (·.put definition.id.database (tables.insert definition.id.table handle)))
  return handle

/-- Removes a table from the catalog. Purging it also removes both sides of its store, which all
handles to the table share. -/
def dropTable (id : TableId) (purge : Bool) : InPlace Warehouse Unit := do
  let handle ← onCatalog (Catalog.unregister id)
  if purge then
    onStore handle do
      modify (·.dropSide .base)
      modify (·.dropSide .change)

end Warehouse

end MergeOnRead
