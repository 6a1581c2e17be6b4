import TableStore.Config
import TableStore.Table.Compact
import TableStore.Table.Lifecycle

/-!
# The engine

An engine keeps the open tables of a data directory by name. Opening it opens every table found
there: every directory with a schema descriptor, in the order of their names.
-/

namespace TableStore

/-- The open tables of a data directory. -/
structure Engine where
  config : Config
  /-- Where the data directory is. -/
  root : Place
  tables : Std.ExtTreeMap String Table Utf8.order

namespace Engine

/-! ## Opening -/

/-- Makes the data directory if it is missing and may be made. -/
def prepareRoot (disk : Disk) (root : Route) (config : Config) : Except Failure Unit × Disk :=
  if disk.hasAt root then (.ok (), disk)
  else if !config.createIfMissing then (.error (.noDataDirectory config.dataDirectory), disk)
  else
    match disk.createDirectories root with
    | (.error fault, disk) => (.error (.file fault), disk)
    | (.ok (), disk) => (.ok (), disk)

/-- Where the data directory is. -/
def locateRoot (disk : Disk) (root : Route) : Except FileFault Place :=
  match disk.locate root with
  | .error fault => .error fault
  | .ok place => if disk.isDirectory place then .ok place else .error .notADirectory

/-- The names of the tables in a directory. Entries whose names are not text are no tables, and no
entries of a disk either. -/
def tableNames (disk : Disk) (directory : Place) : List String :=
  (disk.entries directory.path).filterMap fun (name, node) =>
    if node = .directory ∧ disk.has (Table.schemaFile (directory.enter name)) then some name
    else none

/-- Opens tables by name up to the first that cannot be opened. -/
def openTables (disk : Disk) (engine : Engine) : List String → Except Failure Engine × Disk
  | [] => (.ok engine, disk)
  | name :: rest =>
    match Table.openAt disk (engine.root.enter name) name engine.config.syncPolicy with
    | (.error e, disk) => (.error e, disk)
    | (.ok table, disk) =>
      openTables disk { engine with tables := engine.tables.insert name table } rest

/-- Opens an engine over its data directory, seen from the current directory. -/
def openAt (disk : Disk) (current : Path) (config : Config) : Except Failure Engine × Disk :=
  let route := Route.ofText current config.dataDirectory
  match prepareRoot disk route config with
  | (.error e, disk) => (.error e, disk)
  | (.ok (), disk) =>
    match locateRoot disk route with
    | .error fault => (.error (.file fault), disk)
    | .ok root => openTables disk ⟨config, root, ∅⟩ (tableNames disk root)

/-! ## Tables -/

/-- The open table with a given name. -/
def table (engine : Engine) (name : String) : Except Failure Table :=
  match engine.tables[name]? with
  | some table => .ok table
  | none => .error (.noTable name)

/-- The engine with a table in a new state. -/
def setTable (engine : Engine) (name : String) (table : Table) : Engine :=
  { engine with tables := engine.tables.insert name table }

/-- Creates a table. -/
def createTable (engine : Engine) (disk : Disk) (schema : Schema) :
    Except Failure Unit × Engine × Disk :=
  match schema.validate with
  | .error e => (.error e, engine, disk)
  | .ok () =>
    if engine.tables.contains schema.name then (.error (.tableExists schema.name), engine, disk)
    else
      let directory := engine.root.enter schema.name
      match Table.create disk directory schema engine.config.syncPolicy with
      | (.error e, disk) => (.error e, engine, disk)
      | (.ok table, disk) => (.ok (), engine.setTable schema.name table, disk)

/-- Writes an item to a table. -/
def put (engine : Engine) (disk : Disk) (name : String) (item : Item) :
    Except Failure Unit × Engine × Disk :=
  match engine.table name with
  | .error e => (.error e, engine, disk)
  | .ok table =>
    match table.put disk item with
    | (outcome, table, disk) => (outcome, engine.setTable name table, disk)

/-- The item of a table with a given key. -/
def get (engine : Engine) (disk : Disk) (name : String) (key : Value) : Except Failure Item :=
  match engine.table name with
  | .error e => .error e
  | .ok table => table.get disk key

/-- All items of a table that satisfy a predicate. -/
def filter (engine : Engine) (disk : Disk) (name : String) (predicate : Predicate) :
    Except Failure (List Item) :=
  match engine.table name with
  | .error e => .error e
  | .ok table => table.filter disk predicate

/-- Compacts a table. -/
def compact (engine : Engine) (disk : Disk) (name : String) :
    Except Failure Compaction × Engine × Disk :=
  match engine.table name with
  | .error e => (.error e, engine, disk)
  | .ok table =>
    match table.compact disk with
    | (outcome, table, disk) => (outcome, engine.setTable name table, disk)

/-- The names of all tables in order. -/
def names (engine : Engine) : List String :=
  engine.tables.keys

/-- Flushes the logs of tables up to the first that fails. -/
def syncTables (disk : Disk) (engine : Engine) : List String → Except Failure Unit × Engine
  | [] => (.ok (), engine)
  | name :: rest =>
    match engine.table name with
    | .error e => (.error e, engine)
    | .ok table =>
      match table.sync disk with
      | (.error e, table) => (.error e, engine.setTable name table)
      | (.ok (), table) => syncTables disk (engine.setTable name table) rest

/-- Flushes the logs of all tables. -/
def sync (engine : Engine) (disk : Disk) : Except Failure Unit × Engine :=
  syncTables disk engine engine.names

end Engine

end TableStore
