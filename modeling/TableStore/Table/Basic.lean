import TableStore.Filter.Evaluate
import TableStore.Index
import TableStore.Schema.Store

/-!
# Tables

A table is a directory with a schema descriptor and a log. An open table has its record format and
its index at hand; every item written is one more record in the log, and the index says which
record of a key counts.
-/

namespace TableStore

/-- An open table. -/
structure Table where
  schema : Schema
  format : RecordFormat
  directory : Place
  log : AppendLog
  index : Index

/-- The size of a table. -/
structure TableStats where
  /-- The number of keys. -/
  liveKeys : Nat
  /-- The length of the log, records that no longer count included. -/
  logBytes : Nat
  deriving DecidableEq, Repr

namespace Table

/-! ## Files -/

/-- The name of the file with the schema descriptor. -/
def schemaName : String := "schema.rls"

/-- The file with the schema descriptor in a table's directory. -/
def schemaFile (directory : Place) : Place := directory.enter schemaName

/-- The log in a table's directory. -/
def logFile (directory : Place) : Place := directory.enter "data.log"

/-- The file in which compaction collects the records to keep. -/
def compactFile (directory : Place) : Place := directory.enter "data.log.compact"

/-! ## Items -/

/-- Writes an item: appends its record to the log, and then points its key there. -/
def put (table : Table) (disk : Disk) (item : Item) : Except Failure Unit × Table × Disk :=
  match table.format.encode item with
  | .error e => (.error e, table, disk)
  | .ok record =>
    match table.format.decodeKey record with
    | .error e => (.error e, table, disk)
    | .ok key =>
      match table.log.append disk record with
      | (.error e, log, disk) => (.error e, { table with log }, disk)
      | (.ok offset, log, disk) =>
        (.ok (), { table with log, index := table.index.put key offset }, disk)

/-- The item with a given key. -/
def get (table : Table) (disk : Disk) (key : Value) : Except Failure Item :=
  match table.format.encodeKey key with
  | .error e => .error e
  | .ok key =>
    match table.index.offset? key with
    | none => .error .noKey
    | some offset =>
      match table.log.read disk offset with
      | .error e => .error e
      | .ok record => table.format.decode record

/-- Those items among the records of a scan that are the latest of their key and satisfy a
predicate. -/
def select (format : RecordFormat) (index : Index) (predicate : Predicate) :
    List (Except FileFault (Nat × Bytes)) → Except Failure (List Item)
  | [] => .ok []
  | .error fault :: _ => .error (.file fault)
  | .ok (offset, record) :: rest =>
    match format.decodeKey record with
    | .error e => .error e
    | .ok key =>
      if index.isCurrent key offset then
        match format.decode record with
        | .error e => .error e
        | .ok item =>
          match select format index predicate rest with
          | .error e => .error e
          | .ok items => .ok (if predicate.holds item then item :: items else items)
      else select format index predicate rest

/-- All items that satisfy a predicate, in the order of their records. -/
def filter (table : Table) (disk : Disk) (predicate : Predicate) : Except Failure (List Item) :=
  match predicate.check table.schema with
  | .error e => .error e
  | .ok () =>
    match table.log.scan disk 0 table.log.committed with
    | .error e => .error e
    | .ok (entries, _) => select table.format table.index predicate entries

/-- The size of the table. -/
def stats (table : Table) : TableStats :=
  ⟨table.index.size, table.log.committed⟩

/-- Flushes the log. -/
def sync (table : Table) (disk : Disk) : Except Failure Unit × Table :=
  match table.log.sync disk with
  | (outcome, log) => (outcome, { table with log })

end Table

end TableStore
