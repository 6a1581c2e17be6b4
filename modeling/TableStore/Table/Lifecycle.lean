import TableStore.Table.Basic

/-!
# Creating and opening tables

A directory without a descriptor is what an unfinished creation leaves behind. It is reused when a
table of that name is created, and its log is discarded.
-/

namespace TableStore.Table

/-! ## Creating -/

/-- Removes a file if it is there. -/
def discard (disk : Disk) (place : Place) : Except FileFault Disk :=
  match disk.removeFile place with
  | .ok disk => .ok disk
  | .error .notFound => .ok disk
  | .error fault => .error fault

/-- Removes the log files that an unfinished creation has left in a directory. -/
def clearLeftovers (disk : Disk) (directory : Place) : Except FileFault Unit × Disk :=
  match discard disk (logFile directory) with
  | .error fault => (.error fault, disk)
  | .ok disk =>
    match discard disk (compactFile directory) with
    | .error fault => (.error fault, disk)
    | .ok disk => (.ok (), disk)

/-- Makes the directory of a new table, or takes over one without a descriptor. -/
def prepareDirectory (disk : Disk) (directory : Place) (schema : Schema) :
    Except Failure Unit × Disk :=
  match disk.perform [.createDirectory directory] with
  | (.ok (), disk) => (.ok (), disk)
  | (.error .alreadyExists, disk) =>
    if disk.has (schemaFile directory) then (.error (.tableExists schema.name), disk)
    else
      match clearLeftovers disk directory with
      | (.error fault, disk) => (.error (.file fault), disk)
      | (.ok (), disk) => (.ok (), disk)
  | (.error fault, disk) => (.error (.file fault), disk)

/-- Stores the descriptor of a new table and opens its log. -/
def furnish (disk : Disk) (directory : Place) (schema : Schema) (policy : SyncPolicy) :
    Except Failure Table × Disk :=
  match RecordFormat.ofSchema schema with
  | .error e => (.error e, disk)
  | .ok format =>
    match Descriptor.save disk (directory.onward schemaName) schema with
    | (.error e, disk) => (.error e, disk)
    | (.ok (), disk) =>
      match AppendLog.openAt disk (logFile directory) policy with
      | (.error e, disk) => (.error e, disk)
      | (.ok (log, _), disk) => (.ok ⟨schema, format, directory, log, ∅⟩, disk)

/-- Creates a table in a directory. When that fails after the directory has been made or taken
over, the directory is removed. -/
def create (disk : Disk) (directory : Place) (schema : Schema) (policy : SyncPolicy) :
    Except Failure Table × Disk :=
  match schema.validate with
  | .error e => (.error e, disk)
  | .ok () =>
    match prepareDirectory disk directory schema with
    | (.error e, disk) => (.error e, disk)
    | (.ok (), disk) =>
      match furnish disk directory schema policy with
      | (.ok table, disk) => (.ok table, disk)
      | (.error e, disk) => (.error e, (disk.removeTreeAt directory.route).2)

/-! ## Opening -/

/-- Removes what a compaction that did not finish has left behind. -/
def removeStale (disk : Disk) (directory : Place) : Except FileFault Disk :=
  if disk.has (compactFile directory) then disk.removeFile (compactFile directory) else .ok disk

/-- Opens the table called `name` in a directory, and rebuilds its index from the log. -/
def openAt (disk : Disk) (directory : Place) (name : String) (policy : SyncPolicy) :
    Except Failure Table × Disk :=
  match Descriptor.load disk (directory.onward schemaName) name with
  | .error e => (.error e, disk)
  | .ok schema =>
    match RecordFormat.ofSchema schema with
    | .error e => (.error e, disk)
    | .ok format =>
      match removeStale disk directory with
      | .error fault => (.error (.file fault), disk)
      | .ok disk =>
        match AppendLog.openAt disk (logFile directory) policy with
        | (.error e, disk) => (.error e, disk)
        | (.ok (log, _), disk) =>
          match Index.rebuild log disk format with
          | (.error e, _) => (.error e, disk)
          | (.ok _, index) => (.ok ⟨schema, format, directory, log, index⟩, disk)

end TableStore.Table
