import TableStore.Table.Basic

/-!
# Compaction

Compaction copies the latest record of every key, in the order of their offsets, to a file of its
own, and then puts that file in the place of the log. Until then the log is untouched, so that
nothing is lost if it stops half way.
-/

namespace TableStore

/-- The outcome of a compaction. -/
structure Compaction where
  /-- The number of records copied. -/
  recordsKept : Nat
  bytesBefore : Nat
  bytesAfter : Nat
  deriving DecidableEq, Repr

namespace Table

/-- Reads the records at the given offsets with their keys, up to the first that cannot be read. -/
def readRecords (table : Table) (disk : Disk) :
    List Nat → Except Failure Unit × List (Bytes × Bytes)
  | [] => (.ok (), [])
  | offset :: rest =>
    match table.log.read disk offset with
    | .error e => (.error e, [])
    | .ok record =>
      match table.format.decodeKey record with
      | .error e => (.error e, [])
      | .ok key =>
        match readRecords table disk rest with
        | (outcome, records) => (outcome, (key, record) :: records)

/-- Records given with their keys, one after the other. -/
def concatenated (records : List (Bytes × Bytes)) : Bytes :=
  (records.map (·.2)).flatten

/-- The index of records that stand one after the other from an offset on. -/
def indexFrom (offset : Nat) (index : Index) : List (Bytes × Bytes) → Index
  | [] => index
  | (key, record) :: rest => indexFrom (offset + record.length) (index.put key offset) rest

/-- The steps that write the copy of the records to keep. -/
def copySteps (directory : Place) (copy : Bytes) : List Disk.Step :=
  [.createFile (compactFile directory), .append (compactFile directory) copy]

/-- The step that puts the copied records in the place of the log. -/
def replaceStep (directory : Place) : Disk.Step :=
  .rename (compactFile directory) (logFile directory)

/-- Puts a log with the latest record of every key in the place of the log. -/
def compact (table : Table) (disk : Disk) : Except Failure Compaction × Table × Disk :=
  let (outcome, records) := table.readRecords disk table.index.liveOffsets
  let copy := concatenated records
  match disk.perform (copySteps table.directory copy) with
  | (.error fault, disk) => (.error (.file fault), table, disk)
  | (.ok (), disk) =>
    match outcome with
    | .error e => (.error e, table, disk)
    | .ok () =>
      match disk.perform [replaceStep table.directory] with
      | (.error fault, disk) => (.error (.file fault), table, disk)
      | (.ok (), disk) =>
        let index := indexFrom 0 ∅ records
        (.ok ⟨index.size, table.log.committed, copy.length⟩,
          { table with log := table.log.replaced copy.length, index }, disk)

end Table

end TableStore
