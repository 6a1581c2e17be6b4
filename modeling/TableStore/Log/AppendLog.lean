import TableStore.Log.Recovery
import TableStore.Log.Scanner

/-!
# The append log

A table's records are appended to one file. An open log knows its committed length, the end of the
last record that was appended completely; readers never look past it. When an append fails the
file is cut back to that length, and if that fails too the log takes no more records until it is
opened again or replaced.
-/

namespace TableStore

/-- When appended records are flushed to the device. -/
inductive SyncPolicy where
  /-- Never by the log itself. -/
  | never
  /-- After every record. -/
  | everyRecord
  /-- After so many records. -/
  | every (count : Nat)
  deriving DecidableEq, Repr

/-- Whether so many records appended since the last flush call for another one. -/
def SyncPolicy.isDue (policy : SyncPolicy) (unsynced : Nat) : Bool :=
  match policy with
  | .never => false
  | .everyRecord => true
  | .every count => decide (max count 1 ≤ unsynced)

/-- What goes wrong in one append. -/
structure Faults where
  /-- The write fails after storing so many bytes. -/
  write : Option Nat
  /-- A flush fails. -/
  sync : Bool
  /-- Cutting the file back fails. -/
  cut : Bool
  deriving DecidableEq, Repr

namespace Faults

/-- Nothing goes wrong. -/
def none : Faults := ⟨.none, false, false⟩

/-- What goes wrong on the device that is always full. Writing nothing is no write. -/
def ofFullDevice (record : Bytes) : Faults :=
  ⟨if record.isEmpty then .none else some 0, true, true⟩

end Faults

/-- An open log. -/
structure AppendLog where
  place : Place
  policy : SyncPolicy
  /-- The end of the last record that was appended completely. -/
  committed : Nat
  /-- The number of appends since the last flush. -/
  unsynced : Nat
  /-- Whether an append has failed and could not be taken back. -/
  failed : Bool
  deriving DecidableEq, Repr

namespace AppendLog

/-! ## On the content of the file -/

/-- Counts an append, and flushes if that is due. Returns whether all went well. -/
def afterWrite (log : AppendLog) (faults : Faults) : Bool × AppendLog :=
  let unsynced := log.unsynced + 1
  if log.policy.isDue unsynced then
    if faults.sync then (false, { log with unsynced }) else (true, { log with unsynced := 0 })
  else (true, { log with unsynced })

/-- Writes a record at the end of the file, and flushes if that is due. -/
def write (log : AppendLog) (content : Bytes) (faults : Faults) (record : Bytes) :
    Bool × AppendLog × Bytes :=
  match faults.write with
  | some stored => (false, log, content ++ record.take stored)
  | none =>
    let (done, log) := log.afterWrite faults
    (done, log, content ++ record)

/-- Appends a record to a file with the given content, and returns the offset where the record
starts, the log and the new content. -/
def appendTo (log : AppendLog) (content : Bytes) (faults : Faults) (record : Bytes) :
    Except Failure Nat × AppendLog × Bytes :=
  if log.failed then (.error (.logDisabled log.place.path.text), log, content)
  else
    match log.write content faults record with
    | (true, written, content) =>
      (.ok log.committed, { written with committed := log.committed + record.length }, content)
    | (false, written, content) =>
      if faults.cut then (.error (.file .deviceFull), { written with failed := true }, content)
      else (.error (.file .deviceFull), written, content.resize log.committed)

/-- Flushes the file. -/
def syncTo (log : AppendLog) (faults : Faults) : Except Failure Unit × AppendLog :=
  if faults.sync then (.error (.file .notSupported), log)
  else (.ok (), { log with unsynced := 0 })

/-- Reads the record at an offset of a node, if it ends within the committed length. -/
def readIn (log : AppendLog) (node : Except FileFault Node) (offset : Nat) :
    Except Failure Bytes :=
  let bodyStart := offset + Frame.width
  if log.committed < bodyStart then .error (.corruptRecord (.pastEnd offset log.committed))
  else
    match node.bind Node.content? with
    | .error fault => .error (.file fault)
    | .ok content =>
      let lead := (content.drop offset).take Frame.width
      if lead.length < Frame.width then .error (.file .unexpectedEnd)
      else
        let length := LittleEndian.decode lead
        if log.committed < bodyStart + length then
          .error (.corruptRecord (.runsPastEnd offset length log.committed))
        else
          let body := (content.drop bodyStart).take length
          if body.length < length then .error (.file .unexpectedEnd) else .ok (lead ++ body)

/-! ## On a disk -/

/-- Opens a log, making an empty one if there is none, and cuts off an incomplete record at its
end. -/
def openAt (disk : Disk) (place : Place) (policy : SyncPolicy) :
    Except Failure (AppendLog × Recovery) × Disk :=
  match disk.ensureFile place with
  | .error fault => (.error (.file fault), disk)
  | .ok disk =>
    match Recovery.recover disk place with
    | (.error e, disk) => (.error e, disk)
    | (.ok report, disk) => (.ok (⟨place, policy, report.validLength, 0, false⟩, report), disk)

/-- Appends a record, and returns the offset where it starts. An open log whose file has been
removed goes on, out of sight. -/
def append (log : AppendLog) (disk : Disk) (record : Bytes) :
    Except Failure Nat × AppendLog × Disk :=
  match disk.get? log.place with
  | some (.file content) =>
    let (outcome, log, content) := log.appendTo content Faults.none record
    (outcome, log, disk.set log.place.path (.file content))
  | some .fullDevice =>
    let (outcome, log, _) := log.appendTo [] (Faults.ofFullDevice record) record
    (outcome, log, disk)
  | _ =>
    let (outcome, log, _) := log.appendTo [] Faults.none record
    (outcome, log, disk)

/-- Reads the record at an offset. -/
def read (log : AppendLog) (disk : Disk) (offset : Nat) : Except Failure Bytes :=
  log.readIn (disk.find log.place) offset

/-- A scanner of the records between two offsets, the second one brought down to the committed
length. -/
def scanner (log : AppendLog) (offset limit : Nat) : Scanner :=
  Scanner.start offset (min limit log.committed)

/-- Scans the records between two offsets to the end. The first one is below `2 ^ 63`, as for every
scanner: a larger one could not be sought, which is no failure here. -/
def scan (log : AppendLog) (disk : Disk) (offset limit : Nat) :
    Except Failure (List (Except FileFault (Nat × Bytes)) × Scanner) :=
  match disk.find log.place with
  | .error fault => .error (.file fault)
  | .ok node => .ok ((log.scanner offset limit).runOn node)

/-- Flushes the log. -/
def sync (log : AppendLog) (disk : Disk) : Except Failure Unit × AppendLog :=
  match disk.get? log.place with
  | some .fullDevice => log.syncTo (Faults.ofFullDevice [])
  | _ => log.syncTo Faults.none

/-- The log after its file has been replaced by one of the given length. -/
def replaced (log : AppendLog) (length : Nat) : AppendLog :=
  { log with committed := length, unsynced := 0, failed := false }

end AppendLog

end TableStore
