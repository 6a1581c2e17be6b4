import Std.Data.ExtTreeMap
import TableStore.Log.AppendLog
import TableStore.Record.Format

/-!
# The primary-key index

The index maps the bytes of every key to the offset of the latest record with that key. It is kept
in memory only, and rebuilt from the log when a table is opened.
-/

namespace TableStore

/-- Key bytes with the offset of their latest record. -/
abbrev Index := Std.ExtTreeMap Bytes Nat

namespace Index

/-- Points a key at an offset. -/
def put (index : Index) (key : Bytes) (offset : Nat) : Index :=
  index.insert key offset

/-- The offset of the latest record of a key. -/
def offset? (index : Index) (key : Bytes) : Option Nat :=
  index[key]?

/-- Whether the latest record of a key is at the given offset. -/
def isCurrent (index : Index) (key : Bytes) (offset : Nat) : Bool :=
  index.offset? key == some offset

/-- The offsets of the latest records in ascending order. -/
def liveOffsets (index : Index) : List Nat :=
  index.values.mergeSort (· ≤ ·)

/-- Takes records with their offsets into the index, and counts them. A record whose key cannot be
read ends the replay. -/
def replay (format : RecordFormat) (index : Index) (count : Nat) :
    List (Except FileFault (Nat × Bytes)) → Except Failure Nat × Index
  | [] => (.ok count, index)
  | .error fault :: _ => (.error (.file fault), index)
  | .ok (offset, record) :: rest =>
    match format.decodeKey record with
    | .error e => (.error e, index)
    | .ok key => replay format (index.put key offset) (count + 1) rest

/-- The index of a log, as far as it can be replayed, and the number of records replayed. -/
def rebuild (log : AppendLog) (disk : Disk) (format : RecordFormat) :
    Except Failure Nat × Index :=
  match log.scan disk 0 log.committed with
  | .error e => (.error e, ∅)
  | .ok (entries, _) => replay format ∅ 0 entries

end Index

end TableStore
