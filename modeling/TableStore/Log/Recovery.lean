import TableStore.Disk.Basic
import TableStore.Record.Frame

/-!
# Recovering a log

A crash can leave a log with an incomplete record at its end. Recovery finds the end of the last
complete record and cuts off what follows it.
-/

namespace TableStore

/-- What an inspection of a log has found. -/
structure Recovery where
  /-- The number of complete records. -/
  records : Nat
  /-- The length of the log up to the end of the last complete record. -/
  validLength : Nat
  /-- The number of bytes after that. -/
  tornBytes : Nat
  deriving DecidableEq, Repr

namespace Recovery

/-- Whether the log ends in an incomplete record. -/
def isTorn (report : Recovery) : Bool :=
  decide (0 < report.tornBytes)

/-- Inspects the content of a log. -/
def inspect (content : Bytes) : Recovery :=
  let (records, validLength) := Frame.tally content
  ⟨records, validLength, content.length - validLength⟩

/-- Inspects a log without changing it. -/
def verify (disk : Disk) (place : Place) : Except Failure Recovery :=
  match disk.read place with
  | .error fault => .error (.file fault)
  | .ok content => .ok (inspect content)

/-- Inspects a log and cuts off an incomplete record at its end. -/
def recover (disk : Disk) (place : Place) : Except Failure Recovery × Disk :=
  match verify disk place with
  | .error e => (.error e, disk)
  | .ok report =>
    if report.isTorn then
      match disk.modifyFile place fun content => content.resize report.validLength with
      | .error fault => (.error (.file fault), disk)
      | .ok disk => (.ok report, disk)
    else (.ok report, disk)

end Recovery

end TableStore
