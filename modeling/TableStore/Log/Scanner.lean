import TableStore.Disk.Node
import TableStore.Record.Frame

/-!
# Scanning a log

A log is a file of records one after the other, each of them a frame. A scanner reads the records
between an offset and a limit fixed at its start, one at a time, and is given the bytes of the file
from its position on. It stops at the limit, and also, reporting a tail cut short, at a record that
would run past it or past the end of the file.
-/

namespace TableStore

/-- The state of a scan. -/
structure Scanner where
  /-- The offset of the next record. -/
  position : Nat
  /-- The offset at which the scan ends. -/
  limit : Nat
  /-- Whether the scan has met a record that is not complete. -/
  cutShort : Bool
  /-- Whether the scan is over. -/
  done : Bool
  deriving DecidableEq, Repr

namespace Scanner

/-- A scan of the records from one offset to another. Offsets are those at which a file can be read,
below `2 ^ 63`: that a larger one cannot be sought is left out. -/
def start (offset limit : Nat) : Scanner :=
  ⟨offset, limit, false, decide (limit ≤ offset)⟩

/-- Ends the scan. -/
def stop (scanner : Scanner) (cutShort : Bool) : Scanner :=
  { scanner with cutShort, done := true }

/-- The number of bytes up to the limit. -/
def room (scanner : Scanner) : Nat :=
  scanner.limit - scanner.position

/-- Reads the next record off the bytes from the position on, if there is one, and returns it with
its offset. -/
def nextIn (bytes : Bytes) (scanner : Scanner) : Option (Nat × Bytes) × Scanner :=
  match Frame.split? bytes with
  | none => (none, scanner.stop true)
  | some (record, _) =>
    if scanner.room < record.length then (none, scanner.stop true)
    else
      (some (scanner.position, record),
        { scanner with position := scanner.position + record.length })

/-- Reads the next record off the bytes from the position on, if there is one and if they can be
read, and returns it with its offset. -/
def next (bytes : Except FileFault Bytes) (scanner : Scanner) :
    Option (Except FileFault (Nat × Bytes)) × Scanner :=
  if scanner.done then (none, scanner)
  else if scanner.room < Frame.width then (none, scanner.stop (decide (0 < scanner.room)))
  else
    match bytes with
    | .error fault => (some (.error fault), scanner.stop scanner.cutShort)
    | .ok bytes =>
      let (entry, scanner) := scanner.nextIn bytes
      (entry.map .ok, scanner)

/-- An upper bound of the number of entries still to come. -/
def remaining (scanner : Scanner) : Nat :=
  if scanner.done then 0 else scanner.room + 1

@[simp]
theorem remaining_stop (scanner : Scanner) (cutShort : Bool) :
    (scanner.stop cutShort).remaining = 0 := by
  simp [remaining, stop]

theorem remaining_nextIn {bytes : Bytes} {scanner after : Scanner} {entry : Nat × Bytes}
    (hdone : scanner.done = false) (h : scanner.nextIn bytes = (some entry, after)) :
    after.remaining < scanner.remaining := by
  unfold nextIn at h
  split at h
  · cases h
  · next record _ hsplit =>
    have hwidth := Frame.width_le_length_of_split? hsplit
    split at h
    · cases h
    · next hfit =>
      cases h
      simp only [remaining, room, hdone, Bool.false_eq_true, if_false, Frame.width] at hfit hwidth ⊢
      omega

theorem remaining_next {bytes : Except FileFault Bytes} {scanner after : Scanner}
    {entry : Except FileFault (Nat × Bytes)} (h : scanner.next bytes = (some entry, after)) :
    after.remaining < scanner.remaining := by
  unfold next at h
  split at h
  · cases h
  · next hdone =>
    have hdone : scanner.done = false := by simpa using hdone
    split at h
    · cases h
    · split at h
      · cases h
        rw [remaining_stop]
        simp [remaining, hdone]
      · next bytes =>
        dsimp only at h
        cases hentry : (scanner.nextIn bytes).1 with
        | none => rw [hentry] at h; cases h
        | some read =>
          have hread : scanner.nextIn bytes = (some read, (scanner.nextIn bytes).2) :=
            Prod.ext hentry rfl
          rw [hentry] at h
          cases h
          exact remaining_nextIn hdone hread

/-- All entries still to come in the bytes from the position on, and the state in which the scan
ends. -/
def run (bytes : Except FileFault Bytes) (scanner : Scanner) :
    List (Except FileFault (Nat × Bytes)) × Scanner :=
  match _h : scanner.next bytes with
  | (none, last) => ([], last)
  | (some entry, after) =>
    match run (bytes.map (·.drop (after.position - scanner.position))) after with
    | (entries, last) => (entry :: entries, last)
  termination_by scanner.remaining
  decreasing_by exact remaining_next _h

/-- A scan of a node to its end. -/
def runOn (node : Node) (scanner : Scanner) : List (Except FileFault (Nat × Bytes)) × Scanner :=
  scanner.run (node.content?.map (·.drop scanner.position))

end Scanner

end TableStore
