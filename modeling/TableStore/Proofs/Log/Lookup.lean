import TableStore.Proofs.Disk.Basic
import TableStore.Proofs.Log.Scan

/-!
# Reading at an offset and scanning from there

A read at an offset and a scan that starts there find out on their own whether a record stands
there: the read adds the length it has found to the offset, and the scan subtracts the offset from
its limit. They come to the same answer at every offset, whether a record has been put there, the
offset lies within a record, or the log has ended before. What either of them returns lies within
the committed bytes.
-/

-- Sums start at the zero of the core library, whatever is imported beside it.
attribute [local instance (1100)] Zero.ofOfNat0

namespace TableStore.AppendLog

variable {log : AppendLog} {disk : Disk} {content : Bytes} {offset : Nat}
  {entries : List (Except FileFault (Nat × Bytes))} {last : Scanner}

/-- Whether a record is what the committed bytes of a file hold at an offset. -/
structure IsCommittedAt (log : AppendLog) (content : Bytes) (offset : Nat) (record : Bytes) :
    Prop where
  room : offset + record.length ≤ log.committed
  bytes : (content.drop offset).take record.length = record

/-- A scan from an offset yields the frames at the beginning of the committed bytes there. -/
theorem scan_from_of_file (hfile : disk.get? log.place = some (.file content)) (offset : Nat) :
    ∃ last, log.scan disk offset log.committed =
      .ok ((located List.length offset
        (Frame.frames ((content.take log.committed).drop offset))).map .ok, last) := by
  rw [scan_of_file hfile, Scanner.run_start, Nat.min_self, ← List.drop_take]
  exact ⟨_, rfl⟩

/-- Everything that a scan yields lies within the committed bytes. -/
theorem isCommittedAt_of_mem_scan (hfile : disk.get? log.place = some (.file content))
    (hscan : log.scan disk offset log.committed = .ok (entries, last))
    {entry : Except FileFault (Nat × Bytes)} (hentry : entry ∈ entries) :
    ∃ position record, entry = .ok (position, record) ∧ offset ≤ position ∧
      log.IsCommittedAt content position record := by
  obtain ⟨_, hframes⟩ := scan_from_of_file hfile offset
  rw [hscan] at hframes
  cases hframes
  obtain ⟨⟨position, record⟩, hmem, rfl⟩ := List.mem_map.mp hentry
  refine ⟨position, record, rfl, ?_⟩
  obtain ⟨before, after, hframes, hposition⟩ := mem_located hmem
  obtain ⟨tail, hvisible, _⟩ := Frame.exists_tail ((content.take log.committed).drop offset)
  have hpositive : 0 < record.length :=
    (Frame.isFrame_of_mem_frames record (by rw [hframes]; simp)).length_pos
  rw [hframes, List.flatten_append, List.flatten_cons, List.append_assoc, List.append_assoc]
    at hvisible
  rw [← List.length_flatten] at hposition
  have hlength := congrArg List.length hvisible
  simp only [List.length_drop, List.length_take, List.length_append] at hlength
  have hrest : (content.take log.committed).drop position = record ++ (after.flatten ++ tail) := by
    rw [hposition, ← List.drop_drop, hvisible, List.drop_left]
  refine ⟨by omega, by omega, ?_⟩
  calc
    (content.drop position).take record.length =
        ((content.take log.committed).drop position).take record.length := by
      rw [List.drop_take, List.take_take, Nat.min_eq_left (by omega)]
    _ = record := by rw [hrest, List.take_left]

/-- How a read at an offset and a scan from there that yields these entries agree. -/
structure AgreesAt (log : AppendLog) (disk : Disk) (content : Bytes) (offset : Nat)
    (entries : List (Except FileFault (Nat × Bytes))) : Prop where
  /-- A read finds the record that the scan yields first, -/
  ok_iff : ∀ record,
    log.read disk offset = .ok record ↔ entries.head? = some (.ok (offset, record))
  /-- and reports damage if the scan yields nothing. -/
  corrupt_iff : (∃ fault, log.read disk offset = .error (.corruptRecord fault)) ↔ entries = []
  /-- Neither of them returns anything but committed bytes. -/
  read : ∀ record, log.read disk offset = .ok record → log.IsCommittedAt content offset record
  scan : ∀ entry ∈ entries, ∃ position record, entry = .ok (position, record) ∧
    offset ≤ position ∧ log.IsCommittedAt content position record

/-- Where a scan yields nothing, a read that reports damage agrees with it. -/
theorem agreesAt_nil {fault : RecordFault}
    (hread : log.read disk offset = .error (.corruptRecord fault)) :
    log.AgreesAt disk content offset [] := by
  refine ⟨?_, ⟨fun _ ↦ rfl, fun _ ↦ ⟨fault, hread⟩⟩, ?_, nofun⟩
  · intro record
    rw [hread]
    exact iff_of_false nofun nofun
  · intro record hrecord
    rw [hread] at hrecord
    cases hrecord

/-- **A read and a scan agree at every offset**, whatever the file holds and however much of it is
committed. -/
theorem agreesAt_of_file (hfile : disk.get? log.place = some (.file content))
    (hcommitted : log.committed ≤ content.length) (offset : Nat) :
    ∃ entries last, log.scan disk offset log.committed = .ok (entries, last) ∧
      log.AgreesAt disk content offset entries := by
  obtain ⟨last, hscan⟩ := scan_from_of_file hfile offset
  cases hsplit : Frame.split? ((content.take log.committed).drop offset) with
  | none =>
    obtain ⟨fault, hread⟩ := read_of_split?_eq_none hfile hcommitted hsplit
    rw [Frame.frames_of_none hsplit] at hscan
    exact ⟨[], last, hscan, agreesAt_nil hread⟩
  | some split =>
    obtain ⟨first, rest⟩ := split
    have hread := read_of_split? hfile hcommitted hsplit
    rw [Frame.frames_of_some hsplit] at hscan
    refine ⟨_, last, hscan, ?_, ⟨?_, nofun⟩, ?_, fun _ ↦ isCommittedAt_of_mem_scan hfile hscan⟩
    · intro record
      rw [hread, located, List.map_cons, List.head?_cons, Except.ok.injEq, Option.some.injEq,
        Except.ok.injEq, Prod.mk.injEq, and_iff_right rfl]
    · rintro ⟨fault, hfault⟩
      rw [hread] at hfault
      cases hfault
    · intro record hrecord
      rw [hread] at hrecord
      cases hrecord
      obtain ⟨_, _, heq, _, hwithin⟩ :=
        isCommittedAt_of_mem_scan hfile hscan List.mem_cons_self
      cases heq
      exact hwithin

/-- A record of two bytes, and one of a single byte. -/
def unevenContent : Bytes :=
  Frame.ofBody [5, 6] ++ Frame.ofBody [9]

/-- A log in that file of which the last byte is not committed. -/
def unevenLog : AppendLog :=
  ⟨⟨["log"], ⟨[], 0, ["log"]⟩⟩, .never, 10, 0, false⟩

def unevenDisk : Disk :=
  Disk.empty.set ["log"] (.file unevenContent)

/-- The second record is not seen, although all its bytes are in the file. -/
theorem agreesAt_of_file_uneven :
    unevenDisk.get? unevenLog.place = some (.file unevenContent) ∧
      unevenLog.committed ≤ unevenContent.length ∧
      ∃ entries last, unevenLog.scan unevenDisk 6 unevenLog.committed = .ok (entries, last) ∧
        unevenLog.AgreesAt unevenDisk unevenContent 6 entries ∧ entries = [] := by
  have hfile : unevenDisk.get? unevenLog.place = some (.file unevenContent) := by decide +kernel
  have hcommitted : unevenLog.committed ≤ unevenContent.length := by decide
  have hread : unevenLog.read unevenDisk 6 = .error (.corruptRecord (.runsPastEnd 6 1 10)) := by
    rw [read, Disk.find_of_get? hfile]
    rfl
  obtain ⟨entries, last, hscan, hagrees⟩ := agreesAt_of_file hfile hcommitted 6
  exact ⟨hfile, hcommitted, entries, last, hscan, hagrees, hagrees.corrupt_iff.mp ⟨_, hread⟩⟩

end TableStore.AppendLog
