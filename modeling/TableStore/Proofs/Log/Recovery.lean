import TableStore.Proofs.Disk.Basic
import TableStore.Proofs.Log.Scan

/-!
# Opening a log and appending to it

A log whose file can be read opens, whatever its bytes are: the frames at the beginning of the file
stay and what follows them is cut off. An append to an open log puts the record behind what is
committed, and then it is committed.
-/

namespace TableStore

variable {disk opened : Disk} {place : Place} {content : Bytes}

namespace Recovery

/-- An inspection finds the frames at the beginning of the file. -/
theorem inspect_eq (content : Bytes) :
    inspect content =
      ⟨(Frame.frames content).length, (Frame.frames content).flatten.length,
        content.length - (Frame.frames content).flatten.length⟩ := by
  rw [inspect, Frame.tally_eq]

theorem resize_frames (content : Bytes) :
    content.resize (Frame.frames content).flatten.length = (Frame.frames content).flatten := by
  have hfits : (Frame.frames content).flatten.length - content.length = 0 :=
    Nat.sub_eq_zero_of_le (Frame.length_flatten_frames_le content)
  calc
    content.resize (Frame.frames content).flatten.length =
        content.take (Frame.frames content).flatten.length ++ List.replicate 0 0 := by
      rw [Bytes.resize, hfits]
    _ = (Frame.frames content).flatten := by
      rw [Frame.take_length_flatten_frames, List.replicate_zero, List.append_nil]

/-- **A recovery leaves the complete frames, and nothing else.** -/
theorem recover_of_file (hpath : place.path ≠ []) (h : disk.get? place = some (.file content)) :
    recover disk place =
      (.ok (inspect content), disk.set place.path (.file (Frame.frames content).flatten)) := by
  have hread : disk.read place = .ok content := by
    rw [Disk.read, Disk.find_of_get? h]
    rfl
  rw [recover, verify, hread]
  dsimp only
  by_cases htorn : (inspect content).isTorn = true
  · rw [if_pos htorn, Disk.modifyFile_of_file h, inspect_eq, resize_frames]
  · have hlength : content.length ≤ (Frame.frames content).flatten.length := by
      rw [isTorn, inspect_eq, decide_eq_true_eq] at htorn
      exact Nat.le_of_sub_eq_zero (Nat.eq_zero_of_not_pos htorn)
    have hwhole : (Frame.frames content).flatten = content := by
      calc
        (Frame.frames content).flatten = content.take (Frame.frames content).flatten.length :=
          (Frame.take_length_flatten_frames content).symm
        _ = content := List.take_of_length_le hlength
    rw [if_neg htorn, hwhole, Disk.set_self hpath (Disk.get?_eq_some_iff.mp h).2]

end Recovery

namespace AppendLog

/-- A log opens on any file. -/
theorem openAt_of_file (hpath : place.path ≠ []) (h : disk.get? place = some (.file content))
    (policy : SyncPolicy) :
    openAt disk place policy =
      (.ok (⟨place, policy, (Frame.frames content).flatten.length, 0, false⟩,
          Recovery.inspect content),
        disk.set place.path (.file (Frame.frames content).flatten)) := by
  rw [openAt, Disk.ensureFile_of_file h]
  dsimp only
  rw [Recovery.recover_of_file hpath h, Recovery.inspect_eq]

/-- Where there is nothing, an empty log opens if its file can be made. -/
theorem openAt_of_none (hpath : place.path ≠ []) (hnone : disk.get? place = none)
    (hfits : disk.entryFault? place = none) (policy : SyncPolicy) :
    openAt disk place policy =
      (.ok (⟨place, policy, 0, 0, false⟩, Recovery.inspect []),
        disk.set place.path (.file [])) := by
  have hmade := Disk.get?_set_self hpath (Disk.of_entryFault?_eq_none hfits).1 disk (.file [])
  rw [openAt, Disk.ensureFile_of_none hnone, hfits]
  dsimp only
  rw [Recovery.recover_of_file hpath hmade, Frame.frames_nil, List.flatten_nil, Disk.set_set,
    Recovery.inspect_eq, Frame.frames_nil]
  rfl

/-- A log that opens where there was nothing is empty, and stands in a directory. -/
theorem of_openAt_eq_ok {policy : SyncPolicy} {log : AppendLog} {report : Recovery}
    (hnone : disk.get? place = none)
    (h : openAt disk place policy = (.ok (log, report), opened)) :
    disk.node? place.path.dropLast = some .directory ∧ log = ⟨place, policy, 0, 0, false⟩ ∧
      opened = disk.set place.path (.file []) ∧ opened.get? place = some (.file []) := by
  cases hfault : disk.entryFault? place with
  | some fault =>
    rw [openAt, Disk.ensureFile_of_none hnone, hfault] at h
    cases h
  | none =>
    obtain ⟨hfits, hparent⟩ := Disk.of_entryFault?_eq_none hfault
    have hpath := Disk.path_ne_nil_of_none hnone hfits
    rw [openAt_of_none hpath hnone hfault] at h
    cases h
    exact ⟨hparent, rfl, rfl, Disk.get?_set_self hpath hfits disk _⟩

/-- **An append puts the record where the committed records end.** -/
theorem append_of_file {log : AppendLog} (hworking : log.failed = false)
    (h : disk.get? log.place = some (.file content)) (record : Bytes) :
    ∃ unsynced, log.append disk record =
      (.ok log.committed, { log with committed := log.committed + record.length, unsynced },
        disk.set log.place.path (.file (content ++ record))) := by
  by_cases hdue : log.policy.isDue (log.unsynced + 1) = true
  · refine ⟨0, ?_⟩
    simp only [append, h, appendTo, hworking, Bool.false_eq_true, if_false, write, Faults.none,
      afterWrite, hdue, if_true]
  · refine ⟨log.unsynced + 1, ?_⟩
    simp only [append, h, appendTo, hworking, Bool.false_eq_true, if_false, write, Faults.none,
      afterWrite, hdue]

theorem sync_of_file {log : AppendLog} (h : disk.get? log.place = some (.file content)) :
    log.sync disk = (.ok (), { log with unsynced := 0 }) := by
  rw [sync, h]
  rfl

end AppendLog

end TableStore
