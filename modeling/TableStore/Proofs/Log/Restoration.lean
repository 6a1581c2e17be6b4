import TableStore.Proofs.Log.Faults
import TableStore.Proofs.Log.Passage

/-!
# What the recovery of a log leaves

Whatever is in a file, it has one longest beginning that consists of complete frames, and that can
be told apart into frames in one way only. An inspection counts these frames, and a recovery leaves
them and nothing else, so that a second recovery finds nothing to do. A log that has been opened on
the file therefore ends where the file ends, and a record that is appended to it becomes one more
frame of that beginning.
-/

namespace TableStore.Recovery

variable {disk : Disk} {place : Place} {content : Bytes} {records : List Bytes}

theorem verify_of_file (h : disk.get? place = some (.file content)) :
    verify disk place = .ok (inspect content) := by
  rw [verify, Disk.read, Disk.find_of_get? h]
  rfl

/-- An inspection of nothing but frames finds all of them and no torn bytes. -/
theorem inspect_flatten (h : ∀ record ∈ records, Frame.IsFrame record) :
    inspect records.flatten = ⟨records.length, records.flatten.length, 0⟩ := by
  rw [inspect_eq, Frame.frames_flatten h, Nat.sub_self]

/-- A recovery of nothing but frames leaves the disk as it is. -/
theorem recover_of_flatten (h : ∀ record ∈ records, Frame.IsFrame record)
    (hfile : disk.get? place = some (.file records.flatten)) :
    recover disk place = (.ok ⟨records.length, records.flatten.length, 0⟩, disk) := by
  have hpath := Disk.path_ne_nil_of_file hfile
  rw [recover_of_file hpath hfile, inspect_flatten h, Frame.frames_flatten h,
    Disk.set_self hpath (Disk.get?_eq_some_iff.mp hfile).2]

/-- An inspection finds what a scan to the end of the file finds. -/
theorem runOn_of_inspect (content : Bytes) :
    (Scanner.start 0 content.length).runOn (.file content) =
      ((located List.length 0 (Frame.frames content)).map .ok,
        ⟨(inspect content).validLength, content.length, (inspect content).isTorn, true⟩) := by
  have hall : Scanner.recordsBetween content 0 content.length = Frame.frames content := by
    rw [Scanner.recordsBetween, List.drop_zero, Nat.sub_zero, List.take_length]
  have htorn : decide ((Frame.frames content).flatten.length < content.length) =
      decide (0 < content.length - (Frame.frames content).flatten.length) :=
    decide_eq_decide.mpr (by omega)
  rw [Scanner.runOn_start, hall, Scanner.ended, inspect_eq, isTorn, Nat.zero_add, htorn]

/-- How a log goes on whose file consists of these records. -/
structure GoesOn (log : AppendLog) (disk : Disk) (records : List Bytes) : Prop where
  /-- The log ends where its file ends. -/
  committed : log.committed = records.flatten.length
  /-- A record that is appended becomes one more of the complete ones, and the last of them. -/
  append : ∀ record, Frame.IsFrame record → ∃ after longer,
    log.append disk record = (.ok log.committed, after, longer) ∧
      longer.get? log.place = some (.file (records ++ [record]).flatten) ∧
      after.committed = (records ++ [record]).flatten.length ∧
      Frame.IsLongest (records ++ [record]) (records ++ [record]).flatten

/-- A log that is open on records goes on with them. -/
theorem goesOn_of_isOpenOn {log : AppendLog} (h : log.IsOpenOn records.flatten records)
    (hfile : disk.get? log.place = some (.file records.flatten)) : GoesOn log disk records := by
  refine ⟨h.committed, ?_⟩
  intro record hrecord
  obtain ⟨unsynced, happend⟩ := AppendLog.append_of_file h.working hfile record
  have hframes : ∀ other ∈ records ++ [record], Frame.IsFrame other :=
    List.forall_mem_append.mpr ⟨h.isFrame, List.forall_mem_singleton.mpr hrecord⟩
  refine ⟨_, _, happend, ?_, ?_, ?_⟩
  · rw [List.flatten_concat]
    exact Disk.get?_set_of_file hfile _
  · rw [List.flatten_concat, List.length_append, ← h.committed]
  · rw [Frame.isLongest_iff, Frame.frames_flatten hframes]

/-- What is found in a file, and what is left of it, if these are its complete records. -/
structure Restores (disk : Disk) (place : Place) (content : Bytes) (records : List Bytes)
    (report : Recovery) (restored : Disk) : Prop where
  /-- The records are the longest beginning of the file that consists of frames, and no other frames
  are the same bytes. -/
  longest : Frame.IsLongest records content
  unique : ∀ others : List Bytes, (∀ other ∈ others, Frame.IsFrame other) →
    others.flatten = records.flatten → others = records
  /-- An inspection, which only asks about the disk, finds their number and their length, -/
  verify : Recovery.verify disk place = .ok report
  found : report.records = records.length ∧ report.validLength = records.flatten.length
  /-- and that all other bytes are torn, -/
  total : report.validLength + report.tornBytes = content.length
  /-- as a scan to the end of the file does. -/
  scan : (Scanner.start 0 content.length).runOn (.file content) =
    ((located List.length 0 records).map .ok,
      ⟨report.validLength, content.length, report.isTorn, true⟩)
  /-- A recovery reports the same, and leaves the records in the file and all other files alone. -/
  recover : Recovery.recover disk place = (.ok report, restored)
  file : restored.get? place = some (.file records.flatten)
  elsewhere : ∀ path, path ≠ place.path → restored.node? path = disk.node? path
  /-- A second recovery finds the same records, nothing torn, and nothing to do. -/
  again : Recovery.recover restored place = (.ok ⟨report.records, report.validLength, 0⟩, restored)
  /-- A log that is opened on the file reports and leaves the same, and goes on with the records. -/
  opens : ∀ policy, ∃ log, AppendLog.openAt disk place policy = (.ok (log, report), restored) ∧
    log.place = place ∧ GoesOn log restored records

/-- **A recovery leaves the longest beginning of a file that consists of complete records**,
whatever the file holds. -/
theorem restores_of_file (h : disk.get? place = some (.file content)) :
    ∃ records report restored, Restores disk place content records report restored := by
  have hpath := Disk.path_ne_nil_of_file h
  have hframes : ∀ record ∈ Frame.frames content, Frame.IsFrame record :=
    Frame.isFrame_of_mem_frames
  have hfile := Disk.get?_set_of_file h (.file (Frame.frames content).flatten)
  refine ⟨Frame.frames content, inspect content,
    disk.set place.path (.file (Frame.frames content).flatten), ?_⟩
  constructor
  case longest => exact Frame.isLongest_iff.mpr rfl
  case unique => exact fun others hothers ↦ Frame.eq_of_flatten_eq hothers hframes
  case verify => exact verify_of_file h
  case found =>
    rw [inspect_eq]
    exact ⟨rfl, rfl⟩
  case total =>
    rw [inspect_eq]
    exact Nat.add_sub_cancel' (Frame.length_flatten_frames_le content)
  case scan => exact runOn_of_inspect content
  case recover => exact recover_of_file hpath h
  case file => exact hfile
  case elsewhere =>
    intro path hpathNe
    rw [Disk.node?_set hpath, if_neg (Ne.symm hpathNe)]
  case again =>
    rw [recover_of_flatten hframes hfile, inspect_eq]
  case opens =>
    intro policy
    exact ⟨_, AppendLog.openAt_of_file hpath h policy, rfl,
      goesOn_of_isOpenOn (AppendLog.isOpenOn_frames place policy content) hfile⟩

/-- Two records, the second one with an empty body, and a third one cut off in its body. -/
def raggedContent : Bytes :=
  [Frame.ofBody [7], Frame.ofBody []].flatten ++ [2, 0, 0, 0, 9]

def raggedPlace : Place :=
  ⟨["log"], ⟨[], 0, ["log"]⟩⟩

def raggedDisk : Disk :=
  Disk.empty.set raggedPlace.path (.file raggedContent)

/-- The third record is given up, and the other two stay. -/
theorem restores_of_file_ragged :
    raggedDisk.get? raggedPlace = some (.file raggedContent) ∧
      ∃ records report restored,
        Restores raggedDisk raggedPlace raggedContent records report restored ∧
        records = [Frame.ofBody [7], Frame.ofBody []] ∧ report = ⟨2, 9, 5⟩ := by
  have hfile : raggedDisk.get? raggedPlace = some (.file raggedContent) := by decide +kernel
  have hframes : ∀ record ∈ [Frame.ofBody [7], Frame.ofBody []], Frame.IsFrame record := by
    intro record hrecord
    simp only [List.mem_cons, List.not_mem_nil, or_false] at hrecord
    rcases hrecord with rfl | rfl
    all_goals exact ⟨_, by decide, rfl⟩
  have hcut : Frame.split? [2, 0, 0, 0, 9] = none := by decide
  have hrecords : Frame.frames raggedContent = [Frame.ofBody [7], Frame.ofBody []] := by
    rw [raggedContent, Frame.frames_flatten_append hframes, Frame.frames_of_none hcut,
      List.append_nil]
  obtain ⟨records, report, restored, hrestores⟩ := restores_of_file hfile
  have hlongest : records = [Frame.ofBody [7], Frame.ofBody []] := by
    rw [Frame.isLongest_iff.mp hrestores.longest, hrecords]
  have hreport : inspect raggedContent = report :=
    Except.ok.inj ((verify_of_file hfile).symm.trans hrestores.verify)
  refine ⟨hfile, records, report, restored, hrestores, hlongest, ?_⟩
  rw [← hreport, inspect_eq, hrecords]
  rfl

end TableStore.Recovery
