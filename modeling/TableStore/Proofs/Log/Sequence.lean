import TableStore.Proofs.Log.Faults

/-!
# A log is a sequence of records

As long as nothing goes wrong, a log is the list of the records appended to it, each at the offset
at which those before it end. The writer that hands out this offset, a read at it, a scan from it or
up to it, and a recovery when the log is opened again all agree on where a record starts and ends.
Flushing does not show, and neither does closing the log and opening it again.
-/

namespace TableStore.AppendLog

/-! ## Using a log -/

/-- What can be done with an open log. -/
inductive Call where
  | append (record : Bytes)
  | sync
  /-- Close the log and open it again. -/
  | reopen (policy : SyncPolicy)

namespace Call

/-- The record that a call appends. -/
def record? : Call → Option Bytes
  | .append record => some record
  | .sync | .reopen _ => none

end Call

/-- What a call yields. -/
inductive Reply where
  /-- The offset at which a record has been put. -/
  | offset (offset : Nat)
  | flushed
  /-- What has been found when the log was opened. -/
  | report (report : Recovery)
  deriving DecidableEq

namespace Reply

def offset? : Reply → Option Nat
  | .offset found => some found
  | .flushed | .report _ => none

end Reply

/-- An open log with its disk. -/
structure Journal where
  log : AppendLog
  disk : Disk

namespace Journal

/-- Answers a call. There is no log any more if it cannot be opened again. -/
def step (journal : Journal) : Call → Except Failure Reply × Option Journal
  | .append record =>
    match journal.log.append journal.disk record with
    | (outcome, log, disk) => (outcome.map .offset, some ⟨log, disk⟩)
  | .sync =>
    match journal.log.sync journal.disk with
    | (outcome, log) => (outcome.map fun _ ↦ .flushed, some ⟨log, journal.disk⟩)
  | .reopen policy =>
    match AppendLog.openAt journal.disk journal.log.place policy with
    | (.error e, _) => (.error e, none)
    | (.ok (log, report), disk) => (.ok (.report report), some ⟨log, disk⟩)

/-- Answers calls one after the other. Returns the answers and, unless the log has gone before,
where it has come to. -/
def run (journal : Journal) : List Call → List (Except Failure Reply) × Option Journal
  | [] => ([], some journal)
  | call :: rest =>
    match journal.step call with
    | (answer, none) => ([answer], none)
    | (answer, some after) =>
      match run after rest with
      | (answers, last) => (answer :: answers, last)

theorem run_cons {journal after : Journal} {call : Call} {answer : Except Failure Reply}
    (h : journal.step call = (answer, some after)) (rest : List Call) :
    journal.run (call :: rest) = (answer :: (after.run rest).1, (after.run rest).2) := by
  rw [run, h]

end Journal

/-! ## Lists of records -/

/-- What a call is answered when these records have been appended. -/
def replyTo (records : List Bytes) : Call → Reply
  | .append _ => .offset records.flatten.length
  | .sync => .flushed
  | .reopen _ => .report ⟨records.length, records.flatten.length, 0⟩

/-- What calls are answered, one after the other, when these records have been appended before. -/
def replies (records : List Bytes) : List Call → List Reply
  | [] => []
  | call :: rest => replyTo records call :: replies (records ++ call.record?.toList) rest

/-- The records that calls append. -/
def appendedBy (calls : List Call) : List Bytes :=
  calls.filterMap Call.record?

theorem appendedBy_cons (call : Call) (rest : List Call) :
    appendedBy (call :: rest) = call.record?.toList ++ appendedBy rest := by
  cases hrecord : call.record? with
  | none => simp only [appendedBy, List.filterMap_cons, hrecord, Option.toList_none,
      List.nil_append]
  | some record => simp only [appendedBy, List.filterMap_cons, hrecord, Option.toList_some,
      List.singleton_append]

/-- A reply about an offset is never about one before the end of the records there were. -/
theorem le_of_offset_mem_replies {records : List Bytes} {calls : List Call} {offset : Nat}
    (h : .offset offset ∈ replies records calls) : records.flatten.length ≤ offset := by
  induction calls generalizing records with
  | nil => cases h
  | cons call rest ih =>
    rw [replies] at h
    rcases List.mem_cons.mp h with heq | hrest
    · cases call with
      | append record =>
        cases heq
        exact Nat.le_refl _
      | sync => cases heq
      | reopen policy => cases heq
    · have hle := ih hrest
      rw [List.flatten_append, List.length_append] at hle
      omega

/-- **Offsets strictly increase**, because no record is empty. -/
theorem pairwise_offsets {records : List Bytes} {calls : List Call}
    (hcalls : ∀ record, .append record ∈ calls → Frame.IsFrame record) :
    ((replies records calls).filterMap Reply.offset?).Pairwise (· < ·) := by
  induction calls generalizing records with
  | nil => exact List.Pairwise.nil
  | cons call rest ih =>
    have hrest := @ih (records ++ call.record?.toList)
      fun record hrecord ↦ hcalls record (List.mem_cons_of_mem _ hrecord)
    rw [replies]
    cases call with
    | sync => exact hrest
    | reopen policy => exact hrest
    | append record =>
      have hpositive := (hcalls record List.mem_cons_self).length_pos
      have hlonger : (records ++ [record]).flatten.length =
          records.flatten.length + record.length := by
        rw [List.flatten_append, List.length_append, List.flatten_singleton]
      refine List.pairwise_cons.mpr ⟨?_, hrest⟩
      intro offset hoffset
      obtain ⟨reply, hreply, heq⟩ := List.mem_filterMap.mp hoffset
      cases reply with
      | offset found =>
        cases heq
        have hle := le_of_offset_mem_replies hreply
        rw [Call.record?, Option.toList_some, hlonger] at hle
        omega
      | flushed => cases heq
      | report _ => cases heq

/-! ## The log and its records -/

namespace Journal

variable {journal : Journal} {records : List Bytes}

/-- Whether a log is open on a file that consists of these records. -/
structure Keeps (journal : Journal) (records : List Bytes) : Prop where
  file : journal.disk.get? journal.log.place = some (.file records.flatten)
  isOpen : journal.log.IsOpenOn records.flatten records

/-- What readers of a log find if it is the sequence of these records. -/
structure Finds (journal : Journal) (records : List Bytes) : Prop where
  length : journal.log.committed = records.flatten.length
  /-- A read where a record starts finds the record. -/
  read : ∀ before record after, records = before ++ record :: after →
    journal.log.read journal.disk before.flatten.length = .ok record
  /-- A scan from where a record starts, or from the end, goes through the records from there on. -/
  scanFrom : ∀ before after, records = before ++ after →
    journal.log.scan journal.disk before.flatten.length journal.log.committed =
      .ok ((located List.length before.flatten.length after).map .ok,
        ⟨journal.log.committed, journal.log.committed, false, true⟩)
  /-- A scan up to there goes through the records before. -/
  scanBefore : ∀ before after, records = before ++ after →
    journal.log.scan journal.disk 0 before.flatten.length =
      .ok ((located List.length 0 before).map .ok,
        ⟨before.flatten.length, before.flatten.length, false, true⟩)

/-- A scan between two ends of records goes through the records between them. -/
theorem Keeps.scan (h : journal.Keeps records) {before between after : List Bytes}
    (hrecords : records = before ++ between ++ after) :
    journal.log.scan journal.disk before.flatten.length (before ++ between).flatten.length =
      .ok ((located List.length before.flatten.length between).map .ok,
        ⟨(before ++ between).flatten.length, (before ++ between).flatten.length, false, true⟩) := by
  have hframes : ∀ record ∈ between, Frame.IsFrame record :=
    fun record hrecord ↦ h.isOpen.isFrame record (by simp [hrecords, hrecord])
  have hlimit : min (before ++ between).flatten.length journal.log.committed =
      (before ++ between).flatten.length := by
    have hlength : records.flatten.length =
        (before ++ between).flatten.length + after.flatten.length := by
      rw [hrecords, List.flatten_append, List.length_append]
    rw [h.isOpen.committed]
    omega
  have hend : (before ++ between).flatten.length =
      before.flatten.length + between.flatten.length := by
    rw [List.flatten_append, List.length_append]
  have hvisible : (records.flatten.drop before.flatten.length).take between.flatten.length =
      between.flatten := by
    rw [hrecords, List.append_assoc, List.flatten_append, List.drop_left, List.flatten_append,
      List.take_left]
  rw [AppendLog.scan_of_file h.file, hlimit, Scanner.run_start, hend, Nat.add_sub_cancel_left,
    hvisible, Frame.frames_flatten hframes, decide_eq_false (Nat.lt_irrefl _)]

theorem Keeps.finds (h : journal.Keeps records) : journal.Finds records where
  length := h.isOpen.committed
  read := by
    rintro before record after rfl
    have hrecord : Frame.IsFrame record := h.isOpen.isFrame record (by simp)
    have hlength : journal.log.committed ≤ (before ++ record :: after).flatten.length :=
      Nat.le_of_eq h.isOpen.committed
    apply AppendLog.read_of_split? h.file hlength
    rw [h.isOpen.committed, List.take_length, List.flatten_append, List.drop_left,
      List.flatten_cons]
    exact Frame.split?_frame_append hrecord _
  scanFrom := by
    rintro before after rfl
    have hrecords : before ++ after = before ++ after ++ [] := (List.append_nil _).symm
    have hscan := h.scan hrecords
    rwa [← h.isOpen.committed] at hscan
  scanBefore := by
    rintro before after rfl
    have hrecords : before ++ after = [] ++ before ++ after := rfl
    exact h.scan hrecords

/-- **A call is answered as the records say**, and the log goes on with the record it appends. -/
theorem Keeps.step (h : journal.Keeps records) (call : Call)
    (hcall : ∀ record, call = .append record → Frame.IsFrame record) :
    ∃ after, journal.step call = (.ok (replyTo records call), some after) ∧
      after.Keeps (records ++ call.record?.toList) := by
  have hpath := Disk.path_ne_nil_of_file h.file
  have hsame := List.append_nil records
  cases call with
  | append record =>
    obtain ⟨unsynced, happend⟩ := AppendLog.append_of_file h.isOpen.working h.file record
    have hstep : journal.step (.append record) = (.ok (.offset journal.log.committed),
        some ⟨{ journal.log with committed := journal.log.committed + record.length, unsynced },
          journal.disk.set journal.log.place.path (.file (records.flatten ++ record))⟩) := by
      rw [Journal.step, happend]
      rfl
    rw [h.isOpen.committed] at hstep
    refine ⟨_, hstep, ?_, h.isOpen.working, ?_, rfl, ?_⟩
    · rw [Call.record?, Option.toList_some, List.flatten_concat]
      exact Disk.get?_set_of_file h.file _
    · rw [Call.record?, Option.toList_some, List.flatten_concat, List.length_append]
    · exact List.forall_mem_append.mpr
        ⟨h.isOpen.isFrame, List.forall_mem_singleton.mpr (hcall record rfl)⟩
  | sync =>
    have hstep : journal.step .sync =
        (.ok .flushed, some ⟨{ journal.log with unsynced := 0 }, journal.disk⟩) := by
      rw [Journal.step, AppendLog.sync_of_file h.file]
      rfl
    refine ⟨_, hstep, ?_⟩
    rw [Call.record?, Option.toList_none, hsame]
    exact ⟨h.file, h.isOpen.working, h.isOpen.committed, rfl, h.isOpen.isFrame⟩
  | reopen policy =>
    -- The file consists of records, so that opening it finds all of them and cuts nothing off.
    have hopen := AppendLog.openAt_of_file hpath h.file policy
    rw [Recovery.inspect_eq, Frame.frames_flatten h.isOpen.isFrame, Nat.sub_self,
      Disk.set_self hpath (Disk.get?_eq_some_iff.mp h.file).2] at hopen
    have hstep : journal.step (.reopen policy) =
        (.ok (.report ⟨records.length, records.flatten.length, 0⟩),
          some ⟨⟨journal.log.place, policy, records.flatten.length, 0, false⟩, journal.disk⟩) := by
      rw [Journal.step, hopen]
    refine ⟨_, hstep, ?_⟩
    rw [Call.record?, Option.toList_none, hsame]
    exact ⟨h.file, rfl, rfl, rfl, h.isOpen.isFrame⟩

/-- **Calls are answered as the records say**, however many there are. -/
theorem Keeps.run (h : journal.Keeps records) {calls : List Call}
    (hcalls : ∀ record, .append record ∈ calls → Frame.IsFrame record) :
    ∃ last, journal.run calls = ((replies records calls).map .ok, some last) ∧
      last.Keeps (records ++ appendedBy calls) := by
  induction calls generalizing journal records with
  | nil => exact ⟨journal, rfl, by simpa [appendedBy] using h⟩
  | cons call rest ih =>
    obtain ⟨after, hstep, hafter⟩ := h.step call
      fun record heq ↦ hcalls record (heq ▸ List.mem_cons_self)
    obtain ⟨last, hrun, hlast⟩ := ih hafter
      fun record hrecord ↦ hcalls record (List.mem_cons_of_mem _ hrecord)
    refine ⟨last, ?_, ?_⟩
    · rw [run_cons hstep, hrun]
      rfl
    · rw [appendedBy_cons, ← List.append_assoc]
      exact hlast

/-- A log that opens where there was a file, or nothing, is open on the complete records of it. -/
theorem keeps_of_openAt {disk opened : Disk} {place : Place} {policy : SyncPolicy}
    {log : AppendLog} {report : Recovery} {content : Bytes}
    (hplace : disk.get? place = some (.file content) ∨ disk.get? place = none ∧ content = [])
    (h : AppendLog.openAt disk place policy = (.ok (log, report), opened)) :
    Keeps ⟨log, opened⟩ (Frame.frames content) := by
  rcases hplace with hfile | ⟨hnone, rfl⟩
  · rw [AppendLog.openAt_of_file (Disk.path_ne_nil_of_file hfile) hfile] at h
    cases h
    exact ⟨Disk.get?_set_of_file hfile _, isOpenOn_frames place policy content⟩
  · obtain ⟨_, rfl, rfl, hfile⟩ := AppendLog.of_openAt_eq_ok hnone h
    rw [Frame.frames_nil]
    exact ⟨hfile, rfl, rfl, rfl, by simp⟩

/-- **A log is the sequence of the records appended to it.** Let it be opened on a file, or where
there is nothing, and framed records be appended, with flushes and reopenings in between. Every call
succeeds; an append is answered with the length of all records before it, a reopening with their
number and length and nothing cut off; and at the end, which can be any time, readers find the
records. -/
theorem isSequence_of_openAt {disk opened : Disk} {place : Place} {policy : SyncPolicy}
    {log : AppendLog} {report : Recovery} {content : Bytes}
    (hplace : disk.get? place = some (.file content) ∨ disk.get? place = none ∧ content = [])
    (h : AppendLog.openAt disk place policy = (.ok (log, report), opened)) {calls : List Call}
    (hcalls : ∀ record, .append record ∈ calls → Frame.IsFrame record) :
    ((replies (Frame.frames content) calls).filterMap Reply.offset?).Pairwise (· < ·) ∧
      ∃ last, run ⟨log, opened⟩ calls =
          ((replies (Frame.frames content) calls).map .ok, some last) ∧
        last.Finds (Frame.frames content ++ appendedBy calls) := by
  obtain ⟨last, hrun, hlast⟩ := (keeps_of_openAt hplace h).run hcalls
  exact ⟨pairwise_offsets hcalls, last, hrun, hlast.finds⟩

/-- Appends of an empty body and of a longer one on both sides of a flush, a reopening with another
policy, and one more append. -/
def mixedCalls : List Call :=
  [.append (Frame.ofBody []), .append (Frame.ofBody [7, 8]), .sync, .append (Frame.ofBody []),
    .reopen (.every 2), .append (Frame.ofBody [9])]

/-- The sequence that starts where there is no file. -/
theorem isSequence_of_openAt_mixed :
    Disk.empty.get? ⟨["log"], ⟨[], 0, ["log"]⟩⟩ = none ∧
      ∃ log report opened, AppendLog.openAt Disk.empty ⟨["log"], ⟨[], 0, ["log"]⟩⟩ .everyRecord =
          (.ok (log, report), opened) ∧
        (∀ record, .append record ∈ mixedCalls → Frame.IsFrame record) ∧
        ∃ last, run ⟨log, opened⟩ mixedCalls =
            ([.ok (.offset 0), .ok (.offset 4), .ok .flushed, .ok (.offset 10),
              .ok (.report ⟨3, 14, 0⟩), .ok (.offset 14)], some last) ∧
          last.Finds
            [Frame.ofBody [], Frame.ofBody [7, 8], Frame.ofBody [], Frame.ofBody [9]] := by
  have hnone : Disk.empty.get? ⟨["log"], ⟨[], 0, ["log"]⟩⟩ = none := by rfl
  have hfits : Disk.empty.entryFault? ⟨["log"], ⟨[], 0, ["log"]⟩⟩ = none := by rfl
  have hopen := AppendLog.openAt_of_none (List.cons_ne_nil _ _) hnone hfits .everyRecord
  have hframes : ∀ record, .append record ∈ mixedCalls → Frame.IsFrame record := by
    intro record hrecord
    simp only [mixedCalls, List.mem_cons, List.not_mem_nil, Call.append.injEq, reduceCtorEq,
      or_false, false_or] at hrecord
    rcases hrecord with rfl | rfl | rfl | rfl
    all_goals exact ⟨_, by decide, rfl⟩
  obtain ⟨_, last, hrun, hfinds⟩ := isSequence_of_openAt (.inr ⟨hnone, rfl⟩) hopen hframes
  rw [Frame.frames_nil] at hrun hfinds
  exact ⟨hnone, _, _, _, hopen, hframes, last, hrun, hfinds⟩

end Journal

end TableStore.AppendLog
