import TableStore.Proofs.Log.Recovery

/-!
# Appending when things go wrong

A write can fail after any beginning of the record has been stored, a flush can fail when all of it
is there, and then it can turn out that the file cannot be cut back. The committed records are not
touched by any of this. As long as the file can be cut back it consists of them; once it cannot, the
log takes no more records, and behind the committed ones stands a beginning of the one record that
could not be taken back. So that record is the only one that a recovery may find in addition.
-/

namespace TableStore.AppendLog

/-! ## Appends one after the other -/

/-- An append that has been tried: its record, what went wrong, and the answer. -/
structure Attempt where
  record : Bytes
  faults : Faults
  answer : Except Failure Nat

namespace Attempt

/-- Whether the record has been appended. -/
def isDone (attempt : Attempt) : Bool :=
  attempt.answer.isOk

/-- Whether the append has failed and the file could not be cut back. -/
def isStranded (attempt : Attempt) : Bool :=
  !attempt.isDone && attempt.faults.cut

end Attempt

/-- Appends records one after the other, in each case with what goes wrong, to a file with the given
content. -/
def appendAll (log : AppendLog) (content : Bytes) :
    List (Bytes × Faults) → List Attempt × AppendLog × Bytes
  | [] => ([], log, content)
  | (record, faults) :: rest =>
    match log.appendTo content faults record with
    | (answer, log, content) =>
      match appendAll log content rest with
      | (attempts, last) => (⟨record, faults, answer⟩ :: attempts, last)

/-- Each of the appends is tried, in order. -/
theorem map_appendAll (log : AppendLog) (content : Bytes) (tries : List (Bytes × Faults)) :
    (log.appendAll content tries).1.map (fun attempt ↦ (attempt.record, attempt.faults)) =
      tries := by
  induction tries generalizing log content with
  | nil => rfl
  | cons entry rest ih =>
    rw [appendAll]
    dsimp only
    rw [List.map_cons, ih]

/-- The records that have been appended. -/
def appended (attempts : List Attempt) : List Bytes :=
  (attempts.filter (·.isDone)).map (·.record)

/-- The record of the first append after which the file could not be cut back. -/
def stranded? (attempts : List Attempt) : Option Bytes :=
  (attempts.find? (·.isStranded)).map (·.record)

theorem appended_cons (attempt : Attempt) (rest : List Attempt) :
    appended (attempt :: rest) = appended [attempt] ++ appended rest := by
  rw [appended, ← List.singleton_append, List.filter_append, List.map_append]
  rfl

theorem stranded?_cons (attempt : Attempt) (rest : List Attempt) :
    stranded? (attempt :: rest) = (stranded? [attempt]).or (stranded? rest) := by
  rw [stranded?, ← List.singleton_append, List.find?_append, Option.map_or]
  rfl

/-! ## What an append does -/

/-- A write stores a beginning of the record, and all of it if nothing goes wrong. -/
theorem write_cases (log : AppendLog) (content : Bytes) (faults : Faults) (record : Bytes) :
    ∃ unsynced, log.write content faults record =
        (true, { log with unsynced }, content ++ record) ∨
      ∃ stored, log.write content faults record =
        (false, { log with unsynced }, content ++ record.take stored) := by
  cases hwrite : faults.write with
  | some stored => exact ⟨log.unsynced, .inr ⟨stored, by rw [write, hwrite]⟩⟩
  | none =>
    by_cases hdue : log.policy.isDue (log.unsynced + 1) = true
    · by_cases hsync : faults.sync = true
      · refine ⟨log.unsynced + 1, .inr ⟨record.length, ?_⟩⟩
        simp only [write, hwrite, afterWrite, hdue, hsync, if_true, List.take_length]
      · refine ⟨0, .inl ?_⟩
        simp only [write, hwrite, afterWrite, hdue, hsync, Bool.false_eq_true, if_true, if_false]
    · refine ⟨log.unsynced + 1, .inl ?_⟩
      simp only [write, hwrite, afterWrite, hdue, Bool.false_eq_true, if_false]

/-- A log that has been given up takes no record. -/
theorem appendTo_of_failed {log : AppendLog} (h : log.failed = true) (content : Bytes)
    (faults : Faults) (record : Bytes) :
    log.appendTo content faults record =
      (.error (.logDisabled log.place.path.text), log, content) := by
  rw [appendTo, if_pos h]

/-- The outcomes of an append to a log that takes records: the record is behind the others, or it
is taken back, or a beginning of it stays and the log is given up. -/
theorem appendTo_cases {log : AppendLog} (h : log.failed = false) (content : Bytes)
    (faults : Faults) (record : Bytes) :
    ∃ unsynced,
      log.appendTo content faults record =
        (.ok log.committed, { log with committed := log.committed + record.length, unsynced },
          content ++ record) ∨
      ∃ stored,
        faults.cut = true ∧ log.appendTo content faults record =
          (.error (.file .deviceFull), { log with unsynced, failed := true },
            content ++ record.take stored) ∨
        faults.cut = false ∧ log.appendTo content faults record =
          (.error (.file .deviceFull), { log with unsynced },
            (content ++ record.take stored).resize log.committed) := by
  have hworking : ¬ log.failed = true := by rw [h]; exact Bool.false_ne_true
  obtain ⟨unsynced, hwrite | ⟨stored, hwrite⟩⟩ := write_cases log content faults record
  · exact ⟨unsynced, .inl (by rw [appendTo, if_neg hworking, hwrite])⟩
  · refine ⟨unsynced, .inr ⟨stored, ?_⟩⟩
    cases hcut : faults.cut with
    | true =>
      left
      rw [appendTo, if_neg hworking, hwrite]
      exact ⟨rfl, by simp only [hcut, if_true]⟩
    | false =>
      right
      rw [appendTo, if_neg hworking, hwrite]
      exact ⟨rfl, by simp only [hcut, Bool.false_eq_true, if_false]⟩

/-- The committed length grows by the record if it has been appended, and else stays. -/
theorem committed_appendTo (log : AppendLog) (content : Bytes) (faults : Faults) (record : Bytes) :
    (log.appendTo content faults record).2.1.committed =
      log.committed +
        if (log.appendTo content faults record).1.isOk then record.length else 0 := by
  cases hfailed : log.failed with
  | true =>
    rw [appendTo_of_failed hfailed]
    rfl
  | false =>
    obtain ⟨_, happend | ⟨_, ⟨_, happend⟩ | ⟨_, happend⟩⟩⟩ :=
      appendTo_cases hfailed content faults record
    · rw [happend]
      rfl
    · rw [happend]
      rfl
    · rw [happend]
      rfl

/-- An append in which nothing goes wrong succeeds, unless the log has been given up. -/
theorem appendTo_of_faultless {log : AppendLog} (h : log.failed = false) (content : Bytes)
    {faults : Faults} (hwrite : faults.write = none) (hsync : faults.sync = false)
    (record : Bytes) : (log.appendTo content faults record).1 = .ok log.committed := by
  by_cases hdue : log.policy.isDue (log.unsynced + 1) = true
  · simp only [appendTo, h, Bool.false_eq_true, if_false, write, hwrite, hsync, afterWrite, hdue,
      if_true]
  · simp only [appendTo, h, Bool.false_eq_true, if_false, write, hwrite, afterWrite, hdue]

/-! ## What is in the file -/

/-- Whether a log takes records and its file consists of the given ones. -/
structure IsOpenOn (log : AppendLog) (content : Bytes) (records : List Bytes) : Prop where
  working : log.failed = false
  committed : log.committed = records.flatten.length
  content : content = records.flatten
  isFrame : ∀ record ∈ records, Frame.IsFrame record

/-- Whether a log has been given up with a beginning of a record behind the given ones. -/
structure IsStuckOn (log : AppendLog) (content : Bytes) (records : List Bytes) (record : Bytes) :
    Prop where
  failed : log.failed = true
  committed : log.committed = records.flatten.length
  content : ∃ stored, content = records.flatten ++ record.take stored
  isFrame : ∀ record ∈ records, Frame.IsFrame record
  stranded : Frame.IsFrame record

/-- Whether the committed records of a log are the given ones, and it is stuck on the one that could
not be taken back, if there is one. -/
def Keeps (log : AppendLog) (content : Bytes) (records : List Bytes) : Option Bytes → Prop
  | none => log.IsOpenOn content records
  | some record => log.IsStuckOn content records record

variable {log : AppendLog} {content record : Bytes} {records : List Bytes} {stranded : Option Bytes}

/-- What has been stored of a record is gone when the file is cut back. -/
theorem resize_append (committed stored : Bytes) :
    (committed ++ stored).resize committed.length = committed := by
  have hfits : committed.length - (committed ++ stored).length = 0 := by
    rw [List.length_append]
    omega
  rw [Bytes.resize, hfits, List.replicate_zero, List.append_nil, List.take_left]

/-- **One append keeps what is committed**, whatever goes wrong. -/
theorem IsOpenOn.appendTo (h : log.IsOpenOn content records) (hrecord : Frame.IsFrame record)
    (faults : Faults) :
    ∃ answer after written, log.appendTo content faults record = (answer, after, written) ∧
      after.Keeps written (records ++ appended [⟨record, faults, answer⟩])
        (stranded? [⟨record, faults, answer⟩]) := by
  obtain ⟨unsynced, happend | ⟨stored, ⟨hcut, happend⟩ | ⟨hcut, happend⟩⟩⟩ :=
    appendTo_cases h.working content faults record
  · have hlonger : (records ++ [record]).flatten = content ++ record := by
      rw [List.flatten_concat, h.content]
    refine ⟨_, _, _, happend, h.working, ?_, hlonger.symm, ?_⟩
    · change log.committed + record.length = (records ++ [record]).flatten.length
      rw [hlonger, List.length_append, h.committed, h.content]
    · exact List.forall_mem_append.mpr ⟨h.isFrame, List.forall_mem_singleton.mpr hrecord⟩
  · have hstranded : stranded? [⟨record, faults, .error (.file .deviceFull)⟩] = some record := by
      simp [stranded?, Attempt.isStranded, Attempt.isDone, Except.isOk, Except.toBool, hcut]
    refine ⟨_, _, _, happend, ?_⟩
    rw [hstranded]
    have hrecords : records ++ appended [⟨record, faults, .error (.file .deviceFull)⟩] = records :=
      List.append_nil records
    rw [hrecords]
    exact ⟨rfl, h.committed, ⟨stored, by rw [h.content]⟩, h.isFrame, hrecord⟩
  · have hstranded : stranded? [⟨record, faults, .error (.file .deviceFull)⟩] = none := by
      simp [stranded?, Attempt.isStranded, hcut]
    refine ⟨_, _, _, happend, ?_⟩
    rw [hstranded]
    have hrecords : records ++ appended [⟨record, faults, .error (.file .deviceFull)⟩] = records :=
      List.append_nil records
    rw [hrecords]
    refine ⟨h.working, h.committed, ?_, h.isFrame⟩
    rw [h.content, h.committed, resize_append]

theorem Keeps.appendTo (h : log.Keeps content records stranded) (hrecord : Frame.IsFrame record)
    (faults : Faults) :
    ∃ answer after written, log.appendTo content faults record = (answer, after, written) ∧
      after.Keeps written (records ++ appended [⟨record, faults, answer⟩])
        (stranded.or (stranded? [⟨record, faults, answer⟩])) := by
  cases stranded with
  | none => exact IsOpenOn.appendTo h hrecord faults
  | some first =>
    refine ⟨_, _, _, appendTo_of_failed h.failed content faults record, ?_⟩
    have hrecords : records ++ appended [⟨record, faults, .error (.logDisabled
        log.place.path.text)⟩] = records := List.append_nil records
    rw [Option.some_or, hrecords]
    exact h

/-- **Appends keep what is committed**, whatever goes wrong in each of them. -/
theorem Keeps.appendAll (h : log.Keeps content records stranded) (tries : List (Bytes × Faults))
    (htries : ∀ entry ∈ tries, Frame.IsFrame entry.1) :
    ∃ attempts after written, log.appendAll content tries = (attempts, after, written) ∧
      after.Keeps written (records ++ appended attempts) (stranded.or (stranded? attempts)) := by
  induction tries generalizing log content records stranded with
  | nil =>
    have happended : appended [] = [] := rfl
    have hstranded : stranded? [] = none := rfl
    refine ⟨[], log, content, rfl, ?_⟩
    rw [happended, hstranded, List.append_nil, Option.or_none]
    exact h
  | cons entry rest ih =>
    obtain ⟨record, faults⟩ := entry
    obtain ⟨answer, after, written, happend, hkeeps⟩ :=
      h.appendTo (htries (record, faults) (by simp)) faults
    obtain ⟨attempts, last, final, hrest, hlast⟩ :=
      ih hkeeps fun other hother ↦ htries other (by simp [hother])
    refine ⟨⟨record, faults, answer⟩ :: attempts, last, final, ?_, ?_⟩
    · rw [AppendLog.appendAll, happend]
      dsimp only
      rw [hrest]
    · rw [appended_cons, stranded?_cons, ← List.append_assoc, ← Option.or_assoc]
      exact hlast

/-! ## What readers see -/

/-- A read does not see what stands behind the committed bytes. -/
theorem readIn_take (log : AppendLog) (content : Bytes) (offset : Nat) :
    log.readIn (.ok (.file content)) offset =
      log.readIn (.ok (.file (content.take log.committed))) offset := by
  have hseen : ∀ start length, start + length ≤ log.committed →
      (content.drop start).take length = ((content.take log.committed).drop start).take length := by
    intro start length hroom
    rw [List.drop_take, List.take_take, Nat.min_eq_left (by omega)]
  have hwidth : Frame.width = 4 := rfl
  by_cases hstart : log.committed < offset + Frame.width
  · simp only [readIn, hstart, if_true]
  · have hlead := hseen offset Frame.width (Nat.not_lt.mp hstart)
    simp only [readIn, hstart, if_false, Except.bind, Node.content?]
    rw [hlead]
    split
    · rfl
    · split
      · rfl
      · next hend => rw [hseen _ _ (Nat.not_lt.mp hend)]

/-- What readers find in a log whose committed bytes are records. -/
structure Shows (log : AppendLog) (content : Bytes) (records : List Bytes) : Prop where
  /-- A scan from the beginning goes through the records. -/
  scan : (log.scanner 0 log.committed).runOn (.file content) =
    ((located List.length 0 records).map .ok, ⟨log.committed, log.committed, false, true⟩)
  /-- A read where a record starts finds the record. -/
  read : ∀ before record after, records = before ++ record :: after →
    log.readIn (.ok (.file content)) before.flatten.length = .ok record
  /-- A read anywhere sees nothing but the records. -/
  nothingElse : ∀ offset, log.readIn (.ok (.file content)) offset =
    log.readIn (.ok (.file records.flatten)) offset

theorem shows_of_take (hcommitted : log.committed = records.flatten.length)
    (hcontent : content.take log.committed = records.flatten)
    (hframes : ∀ record ∈ records, Frame.IsFrame record) : log.Shows content records where
  scan := by
    have hrun := Scanner.run_start 0 log.committed content
    rw [Nat.sub_zero, hcontent, Frame.frames_flatten hframes, ← hcommitted, Nat.zero_add,
      decide_eq_false (Nat.lt_irrefl _)] at hrun
    rw [scanner, Nat.min_self, Scanner.runOn]
    exact hrun
  read := by
    rintro before record after rfl
    have hlength : log.committed ≤ content.length := by
      rw [hcommitted, ← hcontent, List.length_take]
      exact Nat.min_le_right _ _
    have hsplit : Frame.split? ((content.take log.committed).drop before.flatten.length) =
        some (record, after.flatten) := by
      rw [hcontent, List.flatten_append, List.drop_left, List.flatten_cons]
      exact Frame.split?_frame_append (hframes record (by simp)) _
    exact readIn_of_split? hlength hsplit
  nothingElse := by
    intro offset
    rw [readIn_take, hcontent]

/-! ## What a recovery finds -/

theorem Keeps.committed (h : log.Keeps content records stranded) :
    log.committed = records.flatten.length := by
  cases stranded with
  | none => exact IsOpenOn.committed h
  | some record => exact IsStuckOn.committed h

theorem Keeps.isFrame (h : log.Keeps content records stranded) :
    ∀ record ∈ records, Frame.IsFrame record := by
  cases stranded with
  | none => exact IsOpenOn.isFrame h
  | some record => exact IsStuckOn.isFrame h

theorem Keeps.take_committed (h : log.Keeps content records stranded) :
    content.take log.committed = records.flatten := by
  cases stranded with
  | none => rw [IsOpenOn.content h, IsOpenOn.committed h, List.take_length]
  | some record =>
    obtain ⟨stored, hcontent⟩ := IsStuckOn.content h
    rw [hcontent, IsStuckOn.committed h, List.take_left]

/-- **The file holds the committed records, and at most the stranded one besides.** -/
theorem Keeps.frames (h : log.Keeps content records stranded) :
    Frame.frames content = records ∨
      ∃ record, stranded = some record ∧ Frame.frames content = records ++ [record] := by
  cases stranded with
  | none =>
    left
    rw [IsOpenOn.content h, Frame.frames_flatten h.isFrame]
  | some record =>
    obtain ⟨stored, hcontent⟩ := IsStuckOn.content h
    rw [hcontent, Frame.frames_flatten_append h.isFrame]
    by_cases hwhole : record.length ≤ stored
    · right
      have hframe : Frame.frames record = [record] := by
        have hone := Frame.split?_frame_append (IsStuckOn.stranded h) []
        rw [List.append_nil] at hone
        rw [Frame.frames_of_some hone, Frame.frames_nil]
      rw [List.take_of_length_le hwhole, hframe]
      exact ⟨record, rfl, rfl⟩
    · left
      rw [Frame.frames_of_none
        (Frame.split?_take_frame (IsStuckOn.stranded h) (Nat.not_le.mp hwhole)), List.append_nil]

/-- A log opened on a file takes records again, and the file consists of its frames. -/
theorem isOpenOn_frames (place : Place) (policy : SyncPolicy) (content : Bytes) :
    IsOpenOn ⟨place, policy, (Frame.frames content).flatten.length, 0, false⟩
      (Frame.frames content).flatten (Frame.frames content) :=
  ⟨rfl, rfl, rfl, Frame.isFrame_of_mem_frames⟩

/-! ## Any run of appends -/

/-- How a log stands that was opened on the given records, after the attempts to append more. -/
structure Withstands (initial : List Bytes) (attempts : List Attempt) (log : AppendLog)
    (content : Bytes) : Prop where
  /-- The length grows by the record of an append that succeeds, and only then. -/
  grows : ∀ faults record, (log.appendTo content faults record).2.1.committed =
    log.committed + if (log.appendTo content faults record).1.isOk then record.length else 0
  /-- The committed bytes are the records. -/
  committed : content.take log.committed = (initial ++ appended attempts).flatten ∧
    log.committed = (initial ++ appended attempts).flatten.length
  /-- Readers see the records. -/
  shows : log.Shows content (initial ++ appended attempts)
  /-- As long as the file could be cut back, nothing else is in it, and an append in which nothing
  goes wrong succeeds. -/
  working : stranded? attempts = none →
    content.length = log.committed ∧ ∀ faults record, faults.write = none → faults.sync = false →
      (log.appendTo content faults record).1 = .ok log.committed
  /-- Once it could not, appends are refused and write nothing. -/
  refuses : stranded? attempts ≠ none → ∀ faults record,
    log.appendTo content faults record =
      (.error (.logDisabled log.place.path.text), log, content)
  /-- A recovery finds the records, and at most the one that could not be taken back besides. The
  log can then be opened on what has been found. -/
  recovers : ∃ found, (found = initial ++ appended attempts ∨
      ∃ record, stranded? attempts = some record ∧
        found = initial ++ appended attempts ++ [record]) ∧
    Recovery.inspect content =
      ⟨found.length, found.flatten.length, content.length - found.flatten.length⟩ ∧
    ∀ disk place policy, disk.get? place = some (.file content) →
      Recovery.recover disk place =
        (.ok (Recovery.inspect content), disk.set place.path (.file found.flatten)) ∧
      ∃ reopened, openAt disk place policy = (.ok (reopened, Recovery.inspect content),
          disk.set place.path (.file found.flatten)) ∧
        reopened.IsOpenOn found.flatten found
  /-- The log takes records again when its file is replaced by one that consists of records. -/
  replaced : ∀ others : List Bytes, (∀ record ∈ others, Frame.IsFrame record) →
    (log.replaced others.flatten.length).IsOpenOn others.flatten others

/-- **A log withstands whatever goes wrong in appends to it.** -/
theorem IsOpenOn.withstands {initial : List Bytes} (h : log.IsOpenOn content initial)
    (tries : List (Bytes × Faults)) (htries : ∀ entry ∈ tries, Frame.IsFrame entry.1) :
    ∃ attempts after written, log.appendAll content tries = (attempts, after, written) ∧
      attempts.map (fun attempt ↦ (attempt.record, attempt.faults)) = tries ∧
      Withstands initial attempts after written := by
  have hopen : log.Keeps content initial none := h
  obtain ⟨attempts, after, written, hrun, hkeeps⟩ := hopen.appendAll tries htries
  rw [Option.none_or] at hkeeps
  refine ⟨attempts, after, written, hrun, ?_, committed_appendTo _ _,
    ⟨hkeeps.take_committed, hkeeps.committed⟩,
    shows_of_take hkeeps.committed hkeeps.take_committed hkeeps.isFrame, ?_, ?_, ?_, ?_⟩
  · rw [← map_appendAll log content tries, hrun]
  · intro hnone
    rw [hnone] at hkeeps
    exact ⟨by rw [hkeeps.content, hkeeps.committed],
      fun faults record hwrite hsync ↦ appendTo_of_faultless hkeeps.working _ hwrite hsync record⟩
  · intro hsome faults record
    obtain ⟨first, hfirst⟩ := Option.ne_none_iff_exists'.mp hsome
    rw [hfirst] at hkeeps
    exact appendTo_of_failed hkeeps.failed _ _ _
  · refine ⟨Frame.frames written, hkeeps.frames, Recovery.inspect_eq written, ?_⟩
    intro disk place policy hfile
    have hpath : place.path ≠ [] := Disk.path_ne_nil_of_file hfile
    exact ⟨Recovery.recover_of_file hpath hfile, _, openAt_of_file hpath hfile policy,
      isOpenOn_frames place policy written⟩
  · intro others hothers
    exact ⟨rfl, rfl, rfl, hothers⟩

/-- Appends to an empty log: one that succeeds, one whose write fails half way, one whose flush
fails when the file cannot be cut back, and one more. -/
def troubledAppends : List (Bytes × Faults) :=
  [(Frame.ofBody [7], Faults.none), (Frame.ofBody [1, 2], ⟨some 3, false, false⟩),
    (Frame.ofBody [8], ⟨none, true, true⟩), (Frame.ofBody [9], Faults.none)]

theorem IsOpenOn.withstands_troubled :
    IsOpenOn ⟨⟨["log"], ⟨[], 0, ["log"]⟩⟩, .every 2, 0, 0, false⟩ [] [] ∧
      (∀ entry ∈ troubledAppends, Frame.IsFrame entry.1) ∧
      ∃ attempts after written,
        AppendLog.appendAll ⟨⟨["log"], ⟨[], 0, ["log"]⟩⟩, .every 2, 0, 0, false⟩ []
          troubledAppends = (attempts, after, written) ∧
        appended attempts = [Frame.ofBody [7]] ∧
        stranded? attempts = some (Frame.ofBody [8]) ∧
        Withstands [] attempts after written := by
  have hopen : IsOpenOn ⟨⟨["log"], ⟨[], 0, ["log"]⟩⟩, .every 2, 0, 0, false⟩ [] [] :=
    ⟨rfl, rfl, rfl, by simp⟩
  have hframes : ∀ entry ∈ troubledAppends, Frame.IsFrame entry.1 := by
    intro entry hentry
    simp only [troubledAppends, List.mem_cons, List.not_mem_nil, or_false] at hentry
    rcases hentry with rfl | rfl | rfl | rfl
    all_goals exact ⟨_, by decide, rfl⟩
  obtain ⟨attempts, after, written, hrun, _, hwithstands⟩ :=
    hopen.withstands troubledAppends hframes
  have hattempts : attempts = (AppendLog.appendAll
      ⟨⟨["log"], ⟨[], 0, ["log"]⟩⟩, .every 2, 0, 0, false⟩ [] troubledAppends).1 := by rw [hrun]
  refine ⟨hopen, hframes, attempts, after, written, hrun, ?_, ?_, hwithstands⟩
  · rw [hattempts]
    rfl
  · rw [hattempts]
    rfl

end TableStore.AppendLog
