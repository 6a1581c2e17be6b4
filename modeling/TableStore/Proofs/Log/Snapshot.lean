import TableStore.Log.Reader
import TableStore.Proofs.Log.Faults
import TableStore.Proofs.Log.Passage

/-!
# A scan is a snapshot

A scan reads the file of a log bit by bit, and records are appended to the log meanwhile. Its limit
is at most the committed length at its start. The bytes in front of a committed length are never
written again, and a file that is cut back after a failure is not cut below it. So whatever a reader
has read ahead, and whatever the file holds by now, the bytes up to the limit are those of the
start; and the scan does not look at any others.
-/

namespace TableStore

namespace Scanner

/-- One step sees only the bytes up to the limit. -/
theorem next_congr {scanner : Scanner} {bytes others : Bytes}
    (h : bytes.take scanner.room = others.take scanner.room) :
    scanner.next (.ok bytes) = scanner.next (.ok others) := by
  cases hdone : scanner.done with
  | true => rw [next_of_done hdone, next_of_done hdone]
  | false => rw [next_ok hdone, next_ok hdone, h]

/-- A call returns the record at the position and takes the scanner behind it, or it returns nothing
and the scanner stays where it is. -/
theorem nextOf_cases (content : Bytes) (scanner : Scanner) :
    (∃ last, scanner.nextOf content = (none, last) ∧ last.position = scanner.position ∧
        last.limit = scanner.limit) ∨
      ∃ record, Frame.width ≤ record.length ∧ scanner.nextOf content =
        (some (.ok (scanner.position, record)),
          { scanner with position := scanner.position + record.length }) := by
  rcases Bool.eq_false_or_eq_true scanner.done with hdone | hdone
  · exact .inl ⟨scanner, next_of_done hdone _, rfl, rfl⟩
  · rw [nextOf, next_ok hdone]
    cases hsplit : Frame.split? ((content.drop scanner.position).take scanner.room) with
    | none => exact .inl ⟨_, rfl, rfl, rfl⟩
    | some split => exact .inr ⟨split.1, Frame.width_le_length_of_split? hsplit, rfl⟩

theorem limit_afterCalls (content : Bytes) (scanner : Scanner) (count : Nat) :
    (scanner.afterCalls content count).limit = scanner.limit := by
  induction count with
  | zero => rfl
  | succ count ih =>
    rw [afterCalls]
    obtain ⟨last, hnext, _, hlimit⟩ | ⟨record, _, hnext⟩ :=
      nextOf_cases content (scanner.afterCalls content count)
    · rw [hnext, ← ih, ← hlimit]
    · rw [hnext, ← ih]

end Scanner

/-! ## What a reader has read ahead -/

namespace Reader

variable {content now ahead : Bytes} {position limit : Nat}

/-- Whether bytes are those of a file from a position on, as far as they stand in front of a
limit. -/
def AreFrom (content : Bytes) (position limit : Nat) (bytes : Bytes) : Prop :=
  ∀ i < bytes.length, position + i < limit → bytes[i]? = content[position + i]?

theorem getElem?_of_take_eq (h : now.take limit = content.take limit) {i : Nat} (hi : i < limit) :
    now[i]? = content[i]? := by
  rw [← List.getElem?_take_of_lt hi, h, List.getElem?_take_of_lt hi]

/-- The bytes read ahead, and those of the file behind them, are those of the snapshot. -/
theorem AreFrom.take_append (h : AreFrom content position limit ahead)
    (hsame : now.take limit = content.take limit) :
    (ahead ++ now.drop (position + ahead.length)).take (limit - position) =
      (content.drop position).take (limit - position) := by
  apply List.ext_getElem?
  intro i
  rcases Nat.lt_or_ge i (limit - position) with hroom | hfull
  · rw [List.getElem?_take_of_lt hroom, List.getElem?_take_of_lt hroom, List.getElem?_drop]
    rcases Nat.lt_or_ge i ahead.length with hahead | hbehind
    · rw [List.getElem?_append_left hahead]
      exact h i hahead (by omega)
    · have hindex : position + ahead.length + (i - ahead.length) = position + i := by omega
      rw [List.getElem?_append_right hbehind, List.getElem?_drop, hindex]
      exact getElem?_of_take_eq hsame (by omega)
  · rw [List.getElem?_take_eq_none hfull, List.getElem?_take_eq_none hfull]

/-- What has been read ahead when more bytes have been taken is of the snapshot as well. -/
theorem AreFrom.aheadAfter (h : AreFrom content position limit ahead)
    (hsame : now.take limit = content.take limit) (count : Nat) :
    AreFrom content (position + count) limit (aheadAfter now position ahead count) := by
  intro i hi hlimit
  rw [Reader.aheadAfter] at hi ⊢
  split at hi
  · next hahead =>
    rw [List.length_drop] at hi
    rw [if_pos hahead, List.getElem?_drop, h (count + i) (by omega) (by omega), Nat.add_assoc]
  · next hmissing =>
    dsimp only at hi ⊢
    rw [if_neg hmissing]
    split at hi
    · next hblock =>
      rw [List.length_drop, List.length_take] at hi
      have hindex : position + ahead.length + (count - ahead.length + i) =
          position + count + i := by
        omega
      rw [if_pos hblock, List.getElem?_drop, List.getElem?_take_of_lt (by omega),
        List.getElem?_drop, hindex]
      exact getElem?_of_take_eq hsame hlimit
    · exact absurd hi (Nat.not_lt_zero i)

theorem AreFrom.aheadAfterRecord (h : AreFrom content position limit ahead)
    (hsame : now.take limit = content.take limit) {record : Bytes}
    (hwidth : Frame.width ≤ record.length) :
    AreFrom content (position + record.length) limit
      (aheadAfterRecord now position ahead record) := by
  have htaken := (h.aheadAfter hsame Frame.width).aheadAfter hsame (record.length - Frame.width)
  rwa [Nat.add_assoc, Nat.add_sub_cancel' hwidth] at htaken

/-- Whether a reader stands where the given scan of a file stands, and what it has read ahead is of
that file. -/
structure Follows (reader : Reader) (content : Bytes) (scanner : Scanner) : Prop where
  stands : reader.scanner = scanner
  named : reader.unnamed = none
  ahead : AreFrom content scanner.position scanner.limit reader.ahead

variable {reader : Reader} {scanner : Scanner} {disk : Disk} {node : Node}

theorem follows_start (content : Bytes) (place : Place) (scanner : Scanner) :
    (start place scanner).Follows content scanner :=
  ⟨rfl, rfl, fun i hi ↦ absurd hi (Nat.not_lt_zero i)⟩

/-- **A reader goes on as the scan does**, as long as the file is the same up to the limit. -/
theorem Follows.next (h : reader.Follows content scanner)
    (hnode : disk.get? reader.place = some node) (hnow : node.content? = .ok now)
    (hsame : now.take scanner.limit = content.take scanner.limit) :
    ∃ after, reader.next disk = ((scanner.nextOf content).1, after) ∧
      after.place = reader.place ∧ after.Follows content (scanner.nextOf content).2 := by
  obtain ⟨rfl, hnamed, hahead⟩ := h
  have hcontent : (reader.node disk).content? = .ok now := by
    rw [Reader.node, hnamed, hnode, ← hnow]
    rfl
  have hnext : reader.scanner.next
      (.ok (reader.ahead ++ now.drop (reader.scanner.position + reader.ahead.length))) =
      reader.scanner.nextOf content :=
    Scanner.next_congr (hahead.take_append hsame)
  -- The blocks of the file and the snapshot differ behind the limit only, where the scan is blind.
  rw [Reader.next, hcontent]
  dsimp only [Except.map]
  rw [hnext]
  obtain ⟨last, hlast, hposition, hlimit⟩ | ⟨record, hwidth, hrecord⟩ :=
    reader.scanner.nextOf_cases content
  · rw [hlast]
    refine ⟨_, rfl, rfl, rfl, hnamed, ?_⟩
    rw [hposition, hlimit]
    exact hahead
  · rw [hrecord]
    exact ⟨_, rfl, rfl, rfl, hnamed, hahead.aheadAfterRecord hsame hwidth⟩

end Reader

/-! ## What appends leave as it is -/

namespace AppendLog

variable {log : AppendLog} {disk : Disk} {content : Bytes}

/-- **An append does not touch what is committed**, whatever goes wrong in it. -/
theorem appendTo_keeps (h : log.committed ≤ content.length) (faults : Faults) (record : Bytes) :
    ∃ answer after written, log.appendTo content faults record = (answer, after, written) ∧
      after.place = log.place ∧ log.committed ≤ after.committed ∧
      after.committed ≤ written.length ∧
      written.take log.committed = content.take log.committed := by
  cases hfailed : log.failed with
  | true => exact ⟨_, _, _, appendTo_of_failed hfailed content faults record, rfl,
      Nat.le_refl _, h, rfl⟩
  | false =>
    obtain ⟨unsynced, happend | ⟨stored, ⟨_, happend⟩ | ⟨_, happend⟩⟩⟩ :=
      appendTo_cases hfailed content faults record
    · refine ⟨_, _, _, happend, rfl, Nat.le_add_right _ _, ?_, List.take_append_of_le_length h⟩
      rw [List.length_append]
      exact Nat.add_le_add_right h _
    · refine ⟨_, _, _, happend, rfl, Nat.le_refl _, ?_, List.take_append_of_le_length h⟩
      rw [List.length_append]
      exact Nat.le_add_right_of_le h
    · have hfits : log.committed - (content ++ record.take stored).length = 0 := by
        rw [List.length_append]
        omega
      have hcut : (content ++ record.take stored).resize log.committed =
          content.take log.committed := by
        rw [Bytes.resize, hfits, List.replicate_zero, List.append_nil,
          List.take_append_of_le_length h]
      refine ⟨_, _, _, happend, rfl, Nat.le_refl _, ?_, ?_⟩
      · apply Nat.le_of_eq
        rw [hcut, List.length_take, Nat.min_eq_left h]
      · rw [hcut, List.take_take, Nat.min_self]

/-- Nothing is ever committed on the device that is always full. -/
theorem committed_appendTo_ofFullDevice (log : AppendLog) (content record : Bytes) :
    (log.appendTo content (Faults.ofFullDevice record) record).2.1.committed = log.committed := by
  rw [committed_appendTo]
  cases record with
  | nil => simp
  | cons byte rest =>
    have hrefused : (log.appendTo content (Faults.ofFullDevice (byte :: rest))
        (byte :: rest)).1.isOk = false := by
      cases hfailed : log.failed <;>
        simp [appendTo, hfailed, write, Faults.ofFullDevice, Except.isOk, Except.toBool]
    rw [hrefused]
    rfl

/-- Whether a log stands where these bytes can be read, and what is committed is among them. -/
structure IsBacked (log : AppendLog) (disk : Disk) (content : Bytes) : Prop where
  node : ∃ node, disk.get? log.place = some node ∧ node.content? = .ok content
  committed : log.committed ≤ content.length

/-- On the device that is always full there is nothing to recover. -/
theorem recover_of_fullDevice {place : Place} (h : disk.get? place = some .fullDevice) :
    Recovery.recover disk place = (.ok ⟨0, 0, 0⟩, disk) := by
  have hread : disk.read place = .ok [] := by
    rw [Disk.read, Disk.find_of_get? h]
    rfl
  have hinspect : Recovery.inspect [] = ⟨0, 0, 0⟩ := by
    rw [Recovery.inspect_eq, Frame.frames_nil]
    rfl
  rw [Recovery.recover, Recovery.verify, hread]
  dsimp only
  rw [hinspect]
  rfl

/-- **Every log that opens is backed**, whatever it is opened on. -/
theorem isBacked_of_openAt {opened : Disk} {place : Place} {policy : SyncPolicy} {report : Recovery}
    (h : openAt disk place policy = (.ok (log, report), opened)) :
    ∃ content, log.IsBacked opened content := by
  cases hplace : disk.get? place with
  | none =>
    obtain ⟨_, rfl, _, hfile⟩ := of_openAt_eq_ok hplace h
    exact ⟨[], ⟨_, hfile, rfl⟩, Nat.le_refl _⟩
  | some node =>
    cases node with
    | file content =>
      rw [openAt_of_file (Disk.path_ne_nil_of_file hplace) hplace] at h
      cases h
      exact ⟨_, ⟨_, Disk.get?_set_of_file hplace _, rfl⟩, Nat.le_refl _⟩
    | directory =>
      rw [openAt, Disk.ensureFile, hplace] at h
      cases h
    | fullDevice =>
      rw [openAt, Disk.ensureFile, hplace] at h
      dsimp only at h
      rw [recover_of_fullDevice hplace] at h
      cases h
      exact ⟨[], ⟨_, hplace, rfl⟩, Nat.le_refl _⟩

/-- A scan of a backed log is one of its bytes. -/
theorem IsBacked.scan (h : log.IsBacked disk content) (offset limit : Nat) :
    log.scan disk offset limit =
      .ok ((Scanner.start offset (min limit log.committed)).runOn (.file content)) := by
  obtain ⟨node, hnode, hcontent⟩ := h.node
  rw [AppendLog.scan, Disk.find_of_get? hnode]
  dsimp only
  rw [scanner, Scanner.runOn, hcontent]
  rfl

/-- Appends a record while something goes wrong with the file. What goes wrong on the device that is
always full is its own affair. -/
def appendWith (log : AppendLog) (disk : Disk) (faults : Faults) (record : Bytes) :
    Except Failure Nat × AppendLog × Disk :=
  match disk.get? log.place with
  | some (.file content) =>
    match log.appendTo content faults record with
    | (answer, log, content) => (answer, log, disk.set log.place.path (.file content))
  | _ => log.append disk record

/-- If nothing goes wrong, that is an append. -/
theorem appendWith_none (log : AppendLog) (disk : Disk) (record : Bytes) :
    log.appendWith disk Faults.none record = log.append disk record := by
  rw [appendWith]
  split
  · next hfile =>
    rw [append, hfile]
  · rfl

/-- The disk while an append that is under way has stored these bytes behind the others. -/
def storing (log : AppendLog) (disk : Disk) (stored : Bytes) : Disk :=
  match disk.get? log.place with
  | some (.file content) => disk.set log.place.path (.file (content ++ stored))
  | _ => disk

/-- Whether a log has so many bytes committed, and they are still those of the snapshot. -/
def Retains (log : AppendLog) (disk : Disk) (content : Bytes) (length : Nat) : Prop :=
  ∃ now, log.IsBacked disk now ∧ length ≤ log.committed ∧ now.take length = content.take length

variable {now : Bytes} {length : Nat}

theorem IsBacked.retains (h : log.IsBacked disk content) : log.Retains disk content log.committed :=
  ⟨content, h, Nat.le_refl _, rfl⟩

theorem take_eq_take_of_le {limit : Nat} (h : now.take length = content.take length)
    (hlimit : limit ≤ length) : now.take limit = content.take limit := by
  rw [← Nat.min_eq_left hlimit, ← List.take_take, h, List.take_take]

/-- **What a log retains it retains after an append as well.** -/
theorem Retains.appendWith (h : log.Retains disk content length) (faults : Faults)
    (record : Bytes) :
    ∃ answer after changed, log.appendWith disk faults record = (answer, after, changed) ∧
      after.place = log.place ∧ after.Retains changed content length := by
  obtain ⟨now, ⟨⟨node, hnode, hnow⟩, hcommitted⟩, hlength, hsame⟩ := h
  cases node with
  | file bytes =>
    cases hnow
    obtain ⟨answer, after, written, happend, hplace, hgrows, hbacked, hkept⟩ :=
      appendTo_keeps hcommitted faults record
    have hfile : (disk.set log.place.path (.file written)).get? after.place =
        some (.file written) := by
      rw [hplace]
      exact Disk.get?_set_of_file hnode _
    refine ⟨answer, after, disk.set log.place.path (.file written), ?_, hplace, written,
      ⟨⟨_, hfile, rfl⟩, hbacked⟩, Nat.le_trans hlength hgrows, ?_⟩
    · rw [AppendLog.appendWith, hnode]
      dsimp only
      rw [happend]
      dsimp only
      rw [hplace]
    · rw [take_eq_take_of_le hkept hlength, hsame]
  | directory => cases hnow
  | fullDevice =>
    -- What is written there is lost, and so it is never committed.
    cases hnow
    obtain ⟨answer, after, written, happend, hplace, _⟩ :=
      appendTo_keeps hcommitted (Faults.ofFullDevice record) record
    have hnothing := committed_appendTo_ofFullDevice log [] record
    rw [happend] at hnothing
    dsimp only at hnothing
    refine ⟨answer, after, disk, ?_, hplace, [], ⟨⟨_, hplace ▸ hnode, rfl⟩, ?_⟩, ?_, hsame⟩
    · rw [AppendLog.appendWith, hnode]
      dsimp only
      rw [append, hnode]
      dsimp only
      rw [happend]
    · rw [hnothing]
      exact hcommitted
    · rw [hnothing]
      exact hlength

/-- While an append is under way the log still retains what it does. -/
theorem Retains.storing (h : log.Retains disk content length) (stored : Bytes) :
    log.Retains (log.storing disk stored) content length := by
  obtain ⟨now, ⟨⟨node, hnode, hnow⟩, hcommitted⟩, hlength, hsame⟩ := h
  cases node with
  | file bytes =>
    cases hnow
    rw [AppendLog.storing, hnode]
    refine ⟨now ++ stored, ⟨⟨_, Disk.get?_set_of_file hnode _, rfl⟩, ?_⟩, hlength, ?_⟩
    · rw [List.length_append]
      exact Nat.le_add_right_of_le hcommitted
    · rw [List.take_append_of_le_length (Nat.le_trans hlength hcommitted), hsame]
  | directory => cases hnow
  | fullDevice =>
    rw [AppendLog.storing, hnode]
    exact ⟨now, ⟨⟨_, hnode, hnow⟩, hcommitted⟩, hlength, hsame⟩

/-- **A scan up to what a log retains yields what it would have yielded of the snapshot.** -/
theorem Retains.scan (h : log.Retains disk content length) {offset limit : Nat}
    (hlimit : limit ≤ length) :
    log.scan disk offset limit = .ok ((Scanner.start offset limit).runOn (.file content)) := by
  obtain ⟨now, hbacked, hlength, hsame⟩ := h
  have hbytes : (now.drop offset).take (limit - offset) =
      (content.drop offset).take (limit - offset) := by
    rw [← List.drop_take, take_eq_take_of_le hsame hlimit, List.drop_take]
  rw [hbacked.scan, Nat.min_eq_left (Nat.le_trans hlimit hlength), Scanner.runOn_start,
    Scanner.runOn_start, Scanner.recordsBetween, hbytes, Scanner.recordsBetween]

/-! ## Reading while records are appended -/

/-- What happens to a log while a reader goes through its file. -/
inductive Event where
  /-- An append, with what goes wrong in it. -/
  | append (record : Bytes) (faults : Faults)
  /-- A call of the reader, when an append under way has stored these bytes. -/
  | next (stored : Bytes)

/-- Whether an event is a call of the reader. -/
def Event.isNext : Event → Bool
  | .append _ _ => false
  | .next _ => true

/-- A log on a disk with a reader of its file. -/
structure Reading where
  log : AppendLog
  disk : Disk
  reader : Reader

namespace Reading

/-- A reader of the records between two offsets. -/
def start (log : AppendLog) (disk : Disk) (offset limit : Nat) : Reading :=
  ⟨log, disk, .start log.place (log.scanner offset limit)⟩

/-- Lets events happen one after the other, and collects what the reader answers. -/
def run (reading : Reading) : List Event → List (Option (Except FileFault (Nat × Bytes))) × Reading
  | [] => ([], reading)
  | .append record faults :: rest =>
    match reading.log.appendWith reading.disk faults record with
    | (_, log, disk) => run { reading with log, disk } rest
  | .next stored :: rest =>
    match reading.reader.next (reading.log.storing reading.disk stored) with
    | (answer, reader) =>
      match run { reading with reader } rest with
      | (answers, last) => (answer :: answers, last)

/-- Whether a reader has come as far in the snapshot as a scan of it after so many calls, and the
log retains the snapshot up to its limit. -/
structure IsAt (reading : Reading) (content : Bytes) (length offset limit count : Nat) : Prop where
  place : reading.reader.place = reading.log.place
  retains : reading.log.Retains reading.disk content length
  bounded : limit ≤ length
  follows : reading.reader.Follows content ((Scanner.start offset limit).afterCalls content count)

variable {reading : Reading} {content : Bytes} {length offset limit count : Nat}

theorem IsAt.append (h : reading.IsAt content length offset limit count) (record : Bytes)
    (faults : Faults) :
    ∃ answer log disk, reading.log.appendWith reading.disk faults record = (answer, log, disk) ∧
      IsAt { reading with log, disk } content length offset limit count := by
  obtain ⟨answer, log, disk, happend, hplace, hretains⟩ := h.retains.appendWith faults record
  exact ⟨answer, log, disk, happend, h.place.trans hplace.symm, hretains, h.bounded, h.follows⟩

/-- A call is answered with the entry whose turn it is. -/
theorem IsAt.next (h : reading.IsAt content length offset limit count) (stored : Bytes) :
    ∃ reader, reading.reader.next (reading.log.storing reading.disk stored) =
        (((Scanner.start offset limit).runOn (.file content)).1[count]?, reader) ∧
      IsAt { reading with reader } content length offset limit (count + 1) := by
  obtain ⟨now, ⟨⟨node, hnode, hnow⟩, _⟩, _, hsame⟩ := h.retains.storing stored
  have hlimit : ((Scanner.start offset limit).afterCalls content count).limit ≤ length := by
    rw [Scanner.limit_afterCalls]
    exact h.bounded
  rw [← h.place] at hnode
  obtain ⟨reader, hnext, hplace, hfollows⟩ := h.follows.next hnode hnow
    (take_eq_take_of_le hsame hlimit)
  rw [Scanner.fst_nextOf_afterCalls, ← List.getElem?_map] at hnext
  rw [Scanner.runOn_start]
  exact ⟨reader, hnext, hplace.trans h.place, h.retains, h.bounded, hfollows⟩

/-- **Calls are answered with the entries of the snapshot in turn**, whatever is appended between
them. -/
theorem IsAt.run (h : reading.IsAt content length offset limit count) (events : List Event) :
    ∃ answers after, reading.run events = (answers, after) ∧
      answers = (List.range' count (events.countP Event.isNext)).map
        (((Scanner.start offset limit).runOn (.file content)).1[·]?) ∧
      after.IsAt content length offset limit (count + events.countP Event.isNext) := by
  induction events generalizing reading count with
  | nil => exact ⟨[], reading, rfl, rfl, h⟩
  | cons event rest ih =>
    cases event with
    | append record faults =>
      obtain ⟨_, log, disk, happend, hafter⟩ := h.append record faults
      obtain ⟨answers, after, hrun, hanswers, hlast⟩ := ih hafter
      rw [List.countP_cons_of_neg Bool.false_ne_true]
      refine ⟨answers, after, ?_, hanswers, hlast⟩
      rw [Reading.run, happend]
      exact hrun
    | next stored =>
      obtain ⟨reader, hnext, hafter⟩ := h.next stored
      obtain ⟨answers, after, hrun, hanswers, hlast⟩ := ih hafter
      rw [List.countP_cons_of_pos rfl]
      refine ⟨((Scanner.start offset limit).runOn (.file content)).1[count]? :: answers, after,
        ?_, ?_, ?_⟩
      · rw [Reading.run, hnext]
        dsimp only
        rw [hrun]
      · rw [List.range'_succ, List.map_cons, hanswers]
      · rwa [Nat.add_right_comm, Nat.add_assoc] at hlast

/-- How a reader and its log have gone on after so many calls, if the log has been like this when
the reader was opened and a whole scan would have yielded these entries then. -/
structure Repeats (log : AppendLog) (disk : Disk) (entries : List (Except FileFault (Nat × Bytes)))
    (last : Scanner) (calls : Nat) (answers : List (Option (Except FileFault (Nat × Bytes))))
    (after : Reading) : Prop where
  /-- The calls are answered with these entries, one after the other, and then with nothing. -/
  answers : answers = (List.range calls).map (entries[·]?)
  /-- When there are no more of them the reader stands where the whole scan would have ended, and
  has met an incomplete record if it would have. -/
  last : entries.length < calls → after.reader.scanner = last
  /-- A scan to where the log ended then, or not as far, yields what it would have yielded. -/
  scan : ∀ offset limit, limit ≤ log.committed →
    after.log.scan after.disk offset limit = log.scan disk offset limit
  /-- The log is still backed, so that more readers can be opened. -/
  backed : ∃ content, after.log.IsBacked after.disk content

/-- **A reader yields what a scan to the end would have yielded when it was opened**, whatever is
appended while it reads and whatever goes wrong in that. -/
theorem repeats_of_isBacked {log : AppendLog} {disk : Disk} (h : log.IsBacked disk content)
    (offset limit : Nat) :
    ∃ entries last, log.scan disk offset limit = .ok (entries, last) ∧
      ∀ events, ∃ answers after, (start log disk offset limit).run events = (answers, after) ∧
        Repeats log disk entries last (events.countP Event.isNext) answers after := by
  have hscan := h.scan offset limit
  rw [Scanner.runOn_start] at hscan
  refine ⟨_, _, hscan, ?_⟩
  intro events
  have hstart : (start log disk offset limit).IsAt content log.committed offset
      (min limit log.committed) 0 :=
    ⟨rfl, h.retains, Nat.min_le_right _ _, Reader.follows_start _ _ _⟩
  obtain ⟨answers, after, hrun, hanswers, hafter⟩ := hstart.run events
  rw [Nat.zero_add] at hafter
  rw [← List.range_eq_range', Scanner.runOn_start] at hanswers
  refine ⟨answers, after, hrun, hanswers, ?_, ?_, ?_⟩
  · intro hcalls
    rw [List.length_map, length_located] at hcalls
    rw [hafter.follows.stands, Scanner.afterCalls_of_lt hcalls]
  · intro offset limit hlimit
    rw [hafter.retains.scan hlimit, h.retains.scan hlimit]
  · obtain ⟨now, hbacked, _⟩ := hafter.retains
    exact ⟨now, hbacked⟩

/-- The records that are in a log when its reader is opened. -/
def sharedRecords : List Bytes :=
  [Frame.ofBody [7], Frame.ofBody [8, 9]]

def sharedLog : AppendLog :=
  ⟨⟨["log"], ⟨[], 0, ["log"]⟩⟩, .every 2, 11, 0, false⟩

/-- The disk before the log is opened, and afterwards, when the beginning of a third record has been
cut off. -/
def tornDisk : Disk :=
  Disk.empty.set sharedLog.place.path (.file (sharedRecords.flatten ++ [5]))

def sharedDisk : Disk :=
  tornDisk.set sharedLog.place.path (.file sharedRecords.flatten)

/-- Four calls of a reader. Between them a byte is appended that is no record, and an append fails
half way and is taken back; the second call comes in the middle of another append. -/
def sharedEvents : List Event :=
  [.next [], .append [200] Faults.none, .next [3, 0, 0],
    .append (Frame.ofBody [1]) ⟨some 3, false, false⟩, .next [], .next []]

/-- The reader sees the two records that were there when it was opened. -/
theorem repeats_of_isBacked_shared :
    openAt tornDisk sharedLog.place (.every 2) = (.ok (sharedLog, ⟨2, 11, 1⟩), sharedDisk) ∧
      ∃ content, sharedLog.IsBacked sharedDisk content ∧
        ∃ entries last answers after,
          sharedLog.scan sharedDisk 0 sharedLog.committed = .ok (entries, last) ∧
          (start sharedLog sharedDisk 0 sharedLog.committed).run sharedEvents = (answers, after) ∧
          Repeats sharedLog sharedDisk entries last 4 answers after ∧
          answers = [some (.ok (0, Frame.ofBody [7])), some (.ok (5, Frame.ofBody [8, 9])), none,
            none] ∧
          after.reader.scanner = ⟨11, 11, false, true⟩ := by
  have hfile : tornDisk.get? sharedLog.place = some (.file (sharedRecords.flatten ++ [5])) := by
    decide +kernel
  have hopened : sharedDisk.get? sharedLog.place = some (.file sharedRecords.flatten) := by
    decide +kernel
  have hframes : ∀ record ∈ sharedRecords, Frame.IsFrame record := by
    intro record hrecord
    simp only [sharedRecords, List.mem_cons, List.not_mem_nil, or_false] at hrecord
    rcases hrecord with rfl | rfl
    all_goals exact ⟨_, by decide, rfl⟩
  have hcut : Frame.split? [5] = none := by decide
  have hopen : openAt tornDisk sharedLog.place (.every 2) =
      (.ok (sharedLog, ⟨2, 11, 1⟩), sharedDisk) := by
    rw [openAt_of_file (Disk.path_ne_nil_of_file hfile) hfile, Recovery.inspect_eq,
      Frame.frames_flatten_append hframes, Frame.frames_of_none hcut, List.append_nil]
    rfl
  obtain ⟨content, hbacked⟩ := isBacked_of_openAt hopen
  obtain ⟨entries, last, hscan, hreads⟩ :=
    repeats_of_isBacked hbacked 0 sharedLog.committed
  obtain ⟨answers, after, hrun, hrepeats⟩ := hreads sharedEvents
  have hentries := hscan
  have hall : (sharedRecords.flatten.drop 0).take
      (min sharedLog.committed sharedLog.committed - 0) = sharedRecords.flatten := rfl
  rw [scan_of_file hopened, Scanner.run_start, hall, Frame.frames_flatten hframes] at hentries
  cases hentries
  exact ⟨hopen, content, hbacked, _, _, answers, after, hscan, hrun, hrepeats, hrepeats.answers,
    hrepeats.last (by decide)⟩

end Reading

end AppendLog

end TableStore
