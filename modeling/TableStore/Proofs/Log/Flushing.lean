import TableStore.Proofs.Log.Faults

/-!
# Records that have not been flushed

A log counts its appends, and flushes when the count calls for it. The count is advanced in front of
the flush and not taken back when that fails, not even if the record is. So it can be larger than
the number of records that a crash could lose, but never smaller, and a flush that is due stays due
until one succeeds or the file is replaced. What is counted here beside the log is the records that
have been appended since then.
-/

namespace TableStore

namespace SyncPolicy

variable {policy : SyncPolicy} {unsynced : Nat}

/-- Whether a policy allows an append to leave so many records unflushed. -/
def Allows : SyncPolicy → Nat → Prop
  | .never, _ => True
  | .everyRecord, count => count = 0
  | .every limit, count => count < max limit 1

theorem allows_zero (policy : SyncPolicy) : policy.Allows 0 := by
  cases policy with
  | never => trivial
  | everyRecord => rfl
  | every limit => exact Nat.lt_of_lt_of_le Nat.one_pos (Nat.le_max_right limit 1)

/-- As long as no flush is due the policy allows what has been appended. -/
theorem allows_of_not_isDue (h : policy.isDue unsynced = false) : policy.Allows unsynced := by
  cases policy with
  | never => trivial
  | everyRecord => cases h
  | every limit => exact Nat.not_le.mp (of_decide_eq_false h)

theorem Allows.mono {count : Nat} (h : policy.Allows unsynced) (hle : count ≤ unsynced) :
    policy.Allows count := by
  cases policy with
  | never => trivial
  | everyRecord =>
    have hzero : unsynced = 0 := h
    exact Nat.le_zero.mp (hzero ▸ hle)
  | every limit => exact Nat.lt_of_le_of_lt hle h

/-- A flush that is due is not less so after another append. -/
theorem isDue_succ (h : policy.isDue unsynced = true) : policy.isDue (unsynced + 1) = true := by
  cases policy with
  | never => cases h
  | everyRecord => rfl
  | every limit => exact decide_eq_true (Nat.le_succ_of_le (of_decide_eq_true h))

end SyncPolicy

namespace AppendLog

variable {log : AppendLog} {content record : Bytes} {faults : Faults}

/-! ## The count in one append -/

/-- Whether the next append flushes once its record has been written. -/
def flushes (log : AppendLog) : Bool :=
  !log.failed && log.policy.isDue (log.unsynced + 1)

/-- What becomes of an append and of the count: the log has been given up, or the write fails, or no
flush is due, or the flush succeeds, or it fails. -/
inductive Counts (log : AppendLog) (faults : Faults) (after : AppendLog) :
    Except Failure Nat → Prop where
  | refused (hfailed : log.failed = true) (hcount : after.unsynced = log.unsynced) :
      Counts log faults after (.error (.logDisabled log.place.path.text))
  | unwritten (hwrite : faults.write ≠ none) (hcount : after.unsynced = log.unsynced) :
      Counts log faults after (.error (.file .deviceFull))
  | unneeded (hflushes : log.flushes = false) (hallows : log.policy.Allows after.unsynced)
      (hcount : after.unsynced = log.unsynced + 1) : Counts log faults after (.ok log.committed)
  | flushed (hflushes : log.flushes = true) (hsync : faults.sync = false)
      (hcount : after.unsynced = 0) : Counts log faults after (.ok log.committed)
  | unflushed (hflushes : log.flushes = true) (hsync : faults.sync = true)
      (hcount : after.unsynced = log.unsynced + 1) :
      Counts log faults after (.error (.file .deviceFull))

theorem counts_appendTo (log : AppendLog) (content : Bytes) (faults : Faults) (record : Bytes) :
    Counts log faults (log.appendTo content faults record).2.1
      (log.appendTo content faults record).1 := by
  cases hfailed : log.failed with
  | true =>
    rw [appendTo_of_failed hfailed]
    exact .refused hfailed rfl
  | false =>
    have hworking : ¬ log.failed = true := by rw [hfailed]; exact Bool.false_ne_true
    cases hwrite : faults.write with
    | some stored =>
      have hstored : faults.write ≠ none := by rw [hwrite]; exact nofun
      rw [appendTo, if_neg hworking, write, hwrite]
      dsimp only
      split
      · exact .unwritten hstored rfl
      · exact .unwritten hstored rfl
    | none =>
      rw [appendTo, if_neg hworking, write, hwrite]
      dsimp only [afterWrite]
      cases hdue : log.policy.isDue (log.unsynced + 1) with
      | false =>
        have hflushes : log.flushes = false := by rw [flushes, hdue, Bool.and_false]
        simp only [Bool.false_eq_true, if_false]
        exact .unneeded hflushes (SyncPolicy.allows_of_not_isDue hdue) rfl
      | true =>
        have hflushes : log.flushes = true := by rw [flushes, hfailed, hdue]; rfl
        cases hsync : faults.sync with
        | false =>
          simp only [Bool.false_eq_true, if_false, if_true]
          exact .flushed hflushes hsync rfl
        | true =>
          simp only [if_true]
          split
          · exact .unflushed hflushes hsync rfl
          · exact .unflushed hflushes hsync rfl

theorem counts_of_appendTo {answer : Except Failure Nat} {after : AppendLog} {written : Bytes}
    (h : log.appendTo content faults record = (answer, after, written)) :
    Counts log faults after answer := by
  have hcounts := counts_appendTo log content faults record
  rwa [h] at hcounts

theorem policy_of_appendTo {answer : Except Failure Nat} {after : AppendLog} {written : Bytes}
    (h : log.appendTo content faults record = (answer, after, written)) :
    after.policy = log.policy := by
  cases hfailed : log.failed with
  | true =>
    rw [appendTo_of_failed hfailed] at h
    cases h
    rfl
  | false =>
    obtain ⟨_, happend | ⟨_, ⟨_, happend⟩ | ⟨_, happend⟩⟩⟩ :=
      appendTo_cases hfailed content faults record
    all_goals
      rw [happend] at h
      cases h
      rfl

/-- What it means for the next append to flush: if its write succeeds it fails with the flush, and
leaves nothing to be flushed otherwise. -/
structure FlushesNext (log : AppendLog) : Prop where
  fails : ∀ content faults record, faults.write = none → faults.sync = true →
    ∃ after written, log.appendTo content faults record =
      (.error (.file .deviceFull), after, written)
  clears : ∀ content faults record, faults.write = none → faults.sync = false →
    ∃ after written, log.appendTo content faults record = (.ok log.committed, after, written) ∧
      after.unsynced = 0

/-- An append that flushes does as the flush does, if its write succeeds. -/
theorem of_appendTo_of_flushes {answer : Except Failure Nat} {after : AppendLog} {written : Bytes}
    (h : log.flushes = true) (hwrite : faults.write = none)
    (happend : log.appendTo content faults record = (answer, after, written)) :
    faults.sync = true ∧ answer = .error (.file .deviceFull) ∨
      faults.sync = false ∧ answer = .ok log.committed ∧ after.unsynced = 0 := by
  cases counts_of_appendTo happend with
  | refused hfailed =>
    rw [flushes, hfailed] at h
    cases h
  | unwritten hstored => exact absurd hwrite hstored
  | unneeded hflushes =>
    rw [h] at hflushes
    cases hflushes
  | flushed _ hsync hcount => exact .inr ⟨hsync, rfl, hcount⟩
  | unflushed _ hsync => exact .inl ⟨hsync, rfl⟩

/-- **The next append flushes** if the log has not been given up and one more record makes a flush
due. -/
theorem flushesNext_iff : log.FlushesNext ↔ log.flushes = true := by
  constructor
  · intro h
    obtain ⟨after, written, happend⟩ := h.fails [] ⟨none, true, false⟩ [] rfl rfl
    cases counts_of_appendTo happend with
    | unwritten hstored => exact absurd rfl hstored
    | unflushed hflushes => exact hflushes
  · intro h
    constructor
    · intro content faults record hwrite hsync
      rcases happend : log.appendTo content faults record with ⟨answer, after, written⟩
      rcases of_appendTo_of_flushes h hwrite happend with ⟨_, rfl⟩ | ⟨hno, _⟩
      · exact ⟨after, written, rfl⟩
      · rw [hsync] at hno
        cases hno
    · intro content faults record hwrite hsync
      rcases happend : log.appendTo content faults record with ⟨answer, after, written⟩
      rcases of_appendTo_of_flushes h hwrite happend with ⟨hyes, _⟩ | ⟨_, rfl, hcount⟩
      · rw [hsync] at hyes
        cases hyes
      · exact ⟨after, written, rfl, hcount⟩

/-- An append that fails although its write succeeds has flushed, and leaves a flush that is due. -/
theorem isDue_of_unflushed {after : AppendLog} {written : Bytes}
    (h : log.appendTo content faults record = (.error (.file .deviceFull), after, written))
    (hwrite : faults.write = none) : after.policy.isDue after.unsynced = true := by
  rw [policy_of_appendTo h]
  cases counts_of_appendTo h with
  | unwritten hstored => exact absurd hwrite hstored
  | unflushed hflushes _ hcount =>
    rw [hcount]
    rw [flushes, Bool.and_eq_true] at hflushes
    exact hflushes.2

/-! ## Calls one after the other -/

/-- A call to a log that can change its count, with what goes wrong in it. -/
inductive Trial where
  | append (record : Bytes) (faults : Faults)
  | sync (faults : Faults)
  /-- The file is replaced by one with the given content, or it fails to be. -/
  | replace (content : Option Bytes)

/-- A log with the content of its file, and the number of records appended since the last flush that
has succeeded, or since the log has been opened or replaced. -/
structure Tally where
  log : AppendLog
  content : Bytes
  pending : Nat

namespace Tally

/-- What a call leaves. -/
def step (tally : Tally) : Trial → Tally
  | .append record faults =>
    match tally.log.appendTo tally.content faults record with
    | (.ok _, log, content) =>
      ⟨log, content, if tally.log.flushes then 0 else tally.pending + 1⟩
    | (.error _, log, content) => ⟨log, content, tally.pending⟩
  | .sync faults =>
    match tally.log.syncTo faults with
    | (.ok (), log) => ⟨log, tally.content, 0⟩
    | (.error _, log) => ⟨log, tally.content, tally.pending⟩
  | .replace (some content) => ⟨tally.log.replaced content.length, content, 0⟩
  | .replace none => tally

/-- What calls one after the other leave. -/
def run (tally : Tally) (calls : List Trial) : Tally :=
  calls.foldl step tally

/-- Whether a call ends in a flush that succeeds, or in a replacement. -/
def isCleared (tally : Tally) : Trial → Bool
  | .append record faults =>
    tally.log.flushes && (tally.log.appendTo tally.content faults record).1.isOk
  | .sync faults => (tally.log.syncTo faults).1.isOk
  | .replace content => content.isSome

/-- Whether none of the calls ends in a flush that succeeds, or in a replacement. -/
def IsQuiet (tally : Tally) : List Trial → Prop
  | [] => True
  | call :: rest => tally.isCleared call = false ∧ (tally.step call).IsQuiet rest

/-- Whether the log has a policy and a count that is not too small. -/
structure IsCounted (policy : SyncPolicy) (tally : Tally) : Prop where
  policy : tally.log.policy = policy
  pending_le : tally.pending ≤ tally.log.unsynced

variable {policy : SyncPolicy} {tally : Tally}

/-- **No call makes the count too small.** -/
theorem IsCounted.step (h : tally.IsCounted policy) (call : Trial) :
    (tally.step call).IsCounted policy := by
  have hle := h.pending_le
  cases call with
  | append record faults =>
    rcases happend : tally.log.appendTo tally.content faults record with ⟨answer, after, written⟩
    have hpolicy : after.policy = policy := (policy_of_appendTo happend).trans h.policy
    rw [Tally.step, happend]
    cases counts_of_appendTo happend with
    | refused _ hcount => exact ⟨hpolicy, hcount ▸ hle⟩
    | unwritten _ hcount => exact ⟨hpolicy, hcount ▸ hle⟩
    | unneeded hflushes _ hcount =>
      refine ⟨hpolicy, ?_⟩
      dsimp only
      rw [hflushes, hcount]
      exact Nat.succ_le_succ hle
    | flushed hflushes =>
      refine ⟨hpolicy, ?_⟩
      dsimp only
      rw [hflushes]
      exact Nat.zero_le _
    | unflushed _ _ hcount => exact ⟨hpolicy, hcount ▸ Nat.le_succ_of_le hle⟩
  | sync faults =>
    rw [Tally.step, syncTo]
    cases faults.sync with
    | true => exact h
    | false => exact ⟨h.policy, Nat.le_refl 0⟩
  | replace content =>
    cases content with
    | none => exact h
    | some content => exact ⟨h.policy, Nat.le_refl 0⟩

theorem IsCounted.run (h : tally.IsCounted policy) (calls : List Trial) :
    (tally.run calls).IsCounted policy := by
  induction calls generalizing tally with
  | nil => exact h
  | cons call rest ih => exact ih (h.step call)

/-- **An append that succeeds leaves no more than the policy allows.** -/
theorem IsCounted.allows (h : tally.IsCounted policy) {record : Bytes} {faults : Faults}
    {offset : Nat} {after : AppendLog} {written : Bytes}
    (happend : tally.log.appendTo tally.content faults record = (.ok offset, after, written)) :
    policy.Allows (tally.step (.append record faults)).log.unsynced ∧
      policy.Allows (tally.step (.append record faults)).pending := by
  have hunsynced : policy.Allows (tally.step (.append record faults)).log.unsynced := by
    rw [Tally.step, happend, ← h.policy]
    cases counts_of_appendTo happend with
    | unneeded _ hallows => exact hallows
    | flushed _ _ hcount =>
      dsimp only
      rw [hcount]
      exact SyncPolicy.allows_zero _
  exact ⟨hunsynced, hunsynced.mono (h.step _).pending_le⟩

/-- What is pending is reset by an append that has flushed, which is one that would have failed if
the flush had, and grows by one with any other that succeeds. -/
theorem pending_of_appendTo {record : Bytes} {faults : Faults} {offset : Nat} {after : AppendLog}
    {written : Bytes}
    (happend : tally.log.appendTo tally.content faults record = (.ok offset, after, written)) :
    (tally.log.FlushesNext ∧ faults.sync = false ∧
        (tally.step (.append record faults)).pending = 0) ∨
      (¬ tally.log.FlushesNext ∧
        (tally.step (.append record faults)).pending = tally.pending + 1) := by
  rw [Tally.step, happend, flushesNext_iff]
  cases counts_of_appendTo happend with
  | unneeded hflushes => exact .inr (by simp [hflushes])
  | flushed hflushes hsync => exact .inl (by simp [hflushes, hsync])

/-- **A flush that is due stays due** until one succeeds or the file is replaced. -/
theorem isDue_step {call : Trial} (hdue : tally.log.policy.isDue tally.log.unsynced = true)
    (hquiet : tally.isCleared call = false) :
    (tally.step call).log.policy.isDue (tally.step call).log.unsynced = true := by
  cases call with
  | append record faults =>
    rcases happend : tally.log.appendTo tally.content faults record with ⟨answer, after, written⟩
    rw [isCleared, happend] at hquiet
    have hstep : (tally.step (.append record faults)).log = after := by
      rw [Tally.step, happend]
      cases answer <;> rfl
    rw [hstep, policy_of_appendTo happend]
    cases counts_of_appendTo happend with
    | refused _ hcount => rwa [hcount]
    | unwritten _ hcount => rwa [hcount]
    | unneeded _ _ hcount => rw [hcount]; exact SyncPolicy.isDue_succ hdue
    | flushed hflushes => rw [hflushes] at hquiet; cases hquiet
    | unflushed _ _ hcount => rw [hcount]; exact SyncPolicy.isDue_succ hdue
  | sync faults =>
    rw [isCleared, syncTo] at hquiet
    rw [Tally.step, syncTo]
    cases hsync : faults.sync with
    | true => exact hdue
    | false => rw [hsync] at hquiet; cases hquiet
  | replace content =>
    cases content with
    | none => exact hdue
    | some content => cases hquiet

theorem isDue_run {calls : List Trial} (hdue : tally.log.policy.isDue tally.log.unsynced = true)
    (hquiet : tally.IsQuiet calls) :
    (tally.run calls).log.policy.isDue (tally.run calls).log.unsynced = true := by
  induction calls generalizing tally with
  | nil => exact hdue
  | cons call rest ih => exact ih (isDue_step hdue hquiet.1) hquiet.2

/-! ## From the opening of a log on -/

/-- What holds of a log and what it has not flushed, after any calls. -/
structure KeepsCount (policy : SyncPolicy) (tally : Tally) : Prop where
  /-- The count is not too small. -/
  counted : tally.IsCounted policy
  /-- What is pending is what has been appended since a flush that has succeeded. -/
  pending : ∀ record faults offset after written,
    tally.log.appendTo tally.content faults record = (.ok offset, after, written) →
      (tally.log.FlushesNext ∧ faults.sync = false ∧
          (tally.step (.append record faults)).pending = 0) ∨
        (¬ tally.log.FlushesNext ∧
          (tally.step (.append record faults)).pending = tally.pending + 1)
  /-- What a successful append leaves unflushed is allowed by the policy. -/
  allows : ∀ record faults offset after written,
    tally.log.appendTo tally.content faults record = (.ok offset, after, written) →
      policy.Allows (tally.step (.append record faults)).log.unsynced ∧
        policy.Allows (tally.step (.append record faults)).pending
  /-- If the flush of an append fails, the next append whose record is written flushes again, unless
  a flush or a replacement has succeeded before. There is none once the log has been given up. -/
  again : ∀ record faults after written,
    tally.log.appendTo tally.content faults record =
        (.error (.file .deviceFull), after, written) →
      faults.write = none → ∀ calls, (tally.step (.append record faults)).IsQuiet calls →
        ((tally.step (.append record faults)).run calls).log.failed = false →
          ((tally.step (.append record faults)).run calls).log.FlushesNext

/-- **A log keeps count of what it has not flushed**, whatever calls follow its opening and whatever
goes wrong in them. -/
theorem keepsCount_of_openAt {disk opened : Disk} {place : Place} {log : AppendLog}
    {report : Recovery} (h : openAt disk place policy = (.ok (log, report), opened))
    (content : Bytes) (calls : List Trial) : KeepsCount policy (run ⟨log, content, 0⟩ calls) := by
  have hopened : IsCounted policy ⟨log, content, 0⟩ := by
    unfold openAt at h
    split at h
    · cases h
    · split at h
      · cases h
      · cases h
        exact ⟨rfl, Nat.le_refl 0⟩
  have hcounted := hopened.run calls
  refine ⟨hcounted, fun record faults offset after written ↦ pending_of_appendTo,
    fun record faults offset after written ↦ hcounted.allows, ?_⟩
  intro record faults after written happend hwrite more hquiet hworking
  have hstep : ((run ⟨log, content, 0⟩ calls).step (.append record faults)).log = after := by
    rw [Tally.step, happend]
  have hdue := isDue_of_unflushed happend hwrite
  rw [← hstep] at hdue
  rw [flushesNext_iff, flushes, hworking, SyncPolicy.isDue_succ (isDue_run hdue hquiet)]
  rfl

/-- Calls to a log that is to be flushed after every two records: one is appended, and a write
fails. -/
def troubledCalls : List Trial :=
  [.append (Frame.ofBody [7]) Faults.none, .append (Frame.ofBody [1, 2]) ⟨some 3, false, false⟩]

/-- A flush that fails, so that its record is taken back. -/
def failingFlush : Faults := ⟨none, true, false⟩

/-- Where a flush fails behind these calls one record is pending and two have been counted, and when
another one has failed the next append still flushes. -/
theorem keepsCount_of_openAt_troubled :
    ∃ disk opened log report,
      openAt disk ⟨["log"], ⟨[], 0, ["log"]⟩⟩ (.every 2) = (.ok (log, report), opened) ∧
        ∃ tally failed : Tally, tally = run ⟨log, [], 0⟩ troubledCalls ∧
          KeepsCount (.every 2) tally ∧
          failed = tally.step (.append (Frame.ofBody [8]) failingFlush) ∧
          failed.pending = 1 ∧ failed.log.unsynced = 2 ∧
          (failed.run [.sync failingFlush]).log.FlushesNext := by
  let place : Place := ⟨["log"], ⟨[], 0, ["log"]⟩⟩
  let disk := Disk.empty.set place.path (.file [])
  have hfile : disk.get? place = some (.file []) :=
    Disk.get?_set_self (List.cons_ne_nil _ _) (by decide) Disk.empty _
  have hopen := openAt_of_file (List.cons_ne_nil _ _) hfile (.every 2)
  rw [Frame.frames_nil] at hopen
  have hkeeps := keepsCount_of_openAt hopen [] troubledCalls
  have hagain := hkeeps.again (Frame.ofBody [8]) failingFlush _ _ rfl rfl [.sync failingFlush]
    ⟨rfl, trivial⟩ rfl
  exact ⟨disk, _, _, _, hopen, _, _, rfl, hkeeps, rfl, rfl, rfl, hagain⟩

end Tally

end AppendLog

end TableStore
