import TableStore.Proofs.Table.Session

/-!
# Compactions that stop half way

Until the copy of a compaction takes the place of the log, the log is as it was, and whatever is in
the file of the copy is thrown away when the table is opened. From then on the log holds the rows
that count, and no others. Both logs have the same rows that count, in the same order, and nothing
that is answered depends on more. So wherever a compaction stops, the table that is opened next
cannot be told from the one that was never compacted.
-/

namespace TableStore

/-! ## What is answered depends on the rows that count -/

theorem latest_append_congr {rows others : List Row} (h : latest rows = latest others)
    (last : Row) : latest (rows ++ [last]) = latest (others ++ [last]) := by
  have hconcat : ∀ before : List Row, latest (before ++ [last]) =
      (latest before).filter (fun row ↦ row.1 ≠ last.1) ++ [last] :=
    fun before ↦ latestBy_concat (fun row : Row ↦ row.1) before last
  rw [hconcat, hconcat, h]

/-- **An operation does not tell logs with the same rows that count**, and leaves such logs. -/
theorem serve_congr (schema : Schema) (format : RecordFormat) (fault? : Option FileFault)
    {rows others : List Row} (h : latest rows = latest others) (operation : Operation) :
    (serve schema format fault? rows operation).1 =
        (serve schema format fault? others operation).1 ∧
      latest (serve schema format fault? rows operation).2 =
        latest (serve schema format fault? others operation).2 := by
  cases operation with
  | put item =>
    dsimp only [serve]
    cases format.encode item with
    | error e => exact ⟨rfl, h⟩
    | ok record =>
      dsimp only
      cases format.decodeKey record with
      | error e => exact ⟨rfl, h⟩
      | ok key => exact ⟨rfl, latest_append_congr h (key, record)⟩
  | get key =>
    dsimp only [serve]
    cases format.encodeKey key with
    | error e => exact ⟨rfl, h⟩
    | ok bytes =>
      dsimp only
      have hfind : (latest rows).find? (·.1 = bytes) = (latest others).find? (·.1 = bytes) := by
        rw [h]
      rw [hfind]
      cases (latest others).find? (·.1 = bytes) with
      | none => exact ⟨rfl, h⟩
      | some row => exact ⟨rfl, h⟩
  | filter predicate =>
    dsimp only [serve]
    cases predicate.check schema with
    | error e => exact ⟨rfl, h⟩
    | ok _ => exact ⟨by rw [h], h⟩
  | compact =>
    cases fault? with
    | some fault => exact ⟨rfl, h⟩
    | none =>
      dsimp only [serve]
      rw [h]
      exact ⟨rfl, rfl⟩
  | sync => exact ⟨rfl, h⟩
  | stats => exact ⟨by dsimp only [serve]; rw [h], h⟩
  | reopen policy => exact ⟨rfl, h⟩

namespace Session

/-- What an operation on a table in a directory that is there does. -/
theorem step_of_holds {session : Session} {schema : Schema} {format : RecordFormat}
    {directory : Place} {rows : List Row} (hformat : RecordFormat.ofSchema schema = .ok format)
    (h : session.table.Holds session.disk schema directory rows) (operation : Operation) :
    ∃ after : Session, session.step operation =
        ((serve schema format (if Disk.textLimit < (Table.compactFile directory).length then
          some .nameTooLong else none) rows operation).1, some after) ∧
      after.table.Holds after.disk schema directory (serve schema format
        (if Disk.textLimit < (Table.compactFile directory).length then
          some .nameTooLong else none) rows operation).2 := by
  obtain ⟨after, hstep, hstores, hcontinues⟩ := step_of_stores h.stores operation
  rw [h.schema, h.format hformat, h.place,
    Table.entryFault?_compactFile_eq h.isDirectory] at hstep hstores
  exact ⟨after, hstep, h.continues hcontinues hstores⟩

/-- **Two tables with the same rows that count answer alike**, whatever is done with both. -/
theorem answers_congr {schema : Schema} {directory : Place} {session other : Session}
    {rows others : List Row} (h : session.table.Holds session.disk schema directory rows)
    (hother : other.table.Holds other.disk schema directory others)
    (hsame : latest rows = latest others) (operations : List Operation) :
    (session.run operations).1 = (other.run operations).1 := by
  have hformat : RecordFormat.ofSchema schema = .ok session.table.format := by
    rw [← h.stores.format, h.schema]
  induction operations generalizing session other rows others with
  | nil => rfl
  | cons operation rest ih =>
    obtain ⟨after, hstep, hafter⟩ := step_of_holds hformat h operation
    obtain ⟨after', hstep', hafter'⟩ := step_of_holds hformat hother operation
    obtain ⟨hanswer, hlatest⟩ := serve_congr schema session.table.format
      (if Disk.textLimit < (Table.compactFile directory).length then some .nameTooLong else none)
      hsame operation
    have hrest := ih hafter hafter' hlatest (hafter.format hformat ▸ hformat)
    rw [run_cons hstep, run_cons hstep', hanswer, hrest]

end Session

/-! ## Where a compaction can stop -/

namespace Table

/-- How the disk is found when a compaction has stopped. -/
inductive CompactionStops (table : Table) (disk : Disk) : Disk → Prop where
  /-- The copy has not yet taken the place of the log, and anything is in its file. -/
  | copying {content : Bytes} {found : Disk}
      (h : disk.perform (copySteps table.directory content) = (.ok (), found)) :
      CompactionStops table disk found
  /-- The copy has taken the place of the log. -/
  | replaced {report : Compaction} {after : Table} {found : Disk}
      (h : table.compact disk = (.ok report, after, found)) : CompactionStops table disk found

variable {table : Table} {disk found : Disk} {rows : List Row}

/-- A copy that has been made could be made. -/
theorem Stores.entryFault?_of_copySteps (h : table.Stores disk rows) {content : Bytes}
    (hperform : disk.perform (copySteps table.directory content) = (.ok (), found)) :
    disk.entryFault? (compactFile table.directory) = none := by
  cases hfault : disk.entryFault? (compactFile table.directory) with
  | none => rfl
  | some fault =>
    have hcreate : disk.createFile (compactFile table.directory) = .error fault := by
      rw [Disk.createFile_of_none (compactFile_ne_nil _) h.finished, hfault]
    rw [copySteps, Disk.perform, Disk.Step.apply, hcreate] at hperform
    cases hperform

/-- A copy that has not taken the place of the log is thrown away. -/
theorem removeStale_of_copy {directory : Place}
    (hgone : disk.get? (compactFile directory) = none)
    (hlength : (compactFile directory).length ≤ Disk.textLimit) (content : Bytes) :
    removeStale (disk.set (compactFile directory).path (.file content)) directory = .ok disk := by
  have hnothing : disk.node? (compactFile directory).path = none := by
    rw [← hgone, Disk.get?, if_neg (Nat.not_lt.mpr hlength)]
  have hcopy := Disk.get?_set_self (compactFile_ne_nil directory) hlength disk (.file content)
  have hthere : (disk.set (compactFile directory).path (.file content)).has
      (compactFile directory) = true := by
    rw [Disk.has, hcopy]
    rfl
  rw [removeStale, if_pos hthere, Disk.removeFile, Disk.find_of_get? hcopy]
  dsimp only
  rw [Disk.erase_set (compactFile_ne_nil _) hnothing]

/-- **A table whose compaction has stopped opens without a trace of it**: on the disk that it was on
before, or with the rows that count. -/
theorem Holds.openAt_of_stopped {schema : Schema} {directory : Place}
    (h : table.Holds disk schema directory rows) (hstops : table.CompactionStops disk found)
    (policy : SyncPolicy) :
    ∃ resumed opened others, openAt found directory schema.name policy = (.ok resumed, opened) ∧
      resumed.Holds opened schema directory others ∧ latest others = latest rows ∧
      opened.node? (compactFile directory).path = none := by
  obtain ⟨hstores, rfl, rfl, hdirectory⟩ := h
  have hvisible : disk.entryFault? (compactFile table.directory) = none →
      ∀ opened : Disk, opened.get? (compactFile table.directory) = none →
        opened.node? (compactFile table.directory).path = none := by
    intro hfits opened hgone
    rwa [Disk.get?, if_neg (Nat.not_lt.mpr (Disk.of_entryFault?_eq_none hfits).1)] at hgone
  cases hstops with
  | @copying content _ hperform =>
    have hfits := hstores.entryFault?_of_copySteps hperform
    rw [perform_copySteps hstores.finished hfits] at hperform
    cases hperform
    have hload : Descriptor.load (disk.set (compactFile table.directory).path (.file content))
        (table.directory.onward schemaName) table.schema.name = .ok table.schema := by
      refine load_congr ?_ hstores.descriptor
      rw [Disk.node?_set (compactFile_ne_nil _), if_neg (schemaFile_ne_compactFile _).symm]
    have hlength := (Disk.of_entryFault?_eq_none hfits).1
    have hstale := removeStale_of_copy hstores.finished hlength content
    have hframes := frames_concatenated hstores.isRow
    have hopen := openAt_of_rows hload hstores.format hstale hstores.file hframes
      hstores.isRow policy
    have hresumed := stores_of_rows hload hstores.format hstale hstores.file hstores.isRow policy
    have hsame : disk.set (logFile table.directory).path (.file (concatenated rows)) = disk :=
      Disk.set_self (logFile_ne_nil _) (Disk.get?_eq_some_iff.mp hstores.file).2
    rw [hsame] at hopen hresumed
    exact ⟨_, disk, rows, hopen, ⟨hresumed, rfl, rfl, hdirectory⟩, rfl,
      hvisible hfits disk hstores.finished⟩
  | replaced hcompact =>
    have hfits : disk.entryFault? (compactFile table.directory) = none := by
      cases hfault : disk.entryFault? (compactFile table.directory) with
      | none => rfl
      | some fault =>
        rw [hstores.compact_of_fault hfault] at hcompact
        cases hcompact
    obtain ⟨after, left, hcompacts, hafter, hcontinues⟩ := hstores.compact hfits
    rw [hcompacts] at hcompact
    cases hcompact
    have hkept := Holds.continues ⟨hstores, rfl, rfl, hdirectory⟩ hcontinues hafter
    obtain ⟨resumed, hopen, hresumed, hgoesOn⟩ := hafter.reopen policy
    rw [hcontinues.directory, hcontinues.schema] at hopen
    refine ⟨resumed, _, latest rows, hopen, hkept.continues hgoesOn hresumed, latest_latest rows,
      ?_⟩
    have hgone := hafter.finished
    rw [hcontinues.directory] at hgone
    exact hvisible hfits _ hgone

end Table

namespace Session

/-- What opening a table comes to that was being compacted: nothing tells it from the table that was
never compacted. -/
structure Resumes (session : Session) (directory : Place) (found : Disk) (policy : SyncPolicy)
    (resumed : Session) : Prop where
  opens : Table.openAt found directory session.table.schema.name policy =
    (.ok resumed.table, resumed.disk)
  /-- The file of the copy is not there. -/
  finished : resumed.disk.node? (Table.compactFile directory).path = none
  get : ∀ key, resumed.table.get resumed.disk key = session.table.get session.disk key
  filter : ∀ predicate,
    resumed.table.filter resumed.disk predicate = session.table.filter session.disk predicate
  liveKeys : resumed.table.stats.liveKeys = session.table.stats.liveKeys
  /-- Whatever is done with both from now on, they answer alike. -/
  answers : ∀ operations : List Operation,
    (resumed.run operations).1 = (session.run operations).1

theorem resumes_of_holds {session : Session} {schema : Schema} {directory : Place}
    {rows : List Row} {found : Disk}
    (h : session.table.Holds session.disk schema directory rows)
    (hstops : session.table.CompactionStops session.disk found) (policy : SyncPolicy) :
    ∃ resumed, Resumes session directory found policy resumed := by
  obtain ⟨resumed, opened, others, hopen, hresumed, hsame, hgone⟩ :=
    h.openAt_of_stopped hstops policy
  have hformat : resumed.format = session.table.format := by
    apply hresumed.format
    rw [← h.stores.format, h.schema]
  refine ⟨⟨resumed, opened⟩, ?_, hgone, ?_, ?_, ?_, answers_congr hresumed h hsame⟩
  · rw [h.schema]
    exact hopen
  · intro key
    rw [h.stores.get, hresumed.stores.get, hformat, hsame]
  · intro predicate
    rw [h.stores.filter, hresumed.stores.filter, hformat, hsame, h.schema, hresumed.schema]
  · rw [h.stores.stats, hresumed.stores.stats, hsame]

/-! ## Tables that can be reached -/

/-- How the use of a table begins: it has just been created, or opened on any log. -/
inductive Begins (directory : Place) : Session → Prop where
  | created {disk created : Disk} {schema : Schema} {policy : SyncPolicy} {table : Table}
      (htree : disk.IsTree)
      (h : Table.create disk directory schema policy = (.ok table, created)) :
      Begins directory ⟨table, created⟩
  | opened {disk opened : Disk} {name : String} {policy : SyncPolicy} {content : Bytes}
      {table : Table} (htree : disk.IsTree)
      (hfile : disk.get? (Table.logFile directory) = some (.file content))
      (h : Table.openAt disk directory name policy = (.ok table, opened)) :
      Begins directory ⟨table, opened⟩

theorem Begins.exists_holds {directory : Place} {session : Session} (h : Begins directory session) :
    ∃ rows, session.table.Holds session.disk session.table.schema directory rows := by
  cases h with
  | created htree hcreate =>
    obtain ⟨hstores, _, hplace, hdirectory⟩ := Table.stores_of_create htree hcreate
    exact ⟨[], hstores, rfl, hplace, hdirectory⟩
  | opened htree hfile hopen =>
    obtain ⟨rows, _, hstores, hplace⟩ := Table.stores_of_openAt hfile hopen
    obtain ⟨_, hparent⟩ := htree.parent hfile nofun
    refine ⟨rows, hstores, rfl, hplace, ?_⟩
    rw [Table.logFile, Place.dropLast_path_enter] at hparent
    rw [Table.elsewhere_of_openAt hfile hopen (Place.path_enter_ne_self _ _).symm
      (Place.path_enter_ne_self _ _).symm, hparent]

/-- **A compaction can stop at any point.** Let a table be created, or opened on any log, and
anything be done with it. If it is found as a compaction leaves it that has stopped before or after
its copy took the place of the log, then it opens, and answers as if it had never been compacted. -/
theorem resumes_of_compactionStops {directory : Place} {start : Session}
    (hstart : Begins directory start) (operations : List Operation) :
    ∃ answers last, start.run operations = (answers, some last) ∧
      last.table.directory = directory ∧
      ∀ found, last.table.CompactionStops last.disk found → ∀ policy,
        ∃ resumed, Resumes last directory found policy resumed := by
  obtain ⟨rows, h⟩ := hstart.exists_holds
  obtain ⟨answers, last, others, hrun, hlast, _, hcontinues⟩ :=
    run_of_stores (P := fun _ ↦ True) (fun _ _ _ _ ↦ trivial) h.stores rfl rfl trivial operations
  have hholds := h.continues hcontinues hlast
  exact ⟨answers, last, hrun, hholds.place, fun found hstops policy ↦
    resumes_of_holds hholds hstops policy⟩

/-- Whether the first bytes of a copy of a table with one row can be written, and the table can be
compacted. -/
def stopsAtBothEnds : Bool :=
  match Table.create Disk.empty ordersPlace RecordFormat.ordersSchema .never with
  | (.ok table, created) =>
    match (run ⟨table, created⟩ [.put RecordFormat.orderItem]).2 with
    | some last =>
      (last.disk.perform (Table.copySteps ordersPlace [1, 2, 3])).1.isOk &&
        (last.table.compact last.disk).1.isOk
    | none => false
  | (.error _, _) => false

/-- A table of orders with one row, whose compaction is stopped before and after the rename. -/
theorem resumes_of_compactionStops_orders :
    ∃ start last answers copied replaced, Begins ordersPlace start ∧
      start.run [.put RecordFormat.orderItem] = (answers, some last) ∧
      last.table.CompactionStops last.disk copied ∧
      last.table.CompactionStops last.disk replaced ∧
      (∃ resumed, Resumes last ordersPlace copied .never resumed) ∧
      ∃ resumed, Resumes last ordersPlace replaced .never resumed := by
  have hruns : stopsAtBothEnds = true := by decide +kernel
  cases hcreate : Table.create Disk.empty ordersPlace RecordFormat.ordersSchema .never with
  | mk outcome created =>
    cases outcome with
    | error e => rw [stopsAtBothEnds, hcreate] at hruns; cases hruns
    | ok table =>
      have hbegins : Begins ordersPlace ⟨table, created⟩ := .created Disk.isTree_empty hcreate
      obtain ⟨answers, last, hrun, hplace, hresumes⟩ :=
        resumes_of_compactionStops hbegins [.put RecordFormat.orderItem]
      rw [stopsAtBothEnds, hcreate] at hruns
      dsimp only at hruns
      rw [hrun] at hruns
      dsimp only at hruns
      rw [Bool.and_eq_true] at hruns
      obtain ⟨hcopies, hcompacts⟩ := hruns
      cases hperform : last.disk.perform (Table.copySteps ordersPlace [1, 2, 3]) with
      | mk outcome copied =>
        cases outcome with
        | error fault => rw [hperform] at hcopies; cases hcopies
        | ok _ =>
          cases hcompact : last.table.compact last.disk with
          | mk outcome replaced =>
            cases outcome with
            | error e => rw [hcompact] at hcompacts; cases hcompacts
            | ok report =>
              have hcopying : last.table.CompactionStops last.disk copied :=
                .copying (by rw [hplace]; exact hperform)
              have hreplaced : last.table.CompactionStops last.disk replaced.2 :=
                .replaced hcompact
              exact ⟨⟨table, created⟩, last, answers, copied, replaced.2, hbegins, hrun, hcopying,
                hreplaced, hresumes copied hcopying .never, hresumes replaced.2 hreplaced .never⟩

end Session

end TableStore
