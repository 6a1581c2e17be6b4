import TableStore.Proofs.Table.IndexAgreement
import TableStore.Proofs.Table.Ledger

/-!
# Torn logs

If the process stops while it appends, the log is found with any beginning of what was to be
written. The complete records in it are those that were complete before: no beginning of a record
reads as records. Opening the table therefore leads to the table and the disk that opening it on
just these records leads to, so that nothing done afterwards can tell a log that was torn from one
that never was.
-/

namespace TableStore

namespace Ledger

/-- The ledger after the items of records have been written one after the other. -/
def ofRecords (format : RecordFormat) (records : List Bytes) : Ledger :=
  records.foldl (fun ledger record ↦
    match format.decodeKey record, format.decode record with
    | .ok key, .ok item => put ledger key item
    | _, _ => ledger) []

/-- Whether every row is the record of an item. -/
def AreWritten (format : RecordFormat) (rows : List Row) : Prop :=
  ∀ row ∈ rows, format.IsRow row ∧ ∃ item, format.encode item = .ok row.2

/-- The rows of items read as the ledger of their records. -/
theorem reflects_ofRecords {format : RecordFormat} {rows : List Row}
    (h : AreWritten format rows) : Reflects format rows (ofRecords format (rows.map (·.2))) := by
  induction rows using List.reverseRecOn with
  | nil => rfl
  | append_singleton rows last ih =>
    obtain ⟨hlast, item, hencode⟩ := h last (by simp)
    have hrows := ih fun row hrow ↦ h row (by simp [hrow])
    have hledger : ofRecords format ((rows ++ [last]).map (·.2)) =
        put (ofRecords format (rows.map (·.2))) last.1 item := by
      rw [ofRecords, List.map_append, List.foldl_append, List.map_singleton, List.foldl_cons,
        List.foldl_nil, hlast.decodeKey, RecordFormat.decode_of_encode hencode]
      rfl
    rw [hledger]
    exact hrows.put hencode

/-- No operation leaves a row that is not the record of an item. -/
theorem AreWritten.serve {schema : Schema} {format : RecordFormat} (fault? : Option FileFault)
    {rows : List Row} (operation : Operation) (h : AreWritten format rows) :
    AreWritten format (TableStore.serve schema format fault? rows operation).2 := by
  rcases rows_of_serve schema format fault? rows operation with hsame | hlatest | hmore
  · rw [hsame]
    exact h
  · rw [hlatest]
    exact fun row hrow ↦ h row (mem_of_mem_latest hrow)
  · obtain ⟨item, record, key, hencode, hrow, hrows⟩ := hmore
    rw [hrows]
    intro row hmem
    rcases List.mem_append.mp hmem with hmem | hmem
    · exact h row hmem
    · rw [List.mem_singleton.mp hmem]
      exact ⟨hrow, item, hencode⟩

end Ledger

namespace Table

/-- A disk on which the log of a table holds these bytes. -/
def withLog (disk : Disk) (directory : Place) (content : Bytes) : Disk :=
  disk.set (logFile directory).path (.file content)

/-- What opening a table comes to whose log is found to be `torn`: the table `reopened`, whose log
holds the given records and nothing else. -/
structure Recovers (disk : Disk) (directory : Place) (schema : Schema) (format : RecordFormat)
    (policy : SyncPolicy) (torn : Bytes) (records : List Bytes) (reopened : Table) : Prop where
  /-- The table opens, and the file is left with the records. -/
  opens : openAt (withLog disk directory torn) directory schema.name policy =
    (.ok reopened, withLog disk directory records.flatten)
  /-- Opening it on just these records comes to the same. -/
  same : openAt (withLog disk directory records.flatten) directory schema.name policy =
    (.ok reopened, withLog disk directory records.flatten)
  file : (withLog disk directory records.flatten).get? (logFile directory) =
    some (.file records.flatten)
  /-- The log reports the records, their length, and the length of what has been cut off. -/
  report : AppendLog.openAt (withLog disk directory torn) (logFile directory) policy =
    (.ok (reopened.log, ⟨records.length, records.flatten.length,
      torn.length - records.flatten.length⟩), withLog disk directory records.flatten)
  /-- The next record is put behind them. -/
  append : ∀ record, (reopened.log.append (withLog disk directory records.flatten) record).1 =
    .ok records.flatten.length
  logBytes : reopened.stats.logBytes = records.flatten.length
  /-- Whatever is done with the table from now on, it answers what the items of the records say. -/
  answers : ∀ operations,
    (∀ fault, .error (.file fault) ∉
        (Session.run ⟨reopened, withLog disk directory records.flatten⟩ operations).1) ∨
      (compactFile directory).length ≤ Disk.textLimit →
    ∃ last, Session.run ⟨reopened, withLog disk directory records.flatten⟩ operations =
      (Ledger.answers schema format (Ledger.ofRecords format records) operations, some last)

variable {table : Table} {disk : Disk} {rows kept : List Row} {torn : Bytes}

/-- **A table recovers the complete records of its log**, whatever else is in it. -/
theorem Stores.recovers (h : table.Stores disk rows)
    (hdirectory : disk.node? table.directory.path = some .directory)
    (hwritten : Ledger.AreWritten table.format kept) (hframes : Frame.frames torn = kept.map (·.2))
    (policy : SyncPolicy) :
    ∃ reopened, Recovers disk table.directory table.schema table.format policy torn
      (kept.map (·.2)) reopened := by
  have hrows : ∀ row ∈ kept, table.format.IsRow row := fun row hrow ↦ (hwritten row hrow).1
  have hload : ∀ content, Descriptor.load (withLog disk table.directory content)
      (table.directory.onward schemaName) table.schema.name = .ok table.schema :=
    fun content ↦ load_congr (node?_set_logFile (schemaFile_ne_logFile _) _) h.descriptor
  have hstale : ∀ content, removeStale (withLog disk table.directory content) table.directory =
      .ok (withLog disk table.directory content) := by
    intro content
    apply removeStale_of_none
    rw [withLog, get?_compactFile_set_logFile, h.finished]
  have hfile : ∀ content, (withLog disk table.directory content).get?
      (logFile table.directory) = some (.file content) :=
    fun content ↦ get?_set_logFile h.file content
  have hagain : ∀ content, (withLog disk table.directory content).set
      (logFile table.directory).path (.file (concatenated kept)) =
        withLog disk table.directory (concatenated kept) :=
    fun content ↦ Disk.set_set _ _ _ _
  have hopens : ∀ content, Frame.frames content = kept.map (·.2) →
      openAt (withLog disk table.directory content) table.directory table.schema.name policy =
        (.ok ⟨table.schema, table.format, table.directory,
            ⟨logFile table.directory, policy, (concatenated kept).length, 0, false⟩,
            indexFrom 0 ∅ kept⟩, withLog disk table.directory (concatenated kept)) := by
    intro content hcontent
    rw [openAt_of_rows (hload content) h.format (hstale content) (hfile content) hcontent hrows
      policy, hagain]
  have hstores := stores_of_rows (hload torn) h.format (hstale torn) (hfile torn) hrows policy
  rw [hagain] at hstores
  refine ⟨_, hopens torn hframes, hopens _ (frames_concatenated hrows), hfile _, ?_, ?_, rfl, ?_⟩
  · rw [AppendLog.openAt_of_file (logFile_ne_nil _) (hfile torn), Recovery.inspect_eq, hframes]
    exact congrArg _ (hagain torn)
  · intro record
    obtain ⟨_, happend⟩ :=
      AppendLog.append_of_file hstores.working hstores.fileAtPlace record
    exact congrArg Prod.fst happend
  · intro operations hanswers
    have hstill : (withLog disk table.directory (concatenated kept)).node?
        table.directory.path = some .directory := by
      rw [withLog, node?_set_logFile (Place.path_enter_ne_self _ _).symm, hdirectory]
    exact Session.run_of_reflects hstores rfl rfl rfl hstill
      (Ledger.reflects_ofRecords hwritten) operations hanswers

/-- A log cut to any length leaves as many records as fit that length. -/
theorem Stores.recovers_take (h : table.Stores disk rows)
    (hdirectory : disk.node? table.directory.path = some .directory)
    (hwritten : Ledger.AreWritten table.format rows) (length : Nat) (policy : SyncPolicy) :
    ∃ count ≤ (rows.map (·.2)).length,
      (∀ more ≤ (rows.map (·.2)).length,
        ((rows.map (·.2)).take more).flatten.length ≤ length ↔ more ≤ count) ∧
      ∃ reopened, Recovers disk table.directory table.schema table.format policy
        ((rows.map (·.2)).flatten.take length) ((rows.map (·.2)).take count) reopened := by
  obtain ⟨count, hcount, hlargest⟩ := Frame.exists_count (rows.map (·.2)) length
  have hfit : ((rows.map (·.2)).take count).flatten.length ≤ length :=
    (hlargest count hcount).mpr (Nat.le_refl count)
  have hnext : ∀ _ : count < (rows.map (·.2)).length,
      length < ((rows.map (·.2)).take (count + 1)).flatten.length := by
    intro hless
    have hmore := hlargest (count + 1) hless
    omega
  have hframes := Frame.frames_take_flatten h.agrees.isFrame hfit hnext
  have hkept : Ledger.AreWritten table.format (rows.take count) :=
    fun row hrow ↦ hwritten row (List.mem_of_mem_take hrow)
  refine ⟨count, hcount, hlargest, ?_⟩
  rw [← List.map_take] at hframes ⊢
  exact h.recovers hdirectory hkept hframes policy

/-- A strict beginning of one more record leaves the records before it. -/
theorem Stores.recovers_append (h : table.Stores disk rows)
    (hdirectory : disk.node? table.directory.path = some .directory)
    (hwritten : Ledger.AreWritten table.format rows) (item : Item) (record : Bytes)
    (hencode : table.format.encode item = .ok record) (begun : Nat)
    (hbegun : begun < record.length) (policy : SyncPolicy) :
    ∃ reopened, Recovers disk table.directory table.schema table.format policy
      ((rows.map (·.2)).flatten ++ record.take begun) (rows.map (·.2)) reopened := by
  apply h.recovers hdirectory hwritten
  have hnone : Frame.split? (record.take begun) = none :=
    Frame.split?_take_frame (RecordFormat.isFrame_of_encode hencode) hbegun
  rw [Frame.frames_flatten_append h.agrees.isFrame, Frame.frames_of_none hnone, List.append_nil]

end Table

/-- **A table whose log is torn comes back with the records that are complete.** Let a table be
created and anything be done with it. If its log is found cut to any length, it opens with as many
records as fit that length; if it is found with a strict beginning of one more record behind it, it
opens as if that record had never been begun. -/
theorem Session.recovers_of_create {disk created : Disk} {directory : Place} {schema : Schema}
    {policy : SyncPolicy} {table : Table} (htree : disk.IsTree)
    (hcreate : Table.create disk directory schema policy = (.ok table, created))
    (operations : List Operation) :
    ∃ format answers last records, RecordFormat.ofSchema schema = .ok format ∧
      Session.run ⟨table, created⟩ operations = (answers, some last) ∧
      last.disk.get? (Table.logFile directory) = some (.file records.flatten) ∧
      Table.withLog last.disk directory records.flatten = last.disk ∧
      (∀ record ∈ records, Frame.IsFrame record) ∧
      (∀ length ≤ records.flatten.length, ∀ policy, ∃ count ≤ records.length,
        (∀ more ≤ records.length,
          (records.take more).flatten.length ≤ length ↔ more ≤ count) ∧
        ∃ reopened, Table.Recovers last.disk directory schema format policy
          (records.flatten.take length) (records.take count) reopened) ∧
      ∀ item record, format.encode item = .ok record → ∀ begun < record.length, ∀ policy,
        ∃ reopened, Table.Recovers last.disk directory schema format policy
          (records.flatten ++ record.take begun) records reopened := by
  obtain ⟨hstores, rfl, rfl, hdirectory⟩ := Table.stores_of_create htree hcreate
  have hserve : ∀ fault? rows operation, Ledger.AreWritten table.format rows →
      Ledger.AreWritten table.format (serve table.schema table.format fault? rows operation).2 :=
    fun fault? _ operation hwritten ↦ hwritten.serve fault? operation
  have hempty : Ledger.AreWritten table.format [] := by simp [Ledger.AreWritten]
  obtain ⟨answers, last, rows, hrun, hlast, hwritten, hcontinues⟩ :=
    run_of_stores hserve hstores rfl rfl hempty operations
  have hstill : last.disk.node? last.table.directory.path = some .directory := by
    rw [hcontinues.directory, hcontinues.elsewhere _ (Place.path_enter_ne_self _ _).symm
      (Place.path_enter_ne_self _ _).symm]
    exact hdirectory
  have hitems : Ledger.AreWritten last.table.format rows := by
    rw [hcontinues.format]
    exact hwritten
  have hfile : last.disk.get? (Table.logFile table.directory) =
      some (.file (rows.map (·.2)).flatten) := by
    rw [← hcontinues.directory]
    exact hlast.file
  have hcut := hlast.recovers_take hstill hitems
  have hbegun := hlast.recovers_append hstill hitems
  rw [hcontinues.schema, hcontinues.format, hcontinues.directory] at hcut hbegun
  exact ⟨table.format, answers, last, rows.map (·.2), hstores.format, hrun, hfile,
    Disk.set_self (Table.logFile_ne_nil _) (Disk.get?_eq_some_iff.mp hfile).2,
    hlast.agrees.isFrame, fun length _ policy ↦ hcut length policy, hbegun⟩

/-- A table of orders on an empty disk, whose log is found cut after any number of bytes. -/
theorem Session.recovers_of_create_orders :
    Disk.empty.IsTree ∧ ∃ table created,
      Table.create Disk.empty ordersPlace RecordFormat.ordersSchema .never = (.ok table, created) ∧
        ∃ format answers last, ∃ records : List Bytes,
          RecordFormat.ofSchema RecordFormat.ordersSchema = .ok format ∧
            Session.run ⟨table, created⟩ [.put RecordFormat.orderItem, .compact] =
              (answers, some last) ∧
            last.disk.get? (Table.logFile ordersPlace) = some (.file records.flatten) ∧
            ∀ length ≤ records.flatten.length, ∃ count reopened,
              Table.Recovers last.disk ordersPlace RecordFormat.ordersSchema format .never
                (records.flatten.take length) (records.take count) reopened := by
  have hcreates : (Table.create Disk.empty ordersPlace RecordFormat.ordersSchema .never).1.isOk =
      true := by decide +kernel
  cases hcreate : Table.create Disk.empty ordersPlace RecordFormat.ordersSchema .never with
  | mk outcome created =>
    cases outcome with
    | error e => rw [hcreate] at hcreates; cases hcreates
    | ok table =>
      obtain ⟨format, answers, last, records, hformat, hrun, hfile, _, _, htorn, _⟩ :=
        Session.recovers_of_create Disk.isTree_empty hcreate [.put RecordFormat.orderItem, .compact]
      refine ⟨Disk.isTree_empty, table, created, rfl, format, answers, last, records, hformat,
        hrun, hfile, ?_⟩
      intro length hlength
      obtain ⟨count, _, _, reopened, hrecovers⟩ := htorn length hlength .never
      exact ⟨count, reopened, hrecovers⟩

end TableStore
