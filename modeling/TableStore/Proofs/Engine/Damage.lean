import TableStore.Proofs.Engine.Reopening
import TableStore.Proofs.Table.Damage

/-!
# Opening an engine over damaged logs

An engine opens only with all its tables. A directory with a descriptor is a table of it, whether
that table can be opened or not, and one that cannot be opened keeps the engine from opening. What
keeps a table from opening is that its schema cannot be loaded, that there is a directory at the
name of one of its files, or that a complete record in its log has no key.
-/

namespace TableStore

/-! ## One table -/

/-- The index of a log without records is empty, whatever stands there. -/
theorem Index.rebuild_of_committed_eq_zero {log : AppendLog} {disk : Disk} {format : RecordFormat}
    {node : Node} (hthere : disk.get? log.place = some node) (hcommitted : log.committed = 0) :
    rebuild log disk format = (.ok 0, ∅) := by
  have hnext : (Scanner.start 0 0).next (node.content?.map (·.drop 0)) =
      (none, Scanner.start 0 0) := rfl
  have hscan : log.scan disk 0 log.committed = .ok ([], Scanner.start 0 0) := by
    rw [AppendLog.scan, Disk.find_of_get? hthere, hcommitted]
    dsimp only
    rw [AppendLog.scanner, hcommitted, Nat.min_self, Scanner.runOn]
    exact congrArg Except.ok (Scanner.run_of_next_none hnext)
  rw [rebuild, hscan]
  rfl

namespace Table

variable {disk : Disk} {directory : Place} {name : String}

/-- Whether what is in a directory can be opened as a table with a given name. -/
structure IsReadable (disk : Disk) (directory : Place) (name : String) : Prop where
  /-- The schema can be loaded, and no complete record of the log is damaged. -/
  keys : ∃ schema format, Descriptor.load disk (directory.onward schemaName) name = .ok schema ∧
    RecordFormat.ofSchema schema = .ok format ∧
    ∀ content records, disk.get? (logFile directory) = some (.file content) →
      Frame.IsLongest records content →
        ∀ record ∈ records, ∃ key, format.decodeKey record = .ok key
  log : disk.get? (logFile directory) ≠ some .directory
  copy : disk.get? (compactFile directory) ≠ some .directory

/-- A table opens on a log that opens as an empty one. -/
theorem openAt_of_emptyLog {policy : SyncPolicy} {schema : Schema} {format : RecordFormat}
    {cleared left : Disk} {report : Recovery} {node : Node}
    (hload : Descriptor.load disk (directory.onward schemaName) name = .ok schema)
    (hformat : RecordFormat.ofSchema schema = .ok format)
    (hstale : removeStale disk directory = .ok cleared)
    (hopen : AppendLog.openAt cleared (logFile directory) policy =
      (.ok (⟨logFile directory, policy, 0, 0, false⟩, report), left))
    (hthere : left.get? (logFile directory) = some node) :
    openAt disk directory name policy =
      (.ok ⟨schema, format, directory, ⟨logFile directory, policy, 0, 0, false⟩, ∅⟩, left) := by
  have hrebuild : Index.rebuild ⟨logFile directory, policy, 0, 0, false⟩ left format = (.ok 0, ∅) :=
    Index.rebuild_of_committed_eq_zero hthere rfl
  exact openAt_eq_ok_iff.mpr ⟨schema, format, cleared, _, _, _, _, hload, hformat, hstale, hopen,
    hrebuild, rfl⟩

/-- A table that opens is readable. -/
theorem isReadable_of_openAt {policy : SyncPolicy} {table : Table} {opened : Disk}
    (h : openAt disk directory name policy = (.ok table, opened)) :
    IsReadable disk directory name := by
  obtain ⟨schema, format, cleared, _, _, _, _, hload, hformat, hstale, _, _, rfl⟩ :=
    openAt_eq_ok_iff.mp h
  refine ⟨⟨schema, format, hload, hformat, ?_⟩, get?_logFile_ne_directory h,
    exists_removeStale_iff.mp ⟨cleared, hstale⟩⟩
  intro content records hfile hlongest
  have hreports := reportsDamage_of_file hload hformat hstale
    ((get?_logFile_of_removeStale hstale).trans hfile) policy
  rw [h, ← Frame.isLongest_iff.mp hlongest] at hreports
  exact hreports.opens_iff.mp ⟨_, rfl⟩

/-- A readable table opens, whatever stands at the name of its log. -/
theorem IsReadable.exists_openAt (h : IsReadable disk directory name)
    (hdirectory : disk.node? directory.path = some .directory) (policy : SyncPolicy) :
    ∃ table opened, openAt disk directory name policy = (.ok table, opened) := by
  obtain ⟨⟨schema, format, hload, hformat, hkeys⟩, hlog, hcopy⟩ := h
  obtain ⟨cleared, hstale⟩ := exists_removeStale_iff.mpr hcopy
  obtain ⟨_, helsewhere⟩ := of_removeStale_eq_ok hstale
  have hsame := get?_logFile_of_removeStale hstale
  cases hget : disk.get? (logFile directory) with
  | none =>
    have hstill : cleared.node? directory.path = some .directory :=
      (helsewhere _ (Place.path_enter_ne_self _ _).symm).trans hdirectory
    have hdescribed := load_congr (helsewhere _ (schemaFile_ne_compactFile _)) hload
    have hopen := openLog_of_none hstill hdescribed (hsame.trans hget) policy
    have hmade := Disk.get?_set_self (logFile_ne_nil directory)
      (length_logFile_le_of_load hload) cleared (.file [])
    exact ⟨_, _, openAt_of_emptyLog hload hformat hstale hopen hmade⟩
  | some node =>
    cases node with
    | directory => exact absurd hget hlog
    | fullDevice =>
      have hfull := hsame.trans hget
      have hopen := AppendLog.openAt_of_fullDevice hfull policy
      exact ⟨_, _, openAt_of_emptyLog hload hformat hstale hopen hfull⟩
    | file content =>
      have hreports := reportsDamage_of_file hload hformat hstale (hsame.trans hget) policy
      obtain ⟨table, htable⟩ := hreports.opens_iff.mpr
        (hkeys content _ hget (Frame.isLongest_iff.mpr rfl))
      exact ⟨table, _, Prod.ext htable rfl⟩

/-- **A table opens if and only if it is readable.** -/
theorem exists_openAt_iff (hdirectory : disk.node? directory.path = some .directory)
    (policy : SyncPolicy) :
    (∃ table opened, openAt disk directory name policy = (.ok table, opened)) ↔
      IsReadable disk directory name :=
  ⟨fun ⟨_, _, hopen⟩ ↦ isReadable_of_openAt hopen, fun h ↦ h.exists_openAt hdirectory policy⟩

end Table

/-! ## All tables -/

namespace Engine

open Disk

variable {disk prepared : Disk} {current : Path} {config : Config} {root : Place} {name : String}

/-- What opening an engine comes to if what is in its data directory is on this disk. -/
structure ReportsDamage (prepared : Disk) (config : Config) (root : Place)
    (outcome : Except Failure Engine) (left : Disk) : Prop where
  /-- Every directory with a descriptor has to be readable as a table. -/
  opens_iff : (∃ engine, outcome = .ok engine) ↔
    ∀ name, prepared.node? (root.enter name).path = some .directory →
      prepared.has (Table.schemaFile (root.enter name)) = true →
        Table.IsReadable prepared (root.enter name) name
  /-- All these tables are listed, and no others. -/
  names : ∀ engine, outcome = .ok engine → ∀ name, name ∈ engine.names ↔
    prepared.node? (root.enter name).path = some .directory ∧
      prepared.has (Table.schemaFile (root.enter name)) = true
  /-- Each of them is what opens in its directory, and what this leaves there stays. -/
  tables : ∀ engine, outcome = .ok engine → ∀ name table, engine.tables[name]? = some table →
    ∃ opened, Table.openAt prepared (root.enter name) name config.syncPolicy = (.ok table, opened) ∧
      AgreesWithin (root.enter name).path opened left

/-- An engine that had no tables before has those that have been opened. -/
theorem Opens.listed_iff {names : List String} {engine : Engine} {left : Disk}
    (h : Opens disk ⟨config, root, ∅⟩ names engine left) : name ∈ engine.names ↔ name ∈ names := by
  rw [mem_names_iff]
  by_cases hname : name ∈ names
  · obtain ⟨table, _, _, htable, _⟩ := h.table name hname
    rw [htable]
    exact iff_of_true rfl hname
  · rw [h.others name hname, Std.ExtTreeMap.getElem?_empty]
    exact iff_of_false nofun hname

/-- **An engine opens with all tables of its data directory, or not at all.** -/
theorem reportsDamage_of_prepareRoot
    (hprepare : prepareRoot disk (Route.ofText current config.dataDirectory) config =
      (.ok (), prepared))
    (hroot : locateRoot prepared (Route.ofText current config.dataDirectory) = .ok root) :
    ReportsDamage prepared config root (openAt disk current config).1
      (openAt disk current config).2 := by
  have hreadable : ∀ name ∈ tableNames prepared root,
      (∃ table opened, Table.openAt prepared (root.enter name) name config.syncPolicy =
        (.ok table, opened)) ↔ Table.IsReadable prepared (root.enter name) name := fun name hname ↦
    Table.exists_openAt_iff (mem_tableNames_iff.mp hname).1 config.syncPolicy
  rw [openAt_of_prepareRoot hprepare hroot]
  cases hopen : openTables prepared ⟨config, root, ∅⟩ (tableNames prepared root) with
  | mk outcome left =>
    cases outcome with
    | error e =>
      refine ⟨iff_of_false nofun fun hall ↦ ?_, nofun, nofun⟩
      have halone : ∀ name ∈ tableNames prepared root, ∃ table opened,
          Table.openAt prepared (root.enter name) name config.syncPolicy = (.ok table, opened) := by
        intro name hname
        obtain ⟨hdirectory, hdescribed⟩ := mem_tableNames_iff.mp hname
        exact (hreadable name hname).mpr (hall name hdirectory hdescribed)
      obtain ⟨after, opened, hafter⟩ : ∃ after opened, openTables prepared ⟨config, root, ∅⟩
          (tableNames prepared root) = (.ok after, opened) :=
        exists_openTables (nodup_tableNames prepared root) halone
      rw [hopen] at hafter
      cases hafter
    | ok engine =>
      have hopens := opens_of_openTables (nodup_tableNames prepared root) hopen
      refine ⟨iff_of_true ⟨engine, rfl⟩ ?_, ?_, ?_⟩
      · intro name hdirectory hdescribed
        have hname := mem_tableNames_iff.mpr ⟨hdirectory, hdescribed⟩
        obtain ⟨table, opened, halone, _⟩ := hopens.table name hname
        exact (hreadable name hname).mp ⟨table, opened, halone⟩
      · rintro _ ⟨⟩ name
        rw [hopens.listed_iff, mem_tableNames_iff]
      · rintro _ ⟨⟩ name table htable
        have hname : name ∈ tableNames prepared root :=
          hopens.listed_iff.mp (mem_names_iff.mpr (htable ▸ rfl))
        obtain ⟨found, opened, halone, hfound, hagrees⟩ := hopens.table name hname
        rw [htable] at hfound
        cases hfound
        exact ⟨opened, halone, hagrees⟩

/-- **Opening reports damage and never skips it.** A table opens if and only if each complete record
of its log has a key. Then all these records are replayed and the last one of each key wins, and
otherwise the first record without a key is the failure. Only what follows the complete records is
cut off the log, so that the table opens or fails the same way again. An engine opens if and only if
all its tables do, and has them all. -/
theorem reportsDamage_of_openAt :
    (∀ (disk : Disk) (directory : Place) (name : String) (schema : Schema) (content : Bytes),
      Descriptor.load disk (directory.onward Table.schemaName) name = .ok schema →
      disk.get? (Table.compactFile directory) ≠ some .directory →
      disk.get? (Table.logFile directory) = some (.file content) →
        ∃ format records, RecordFormat.ofSchema schema = .ok format ∧
          Frame.IsLongest records content ∧
          ∀ policy, ∃ outcome opened, Table.openAt disk directory name policy = (outcome, opened) ∧
            Table.ReportsDamage directory name policy format records outcome opened) ∧
    ∀ (disk prepared : Disk) (current : Path) (config : Config) (root : Place),
      prepareRoot disk (Route.ofText current config.dataDirectory) config = (.ok (), prepared) →
      locateRoot prepared (Route.ofText current config.dataDirectory) = .ok root →
        ∃ outcome left, openAt disk current config = (outcome, left) ∧
          ReportsDamage prepared config root outcome left := by
  constructor
  · intro disk directory name schema content hload hcopy hfile
    exact Table.exists_reportsDamage hload hcopy hfile
  · intro disk prepared current config root hprepare hroot
    exact ⟨_, _, rfl, reportsDamage_of_prepareRoot hprepare hroot⟩

/-- Two sound records with a record between them that has no key, and the beginning of another
one. -/
def damagedLog : Bytes :=
  [9, 0, 0, 0, 2, 1, 0, 0, 0, 0, 0, 0, 0] ++ [1, 0, 0, 0, 0] ++
    [9, 0, 0, 0, 2, 2, 0, 0, 0, 0, 0, 0, 0] ++ [9, 0]

/-- A data directory in which the orders have that log. -/
def damagedDisk : Disk :=
  (((Disk.empty.set ["data"] .directory).set ["data", "orders"] .directory).set
    (Table.schemaFile (vacantEngine.root.enter "orders")).path
      (.file (Descriptor.withChecksum (Descriptor.content RecordFormat.ordersSchema)))).set
    (Table.logFile (vacantEngine.root.enter "orders")).path (.file damagedLog)

/-- The orders have a damaged record between two sound ones, and the engine does not open. -/
theorem reportsDamage_of_openAt_orders :
    Descriptor.load damagedDisk ((vacantEngine.root.enter "orders").onward Table.schemaName)
        "orders" = .ok RecordFormat.ordersSchema ∧
      damagedDisk.get? (Table.compactFile (vacantEngine.root.enter "orders")) ≠ some .directory ∧
      damagedDisk.get? (Table.logFile (vacantEngine.root.enter "orders")) =
        some (.file damagedLog) ∧
      prepareRoot damagedDisk (Route.ofText [] vacantEngine.config.dataDirectory)
        vacantEngine.config = (.ok (), damagedDisk) ∧
      locateRoot damagedDisk (Route.ofText [] vacantEngine.config.dataDirectory) =
        .ok vacantEngine.root ∧
      (∃ format records, RecordFormat.ofSchema RecordFormat.ordersSchema = .ok format ∧
        Frame.IsLongest records damagedLog ∧
        ∀ policy, ∃ outcome opened,
          Table.openAt damagedDisk (vacantEngine.root.enter "orders") "orders" policy =
            (outcome, opened) ∧
          Table.ReportsDamage (vacantEngine.root.enter "orders") "orders" policy format records
            outcome opened) ∧
      ∃ outcome left, openAt damagedDisk [] vacantEngine.config = (outcome, left) ∧
        ReportsDamage damagedDisk vacantEngine.config vacantEngine.root outcome left ∧
        outcome.isOk = false := by
  have hvalid : RecordFormat.ordersSchema.validate = .ok () := by rfl
  have hload : Descriptor.load damagedDisk
      ((vacantEngine.root.enter "orders").onward Table.schemaName) "orders" =
        .ok RecordFormat.ordersSchema := by
    have hroute : routeFault? ((vacantEngine.root.enter "orders").onward Table.schemaName) =
        none := by
      decide +kernel
    have hschema : damagedDisk.node? (Table.schemaFile (vacantEngine.root.enter "orders")).path =
        some (.file (Descriptor.withChecksum
          (Descriptor.content RecordFormat.ordersSchema))) := by
      rw [damagedDisk, Table.node?_set_logFile (Table.schemaFile_ne_logFile _),
        node?_set (Table.schemaFile_ne_nil _), if_pos rfl]
    have hname : RecordFormat.ordersSchema.name = "orders" := rfl
    have hloads := Table.load_of_file hroute hvalid hschema
    rwa [hname] at hloads
  have hcopy : damagedDisk.get? (Table.compactFile (vacantEngine.root.enter "orders")) ≠
      some .directory := by
    decide +kernel
  have hfile : damagedDisk.get? (Table.logFile (vacantEngine.root.enter "orders")) =
      some (.file damagedLog) := by
    decide +kernel
  have hthere : damagedDisk.hasAt (Route.ofText [] vacantEngine.config.dataDirectory) = true := by
    decide +kernel
  have hprepare : prepareRoot damagedDisk (Route.ofText [] vacantEngine.config.dataDirectory)
      vacantEngine.config = (.ok (), damagedDisk) := by
    rw [prepareRoot, if_pos hthere]
  have hroot : locateRoot damagedDisk (Route.ofText [] vacantEngine.config.dataDirectory) =
      .ok vacantEngine.root := by
    decide +kernel
  have hfails : (openAt damagedDisk [] vacantEngine.config).1.isOk = false := by decide +kernel
  obtain ⟨htable, hengine⟩ := reportsDamage_of_openAt
  obtain ⟨outcome, left, hopen, hreports⟩ := hengine _ _ _ _ _ hprepare hroot
  rw [hopen] at hfails
  exact ⟨hload, hcopy, hfile, hprepare, hroot, htable _ _ _ _ _ hload hcopy hfile,
    outcome, left, hopen, hreports, hfails⟩

end Engine

end TableStore
