import TableStore.Proofs.Record.RoundTrip
import TableStore.Proofs.Table.Stores

/-!
# Changes to an open table

A write adds its row behind those that the table stores. A compaction leaves the rows that count,
with new offsets; if its file cannot be made then nothing happens at all. Both go on with the same
table, and so does a flush.
-/

namespace TableStore.Table

variable {table : Table} {disk : Disk} {rows : List Row}

/-- A table whose log is rewritten stores the rows that have been written. -/
theorem Stores.rewrite (h : table.Stores disk rows) (others : List Row) (log : AppendLog)
    (hplace : log.place = table.log.place) (hworking : log.failed = false)
    (hcommitted : log.committed = (concatenated others).length)
    (hrows : ∀ row ∈ others, table.format.IsRow row) :
    Stores { table with log, index := indexFrom 0 ∅ others }
        (disk.set (logFile table.directory).path (.file (concatenated others))) others ∧
      table.Continues disk { table with log, index := indexFrom 0 ∅ others }
        (disk.set (logFile table.directory).path (.file (concatenated others))) := by
  have hcontinues : table.Continues disk { table with log, index := indexFrom 0 ∅ others }
      (disk.set (logFile table.directory).path (.file (concatenated others))) :=
    ⟨rfl, rfl, rfl, fun path hlog _ ↦ node?_set_logFile hlog _⟩
  refine ⟨⟨?_, hworking, hcommitted, ?_, hrows, rfl, ?_, h.format, ?_⟩, hcontinues⟩
  · rw [hplace, h.place]
  · exact get?_set_logFile h.file _
  · rw [get?_compactFile_set_logFile, h.finished]
  · exact hcontinues.load h.descriptor

/-! ## Writing -/

/-- An item without a record is not written. -/
theorem put_of_error {item : Item} {e : Failure} (h : table.format.encode item = .error e) :
    table.put disk item = (.error e, table, disk) := by
  rw [put, h]

/-- The record of an item is a row of its format. -/
theorem exists_isRow_of_encode {format : RecordFormat} {item : Item} {record : Bytes}
    (h : format.encode item = .ok record) : ∃ key, format.IsRow (key, record) := by
  obtain ⟨value, hvalue⟩ := RecordFormat.exists_key_of_encode h
  exact ⟨Field.payload value, RecordFormat.isFrame_of_encode h,
    RecordFormat.readKey_of_encode h hvalue⟩

/-- **A write adds one row at the end.** -/
theorem Stores.put (h : table.Stores disk rows) {item : Item} {record key : Bytes}
    (hencode : table.format.encode item = .ok record)
    (hrow : table.format.IsRow (key, record)) :
    ∃ after left, table.put disk item = (.ok (), after, left) ∧
      after.Stores left (rows ++ [(key, record)]) ∧ table.Continues disk after left := by
  have hlonger : concatenated (rows ++ [(key, record)]) = concatenated rows ++ record := by
    rw [concatenated_append]
    simp [concatenated]
  obtain ⟨unsynced, happend⟩ := AppendLog.append_of_file h.working h.fileAtPlace record
  have hindex : table.index.put key table.log.committed =
      indexFrom 0 ∅ (rows ++ [(key, record)]) := by
    calc
      table.index.put key table.log.committed =
          (indexFrom 0 ∅ rows).put key (0 + (rows.map (·.2.length)).sum) := by
        rw [h.index, h.committed, length_concatenated, Nat.zero_add]
      _ = indexFrom 0 ∅ (rows ++ [(key, record)]) :=
        (indexFrom_concat 0 ∅ rows (key, record)).symm
  have hput : table.put disk item =
      (.ok (),
        { table with
          log := { table.log with committed := table.log.committed + record.length, unsynced }
          index := indexFrom 0 ∅ (rows ++ [(key, record)]) },
        disk.set (logFile table.directory).path
          (.file (concatenated (rows ++ [(key, record)])))) := by
    rw [Table.put, hencode]
    dsimp only
    rw [hrow.decodeKey]
    dsimp only
    rw [happend]
    dsimp only
    rw [hindex, h.place, hlonger]
  refine ⟨_, _, hput, h.rewrite (rows ++ [(key, record)]) _ rfl h.working ?_ ?_⟩
  · rw [hlonger, List.length_append, ← h.committed]
  · intro row hmem
    rcases List.mem_append.mp hmem with hmem | hmem
    · exact h.isRow row hmem
    · rw [List.mem_singleton.mp hmem]
      exact hrow

/-! ## Compaction -/

/-- Records at offsets where they can be read are read with their keys. -/
theorem readRecords_of_read {entries : List (Nat × Row)}
    (hread : ∀ entry ∈ entries, table.log.read disk entry.1 = .ok entry.2.2)
    (hrow : ∀ entry ∈ entries, table.format.IsRow entry.2) :
    table.readRecords disk (entries.map (·.1)) = (.ok (), entries.map (·.2)) := by
  induction entries with
  | nil => rfl
  | cons entry rest ih =>
    have hrest := ih (fun other hother ↦ hread other (by simp [hother]))
      fun other hother ↦ hrow other (by simp [hother])
    rw [List.map_cons, readRecords, hread entry (by simp)]
    dsimp only
    rw [(hrow entry (by simp)).decodeKey]
    dsimp only
    rw [hrest]
    rfl

/-- A compaction collects the rows that count. -/
theorem Stores.readRecords (h : table.Stores disk rows) :
    table.readRecords disk table.index.liveOffsets = (.ok (), latest rows) := by
  have hlocated : ∀ entry ∈ latestAt 0 rows, entry ∈ located (·.2.length) 0 rows :=
    fun entry hentry ↦ (latestBy_sublist _ _).subset hentry
  rw [h.index, liveOffsets_indexFrom h.length_pos, ← map_snd_latestAt 0 rows]
  apply readRecords_of_read
  · intro entry hentry
    exact h.read (hlocated entry hentry)
  · intro entry hentry
    exact h.isRow entry.2 (mem_of_mem_located (hlocated entry hentry))

/-- In a directory that is there, the file for the copy can be made unless its name is too long. -/
theorem entryFault?_compactFile_eq {directory : Place}
    (h : disk.node? directory.path = some .directory) :
    disk.entryFault? (compactFile directory) =
      if Disk.textLimit < (compactFile directory).length then some .nameTooLong else none := by
  have hparent : disk.node? (compactFile directory).path.dropLast = some .directory := by
    rw [compactFile, Place.dropLast_path_enter, h]
  have hname : (compactFile directory).path.getLastD "" = "data.log.compact" := by
    rw [compactFile, Place.path_enter, List.getLastD_concat]
  have hshort : ¬ Disk.nameLimit < "data.log.compact".utf8ByteSize := by decide
  rw [Disk.entryFault?_of_directory hparent, hname]
  simp only [hshort, or_false]

/-- If the file for the copy cannot be made, nothing happens. -/
theorem Stores.compact_of_fault (h : table.Stores disk rows) {fault : FileFault}
    (hfault : disk.entryFault? (compactFile table.directory) = some fault) :
    table.compact disk = (.error (.file fault), table, disk) := by
  have hcreate : disk.createFile (compactFile table.directory) = .error fault := by
    rw [Disk.createFile_of_none (compactFile_ne_nil _) h.finished, hfault]
  rw [compact, h.readRecords]
  dsimp only
  rw [copySteps, Disk.perform, Disk.Step.apply, hcreate]

section Steps

variable {directory : Place} (hgone : disk.get? (compactFile directory) = none)
  (hfits : disk.entryFault? (compactFile directory) = none)

include hgone hfits

/-- The copy is made in a file of its own. -/
theorem perform_copySteps (copy : Bytes) :
    disk.perform (copySteps directory copy) =
      (.ok (), disk.set (compactFile directory).path (.file copy)) := by
  have hcreate : disk.createFile (compactFile directory) =
      .ok (disk.set (compactFile directory).path (.file [])) := by
    rw [Disk.createFile_of_none (compactFile_ne_nil _) hgone, hfits]
  have hempty := Disk.get?_set_self (compactFile_ne_nil directory)
    (Disk.of_entryFault?_eq_none hfits).1 disk (.file [])
  rw [copySteps, Disk.perform, Disk.Step.apply, hcreate]
  dsimp only
  rw [Disk.perform, Disk.Step.apply, Disk.modifyFile_of_file hempty, Disk.set_set]
  rfl

/-- The copy takes the place of the log, and its own file is gone. -/
theorem perform_replaceStep {content : Bytes}
    (hlog : disk.get? (logFile directory) = some (.file content)) (copy : Bytes) :
    (disk.set (compactFile directory).path (.file copy)).perform [replaceStep directory] =
      (.ok (), disk.set (logFile directory).path (.file copy)) := by
  have hlength := (Disk.of_entryFault?_eq_none hfits).1
  have hnothing : disk.node? (compactFile directory).path = none := by
    rw [← hgone, Disk.get?, if_neg (Nat.not_lt.mpr hlength)]
  have hcopy := Disk.get?_set_self (compactFile_ne_nil directory) hlength disk (.file copy)
  have hstill : (disk.set (compactFile directory).path (.file copy)).get? (logFile directory) =
      some (.file content) := by
    rw [Disk.get?_set_of_ne (compactFile_ne_nil _) (logFile_ne_compactFile _).symm, hlog]
  rw [replaceStep, Disk.perform, Disk.Step.apply, Disk.rename_of_files hcopy hstill,
    Disk.erase_set (compactFile_ne_nil _) hnothing]
  rfl

end Steps

/-- **A compaction keeps the rows that count**, and no file of its own. -/
theorem Stores.compact (h : table.Stores disk rows)
    (hfits : disk.entryFault? (compactFile table.directory) = none) :
    ∃ after left,
      table.compact disk =
        (.ok ⟨(latest rows).length, (concatenated rows).length,
          (concatenated (latest rows)).length⟩, after, left) ∧
      after.Stores left (latest rows) ∧ table.Continues disk after left := by
  have hsize : (indexFrom 0 ∅ (latest rows)).size = (latest rows).length := by
    rw [size_indexFrom, latest, latest, latestBy_latestBy]
  refine ⟨_, _, ?_,
    h.rewrite (latest rows) (table.log.replaced (concatenated (latest rows)).length) rfl rfl rfl
      fun row hrow ↦ h.isRow row (mem_of_mem_latest hrow)⟩
  rw [Table.compact, h.readRecords]
  dsimp only
  rw [perform_copySteps h.finished hfits]
  dsimp only
  rw [perform_replaceStep h.finished hfits h.file]
  dsimp only
  rw [hsize, h.committed]

/-! ## Flushing -/

theorem Stores.sync (h : table.Stores disk rows) :
    ∃ after, table.sync disk = (.ok (), after) ∧ after.Stores disk rows ∧
      table.Continues disk after disk := by
  refine ⟨{ table with log := { table.log with unsynced := 0 } }, ?_,
    ⟨h.place, h.working, h.committed, h.file, h.isRow, h.index, h.finished, h.format,
      h.descriptor⟩, ⟨rfl, rfl, rfl, fun _ _ _ ↦ rfl⟩⟩
  rw [Table.sync, AppendLog.sync_of_file h.fileAtPlace]

/-! ## The same table -/

/-- Whether a table of the given schema stores just these rows in a directory that is there. -/
structure Holds (table : Table) (disk : Disk) (schema : Schema) (directory : Place)
    (rows : List Row) : Prop where
  stores : table.Stores disk rows
  schema : table.schema = schema
  place : table.directory = directory
  isDirectory : disk.node? directory.path = some .directory

theorem Holds.continues {schema : Schema} {directory : Place} {after : Table} {left : Disk}
    {others : List Row} (h : table.Holds disk schema directory rows)
    (hcontinues : table.Continues disk after left) (hstores : after.Stores left others) :
    after.Holds left schema directory others where
  stores := hstores
  schema := hcontinues.schema.trans h.schema
  place := hcontinues.directory.trans h.place
  isDirectory := by
    have hlog : directory.path ≠ (logFile table.directory).path := by
      rw [h.place]
      exact (Place.path_enter_ne_self _ _).symm
    have hcompact : directory.path ≠ (compactFile table.directory).path := by
      rw [h.place]
      exact (Place.path_enter_ne_self _ _).symm
    rw [hcontinues.elsewhere _ hlog hcompact, h.isDirectory]

/-- What a table stores is in its directory only. -/
theorem Holds.congr {schema : Schema} {directory : Place} {other : Disk}
    (h : table.Holds disk schema directory rows)
    (hsame : ∀ path, directory.path <+: path → other.node? path = disk.node? path) :
    table.Holds other schema directory rows := by
  have hfile : ∀ file, other.node? (table.directory.enter file).path =
      disk.node? (table.directory.enter file).path := by
    intro file
    rw [h.place]
    exact hsame _ (List.prefix_append _ _)
  have hstores : table.Stores other rows :=
    { h.stores with
      file := (Disk.get?_congr (hfile _)).trans h.stores.file
      finished := (Disk.get?_congr (hfile _)).trans h.stores.finished
      descriptor := load_congr (hfile _) h.stores.descriptor }
  exact ⟨hstores, h.schema, h.place, (hsame _ List.prefix_rfl).trans h.isDirectory⟩

/-- A table that goes on changes nothing beside its directory. -/
theorem Holds.beside {schema : Schema} {directory : Place} {after : Table} {left : Disk}
    (h : table.Holds disk schema directory rows) (hcontinues : table.Continues disk after left)
    {path : Path} (hbeside : ¬ directory.path <+: path) : left.node? path = disk.node? path := by
  have hfile : ∀ file, path ≠ (table.directory.enter file).path := by
    rintro file rfl
    rw [h.place] at hbeside
    exact hbeside (List.prefix_append _ _)
  exact hcontinues.elsewhere _ (hfile _) (hfile _)

/-- The format of a table is that of its schema. -/
theorem Holds.format {schema : Schema} {directory : Place} {format : RecordFormat}
    (h : table.Holds disk schema directory rows)
    (hformat : RecordFormat.ofSchema schema = .ok format) : table.format = format := by
  have hsame := h.stores.format
  rw [h.schema, hformat] at hsame
  exact (Except.ok.inj hsame).symm

end TableStore.Table
