import TableStore.Proofs.FirstFailure
import TableStore.Proofs.Record.Key
import TableStore.Proofs.Table.IndexAgreement

/-!
# Opening a table on a damaged log

A log can end in the middle of a record, and it can have a complete record whose key cannot be read.
The first is what a crash leaves behind, and opening cuts it off without a word. The second is never
passed over: the table does not open, and the failure is that of the first such record. Whatever
opening comes to, the log is left with its complete records, so that it comes to the same again.
-/

namespace TableStore

/-- **A replay ends at the first record whose key cannot be read.** -/
theorem Index.replay_eq_error_iff {format : RecordFormat} {entries : List (Nat × Bytes)}
    {index : Index} {count : Nat} {e : Failure} :
    (replay format index count (entries.map .ok)).1 = .error e ↔
      IsFirstFailure format.decodeKey (entries.map (·.2)) e := by
  induction entries generalizing index count with
  | nil => exact iff_of_false nofun not_isFirstFailure_nil
  | cons entry rest ih =>
    rw [List.map_cons, List.map_cons, replay]
    cases hkey : format.decodeKey entry.2 with
    | error first =>
      rw [isFirstFailure_cons_of_error hkey]
      exact Except.error.injEq .. |>.to_iff
    | ok key =>
      rw [isFirstFailure_cons_of_ok hkey]
      exact ih

/-- What is wrong with a record is damage to an operation of the store. -/
theorem exists_fault_of_mapError {α : Type} {outcome : Except RecordFault α} {e : Failure}
    (h : outcome.mapError Failure.corruptRecord = .error e) :
    ∃ fault, e = .corruptRecord fault := by
  cases outcome with
  | error fault =>
    cases h
    exact ⟨fault, rfl⟩
  | ok _ => cases h

namespace Table

variable {disk cleared : Disk} {directory : Place} {name : String} {policy : SyncPolicy}
  {schema : Schema} {format : RecordFormat} {content : Bytes} {records : List Bytes} {table : Table}

/-- A table does not open on records with the first failure to read a key. -/
theorem onRecords_eq_error_iff {e : Failure} :
    onRecords schema format directory policy records = .error e ↔
      IsFirstFailure format.decodeKey records e := by
  have hreplay : (Index.replay format ∅ 0 ((located List.length 0 records).map .ok)).1 = .error e ↔
      IsFirstFailure format.decodeKey ((located List.length 0 records).map (·.2)) e :=
    Index.replay_eq_error_iff
  rw [map_snd_located] at hreplay
  rw [← hreplay, onRecords]
  cases Index.replay format ∅ 0 ((located List.length 0 records).map .ok) with
  | mk outcome index => cases outcome <;> simp

/-- What opening a table comes to if its log has these complete records, and on which disk: either
all their keys can be read, or the first that cannot be read is the failure. -/
structure ReportsDamage (directory : Place) (name : String) (policy : SyncPolicy)
    (format : RecordFormat) (records : List Bytes) (outcome : Except Failure Table)
    (opened : Disk) : Prop where
  opens_iff : (∃ table, outcome = .ok table) ↔
    ∀ record ∈ records, ∃ key, format.decodeKey record = .ok key
  fails_iff : ∀ e, outcome = .error e ↔ IsFirstFailure format.decodeKey records e
  corrupt : ∀ e, outcome = .error e → ∃ fault, e = .corruptRecord fault
  /-- As many records are replayed as there are. -/
  replays : ∀ table, outcome = .ok table → table.format = format ∧ table.directory = directory ∧
    Index.rebuild table.log opened format = (.ok records.length, table.index)
  /-- The last record of each key wins. -/
  latest : ∀ table, outcome = .ok table → ∀ key offset,
    table.index.offset? key = some offset ↔
      ∃ before record after, records = before ++ record :: after ∧
        offset = before.flatten.length ∧ format.decodeKey record = .ok key ∧
        ∀ later ∈ after, format.decodeKey later ≠ .ok key
  /-- Every record is read where it stands. -/
  reads : ∀ table, outcome = .ok table → ∀ before record after,
    records = before ++ record :: after → table.log.read opened before.flatten.length = .ok record
  /-- The log is left with the complete records. -/
  log : opened.get? (logFile directory) = some (.file records.flatten)
  again : openAt opened directory name policy = (outcome, opened)

/-- A table that opens on records has the index along their rows. -/
theorem of_onRecords_eq_ok (hframes : ∀ record ∈ records, Frame.IsFrame record)
    (h : onRecords schema format directory policy records = .ok table) :
    ∃ rows : List Row, rows.map (·.2) = records ∧ (∀ row ∈ rows, format.IsRow row) ∧
      table = ⟨schema, format, directory,
        ⟨logFile directory, policy, (concatenated rows).length, 0, false⟩,
        indexFrom 0 ∅ rows⟩ := by
  have hkeys := (exists_ok_iff_of_error_iff fun _ ↦ onRecords_eq_error_iff).mp ⟨table, h⟩
  obtain ⟨rows, rfl, hrows⟩ := RecordFormat.exists_rows hframes fun record hrecord ↦
    (hkeys record hrecord).imp fun _ ↦ RecordFormat.of_decodeKey_eq_ok
  rw [onRecords_of_rows hrows] at h
  exact ⟨rows, rfl, hrows, (Except.ok.inj h).symm⟩

/-- Opening a table again comes to the same, whether it has opened or not. -/
theorem openAt_openAt
    (hload : Descriptor.load disk (directory.onward schemaName) name = .ok schema)
    (hformat : RecordFormat.ofSchema schema = .ok format)
    (hstale : removeStale disk directory = .ok cleared)
    (hfile : cleared.get? (logFile directory) = some (.file content)) (policy : SyncPolicy) :
    openAt (openAt disk directory name policy).2 directory name policy =
      openAt disk directory name policy := by
  obtain ⟨hgone, helsewhere⟩ := of_removeStale_eq_ok hstale
  have hthere := get?_set_logFile hfile (Frame.frames content).flatten
  have hstill : Descriptor.load
      (cleared.set (logFile directory).path (.file (Frame.frames content).flatten))
      (directory.onward schemaName) name = .ok schema := by
    refine load_congr ?_ hload
    rw [node?_set_logFile (schemaFile_ne_logFile _), helsewhere _ (schemaFile_ne_compactFile _)]
  have hnone := (get?_compactFile_set_logFile cleared directory
    (Frame.frames content).flatten).trans hgone
  rw [openAt_of_file hload hformat hstale hfile policy,
    openAt_of_file hstill hformat (removeStale_of_none hnone) hthere policy,
    Frame.frames_flatten Frame.isFrame_of_mem_frames, Disk.set_set]

/-- **A table opens on the complete records of its log, or reports the first damaged one**, and
leaves the log with them. -/
theorem reportsDamage_of_file
    (hload : Descriptor.load disk (directory.onward schemaName) name = .ok schema)
    (hformat : RecordFormat.ofSchema schema = .ok format)
    (hstale : removeStale disk directory = .ok cleared)
    (hfile : cleared.get? (logFile directory) = some (.file content)) (policy : SyncPolicy) :
    ReportsDamage directory name policy format (Frame.frames content)
      (openAt disk directory name policy).1 (openAt disk directory name policy).2 := by
  have hframes : ∀ record ∈ Frame.frames content, Frame.IsFrame record :=
    Frame.isFrame_of_mem_frames
  have hagain := openAt_openAt hload hformat hstale hfile policy
  rw [openAt_of_file hload hformat hstale hfile policy] at hagain ⊢
  exact {
    opens_iff := exists_ok_iff_of_error_iff fun _ ↦ onRecords_eq_error_iff
    fails_iff := fun _ ↦ onRecords_eq_error_iff
    corrupt := by
      intro e he
      obtain ⟨_, record, _, _, _, hrecord⟩ := onRecords_eq_error_iff.mp he
      exact exists_fault_of_mapError hrecord
    replays := by
      intro table htable
      obtain ⟨rows, hrecords, hrows, rfl⟩ := of_onRecords_eq_ok hframes htable
      have hlength : (Frame.frames content).length = rows.length := by
        rw [← hrecords, List.length_map]
      rw [hlength, ← hrecords]
      exact ⟨rfl, rfl, Index.rebuild_of_rows (get?_set_logFile hfile _) rfl hrows⟩
    latest := by
      intro table htable key offset
      obtain ⟨rows, hrecords, hrows, rfl⟩ := of_onRecords_eq_ok hframes htable
      rw [← hrecords]
      exact offset?_indexFrom_eq_some_iff_decodeKey hrows
    reads := by
      intro table htable before record after hsplit
      obtain ⟨rows, hrecords, hrows, rfl⟩ := of_onRecords_eq_ok hframes htable
      rw [← hrecords] at hsplit ⊢
      exact (stores_of_rows hload hformat hstale hfile hrows policy).read_of_split hsplit
    log := get?_set_logFile hfile _
    again := hagain }

/-- What is left of a compaction can be removed unless it is a directory. -/
theorem exists_removeStale_iff :
    (∃ cleared, removeStale disk directory = .ok cleared) ↔
      disk.get? (compactFile directory) ≠ some .directory := by
  cases hget : disk.get? (compactFile directory) with
  | none => exact iff_of_true ⟨disk, removeStale_of_none hget⟩ nofun
  | some node =>
    have hthere : disk.has (compactFile directory) = true := by rw [Disk.has, hget]; rfl
    rw [removeStale, if_pos hthere, Disk.removeFile, Disk.find_of_get? hget]
    cases node with
    | directory => simp
    | file _ => simp
    | fullDevice => simp

/-- **Whatever the bytes of a log are**, its complete records decide whether a table opens on it. -/
theorem exists_reportsDamage
    (hload : Descriptor.load disk (directory.onward schemaName) name = .ok schema)
    (hcopy : disk.get? (compactFile directory) ≠ some .directory)
    (hfile : disk.get? (logFile directory) = some (.file content)) :
    ∃ format records, RecordFormat.ofSchema schema = .ok format ∧
      Frame.IsLongest records content ∧
      ∀ policy, ∃ outcome opened, openAt disk directory name policy = (outcome, opened) ∧
        ReportsDamage directory name policy format records outcome opened := by
  obtain ⟨format, hformat⟩ := Descriptor.exists_format_of_load hload
  obtain ⟨cleared, hstale⟩ := exists_removeStale_iff.mpr hcopy
  have hthere : cleared.get? (logFile directory) = some (.file content) :=
    (get?_logFile_of_removeStale hstale).trans hfile
  exact ⟨format, Frame.frames content, hformat, Frame.isLongest_iff.mpr rfl, fun policy ↦
    ⟨_, _, rfl, reportsDamage_of_file hload hformat hstale hthere policy⟩⟩

end Table

end TableStore
