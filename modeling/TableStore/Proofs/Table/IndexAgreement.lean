import TableStore.Proofs.Table.Session

/-!
# The index agrees with the log

Whatever the bytes of a log are, if a table opens on them then its index is the one that a replay
of the log gives, and stays so. Every entry of it leads to the record of its key that was written
last, so that a compaction, which follows the entries, never meets a record it cannot read.
-/

namespace TableStore

namespace Table

/-- How the index of a table and its log, which begins with these records, belong together. -/
structure Agrees (table : Table) (disk : Disk) (records : List Bytes) : Prop where
  /-- The committed bytes of the log are the records. -/
  committed : ∃ content, disk.get? (logFile table.directory) = some (.file content) ∧
    content.take table.log.committed = records.flatten ∧
    records.flatten.length = table.log.committed
  isFrame : ∀ record ∈ records, Frame.IsFrame record
  /-- The index is the one that the log gives. -/
  rebuild : Index.rebuild table.log disk table.format = (.ok records.length, table.index)
  /-- Every entry leads to a record with its key, and no later record has that key. -/
  entry : ∀ key offset, table.index.offset? key = some offset →
    ∃ before record after, records = before ++ record :: after ∧
      offset = before.flatten.length ∧ table.log.read disk offset = .ok record ∧
      table.format.decodeKey record = .ok key ∧
      ∀ later ∈ after, table.format.decodeKey later ≠ .ok key
  /-- Different keys are at different offsets. -/
  injective : ∀ key other offset, table.index.offset? key = some offset →
    table.index.offset? other = some offset → key = other
  /-- A compaction can read all records that it keeps. -/
  compact : ∀ fault, (table.compact disk).1 ≠ .error (.corruptRecord fault)

variable {table : Table} {disk : Disk} {rows : List Row}

/-- The index along rows leads from a key to the last row with it. -/
theorem offset?_indexFrom_eq_some_iff {key : Bytes} {offset : Nat} :
    (indexFrom 0 ∅ rows).offset? key = some offset ↔
      ∃ before row after, rows = before ++ row :: after ∧ row.1 = key ∧
        offset = (concatenated before).length ∧ ∀ later ∈ after, later.1 ≠ key := by
  rw [offset?_indexFrom]
  constructor
  · rintro ⟨row, hrow, rfl⟩
    obtain ⟨before, after, hsplit, hafter⟩ := mem_latestBy hrow
    obtain ⟨hrows, hposition⟩ := of_located_eq_append hsplit
    refine ⟨before.map (·.2), row, after.map (·.2), hrows, rfl, ?_, ?_⟩
    · rw [Nat.zero_add] at hposition
      rw [length_concatenated]
      exact hposition
    · intro later hlater
      obtain ⟨entry, hentry, rfl⟩ := List.mem_map.mp hlater
      exact hafter entry hentry
  · rintro ⟨before, row, after, rfl, rfl, rfl, hafter⟩
    refine ⟨row, ?_, rfl⟩
    rw [latestAt, located_append, located, ← length_concatenated, Nat.zero_add]
    apply mem_latestBy_append_cons
    intro entry hentry
    exact hafter entry.2 (mem_of_mem_located hentry)

/-- The index along rows leads from a key to the last record with it. -/
theorem offset?_indexFrom_eq_some_iff_decodeKey {format : RecordFormat}
    (hrows : ∀ row ∈ rows, format.IsRow row) {key : Bytes} {offset : Nat} :
    (indexFrom 0 ∅ rows).offset? key = some offset ↔
      ∃ before record after, rows.map (·.2) = before ++ record :: after ∧
        offset = before.flatten.length ∧ format.decodeKey record = .ok key ∧
        ∀ later ∈ after, format.decodeKey later ≠ .ok key := by
  rw [offset?_indexFrom_eq_some_iff]
  constructor
  · rintro ⟨before, row, after, rfl, rfl, rfl, hafter⟩
    refine ⟨before.map (·.2), row.2, after.map (·.2), by simp, rfl,
      (hrows row (by simp)).decodeKey, ?_⟩
    intro later hlater hkey
    obtain ⟨other, hother, rfl⟩ := List.mem_map.mp hlater
    rw [(hrows other (by simp [hother])).decodeKey] at hkey
    exact hafter other hother (Except.ok.inj hkey)
  · rintro ⟨before, record, after, hrecords, rfl, hkey, hafter⟩
    obtain ⟨front, back, rfl, rfl, hback⟩ := List.map_eq_append_iff.mp hrecords
    obtain ⟨row, others, rfl, rfl, rfl⟩ := List.map_eq_cons_iff.mp hback
    rw [(hrows row (by simp)).decodeKey] at hkey
    refine ⟨front, row, others, rfl, Except.ok.inj hkey, rfl, ?_⟩
    intro later hlater heq
    apply hafter later.2 (List.mem_map_of_mem hlater)
    rw [(hrows later (by simp [hlater])).decodeKey, heq]

/-- A record is read where it stands in the log. -/
theorem Stores.read_of_split (h : table.Stores disk rows) {before after : List Bytes}
    {record : Bytes} (hsplit : rows.map (·.2) = before ++ record :: after) :
    table.log.read disk before.flatten.length = .ok record := by
  obtain ⟨front, back, rfl, rfl, hback⟩ := List.map_eq_append_iff.mp hsplit
  obtain ⟨row, others, rfl, rfl, rfl⟩ := List.map_eq_cons_iff.mp hback
  apply h.read
  rw [located_append, located, ← length_concatenated, Nat.zero_add]
  exact List.mem_append_right _ List.mem_cons_self

/-- An entry of the index leads to the last row with its key. -/
theorem Stores.exists_of_offset? (h : table.Stores disk rows) {key : Bytes} {offset : Nat}
    (hoffset : table.index.offset? key = some offset) :
    ∃ before row after, rows = before ++ row :: after ∧ row.1 = key ∧
      offset = (concatenated before).length ∧ table.log.read disk offset = .ok row.2 ∧
      ∀ later ∈ after, later.1 ≠ key := by
  rw [h.index] at hoffset
  obtain ⟨before, row, after, rfl, hkey, rfl, hafter⟩ := offset?_indexFrom_eq_some_iff.mp hoffset
  have hsplit : (before ++ row :: after).map (·.2) =
      before.map (·.2) ++ row.2 :: after.map (·.2) := by
    rw [List.map_append, List.map_cons]
  exact ⟨before, row, after, rfl, hkey, rfl, h.read_of_split hsplit, hafter⟩

/-- A table that stores rows agrees with their records. -/
theorem Stores.agrees (h : table.Stores disk rows) : table.Agrees disk (rows.map (·.2)) where
  committed := by
    refine ⟨concatenated rows, h.file, ?_, ?_⟩
    · rw [h.committed, List.take_length, concatenated]
    · rw [h.committed, concatenated]
  isFrame := by
    intro record hrecord
    obtain ⟨row, hrow, rfl⟩ := List.mem_map.mp hrecord
    exact (h.isRow row hrow).isFrame
  rebuild := by
    rw [Index.rebuild_of_rows h.fileAtPlace h.committed h.isRow, List.length_map, h.index]
  entry := by
    intro key offset hoffset
    rw [h.index] at hoffset
    obtain ⟨before, record, after, hsplit, rfl, hkey, hafter⟩ :=
      (offset?_indexFrom_eq_some_iff_decodeKey h.isRow).mp hoffset
    exact ⟨before, record, after, hsplit, rfl, h.read_of_split hsplit, hkey, hafter⟩
  injective := by
    intro key other offset hkey hother
    obtain ⟨_, row, _, hrows, rfl, _, hread, _⟩ := h.exists_of_offset? hkey
    obtain ⟨_, row', _, hrows', rfl, _, hread', _⟩ := h.exists_of_offset? hother
    rw [hread] at hread'
    have hkeys : (.ok row.1 : Except Failure Bytes) = .ok row'.1 := by
      rw [← (h.isRow row (by simp [hrows])).decodeKey,
        ← (h.isRow row' (by simp [hrows'])).decodeKey, Except.ok.inj hread']
    exact Except.ok.inj hkeys
  compact := by
    intro fault
    cases hfault : disk.entryFault? (compactFile table.directory) with
    | some fault =>
      rw [h.compact_of_fault hfault]
      simp
    | none =>
      obtain ⟨_, _, hcompact, _⟩ := h.compact hfault
      rw [hcompact]
      simp

end Table

/-- **The index of an opened table agrees with its log at any time**, whatever bytes the table has
been opened on and whatever has been done with it since. -/
theorem Session.agrees_of_openAt {disk opened : Disk} {directory : Place} {name : String}
    {policy : SyncPolicy} {content : Bytes} {table : Table}
    (hfile : disk.get? (Table.logFile directory) = some (.file content))
    (hopen : Table.openAt disk directory name policy = (.ok table, opened))
    (operations : List Operation) :
    ∃ answers last records, Session.run ⟨table, opened⟩ operations = (answers, some last) ∧
      last.table.directory = directory ∧ last.table.Agrees last.disk records := by
  obtain ⟨rows, _, hstores, hdirectory⟩ := Table.stores_of_openAt hfile hopen
  obtain ⟨answers, last, others, hrun, hlast, _, hcontinues⟩ :=
    run_of_stores (P := fun _ ↦ True) (fun _ _ _ _ ↦ trivial) hstores rfl rfl trivial operations
  exact ⟨answers, last, others.map (·.2), hrun, hcontinues.directory.trans hdirectory,
    hlast.agrees⟩

/-! ## A log that the store has not written -/

/-- Two records of one key, and the beginning of a third record. -/
def strayLog : Bytes :=
  [9, 0, 0, 0, 2, 1, 0, 0, 0, 0, 0, 0, 0] ++ [9, 0, 0, 0, 2, 1, 0, 0, 0, 0, 0, 0, 0] ++ [9, 0, 0]

/-- A disk with that log beside a descriptor. -/
def strayDisk : Disk :=
  ((Disk.empty.set ordersPlace.path .directory).set (Table.schemaFile ordersPlace).path
    (.file (Descriptor.withChecksum (Descriptor.content RecordFormat.ordersSchema)))).set
      (Table.logFile ordersPlace).path (.file strayLog)

theorem Session.agrees_of_openAt_stray :
    ∃ table opened, strayDisk.get? (Table.logFile ordersPlace) = some (.file strayLog) ∧
      Table.openAt strayDisk ordersPlace "orders" .never = (.ok table, opened) ∧
      ∃ answers last records,
        Session.run ⟨table, opened⟩ [.compact, .stats] = (answers, some last) ∧
          last.table.directory = ordersPlace ∧ last.table.Agrees last.disk records := by
  have hfile : strayDisk.get? (Table.logFile ordersPlace) = some (.file strayLog) := by
    decide +kernel
  have hopens : (Table.openAt strayDisk ordersPlace "orders" .never).1.isOk = true := by
    decide +kernel
  cases hopen : Table.openAt strayDisk ordersPlace "orders" .never with
  | mk outcome opened =>
    cases outcome with
    | error e => rw [hopen] at hopens; cases hopens
    | ok table =>
      exact ⟨table, opened, hfile, rfl, Session.agrees_of_openAt hfile hopen [.compact, .stats]⟩

end TableStore
