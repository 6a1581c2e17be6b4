import TableStore.Proofs.Record.Canonical
import TableStore.Proofs.Table.IndexAgreement
import TableStore.Proofs.Table.Ledger

/-!
# What a compaction comes to

A compaction copies the records that the index points to, in the order of their offsets, and nothing
else. So the length of the new log is known, no key is lost or added, and each one is found where
its record has been copied to. A second compaction copies the same records to the same places. In a
table that the store alone has written the copied records are those of its items, in the order in
which they were written last, whatever has happened in between.
-/

-- Sums of lengths begin with the zero of the core library, whatever is imported beside it.
attribute [local instance (1100)] Zero.ofOfNat0

namespace TableStore

/-! ## Rows one after the other -/

/-- Part of a list is not larger than the whole, and smaller if anything is left out. -/
theorem sum_size_of_sublist {α : Type} {size : α → Nat} {part whole : List α}
    (h : part.Sublist whole) (hpos : ∀ x ∈ whole, 0 < size x) :
    (part.map size).sum ≤ (whole.map size).sum ∧
      ((part.map size).sum = (whole.map size).sum → part = whole) := by
  induction h with
  | slnil => simp
  | cons x _ ih =>
    have hx := hpos x List.mem_cons_self
    have hrest := (ih fun y hy ↦ hpos y (List.mem_cons_of_mem _ hy)).1
    rw [List.map_cons, List.sum_cons]
    exact ⟨by omega, fun heq ↦ by omega⟩
  | cons_cons x _ ih =>
    obtain ⟨hle, heq⟩ := ih fun y hy ↦ hpos y (List.mem_cons_of_mem _ hy)
    rw [List.map_cons, List.sum_cons, List.map_cons, List.sum_cons]
    exact ⟨by omega, fun hsame ↦ congrArg (x :: ·) (heq (by omega))⟩

theorem latest_sublist (rows : List Row) : (latest rows).Sublist rows :=
  latestBy_sublist _ _

/-- Rows all of which count stand one after the other. -/
theorem latestAt_latest (offset : Nat) (rows : List Row) :
    latestAt offset (latest rows) = located (·.2.length) offset (latest rows) := by
  refine (latestBy_sublist _ _).eq_of_length ?_
  have hrows := congrArg List.length (map_snd_latestAt offset (latest rows))
  have hall : (located (·.2.length) offset (latest rows)).length = (latest rows).length := by
    rw [← List.length_map (·.2), map_snd_located]
  rw [List.length_map, latest_latest] at hrows
  exact hrows.trans hall.symm

/-- A row stands where the records in front of it end. -/
theorem mem_located_of_getElem? {rows : List Row} {row : Row} {count : Nat}
    (h : rows[count]? = some row) :
    ((Table.concatenated (rows.take count)).length, row) ∈ located (·.2.length) 0 rows := by
  refine List.mem_iff_getElem?.mpr ⟨count, ?_⟩
  rw [getElem?_located, h, length_concatenated, Nat.zero_add]
  rfl

namespace Table

/-! ## The result -/

/-- Whether the record at an offset of the log has been superseded: the index points its key
elsewhere. -/
def IsSuperseded (table : Table) (disk : Disk) (offset : Nat) : Prop :=
  ∃ entries scanner record key,
    table.log.scan disk 0 table.log.committed = .ok (entries, scanner) ∧
      .ok (offset, record) ∈ entries ∧ table.format.decodeKey record = .ok key ∧
      table.index.isCurrent key offset = false

/-- What a compaction that succeeds comes to, these records being the ones to keep. -/
structure Compacts (table : Table) (disk : Disk) (records : List Bytes) (report : Compaction)
    (after : Table) (left : Disk) : Prop where
  /-- The records are those that the index points to, in the order of their offsets. -/
  offsets : ∀ offset, offset ∈ table.index.liveOffsets ↔
    ∃ key, table.index.offset? key = some offset
  ascending : table.index.liveOffsets.Pairwise (· < ·)
  read : table.index.liveOffsets.map (table.log.read disk) = records.map .ok
  /-- The new log consists of them and of nothing else. -/
  content : left.get? (logFile table.directory) = some (.file records.flatten)
  recordsKept : report.recordsKept = table.stats.liveKeys
  liveKeys : after.stats.liveKeys = table.stats.liveKeys
  bytesBefore : report.bytesBefore = table.stats.logBytes
  bytesAfter : report.bytesAfter = after.stats.logBytes
  logBytes : after.stats.logBytes = records.flatten.length
  shrinks : report.bytesAfter ≤ report.bytesBefore
  same : report.bytesAfter = report.bytesBefore ↔ ∀ offset, ¬ table.IsSuperseded disk offset
  /-- No key is added or lost, and each is found where its record has been copied to. -/
  keys : ∀ key, (after.index.offset? key).isSome = (table.index.offset? key).isSome
  moved : ∀ key offset, table.index.offset? key = some offset → ∃ count,
    table.index.liveOffsets[count]? = some offset ∧
      after.index.offset? key = some (records.take count).flatten.length ∧
      after.log.read left (records.take count).flatten.length = table.log.read disk offset
  /-- A compaction right after it changes neither the log nor the index. -/
  again : ∃ second last final, after.compact left = (.ok second, last, final) ∧
    final.get? (logFile table.directory) = left.get? (logFile table.directory) ∧
    last.index = after.index

variable {table after : Table} {disk left : Disk} {rows : List Row} {report : Compaction}

/-- A compaction that succeeds has made its file. -/
theorem Stores.of_compact_eq_ok (h : table.Stores disk rows)
    (hcompact : table.compact disk = (.ok report, after, left)) :
    disk.entryFault? (compactFile table.directory) = none ∧
      report = ⟨(latest rows).length, (concatenated rows).length,
        (concatenated (latest rows)).length⟩ ∧
      after.Stores left (latest rows) ∧ table.Continues disk after left := by
  cases hfault : disk.entryFault? (compactFile table.directory) with
  | some fault =>
    rw [h.compact_of_fault hfault] at hcompact
    cases hcompact
  | none =>
    obtain ⟨found, rest, hdone, hstores, hcontinues⟩ := h.compact hfault
    rw [hdone] at hcompact
    cases hcompact
    exact ⟨rfl, rfl, hstores, hcontinues⟩

/-- What has made the file for a copy once can make it again. -/
theorem Continues.entryFault?_eq_none (h : table.Continues disk after left)
    (hfits : disk.entryFault? (compactFile table.directory) = none) :
    left.entryFault? (compactFile after.directory) = none := by
  obtain ⟨hlength, hparent⟩ := Disk.of_entryFault?_eq_none hfits
  have hdirectory : disk.node? table.directory.path = some .directory := by
    rwa [compactFile, Place.path_enter, List.dropLast_concat] at hparent
  rw [h.directory, entryFault?_compactFile_eq, if_neg (Nat.not_lt.mpr hlength)]
  rw [h.elsewhere _ (Place.path_enter_ne_self _ _).symm (Place.path_enter_ne_self _ _).symm,
    hdirectory]

/-- Where a key is found by an index along rows, and by the one along the rows that count. -/
theorem exists_of_offset?_indexFrom (hpos : ∀ row ∈ rows, 0 < row.2.length) {key : Bytes}
    {offset : Nat} (h : (indexFrom 0 ∅ rows).offset? key = some offset) :
    ∃ count row, (offset, row) ∈ latestAt 0 rows ∧ (latest rows)[count]? = some row ∧
      (indexFrom 0 ∅ rows).liveOffsets[count]? = some offset ∧
      (indexFrom 0 ∅ (latest rows)).offset? key =
        some (concatenated ((latest rows).take count)).length := by
  obtain ⟨row, hrow, hkey⟩ := (offset?_indexFrom 0 rows key offset).mp h
  obtain ⟨count, hcount⟩ := List.mem_iff_getElem?.mp hrow
  have hlatest : (latest rows)[count]? = some row := by
    rw [← map_snd_latestAt 0, List.getElem?_map, hcount]
    rfl
  refine ⟨count, row, hrow, hlatest, ?_, ?_⟩
  · rw [liveOffsets_indexFrom hpos, List.getElem?_map, hcount]
    rfl
  · refine (offset?_indexFrom 0 (latest rows) key _).mpr ⟨row, ?_, hkey⟩
    rw [latestAt_latest]
    exact mem_located_of_getElem? hlatest

/-- The offsets that are copied are those at which a key is found. -/
theorem mem_liveOffsets_indexFrom (hpos : ∀ row ∈ rows, 0 < row.2.length) {offset : Nat} :
    offset ∈ (indexFrom 0 ∅ rows).liveOffsets ↔
      ∃ key, (indexFrom 0 ∅ rows).offset? key = some offset := by
  rw [liveOffsets_indexFrom hpos, List.mem_map]
  simp only [offset?_indexFrom]
  constructor
  · rintro ⟨⟨_, row⟩, hrow, rfl⟩
    exact ⟨row.1, row, hrow, rfl⟩
  · rintro ⟨_, row, hrow, _⟩
    exact ⟨(offset, row), hrow, rfl⟩

/-- The rows that count have the keys of all rows. -/
theorem isSome_offset?_latest (hpos : ∀ row ∈ rows, 0 < row.2.length) (key : Bytes) :
    ((indexFrom 0 ∅ (latest rows)).offset? key).isSome =
      ((indexFrom 0 ∅ rows).offset? key).isSome := by
  rw [Bool.eq_iff_iff, Option.isSome_iff_exists, Option.isSome_iff_exists]
  constructor
  · rintro ⟨position, hposition⟩
    obtain ⟨row, hrow, hkey⟩ := (offset?_indexFrom 0 _ key position).mp hposition
    have hmem := mem_of_mem_located ((latestBy_sublist _ _).subset hrow)
    rw [← map_snd_latestAt 0, List.mem_map] at hmem
    obtain ⟨⟨offset, found⟩, hentry, rfl⟩ := hmem
    exact ⟨offset, (offset?_indexFrom 0 rows key offset).mpr ⟨found, hentry, hkey⟩⟩
  · rintro ⟨offset, hoffset⟩
    obtain ⟨_, _, _, _, _, hmoved⟩ := exists_of_offset?_indexFrom hpos hoffset
    exact ⟨_, hmoved⟩

/-- In a table of the rows that count a key is found behind the records that come before its own. -/
theorem Stores.exists_moved (h : table.Stores disk rows) (hafter : after.Stores left (latest rows))
    {key : Bytes} {offset : Nat} (hoffset : table.index.offset? key = some offset) :
    ∃ count, table.index.liveOffsets[count]? = some offset ∧
      after.index.offset? key =
        some (((latest rows).map (·.2)).take count).flatten.length ∧
      after.log.read left (((latest rows).map (·.2)).take count).flatten.length =
        table.log.read disk offset := by
  rw [h.index] at hoffset
  obtain ⟨count, row, hrow, hlatest, hcount, hmoved⟩ :=
    exists_of_offset?_indexFrom h.length_pos hoffset
  have hposition : (((latest rows).map (·.2)).take count).flatten.length =
      (concatenated ((latest rows).take count)).length := by
    rw [concatenated, List.map_take]
  refine ⟨count, h.index ▸ hcount, ?_, ?_⟩
  · rw [hafter.index, hmoved, hposition]
  · rw [hposition, hafter.read (mem_located_of_getElem? hlatest),
      h.read ((latestBy_sublist _ _).subset hrow)]

/-- If all rows count, a compaction changes neither the log nor the index. -/
theorem Stores.compact_of_latest (h : table.Stores disk rows) (hlatest : latest rows = rows)
    (hfits : disk.entryFault? (compactFile table.directory) = none) :
    ∃ report after left, table.compact disk = (.ok report, after, left) ∧
      left.get? (logFile table.directory) = disk.get? (logFile table.directory) ∧
      after.index = table.index := by
  obtain ⟨after, left, hcompact, hafter, hcontinues⟩ := h.compact hfits
  rw [hlatest] at hafter
  refine ⟨_, after, left, hcompact, ?_, ?_⟩
  · rw [h.file, ← hcontinues.directory, hafter.file]
  · rw [hafter.index, h.index]

/-- Nothing has been superseded if all rows count. -/
theorem Stores.forall_not_isSuperseded_iff (h : table.Stores disk rows) :
    (∀ offset, ¬ table.IsSuperseded disk offset) ↔ latest rows = rows := by
  obtain ⟨scanner, hscan⟩ := h.scan
  have hfilter : (located (·.2.length) 0 rows).filter
      (fun entry ↦ table.index.isCurrent entry.2.1 entry.1) = latestAt 0 rows := by
    rw [h.index]
    exact filter_isCurrent h.length_pos
  constructor
  · intro hnone
    have hall : ∀ entry ∈ located (·.2.length) 0 rows,
        table.index.isCurrent entry.2.1 entry.1 = true := by
      rintro ⟨offset, row⟩ hentry
      apply Classical.byContradiction
      intro hother
      exact hnone offset ⟨_, scanner, row.2, row.1, hscan, List.mem_map_of_mem hentry,
        (h.isRow row (mem_of_mem_located hentry)).decodeKey, Bool.eq_false_iff.mpr hother⟩
    rw [List.filter_eq_self.mpr hall] at hfilter
    rw [← map_snd_latestAt 0, ← hfilter, map_snd_located]
  · rintro hlatest offset ⟨entries, _, record, key, hentries, hmem, hkey, hcurrent⟩
    rw [hscan] at hentries
    cases hentries
    obtain ⟨⟨position, row⟩, hentry, heq⟩ := List.mem_map.mp hmem
    cases heq
    have hlocated : latestAt 0 rows = located (·.2.length) 0 rows := by
      conv => lhs; rw [← hlatest]
      rw [latestAt_latest, hlatest]
    rw [(h.isRow row (mem_of_mem_located hentry)).decodeKey] at hkey
    cases hkey
    rw [← hlocated, ← hfilter] at hentry
    exact Bool.eq_false_iff.mp hcurrent (List.mem_filter.mp hentry).2

/-- **A compaction copies the records that the index points to, and nothing else.** -/
theorem Stores.compacts (h : table.Stores disk rows)
    (hcompact : table.compact disk = (.ok report, after, left)) :
    table.Compacts disk ((latest rows).map (·.2)) report after left := by
  obtain ⟨hfits, rfl, hstores, hcontinues⟩ := h.of_compact_eq_ok hcompact
  have hlive : table.index.liveOffsets = (latestAt 0 rows).map (·.1) := by
    rw [h.index, liveOffsets_indexFrom h.length_pos]
  have hsizes := sum_size_of_sublist (latest_sublist rows) h.length_pos
  rw [← length_concatenated, ← length_concatenated] at hsizes
  exact {
    offsets := fun offset ↦ by
      rw [h.index]
      exact mem_liveOffsets_indexFrom h.length_pos
    ascending := by
      rw [hlive, List.pairwise_map]
      exact (pairwise_located h.length_pos).sublist (latestBy_sublist _ _)
    read := by
      rw [hlive, ← map_snd_latestAt 0, List.map_map, List.map_map, List.map_map]
      exact List.map_congr_left fun entry hentry ↦ h.read ((latestBy_sublist _ _).subset hentry)
    content := by
      rw [← hcontinues.directory, hstores.file]
      rfl
    recordsKept := by rw [h.stats]
    liveKeys := by rw [hstores.stats, h.stats, latest_latest]
    bytesBefore := by rw [h.stats]
    bytesAfter := by rw [hstores.stats]
    logBytes := by
      rw [hstores.stats]
      rfl
    shrinks := hsizes.1
    same := by
      rw [h.forall_not_isSuperseded_iff]
      exact ⟨hsizes.2, fun hsame ↦ by dsimp only; rw [hsame]⟩
    keys := fun key ↦ by
      rw [h.index, hstores.index]
      exact isSome_offset?_latest h.length_pos key
    moved := fun _ _ hoffset ↦ h.exists_moved hstores hoffset
    again := by
      rw [← hcontinues.directory]
      exact hstores.compact_of_latest (latest_latest rows)
        (hcontinues.entryFault?_eq_none hfits) }

end Table

/-! ## Tables that the store alone has written -/

namespace Ledger

/-- The ledger that operations leave one after the other. -/
def after (schema : Schema) (format : RecordFormat) (ledger : Ledger)
    (operations : List Operation) : Ledger :=
  operations.foldl (fun ledger operation ↦ (serve schema format ledger operation).2) ledger

/-- The records of the rows that count are those of the items, in order. -/
theorem Reflects.map_encode {format : RecordFormat} {rows : List Row} {ledger : Ledger}
    (h : Reflects format rows ledger) (hdistinct : (format.columns.map (·.name)).Nodup) :
    ledger.map (fun entry ↦ format.encode entry.2) = ((latest rows).map (·.2)).map .ok := by
  unfold Reflects at h
  generalize latest rows = current at h
  induction current generalizing ledger with
  | nil =>
    cases ledger with
    | nil => rfl
    | cons entry rest => cases h
  | cons row others ih =>
    cases ledger with
    | nil => cases h
    | cons entry rest =>
      rw [List.map_cons, List.map_cons, List.cons.injEq, Prod.mk.injEq] at h
      obtain ⟨⟨_, hdecode⟩, hrest⟩ := h
      have hencode := RecordFormat.encode_of_read hdistinct (RecordFormat.read_of_decode hdecode)
      rw [List.map_cons, List.map_cons, List.map_cons, hencode, ih hrest]

end Ledger

namespace Session

/-- A session leaves rows that read as the ledger it leaves. -/
theorem run_of_ledger {table : Table} {disk : Disk} {schema : Schema} {format : RecordFormat}
    {rows : List Row} {ledger : Ledger} (hstores : table.Stores disk rows)
    (hschema : table.schema = schema) (hformat : table.format = format)
    (hreflects : Ledger.Reflects format rows ledger) (operations : List Operation) :
    ∃ answers last others, run ⟨table, disk⟩ operations = (answers, some last) ∧
      last.table.Stores last.disk others ∧
      Ledger.Reflects format others (ledger.after schema format operations) := by
  induction operations generalizing table disk rows ledger with
  | nil => exact ⟨[], ⟨table, disk⟩, rows, rfl, hstores, hreflects⟩
  | cons operation rest ih =>
    obtain ⟨after, hstep, hafter, hcontinues⟩ := step_of_stores hstores operation
    rw [hschema, hformat] at hstep hafter
    obtain ⟨hleft, _⟩ := hreflects.serve schema
      (disk.entryFault? (Table.compactFile table.directory)) operation
    obtain ⟨answers, last, others, hrun, hlast, hend⟩ :=
      ih hafter (hcontinues.schema.trans hschema) (hcontinues.format.trans hformat) hleft
    have hanswers := run_cons hstep rest
    rw [hrun] at hanswers
    exact ⟨_, last, others, hanswers, hlast, hend⟩

/-- **What a compaction comes to is known exactly**, on whatever bytes the table has been opened and
whatever has been done with it since. In a table that has been created the records copied are those
of the items that it is down to. -/
theorem compacts_of_run :
    (∀ {disk opened : Disk} {directory : Place} {name : String} {policy : SyncPolicy}
        {content : Bytes} {table : Table},
      disk.get? (Table.logFile directory) = some (.file content) →
      Table.openAt disk directory name policy = (.ok table, opened) →
      ∀ operations, ∃ answers last, run ⟨table, opened⟩ operations = (answers, some last) ∧
        ∀ report after left, last.table.compact last.disk = (.ok report, after, left) →
          ∃ records, last.table.Compacts last.disk records report after left) ∧
    ∀ {disk created : Disk} {directory : Place} {schema : Schema} {policy : SyncPolicy}
        {table : Table},
      disk.IsTree → Table.create disk directory schema policy = (.ok table, created) →
      ∀ operations, ∃ answers last format, run ⟨table, created⟩ operations = (answers, some last) ∧
        RecordFormat.ofSchema schema = .ok format ∧
        ∀ report after left, last.table.compact last.disk = (.ok report, after, left) →
          ∃ records, last.table.Compacts last.disk records report after left ∧
            (Ledger.after schema format [] operations).map (fun entry ↦ format.encode entry.2) =
              records.map .ok := by
  constructor
  · intro disk opened directory name policy content table hfile hopen operations
    obtain ⟨rows, _, hstores, _⟩ := Table.stores_of_openAt hfile hopen
    obtain ⟨answers, last, others, hrun, hlast, _⟩ :=
      run_of_stores (P := fun _ ↦ True) (fun _ _ _ _ ↦ trivial) hstores rfl rfl trivial operations
    exact ⟨answers, last, hrun, fun _ _ _ hcompact ↦ ⟨_, hlast.compacts hcompact⟩⟩
  · intro disk created directory schema policy table htree hcreate operations
    have hvalid := Table.validate_of_create_eq_ok hcreate
    obtain ⟨hstores, rfl, rfl, _⟩ := Table.stores_of_create htree hcreate
    have hdistinct : (table.format.columns.map (·.name)).Nodup := by
      rw [(RecordFormat.of_ofSchema_eq_ok hstores.format).1]
      exact (Schema.isValid_of_validate hvalid).column_names_distinct
    have hempty : Ledger.Reflects table.format [] [] := rfl
    obtain ⟨answers, last, others, hrun, hlast, hreflects⟩ :=
      run_of_ledger hstores rfl rfl hempty operations
    exact ⟨answers, last, table.format, hrun, hstores.format, fun _ _ _ hcompact ↦
      ⟨_, hlast.compacts hcompact, hreflects.map_encode hdistinct⟩⟩

/-- Of the two records of one key in a log that the store has not written the second one is kept,
and in a table of orders one of two writes of the same order. -/
theorem compacts_of_run_stray :
    (∃ table opened answers last report after left records,
      Table.openAt strayDisk ordersPlace "orders" .never = (.ok table, opened) ∧
        run ⟨table, opened⟩ [] = (answers, some last) ∧
        last.table.compact last.disk = (.ok report, after, left) ∧ report = ⟨1, 26, 13⟩ ∧
        last.table.Compacts last.disk records report after left) ∧
    ∃ table created answers last format report after left records,
      Table.create Disk.empty ordersPlace RecordFormat.ordersSchema .never = (.ok table, created) ∧
        run ⟨table, created⟩ [.put RecordFormat.orderItem, .put RecordFormat.orderItem] =
          (answers, some last) ∧
        last.table.compact last.disk = (.ok report, after, left) ∧ report.recordsKept = 1 ∧
        last.table.Compacts last.disk records report after left ∧
        (Ledger.after RecordFormat.ordersSchema format []
            [.put RecordFormat.orderItem, .put RecordFormat.orderItem]).map
          (fun entry ↦ format.encode entry.2) = records.map .ok := by
  constructor
  · have hfile : strayDisk.get? (Table.logFile ordersPlace) = some (.file strayLog) := by
      decide +kernel
    have hcompacts : ((Table.openAt strayDisk ordersPlace "orders" .never).1.toOption.any fun table ↦
        (table.compact (Table.openAt strayDisk ordersPlace "orders" .never).2).1.toOption.any
          fun report ↦ decide (report = ⟨1, 26, 13⟩)) = true := by
      decide +kernel
    cases hopen : Table.openAt strayDisk ordersPlace "orders" .never with
    | mk outcome opened =>
      rw [hopen] at hcompacts
      cases outcome with
      | error e => cases hcompacts
      | ok table =>
        obtain ⟨answers, last, hrun, hlast⟩ := compacts_of_run.1 hfile hopen []
        cases hrun
        dsimp only [Except.toOption, Option.any_some] at hcompacts
        cases hcompact : table.compact opened with
        | mk result rest =>
          rw [hcompact] at hcompacts
          cases result with
          | error e => cases hcompacts
          | ok report =>
            obtain ⟨records, hrecords⟩ := hlast report rest.1 rest.2 hcompact
            exact ⟨table, opened, _, _, report, rest.1, rest.2, records, rfl, rfl, hcompact,
              of_decide_eq_true hcompacts, hrecords⟩
  · let creation := Table.create Disk.empty ordersPlace RecordFormat.ordersSchema .never
    have hcompacts : (creation.1.toOption.any fun table ↦
        (run ⟨table, creation.2⟩ [.put RecordFormat.orderItem, .put RecordFormat.orderItem]).2.any
          fun last ↦ (last.table.compact last.disk).1.toOption.any
            fun report ↦ decide (report.recordsKept = 1)) = true := by
      decide +kernel
    cases hcreate : Table.create Disk.empty ordersPlace RecordFormat.ordersSchema .never with
    | mk outcome created =>
      rw [show creation = (outcome, created) from hcreate] at hcompacts
      cases outcome with
      | error e => cases hcompacts
      | ok table =>
        obtain ⟨answers, last, format, hrun, hformat, hlast⟩ :=
          compacts_of_run.2 Disk.isTree_empty hcreate
            [.put RecordFormat.orderItem, .put RecordFormat.orderItem]
        dsimp only [Except.toOption, Option.any_some] at hcompacts
        rw [hrun] at hcompacts
        dsimp only [Option.any_some] at hcompacts
        cases hcompact : last.table.compact last.disk with
        | mk result rest =>
          rw [hcompact] at hcompacts
          cases result with
          | error e => cases hcompacts
          | ok report =>
            obtain ⟨records, hrecords, hitems⟩ := hlast report rest.1 rest.2 hcompact
            exact ⟨table, created, answers, last, format, report, rest.1, rest.2, records, rfl,
              hrun, hcompact, of_decide_eq_true hcompacts, hrecords, hitems⟩

end Session

end TableStore
