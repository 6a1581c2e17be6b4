import TableStore.Proofs.Log.Recovery
import TableStore.Proofs.Table.Rows

/-!
# What an open table stores

An open table stores rows if its log consists of their records, its index is the one along them,
and nothing is left of a compaction. Reading then finds the rows that count, a write adds one row
at the end, and a compaction throws out those that do not count.
-/

namespace TableStore.Table

/-- Whether an open table stores just these rows. -/
structure Stores (table : Table) (disk : Disk) (rows : List Row) : Prop where
  place : table.log.place = logFile table.directory
  working : table.log.failed = false
  committed : table.log.committed = (concatenated rows).length
  file : disk.get? (logFile table.directory) = some (.file (concatenated rows))
  isRow : ∀ row ∈ rows, table.format.IsRow row
  index : table.index = indexFrom 0 ∅ rows
  finished : disk.get? (compactFile table.directory) = none
  format : RecordFormat.ofSchema table.schema = .ok table.format
  descriptor : Descriptor.load disk (table.directory.onward schemaName) table.schema.name =
    .ok table.schema

/-- Whether a table has gone on as the same table: only its log and its index can have changed,
and on the disk only the files of the log. -/
structure Continues (table : Table) (disk : Disk) (after : Table) (left : Disk) : Prop where
  schema : after.schema = table.schema
  format : after.format = table.format
  directory : after.directory = table.directory
  elsewhere : ∀ path, path ≠ (logFile table.directory).path →
    path ≠ (compactFile table.directory).path → left.node? path = disk.node? path

namespace Continues

theorem refl (table : Table) (disk : Disk) : table.Continues disk table disk :=
  ⟨rfl, rfl, rfl, fun _ _ _ ↦ rfl⟩

theorem trans {table between after : Table} {disk halfway left : Disk}
    (hfirst : table.Continues disk between halfway)
    (hsecond : between.Continues halfway after left) : table.Continues disk after left where
  schema := hsecond.schema.trans hfirst.schema
  format := hsecond.format.trans hfirst.format
  directory := hsecond.directory.trans hfirst.directory
  elsewhere := by
    intro path hlog hcompact
    rw [hsecond.elsewhere path (by rwa [hfirst.directory]) (by rwa [hfirst.directory]),
      hfirst.elsewhere path hlog hcompact]

end Continues

/-! ## The files of a table -/

theorem logFile_ne_nil (directory : Place) : (logFile directory).path ≠ [] :=
  Place.path_enter_ne_nil _ _

theorem schemaFile_ne_nil (directory : Place) : (schemaFile directory).path ≠ [] :=
  Place.path_enter_ne_nil _ _

theorem compactFile_ne_nil (directory : Place) : (compactFile directory).path ≠ [] :=
  Place.path_enter_ne_nil _ _

theorem logFile_ne_compactFile (directory : Place) :
    (logFile directory).path ≠ (compactFile directory).path := by
  rw [logFile, compactFile, Ne, Place.path_enter_inj]
  decide

theorem schemaFile_ne_logFile (directory : Place) :
    (schemaFile directory).path ≠ (logFile directory).path := by
  rw [schemaFile, logFile, Ne, Place.path_enter_inj]
  decide

theorem schemaFile_ne_compactFile (directory : Place) :
    (schemaFile directory).path ≠ (compactFile directory).path := by
  rw [schemaFile, compactFile, Ne, Place.path_enter_inj]
  decide

section Disk

variable {disk : Disk} {directory : Place}

/-- A log that has been rewritten holds the new bytes. -/
theorem get?_set_logFile {node : Node} (h : disk.get? (logFile directory) = some node)
    (content : Bytes) :
    (disk.set (logFile directory).path (.file content)).get? (logFile directory) =
      some (.file content) :=
  Disk.get?_set_self (logFile_ne_nil _) (Disk.get?_eq_some_iff.mp h).1 _ _

theorem node?_set_logFile {path : Path} (h : path ≠ (logFile directory).path) (content : Bytes) :
    (disk.set (logFile directory).path (.file content)).node? path = disk.node? path := by
  rw [Disk.node?_set (logFile_ne_nil _), if_neg h.symm]

theorem get?_compactFile_set_logFile (disk : Disk) (directory : Place) (content : Bytes) :
    (disk.set (logFile directory).path (.file content)).get? (compactFile directory) =
      disk.get? (compactFile directory) :=
  Disk.get?_set_of_ne (logFile_ne_nil _) (logFile_ne_compactFile _) _ _

end Disk

/-- Where the descriptor of a table is found does not depend on the disk. -/
theorem locate_schema (disk : Disk) (directory : Place) :
    disk.locate (directory.onward schemaName) =
      match Disk.routeFault? (directory.onward schemaName) with
      | some fault => .error fault
      | none => .ok ⟨(schemaFile directory).path, directory.onward schemaName⟩ :=
  Disk.locate_name (by decide) (by decide) disk _ _

/-- A descriptor that can be loaded can still be loaded from a disk that has the same node
there. -/
theorem load_congr {disk other : Disk} {directory : Place} {name : String} {schema : Schema}
    (hsame : other.node? (schemaFile directory).path = disk.node? (schemaFile directory).path)
    (h : Descriptor.load disk (directory.onward schemaName) name = .ok schema) :
    Descriptor.load other (directory.onward schemaName) name = .ok schema := by
  rw [Descriptor.load, Disk.readAt, locate_schema] at h ⊢
  cases hfault : Disk.routeFault? (directory.onward schemaName) with
  | some fault => rw [hfault] at h; cases h
  | none =>
    rw [hfault] at h
    dsimp only at h ⊢
    have hget : other.get? ⟨(schemaFile directory).path, directory.onward schemaName⟩ =
        disk.get? ⟨(schemaFile directory).path, directory.onward schemaName⟩ :=
      Disk.get?_congr hsame
    rw [Disk.read, Disk.find] at h ⊢
    rw [hget]
    cases hnode : disk.get? ⟨(schemaFile directory).path, directory.onward schemaName⟩ with
    | none => rw [hnode] at h; cases h
    | some node => rw [hnode] at h; exact h

theorem Continues.load {table after : Table} {disk left : Disk} {name : String} {schema : Schema}
    (hcontinues : table.Continues disk after left)
    (h : Descriptor.load disk (table.directory.onward schemaName) name = .ok schema) :
    Descriptor.load left (table.directory.onward schemaName) name = .ok schema :=
  load_congr (hcontinues.elsewhere _ (schemaFile_ne_logFile _) (schemaFile_ne_compactFile _)) h

/-! ## Reading -/

/-- A scan of a log that consists of the records of rows goes through the rows. -/
theorem scan_of_rows {log : AppendLog} {disk : Disk} {format : RecordFormat} {rows : List Row}
    (hfile : disk.get? log.place = some (.file (concatenated rows)))
    (hcommitted : log.committed = (concatenated rows).length)
    (hrows : ∀ row ∈ rows, format.IsRow row) : ∃ scanner,
    log.scan disk 0 log.committed =
      .ok ((located (·.2.length) 0 rows).map (fun entry ↦ .ok (entry.1, entry.2.2)), scanner) := by
  rw [AppendLog.scan_of_file hfile, Scanner.run_start, Nat.min_self, hcommitted, Nat.sub_zero,
    List.drop_zero, List.take_length, frames_concatenated hrows, located_map, List.map_map]
  exact ⟨_, rfl⟩

namespace Stores

variable {table : Table} {disk : Disk} {rows : List Row}

theorem length_pos (h : table.Stores disk rows) : ∀ row ∈ rows, 0 < row.2.length :=
  fun row hrow ↦ (h.isRow row hrow).isFrame.length_pos

theorem fileAtPlace (h : table.Stores disk rows) :
    disk.get? table.log.place = some (.file (concatenated rows)) := by
  rw [h.place, h.file]

/-- A scan of the whole log goes through the rows. -/
theorem scan (h : table.Stores disk rows) : ∃ scanner,
    table.log.scan disk 0 table.log.committed =
      .ok ((located (·.2.length) 0 rows).map (fun entry ↦ .ok (entry.1, entry.2.2)), scanner) :=
  scan_of_rows h.fileAtPlace h.committed h.isRow

/-- A read at the offset of a row finds its record. -/
theorem read (h : table.Stores disk rows) {position : Nat} {row : Row}
    (hrow : (position, row) ∈ located (·.2.length) 0 rows) :
    table.log.read disk position = .ok row.2 := by
  obtain ⟨before, after, hrows, hposition⟩ := mem_located hrow
  have hframe : Frame.IsFrame row.2 := (h.isRow row (by simp [hrows])).isFrame
  have hdrop : (concatenated rows).drop position = row.2 ++ concatenated after := by
    calc
      (concatenated rows).drop position =
          (concatenated before ++ concatenated (row :: after)).drop
            (concatenated before).length := by
        rw [hrows, concatenated_append, hposition, Nat.zero_add, ← length_concatenated]
      _ = concatenated (row :: after) := List.drop_left
      _ = row.2 ++ concatenated after := rfl
  apply AppendLog.read_of_split? h.fileAtPlace (Nat.le_of_eq h.committed)
  rw [h.committed, List.take_length, hdrop]
  exact Frame.split?_frame_append hframe _

/-- **The item with a key is that of the row that counts.** -/
theorem get (h : table.Stores disk rows) (key : Value) :
    table.get disk key =
      match table.format.encodeKey key with
      | .error e => .error e
      | .ok bytes =>
        match (latest rows).find? (·.1 = bytes) with
        | none => .error .noKey
        | some row => table.format.decode row.2 := by
  rw [Table.get]
  cases table.format.encodeKey key with
  | error e => rfl
  | ok bytes =>
    dsimp only
    rw [h.index]
    cases hoffset : (indexFrom 0 ∅ rows).offset? bytes with
    | none =>
      have hnone : (latest rows).find? (·.1 = bytes) = none := by
        rw [List.find?_eq_none]
        intro row hrow hkey
        rw [← map_snd_latestAt 0 rows, List.mem_map] at hrow
        obtain ⟨entry, hentry, rfl⟩ := hrow
        have hsome := (offset?_indexFrom 0 rows bytes entry.1).mpr
          ⟨entry.2, hentry, by simpa using hkey⟩
        rw [hoffset] at hsome
        cases hsome
      rw [hnone]
    | some position =>
      obtain ⟨row, hrow, rfl⟩ := (offset?_indexFrom 0 rows bytes position).mp hoffset
      have hlatest : row ∈ latest rows := by
        rw [← map_snd_latestAt 0 rows]
        exact List.mem_map_of_mem hrow
      have hread : table.log.read disk position = .ok row.2 :=
        h.read ((latestBy_sublist _ _).subset hrow)
      have hfind : (latest rows).find? (·.1 = row.1) = some row := find?_latestBy hlatest
      dsimp only
      rw [hread, hfind]

end Stores

/-- The items that satisfy a predicate, of records all of which count. -/
def pick (format : RecordFormat) (predicate : Predicate) :
    List Bytes → Except Failure (List Item)
  | [] => .ok []
  | record :: rest =>
    match format.decode record with
    | .error e => .error e
    | .ok item =>
      match pick format predicate rest with
      | .error e => .error e
      | .ok items => .ok (if predicate.holds item then item :: items else items)

/-- Picking among records that can all be read is picking among their items. -/
theorem pick_of_decode {format : RecordFormat} {predicate : Predicate} {records : List Bytes}
    {items : List Item} (h : records.map format.decode = items.map .ok) :
    pick format predicate records = .ok (items.filter fun item ↦ predicate.holds item) := by
  induction records generalizing items with
  | nil =>
    cases items with
    | nil => rfl
    | cons item rest => cases h
  | cons record others ih =>
    cases items with
    | nil => cases h
    | cons item rest =>
      rw [List.map_cons, List.map_cons, List.cons.injEq] at h
      rw [pick, h.1]
      dsimp only
      rw [ih h.2, List.filter_cons]

/-- A selection passes over the rows that the index does not point to. -/
theorem select_eq_pick {format : RecordFormat} {index : Index} {predicate : Predicate}
    {entries : List (Nat × Row)} (h : ∀ entry ∈ entries, format.IsRow entry.2) :
    select format index predicate (entries.map fun entry ↦ .ok (entry.1, entry.2.2)) =
      pick format predicate
        ((entries.filter fun entry ↦ index.isCurrent entry.2.1 entry.1).map (·.2.2)) := by
  induction entries with
  | nil => rfl
  | cons entry rest ih =>
    have hentry : format.IsRow entry.2 := h entry (by simp)
    have hrest := ih fun other hother ↦ h other (by simp [hother])
    rw [List.map_cons, select, hentry.decodeKey]
    dsimp only
    by_cases hcurrent : index.isCurrent entry.2.1 entry.1 = true
    · rw [if_pos hcurrent, List.filter_cons, if_pos hcurrent, List.map_cons]
      cases hitem : format.decode entry.2.2 with
      | error e => simp only [pick, hitem]
      | ok item =>
        cases hpick : pick format predicate
            ((rest.filter fun other ↦ index.isCurrent other.2.1 other.1).map (·.2.2)) with
        | error e => simp only [pick, hitem, hrest, hpick]
        | ok items => simp only [pick, hitem, hrest, hpick]
    · rw [if_neg hcurrent, List.filter_cons, if_neg hcurrent, hrest]

namespace Stores

variable {table : Table} {disk : Disk} {rows : List Row}

/-- **A filter looks at the rows that count, in order.** -/
theorem filter (h : table.Stores disk rows) (predicate : Predicate) :
    table.filter disk predicate =
      match predicate.check table.schema with
      | .error e => .error e
      | .ok () => pick table.format predicate ((latest rows).map (·.2)) := by
  obtain ⟨scanner, hscan⟩ := h.scan
  have hentries : ∀ entry ∈ located (·.2.length) 0 rows, table.format.IsRow entry.2 :=
    fun entry hentry ↦ h.isRow entry.2 (mem_of_mem_located hentry)
  rw [Table.filter, hscan]
  dsimp only
  rw [select_eq_pick hentries, h.index, filter_isCurrent h.length_pos, ← map_snd_latestAt 0 rows,
    List.map_map]
  rfl

theorem stats (h : table.Stores disk rows) :
    table.stats = ⟨(latest rows).length, (concatenated rows).length⟩ := by
  rw [Table.stats, h.index, size_indexFrom, h.committed]

end Stores

end TableStore.Table
