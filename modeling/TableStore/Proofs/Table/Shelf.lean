import TableStore.Proofs.Table.Creation

/-!
# Tables and shelves

A shelf is what a table comes down to when its files, its index and its log are taken away: a schema
and the rows stored under it. Every operation on a table that stores rows answers what the shelf
with these rows answers, and leaves the table with the rows that the shelf is left with.
-/

namespace TableStore

/-- What a table comes down to. -/
structure Shelf where
  schema : Schema
  format : RecordFormat
  rows : List Row

namespace Shelf

/-- Writes an item. -/
def put (shelf : Shelf) (item : Item) : Except Failure Unit × Shelf :=
  match shelf.format.encode item with
  | .error e => (.error e, shelf)
  | .ok record =>
    match shelf.format.decodeKey record with
    | .error e => (.error e, shelf)
    | .ok key => (.ok (), { shelf with rows := shelf.rows ++ [(key, record)] })

/-- The item with a given key. -/
def get (shelf : Shelf) (key : Value) : Except Failure Item :=
  match shelf.format.encodeKey key with
  | .error e => .error e
  | .ok bytes =>
    match (latest shelf.rows).find? (·.1 = bytes) with
    | none => .error .noKey
    | some row => shelf.format.decode row.2

/-- All items that satisfy a predicate. -/
def filter (shelf : Shelf) (predicate : Predicate) : Except Failure (List Item) :=
  match predicate.check shelf.schema with
  | .error e => .error e
  | .ok () => Table.pick shelf.format predicate ((latest shelf.rows).map (·.2))

/-- Keeps the rows that count, unless the file for the copy has too long a name. -/
def compact (shelf : Shelf) (directory : Place) : Except Failure Compaction × Shelf :=
  if Disk.textLimit < (Table.compactFile directory).length then
    (.error (.file .nameTooLong), shelf)
  else
    (.ok ⟨(latest shelf.rows).length, (Table.concatenated shelf.rows).length,
        (Table.concatenated (latest shelf.rows)).length⟩,
      { shelf with rows := latest shelf.rows })

/-- The size of the table. -/
def stats (shelf : Shelf) : TableStats :=
  ⟨(latest shelf.rows).length, (Table.concatenated shelf.rows).length⟩

/-- Puts up a shelf for a new table, unless its files would have too long names. -/
def create (directory : Place) (schema : Schema) : Except Failure Unit × Option Shelf :=
  if Disk.nameLimit < schema.name.utf8ByteSize ∨
      Disk.textLimit < (Table.schemaFile directory).length then
    (.error (.file .nameTooLong), none)
  else
    match RecordFormat.ofSchema schema with
    | .error e => (.error e, none)
    | .ok format => (.ok (), some ⟨schema, format, []⟩)

end Shelf

namespace Shelf

theorem schema_put (shelf : Shelf) (item : Item) : (shelf.put item).2.schema = shelf.schema := by
  unfold put
  split
  · rfl
  · split <;> rfl

theorem schema_compact (shelf : Shelf) (directory : Place) :
    (shelf.compact directory).2.schema = shelf.schema := by
  unfold compact
  split <;> rfl

variable {shelf : Shelf} {table : Table} {disk other : Disk} {directory : Place}

/-- Whether a table in a directory stores just what is on a shelf. -/
structure Describes (shelf : Shelf) (table : Table) (disk : Disk) (directory : Place) : Prop where
  holds : table.Holds disk shelf.schema directory shelf.rows
  format : RecordFormat.ofSchema shelf.schema = .ok shelf.format

namespace Describes

theorem tableFormat (h : shelf.Describes table disk directory) : table.format = shelf.format :=
  h.holds.format h.format

/-- What a table stores is in its directory only. -/
theorem congr (h : shelf.Describes table disk directory)
    (hsame : ∀ path, directory.path <+: path → other.node? path = disk.node? path) :
    shelf.Describes table other directory :=
  ⟨h.holds.congr hsame, h.format⟩

/-! ## Reading -/

theorem get (h : shelf.Describes table disk directory) (key : Value) :
    table.get disk key = shelf.get key := by
  rw [h.holds.stores.get, h.tableFormat]
  rfl

theorem filter (h : shelf.Describes table disk directory) (predicate : Predicate) :
    table.filter disk predicate = shelf.filter predicate := by
  rw [h.holds.stores.filter, h.tableFormat, h.holds.schema]
  rfl

theorem stats (h : shelf.Describes table disk directory) : table.stats = shelf.stats :=
  h.holds.stores.stats

/-! ## Changes -/

/-- A write to the table is one to the shelf. -/
theorem put (h : shelf.Describes table disk directory) (item : Item) :
    ∃ after left, table.put disk item = ((shelf.put item).1, after, left) ∧
      (shelf.put item).2.Describes after left directory ∧ table.Continues disk after left := by
  unfold Shelf.put
  cases hencode : shelf.format.encode item with
  | error e =>
    exact ⟨table, disk, Table.put_of_error (h.tableFormat ▸ hencode), h, .refl _ _⟩
  | ok record =>
    obtain ⟨key, hrow⟩ := Table.exists_isRow_of_encode hencode
    rw [← h.tableFormat] at hencode hrow
    obtain ⟨after, left, hput, hstores, hcontinues⟩ := h.holds.stores.put hencode hrow
    have hdecode : shelf.format.decodeKey record = .ok key := h.tableFormat ▸ hrow.decodeKey
    dsimp only
    rw [hdecode]
    exact ⟨after, left, hput, ⟨h.holds.continues hcontinues hstores, h.format⟩, hcontinues⟩

/-- A compaction of the table is one of the shelf. -/
theorem compact (h : shelf.Describes table disk directory) :
    ∃ after left, table.compact disk = ((shelf.compact directory).1, after, left) ∧
      (shelf.compact directory).2.Describes after left directory ∧
      table.Continues disk after left := by
  have hfault := Table.entryFault?_compactFile_eq h.holds.isDirectory
  unfold Shelf.compact
  by_cases hlong : Disk.textLimit < (Table.compactFile directory).length
  · rw [if_pos hlong] at hfault ⊢
    rw [← h.holds.place] at hfault
    exact ⟨table, disk, h.holds.stores.compact_of_fault hfault, h, .refl _ _⟩
  · rw [if_neg hlong] at hfault ⊢
    rw [← h.holds.place] at hfault
    obtain ⟨after, left, hcompact, hstores, hcontinues⟩ := h.holds.stores.compact hfault
    exact ⟨after, left, hcompact, ⟨h.holds.continues hcontinues hstores, h.format⟩, hcontinues⟩

/-- A flush leaves the table as it is. -/
theorem sync (h : shelf.Describes table disk directory) :
    ∃ after, table.sync disk = (.ok (), after) ∧ shelf.Describes after disk directory := by
  obtain ⟨after, hsync, hstores, hcontinues⟩ := h.holds.stores.sync
  exact ⟨after, hsync, ⟨h.holds.continues hcontinues hstores, h.format⟩⟩

/-- The table can be opened at any time, and is the same then. -/
theorem openAt (h : shelf.Describes table disk directory) (policy : SyncPolicy) :
    ∃ after, Table.openAt disk directory shelf.schema.name policy = (.ok after, disk) ∧
      shelf.Describes after disk directory := by
  obtain ⟨after, hopen, hstores, hcontinues⟩ := h.holds.stores.reopen policy
  rw [h.holds.place, h.holds.schema] at hopen
  exact ⟨after, hopen, ⟨h.holds.continues hcontinues hstores, h.format⟩⟩

/-- The descriptor of the table is where a search for tables looks for it. -/
theorem has_schemaFile (h : shelf.Describes table disk directory) :
    disk.has (Table.schemaFile directory) = true := by
  have hload := h.holds.stores.descriptor
  rw [h.holds.place] at hload
  exact Table.has_schemaFile_of_load hload

end Describes

end Shelf

end TableStore
