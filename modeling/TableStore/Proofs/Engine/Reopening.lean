import TableStore.Proofs.Engine.Opening

/-!
# An engine over any data directory

An engine that opens has a table for every directory with a descriptor, whatever else is in the data
directory, and each of them stores what a shelf holds. A write keeps it so, and when the engine is
opened once more each table is on the shelf that it was on.
-/

namespace TableStore

variable {disk opened left : Disk} {directory root : Place} {name : String} {policy : SyncPolicy}
  {table : Table}

/-! ## Opening one table -/

/-- The device that is always full opens as an empty log, and stays as it is. -/
theorem AppendLog.openAt_of_fullDevice {place : Place}
    (hfull : disk.get? place = some .fullDevice) (policy : SyncPolicy) :
    AppendLog.openAt disk place policy =
      (.ok (⟨place, policy, 0, 0, false⟩, Recovery.inspect []), disk) := by
  have hread : disk.read place = .ok [] := by
    rw [Disk.read, Disk.find_of_get? hfull]
    rfl
  have hinspect : Recovery.inspect [] = ⟨0, 0, 0⟩ := by
    rw [Recovery.inspect_eq, Frame.frames_nil]
    rfl
  rw [AppendLog.openAt, Disk.ensureFile, hfull]
  dsimp only
  rw [Recovery.recover, Recovery.verify, hread]
  dsimp only
  rw [hinspect]
  rfl

namespace Table

/-- A table that opens without a log has an empty one. -/
theorem stores_of_openAt_of_none (hnone : disk.get? (logFile directory) = none)
    (h : openAt disk directory name policy = (.ok table, opened)) :
    table.Stores opened [] ∧ table.directory = directory := by
  obtain ⟨schema, format, cleared, log, report, replayed, index, hload, hformat, hstale, hopen,
    hrebuild, rfl⟩ := openAt_eq_ok_iff.mp h
  obtain ⟨hgone, helsewhere⟩ := of_removeStale_eq_ok hstale
  have hstill : cleared.get? (logFile directory) = none :=
    (get?_logFile_of_removeStale hstale).trans hnone
  obtain ⟨_, rfl, rfl, hfile⟩ := AppendLog.of_openAt_eq_ok hstill hopen
  have hrows : ∀ row ∈ ([] : List Row), format.IsRow row := nofun
  have hindex : Index.rebuild ⟨logFile directory, policy, 0, 0, false⟩
      (cleared.set (logFile directory).path (.file [])) format = (.ok 0, indexFrom 0 ∅ []) :=
    Index.rebuild_of_rows hfile rfl hrows
  rw [hindex] at hrebuild
  cases hrebuild
  have hname : schema.name = name := Descriptor.name_of_load hload
  refine ⟨⟨rfl, rfl, rfl, hfile, hrows, rfl, ?_, hformat, ?_⟩, rfl⟩
  · rw [get?_compactFile_set_logFile, hgone]
  · dsimp only
    rw [hname]
    refine load_congr ?_ hload
    rw [node?_set_logFile (schemaFile_ne_logFile _), helsewhere _ (schemaFile_ne_compactFile _)]

/-- No table opens on a directory for a log. -/
theorem get?_logFile_ne_directory (h : openAt disk directory name policy = (.ok table, opened)) :
    disk.get? (logFile directory) ≠ some .directory := by
  intro hdirectory
  obtain ⟨_, _, cleared, _, _, _, _, _, _, hstale, hopen, _, rfl⟩ := openAt_eq_ok_iff.mp h
  have hstill : cleared.get? (logFile directory) = some .directory :=
    (get?_logFile_of_removeStale hstale).trans hdirectory
  rw [AppendLog.openAt, Disk.ensureFile, hstill] at hopen
  cases hopen

/-- The device that is always full is still there when a table has opened on it. -/
theorem get?_logFile_of_fullDevice (h : openAt disk directory name policy = (.ok table, opened))
    (hfull : disk.get? (logFile directory) = some .fullDevice) :
    opened.get? (logFile directory) = some .fullDevice := by
  obtain ⟨_, _, cleared, _, _, _, _, _, _, hstale, hopen, _, rfl⟩ := openAt_eq_ok_iff.mp h
  have hstill : cleared.get? (logFile directory) = some .fullDevice :=
    (get?_logFile_of_removeStale hstale).trans hfull
  rw [AppendLog.openAt_of_fullDevice hstill] at hopen
  cases hopen
  exact hstill

/-- **A table that opens stores what a shelf holds**, unless its log is the device that is always
full. -/
theorem exists_shelf_of_openAt (hdirectory : disk.node? directory.path = some .directory)
    (h : openAt disk directory name policy = (.ok table, opened))
    (hlog : opened.get? (logFile directory) ≠ some .fullDevice) :
    ∃ shelf : Shelf, shelf.Describes table opened directory ∧ shelf.schema.name = name := by
  have hchanges := changesWithin_openAt disk directory name policy
  rw [h] at hchanges
  have hstores : ∃ rows, table.Stores opened rows ∧ table.directory = directory := by
    cases hfile : disk.get? (logFile directory) with
    | none => exact ⟨[], stores_of_openAt_of_none hfile h⟩
    | some node =>
      cases node with
      | file content =>
        obtain ⟨rows, _, hstores, hplace⟩ := stores_of_openAt hfile h
        exact ⟨rows, hstores, hplace⟩
      | fullDevice => exact absurd (get?_logFile_of_fullDevice h hfile) hlog
      | directory => exact absurd hfile (get?_logFile_ne_directory h)
  obtain ⟨rows, hstores, hplace⟩ := hstores
  refine ⟨⟨table.schema, table.format, rows⟩, ⟨⟨hstores, rfl, hplace, ?_⟩, hstores.format⟩, ?_⟩
  · exact hchanges.directories _ hdirectory
  · obtain ⟨schema, _, _, _, _, _, _, hload, _, _, _, _, rfl⟩ := openAt_eq_ok_iff.mp h
    exact Descriptor.name_of_load hload

/-- A write changes nothing beside the directory of the table. -/
theorem changesWithin_put {rows : List Row} (h : table.Stores disk rows) (item : Item) :
    Disk.ChangesWithin table.directory.path disk (table.put disk item).2.2 := by
  have hfile : disk.get? table.log.place = some (.file (concatenated rows)) := h.fileAtPlace
  have hwithin : table.directory.path <+: table.log.place.path := by
    rw [h.place]
    exact Place.within_enter _ _
  have hfree : disk.node? table.log.place.path ≠ some .directory := by
    rw [(Disk.get?_eq_some_iff.mp hfile).2]
    exact nofun
  have happend (record : Bytes) :
      Disk.ChangesWithin table.directory.path disk (table.log.append disk record).2.2 := by
    obtain ⟨unsynced, hleft⟩ := AppendLog.append_of_file h.working hfile record
    rw [hleft]
    exact .set hwithin hfree _
  unfold put
  split
  · exact .refl _ _
  · next record _ =>
    split
    · exact .refl _ _
    · have hchanges := happend record
      split <;> next hleft => rwa [hleft] at hchanges

end Table

/-! ## Opening an engine -/

namespace Engine

open Disk

variable {engine again : Engine} {route : Route} {current : Path} {config : Config}

/-- No directory goes when tables are opened. -/
theorem directories_openTables (disk : Disk) (engine : Engine) (names : List String) {path : Path}
    (h : disk.node? path = some .directory) :
    (openTables disk engine names).2.node? path = some .directory := by
  induction names generalizing disk engine with
  | nil => exact h
  | cons name rest ih =>
    have hchanges := Table.changesWithin_openAt disk (engine.root.enter name) name
      engine.config.syncPolicy
    rw [openTables_cons]
    split
    · next hopen =>
      rw [hopen] at hchanges
      exact hchanges.directories _ h
    · next hopen =>
      rw [hopen] at hchanges
      exact ih _ _ (hchanges.directories _ h)

/-- An engine opens once its data directory is there. -/
theorem exists_prepared_of_openAt (h : openAt disk current config = (.ok engine, opened)) :
    ∃ prepared root,
      locateRoot prepared (Route.ofText current config.dataDirectory) = .ok root ∧
        openTables prepared ⟨config, root, ∅⟩ (tableNames prepared root) =
          (.ok engine, opened) := by
  unfold Engine.openAt at h
  dsimp only at h
  split at h
  · cases h
  · next prepared _ =>
    split at h
    · cases h
    · next root hroot => exact ⟨prepared, root, hroot, h⟩

/-- A table that has been found and opened is on a shelf, unless its log is the device that is
always full. -/
theorem Opens.exists_shelf (h : Opens disk engine (tableNames disk engine.root) again opened)
    (hname : name ∈ tableNames disk engine.root)
    (hlog : opened.get? (Table.logFile (engine.root.enter name)) ≠ some .fullDevice) :
    ∃ (table : Table) (shelf : Shelf), again.tables[name]? = some table ∧
      shelf.Describes table opened (engine.root.enter name) ∧ shelf.schema.name = name := by
  obtain ⟨table, alone, halone, htable, hagrees⟩ := h.table name hname
  have hfile : alone.get? (Table.logFile (engine.root.enter name)) ≠ some .fullDevice := by
    rwa [Table.logFile, ← hagrees.get? (Place.within_enter _ _)]
  obtain ⟨shelf, hdescribes, hcalled⟩ :=
    Table.exists_shelf_of_openAt (mem_tableNames_iff.mp hname).1 halone hfile
  exact ⟨table, shelf, htable, hdescribes.congr hagrees, hcalled⟩

/-- Whether an engine has just the tables of its data directory, each with what a shelf holds. -/
structure IsOpenOn (engine : Engine) (disk : Disk) (route : Route) : Prop where
  located : locateRoot disk route = .ok engine.root
  /-- A search of the data directory finds the tables. -/
  found : ∀ name, name ∈ tableNames disk engine.root ↔ engine.tables[name]?.isSome = true
  shelved : ∀ name table, engine.tables[name]? = some table →
    ∃ shelf : Shelf, shelf.Describes table disk (engine.root.enter name) ∧ shelf.schema.name = name

/-- **Whatever is in its data directory, an engine that opens has the tables that are found there**,
unless a log is the device that is always full. -/
theorem isOpenOn_of_openAt (h : openAt disk current config = (.ok engine, opened))
    (hlogs : ∀ name, engine.tables[name]?.isSome = true →
      opened.get? (Table.logFile (engine.root.enter name)) ≠ some .fullDevice) :
    engine.IsOpenOn opened (Route.ofText current config.dataDirectory) := by
  obtain ⟨prepared, root, hroot, htables⟩ := exists_prepared_of_openAt h
  have hopens := opens_of_openTables (nodup_tableNames prepared root) htables
  obtain rfl : engine.root = root := hopens.root
  have hkeeps : ∀ path, prepared.node? path = some .directory →
      opened.node? path = some .directory := by
    intro path hdirectory
    have hstays := directories_openTables prepared ⟨config, engine.root, ∅⟩
      (tableNames prepared engine.root) hdirectory
    rwa [htables] at hstays
  have hshelf : ∀ name ∈ tableNames prepared engine.root, ∃ (table : Table) (shelf : Shelf),
      engine.tables[name]? = some table ∧
        shelf.Describes table opened (engine.root.enter name) ∧ shelf.schema.name = name := by
    intro name hname
    obtain ⟨table, _, _, htable, _⟩ := hopens.table name hname
    exact hopens.exists_shelf hname (hlogs name (htable ▸ rfl))
  have hothers : ∀ name, name ∉ tableNames prepared engine.root →
      engine.tables[name]? = none ∧ name ∉ tableNames opened engine.root := by
    intro name hname
    constructor
    · rw [hopens.others name hname]
      exact Std.ExtTreeMap.getElem?_empty
    · rwa [mem_tableNames_congr (hopens.agreesWithin hname)]
  refine ⟨locateRoot_of_directories hkeeps hroot, ?_, ?_⟩
  · intro name
    by_cases hname : name ∈ tableNames prepared engine.root
    · obtain ⟨table, shelf, htable, hdescribes, _⟩ := hshelf name hname
      rw [htable]
      exact iff_of_true
        (mem_tableNames_iff.mpr ⟨hdescribes.holds.isDirectory, hdescribes.has_schemaFile⟩) rfl
    · obtain ⟨hnone, habsent⟩ := hothers name hname
      rw [hnone]
      exact iff_of_false habsent Bool.false_ne_true
  · intro name table htable
    by_cases hname : name ∈ tableNames prepared engine.root
    · obtain ⟨found, shelf, hfound, hdescribes, hcalled⟩ := hshelf name hname
      rw [htable] at hfound
      cases hfound
      exact ⟨shelf, hdescribes, hcalled⟩
    · rw [(hothers name hname).1] at htable
      cases htable

/-- Tables on shelves can be flushed one after the other. -/
theorem exists_syncTables {names : List String}
    (hnames : ∀ name ∈ names, engine.tables[name]?.isSome = true)
    (hshelved : ∀ (name : String) (table : Table), engine.tables[name]? = some table →
      ∃ (shelf : Shelf) (directory : Place), shelf.Describes table disk directory) :
    ∃ after, syncTables disk engine names = (.ok (), after) := by
  induction names generalizing engine with
  | nil => exact ⟨engine, rfl⟩
  | cons name rest ih =>
    obtain ⟨table, htable⟩ := Option.isSome_iff_exists.mp (hnames name List.mem_cons_self)
    obtain ⟨shelf, directory, hdescribes⟩ := hshelved name table htable
    obtain ⟨after, hsync, hafter⟩ := hdescribes.sync
    rw [syncTables, table_of_some htable]
    dsimp only
    rw [hsync]
    dsimp only
    apply ih
    · intro other hother
      rw [tables_setTable]
      split
      · rfl
      · exact hnames other (List.mem_cons_of_mem _ hother)
    · -- The table that has been flushed is still on its shelf.
      intro other found hfound
      rw [tables_setTable] at hfound
      split at hfound
      · cases hfound
        exact ⟨shelf, directory, hafter⟩
      · exact hshelved other found hfound

/-- Whether every table of an engine is a table of another one, on the shelf that it was on. -/
def KeepsShelves (engine : Engine) (disk : Disk) (again : Engine) (left : Disk) : Prop :=
  ∀ (name : String) (table : Table) (shelf : Shelf), engine.tables[name]? = some table →
    shelf.Describes table disk (engine.root.enter name) → shelf.schema.name = name →
      ∃ found, again.tables[name]? = some found ∧
        shelf.Describes found left (engine.root.enter name)

namespace IsOpenOn

variable {table : Table} {shelf : Shelf}

/-- A write to a table leaves the engine with its tables. -/
theorem put (h : engine.IsOpenOn disk route) (htable : engine.tables[name]? = some table)
    (hdescribes : shelf.Describes table disk (engine.root.enter name))
    (hcalled : shelf.schema.name = name) (item : Item) :
    ∃ after left, engine.put disk name item =
        ((shelf.put item).1, engine.setTable name after, left) ∧
      (engine.setTable name after).IsOpenOn left route ∧
      (shelf.put item).2.Describes after left (engine.root.enter name) := by
  obtain ⟨after, left, hput, hafter, _⟩ := hdescribes.put item
  have hchanges := Table.changesWithin_put hdescribes.holds.stores item
  rw [hput, hdescribes.holds.place] at hchanges
  have htables := tables_setTable engine name after
  refine ⟨after, left, ?_, ⟨?_, ?_, ?_⟩, hafter⟩
  · rw [Engine.put, table_of_some htable]
    dsimp only
    rw [hput]
  · exact locateRoot_of_directories hchanges.directories h.located
  · intro other
    rw [htables]
    split
    · next heq =>
      subst heq
      exact iff_of_true (mem_tableNames_iff.mpr
        ⟨hafter.holds.isDirectory, hafter.has_schemaFile⟩) rfl
    · next hne =>
      have hsame := mem_tableNames_congr (agreesWithin_of_ne (Ne.symm hne) hchanges)
      exact hsame.trans (h.found other)
  · intro other found hfound
    rw [htables] at hfound
    split at hfound
    · next heq =>
      subst heq
      cases hfound
      exact ⟨_, hafter, (shelf.schema_put item).symm ▸ hcalled⟩
    · next hne =>
      obtain ⟨second, hsecond, hname⟩ := h.shelved other found hfound
      exact ⟨second, hsecond.congr (agreesWithin_of_ne (Ne.symm hne) hchanges), hname⟩

/-- All tables can be flushed. -/
theorem sync (h : engine.IsOpenOn disk route) : ∃ after, engine.sync disk = (.ok (), after) := by
  apply exists_syncTables
  · intro name hname
    exact mem_names_iff.mp hname
  · intro name table htable
    obtain ⟨shelf, hdescribes, _⟩ := h.shelved name table htable
    exact ⟨shelf, _, hdescribes⟩

/-- **Over its data directory an engine opens again**, and its tables are on the shelves they were
on. -/
theorem reopen (h : engine.IsOpenOn disk (Route.ofText current config.dataDirectory)) :
    ∃ again left, Engine.openAt disk current config = (.ok again, left) ∧
      again.root = engine.root ∧
      again.IsOpenOn left (Route.ofText current config.dataDirectory) ∧
      engine.KeepsShelves disk again left := by
  have halone : ∀ name ∈ tableNames disk engine.root, ∃ table opened,
      Table.openAt disk (engine.root.enter name) name config.syncPolicy = (.ok table, opened) := by
    intro name hname
    obtain ⟨table, htable⟩ := Option.isSome_iff_exists.mp ((h.found name).mp hname)
    obtain ⟨shelf, hdescribes, hcalled⟩ := h.shelved name table htable
    obtain ⟨after, hopen, _⟩ := hdescribes.openAt config.syncPolicy
    exact ⟨after, disk, hcalled ▸ hopen⟩
  have hnames := nodup_tableNames disk engine.root
  obtain ⟨again, left, htables⟩ : ∃ again left, openTables disk ⟨config, engine.root, ∅⟩
      (tableNames disk engine.root) = (.ok again, left) := exists_openTables hnames halone
  have hopen : Engine.openAt disk current config = (.ok again, left) :=
    (openAt_of_locateRoot h.located).trans htables
  have hopens := opens_of_openTables hnames htables
  have hroot : again.root = engine.root := hopens.root
  have hkept : engine.KeepsShelves disk again left := by
    intro name table shelf htable hdescribes hcalled
    have hname : name ∈ tableNames disk engine.root := (h.found name).mpr (htable ▸ rfl)
    obtain ⟨found, alone, hfound, hthere, hagrees⟩ := hopens.table name hname
    obtain ⟨after, hafter, hstill⟩ := hdescribes.openAt config.syncPolicy
    rw [hcalled] at hafter
    -- Opening the table alone changes nothing, so that it is the one that has been found.
    have hsame := hfound.symm.trans hafter
    cases hsame
    exact ⟨_, hthere, hstill.congr hagrees⟩
  refine ⟨again, left, hopen, hroot, isOpenOn_of_openAt hopen ?_, hkept⟩
  intro name hsome
  have hname : name ∈ tableNames disk engine.root := by
    apply Classical.byContradiction
    intro habsent
    rw [hopens.others name habsent, Std.ExtTreeMap.getElem?_empty] at hsome
    cases hsome
  obtain ⟨table, htable⟩ := Option.isSome_iff_exists.mp ((h.found name).mp hname)
  obtain ⟨shelf, hdescribes, hcalled⟩ := h.shelved name table htable
  obtain ⟨found, _, hfound⟩ := hkept name table shelf htable hdescribes hcalled
  have hfile := hfound.holds.stores.file
  rw [hfound.holds.place] at hfile
  rw [hroot, hfile]
  exact nofun

end IsOpenOn

end Engine

end TableStore
