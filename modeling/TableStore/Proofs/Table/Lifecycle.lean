import TableStore.Proofs.Disk.Locate
import TableStore.Proofs.Disk.Tree
import TableStore.Proofs.Schema.Descriptor
import TableStore.Proofs.Schema.Store
import TableStore.Proofs.Table.Stores
import TableStore.Table.Lifecycle

/-!
# Opening and creating tables

A table opens on any log as long as the key of every complete record in it can be read, and then it
stores these records. So an open table that is opened again is the same table with the same index,
and its disk is left alone. A table just created stores nothing.
-/

namespace TableStore

/-! ## Replaying a log -/

namespace Index

variable {format : RecordFormat}

/-- A replay along rows gives the index along them. -/
theorem replay_located {rows : List Row} (h : ∀ row ∈ rows, format.IsRow row) (index : Index)
    (count offset : Nat) :
    replay format index count
        ((located (·.2.length) offset rows).map fun entry ↦ .ok (entry.1, entry.2.2)) =
      (.ok (count + rows.length), Table.indexFrom offset index rows) := by
  induction rows generalizing index count offset with
  | nil => rfl
  | cons row rest ih =>
    have hrow : format.IsRow row := h row (by simp)
    have hrest := ih fun other hother ↦ h other (by simp [hother])
    rw [located, List.map_cons, replay, hrow.decodeKey]
    dsimp only
    rw [hrest, List.length_cons, Table.indexFrom, Nat.add_assoc, Nat.add_comm 1]

/-- A replay that comes to the end has read the key of every record. -/
theorem exists_key_of_replay {entries : List (Nat × Bytes)} {index after : Index}
    {count replayed : Nat}
    (h : replay format index count (entries.map .ok) = (.ok replayed, after)) :
    ∀ entry ∈ entries, ∃ key, format.readKey entry.2 = .ok key := by
  induction entries generalizing index count with
  | nil => simp
  | cons entry rest ih =>
    rw [List.map_cons, replay] at h
    cases hkey : format.readKey entry.2 with
    | error fault =>
      rw [RecordFormat.decodeKey, hkey] at h
      cases h
    | ok key =>
      rw [RecordFormat.decodeKey, hkey] at h
      intro other hother
      rcases List.mem_cons.mp hother with rfl | hother
      · exact ⟨key, hkey⟩
      · exact ih h other hother

/-- The index of a log that consists of the records of rows is the one along them. -/
theorem rebuild_of_rows {log : AppendLog} {disk : Disk} {rows : List Row}
    (hfile : disk.get? log.place = some (.file (Table.concatenated rows)))
    (hcommitted : log.committed = (Table.concatenated rows).length)
    (hrows : ∀ row ∈ rows, format.IsRow row) :
    rebuild log disk format = (.ok rows.length, Table.indexFrom 0 ∅ rows) := by
  obtain ⟨scanner, hscan⟩ := Table.scan_of_rows hfile hcommitted hrows
  rw [rebuild, hscan]
  dsimp only
  rw [replay_located hrows, Nat.zero_add]

/-- The index of a log that consists of records is what a replay of the records gives. -/
theorem rebuild_of_frames {log : AppendLog} {disk : Disk} {records : List Bytes}
    (hfile : disk.get? log.place = some (.file records.flatten))
    (hcommitted : log.committed = records.flatten.length)
    (hframes : ∀ record ∈ records, Frame.IsFrame record) :
    rebuild log disk format = replay format ∅ 0 ((located List.length 0 records).map .ok) := by
  rw [rebuild, AppendLog.scan_of_file hfile, Scanner.run_start, Nat.min_self, hcommitted,
    Nat.sub_zero, List.drop_zero, List.take_length, Frame.frames_flatten hframes]

/-- A log whose index can be rebuilt has a key in each of its records. -/
theorem exists_key_of_rebuild {log : AppendLog} {disk : Disk} {records : List Bytes}
    {replayed : Nat} {index : Index}
    (hfile : disk.get? log.place = some (.file records.flatten))
    (hcommitted : log.committed = records.flatten.length)
    (hframes : ∀ record ∈ records, Frame.IsFrame record)
    (h : rebuild log disk format = (.ok replayed, index)) :
    ∀ record ∈ records, ∃ key, format.readKey record = .ok key := by
  rw [rebuild_of_frames hfile hcommitted hframes] at h
  have hrecords : (located List.length 0 records).map (·.2) = records := map_snd_located 0 records
  intro record hrecord
  rw [← hrecords, List.mem_map] at hrecord
  obtain ⟨entry, hentry, rfl⟩ := hrecord
  exact exists_key_of_replay h entry hentry

end Index

/-- Frames whose keys can be read are the records of rows. -/
theorem RecordFormat.exists_rows {format : RecordFormat} {records : List Bytes}
    (hframes : ∀ record ∈ records, Frame.IsFrame record)
    (hkeys : ∀ record ∈ records, ∃ key, format.readKey record = .ok key) :
    ∃ rows : List Row, rows.map (·.2) = records ∧ ∀ row ∈ rows, format.IsRow row := by
  induction records with
  | nil => exact ⟨[], rfl, by simp⟩
  | cons record rest ih =>
    obtain ⟨key, hkey⟩ := hkeys record (by simp)
    obtain ⟨rows, rfl, hrows⟩ := ih (fun other hother ↦ hframes other (by simp [hother]))
      fun other hother ↦ hkeys other (by simp [hother])
    refine ⟨(key, record) :: rows, rfl, ?_⟩
    intro row hrow
    rcases List.mem_cons.mp hrow with rfl | hrow
    · exact ⟨hframes _ (by simp), hkey⟩
    · exact hrows row hrow

namespace Table

variable {disk cleared opened : Disk} {directory : Place} {name : String} {policy : SyncPolicy}
  {schema : Schema} {format : RecordFormat} {content : Bytes} {rows : List Row} {table : Table}

/-! ## Opening -/

/-- What is left of a compaction is gone, and nothing else has changed. -/
theorem of_removeStale_eq_ok (h : removeStale disk directory = .ok cleared) :
    cleared.get? (compactFile directory) = none ∧
      ∀ path, path ≠ (compactFile directory).path → cleared.node? path = disk.node? path := by
  unfold removeStale at h
  split at h
  · rw [Disk.of_removeFile_eq_ok h]
    constructor
    · rw [Disk.get?, Disk.node?_erase (compactFile_ne_nil _), if_pos rfl]
      split <;> rfl
    · intro path hpath
      rw [Disk.node?_erase (compactFile_ne_nil _), if_neg hpath.symm]
  · next habsent =>
    cases h
    refine ⟨?_, fun _ _ ↦ rfl⟩
    simpa [Disk.has] using habsent

/-- The log of a table is not touched when what is left of a compaction is removed. -/
theorem get?_logFile_of_removeStale (h : removeStale disk directory = .ok cleared) :
    cleared.get? (logFile directory) = disk.get? (logFile directory) :=
  Disk.get?_congr ((of_removeStale_eq_ok h).2 _ (logFile_ne_compactFile _))

theorem removeStale_of_none (h : disk.get? (compactFile directory) = none) :
    removeStale disk directory = .ok disk := by
  have habsent : ¬ disk.has (compactFile directory) = true := by simp [Disk.has, h]
  rw [removeStale, if_neg habsent]

/-- What opening a table comes to if its log consists of these records. -/
def onRecords (schema : Schema) (format : RecordFormat) (directory : Place) (policy : SyncPolicy)
    (records : List Bytes) : Except Failure Table :=
  match Index.replay format ∅ 0 ((located List.length 0 records).map .ok) with
  | (.error e, _) => .error e
  | (.ok _, index) =>
    .ok ⟨schema, format, directory,
      ⟨logFile directory, policy, records.flatten.length, 0, false⟩, index⟩

/-- On the records of rows a table opens with the index along them. -/
theorem onRecords_of_rows (hrows : ∀ row ∈ rows, format.IsRow row) :
    onRecords schema format directory policy (rows.map (·.2)) =
      .ok ⟨schema, format, directory,
        ⟨logFile directory, policy, (concatenated rows).length, 0, false⟩, indexFrom 0 ∅ rows⟩ := by
  have hreplay : Index.replay format ∅ 0 ((located List.length 0 (rows.map (·.2))).map .ok) =
      (.ok (0 + rows.length), indexFrom 0 ∅ rows) := by
    rw [located_map, List.map_map]
    exact Index.replay_located hrows ∅ 0 0
  rw [onRecords, hreplay, concatenated]

/-- Opening a table cuts its log down to the complete records, and depends on nothing else in it. -/
theorem openAt_of_file
    (hload : Descriptor.load disk (directory.onward schemaName) name = .ok schema)
    (hformat : RecordFormat.ofSchema schema = .ok format)
    (hstale : removeStale disk directory = .ok cleared)
    (hfile : cleared.get? (logFile directory) = some (.file content)) (policy : SyncPolicy) :
    openAt disk directory name policy =
      (onRecords schema format directory policy (Frame.frames content),
        cleared.set (logFile directory).path (.file (Frame.frames content).flatten)) := by
  have hopen := AppendLog.openAt_of_file (logFile_ne_nil _) hfile policy
  have hrebuild : Index.rebuild
      ⟨logFile directory, policy, (Frame.frames content).flatten.length, 0, false⟩
      (cleared.set (logFile directory).path (.file (Frame.frames content).flatten)) format =
        Index.replay format ∅ 0 ((located List.length 0 (Frame.frames content)).map .ok) :=
    Index.rebuild_of_frames (get?_set_logFile hfile _) rfl Frame.isFrame_of_mem_frames
  unfold openAt
  rw [hload]
  dsimp only
  rw [hformat]
  dsimp only
  rw [hstale]
  dsimp only
  rw [hopen]
  dsimp only
  rw [hrebuild, onRecords]
  cases Index.replay format ∅ 0 ((located List.length 0 (Frame.frames content)).map .ok) with
  | mk outcome index => cases outcome <;> rfl

/-- **A table opens on every log whose complete records have keys**, and stores these records. -/
theorem openAt_of_rows
    (hload : Descriptor.load disk (directory.onward schemaName) name = .ok schema)
    (hformat : RecordFormat.ofSchema schema = .ok format)
    (hstale : removeStale disk directory = .ok cleared)
    (hfile : cleared.get? (logFile directory) = some (.file content))
    (hframes : Frame.frames content = rows.map (·.2)) (hrows : ∀ row ∈ rows, format.IsRow row)
    (policy : SyncPolicy) :
    openAt disk directory name policy =
      (.ok ⟨schema, format, directory,
          ⟨logFile directory, policy, (concatenated rows).length, 0, false⟩, indexFrom 0 ∅ rows⟩,
        cleared.set (logFile directory).path (.file (concatenated rows))) := by
  rw [openAt_of_file hload hformat hstale hfile policy, hframes, onRecords_of_rows hrows,
    concatenated]

/-- What opening a table on given rows leads to stores them. -/
theorem stores_of_rows
    (hload : Descriptor.load disk (directory.onward schemaName) name = .ok schema)
    (hformat : RecordFormat.ofSchema schema = .ok format)
    (hstale : removeStale disk directory = .ok cleared)
    (hfile : cleared.get? (logFile directory) = some (.file content))
    (hrows : ∀ row ∈ rows, format.IsRow row) (policy : SyncPolicy) :
    Stores ⟨schema, format, directory,
        ⟨logFile directory, policy, (concatenated rows).length, 0, false⟩, indexFrom 0 ∅ rows⟩
      (cleared.set (logFile directory).path (.file (concatenated rows))) rows := by
  obtain ⟨hgone, helsewhere⟩ := of_removeStale_eq_ok hstale
  refine ⟨rfl, rfl, rfl, get?_set_logFile hfile _, hrows, rfl, ?_, hformat, ?_⟩
  · rw [get?_compactFile_set_logFile, hgone]
  · have hname : schema.name = name := Descriptor.name_of_load hload
    dsimp only
    rw [hname]
    refine load_congr ?_ hload
    rw [node?_set_logFile (schemaFile_ne_logFile _), helsewhere _ (schemaFile_ne_compactFile _)]

/-- What opening a table takes: a descriptor, and a key in every complete record of the log. -/
theorem of_openAt_eq_ok (hfile : disk.get? (logFile directory) = some (.file content))
    (h : openAt disk directory name policy = (.ok table, opened)) :
    ∃ schema format cleared,
      Descriptor.load disk (directory.onward schemaName) name = .ok schema ∧
      RecordFormat.ofSchema schema = .ok format ∧
      removeStale disk directory = .ok cleared ∧
      cleared.get? (logFile directory) = some (.file content) ∧
      ∀ record ∈ Frame.frames content, ∃ key, format.readKey record = .ok key := by
  unfold openAt at h
  split at h
  · cases h
  · next schema hload =>
    split at h
    · cases h
    · next format hformat =>
      split at h
      · cases h
      · next cleared hstale =>
        have hthere : cleared.get? (logFile directory) = some (.file content) :=
          (get?_logFile_of_removeStale hstale).trans hfile
        rw [AppendLog.openAt_of_file (logFile_ne_nil _) hthere] at h
        dsimp only at h
        split at h
        · cases h
        · next hrebuild =>
          exact ⟨schema, format, cleared, hload, hformat, hstale, hthere,
            Index.exists_key_of_rebuild (get?_set_logFile hthere _) rfl
              Frame.isFrame_of_mem_frames hrebuild⟩

/-- **A table that has been opened on a file stores the complete records in it.** -/
theorem stores_of_openAt (hfile : disk.get? (logFile directory) = some (.file content))
    (h : openAt disk directory name policy = (.ok table, opened)) :
    ∃ rows, rows.map (·.2) = Frame.frames content ∧ table.Stores opened rows ∧
      table.directory = directory := by
  obtain ⟨schema, format, cleared, hload, hformat, hstale, hthere, hkeys⟩ :=
    of_openAt_eq_ok hfile h
  obtain ⟨rows, hrows, hisRow⟩ := RecordFormat.exists_rows Frame.isFrame_of_mem_frames hkeys
  rw [openAt_of_rows hload hformat hstale hthere hrows.symm hisRow policy] at h
  cases h
  exact ⟨rows, hrows, stores_of_rows hload hformat hstale hthere hisRow policy, rfl⟩

/-- Opening a table changes nothing but its log and what is left of a compaction. -/
theorem elsewhere_of_openAt (hfile : disk.get? (logFile directory) = some (.file content))
    (h : openAt disk directory name policy = (.ok table, opened)) {path : Path}
    (hlog : path ≠ (logFile directory).path) (hcompact : path ≠ (compactFile directory).path) :
    opened.node? path = disk.node? path := by
  obtain ⟨schema, format, cleared, hload, hformat, hstale, hthere, hkeys⟩ :=
    of_openAt_eq_ok hfile h
  obtain ⟨rows, hrows, hisRow⟩ := RecordFormat.exists_rows Frame.isFrame_of_mem_frames hkeys
  rw [openAt_of_rows hload hformat hstale hthere hrows.symm hisRow policy] at h
  cases h
  rw [node?_set_logFile hlog, (of_removeStale_eq_ok hstale).2 path hcompact]

/-- **Opening a table again changes nothing**: not what it stores, and not the disk. -/
theorem Stores.reopen (h : table.Stores disk rows) (policy : SyncPolicy) :
    ∃ after, openAt disk table.directory table.schema.name policy = (.ok after, disk) ∧
      after.Stores disk rows ∧ table.Continues disk after disk := by
  have hstale : removeStale disk table.directory = .ok disk := removeStale_of_none h.finished
  have hframes : Frame.frames (concatenated rows) = rows.map (·.2) := frames_concatenated h.isRow
  have hsame : disk.set (logFile table.directory).path (.file (concatenated rows)) = disk :=
    Disk.set_self (logFile_ne_nil _) (Disk.get?_eq_some_iff.mp h.file).2
  have hopen := openAt_of_rows h.descriptor h.format hstale h.file hframes h.isRow policy
  have hstores := stores_of_rows h.descriptor h.format hstale h.file h.isRow policy
  rw [hsame] at hopen hstores
  exact ⟨_, hopen, hstores, rfl, rfl, rfl, fun _ _ _ ↦ rfl⟩

/-! ## Creating -/

/-- A file that has been discarded is not there, and nothing else has changed. -/
theorem of_discard_eq_ok {place : Place} (hpath : place.path ≠ [])
    (h : discard disk place = .ok cleared) :
    cleared.get? place = none ∧
      ∀ path, path ≠ place.path → cleared.node? path = disk.node? path := by
  unfold discard at h
  split at h
  · next hremove =>
    cases h
    rw [Disk.of_removeFile_eq_ok hremove]
    constructor
    · rw [Disk.get?, Disk.node?_erase hpath, if_pos rfl]
      split <;> rfl
    · intro path hother
      rw [Disk.node?_erase hpath, if_neg hother.symm]
  · next habsent =>
    cases h
    exact ⟨Disk.get?_of_removeFile_notFound habsent, fun _ _ ↦ rfl⟩
  · cases h

theorem of_clearLeftovers_eq_ok (h : clearLeftovers disk directory = (.ok (), cleared)) :
    cleared.get? (logFile directory) = none ∧ cleared.get? (compactFile directory) = none := by
  unfold clearLeftovers at h
  split at h
  · cases h
  · next hlog =>
    split at h
    · cases h
    · next hcompact =>
      cases h
      obtain ⟨hnoLog, _⟩ := of_discard_eq_ok (logFile_ne_nil _) hlog
      obtain ⟨hnoCopy, hothers⟩ := of_discard_eq_ok (compactFile_ne_nil _) hcompact
      refine ⟨?_, hnoCopy⟩
      rw [← hnoLog]
      exact Disk.get?_congr (hothers _ (logFile_ne_compactFile _))

/-- On a tree, a directory that has been made or taken over has no log and no copy of one. -/
theorem of_prepareDirectory_eq_ok (htree : disk.IsTree)
    (h : prepareDirectory disk directory schema = (.ok (), cleared)) :
    cleared.get? (logFile directory) = none ∧ cleared.get? (compactFile directory) = none := by
  unfold prepareDirectory at h
  rw [Disk.perform, Disk.Step.apply] at h
  cases hcreate : disk.createDirectory directory with
  | ok made =>
    rw [hcreate] at h
    cases h
    obtain ⟨hnone, _, rfl⟩ := Disk.of_createDirectory_eq_ok hcreate
    have hpath : directory.path ≠ [] := by
      intro hroot
      rw [hroot] at hnone
      cases hnone
    have hfresh : ∀ file, (disk.set directory.path .directory).node? (directory.enter file).path =
        none := by
      intro file
      rw [Disk.node?_set hpath, if_neg (Place.path_enter_ne_self directory file).symm]
      apply htree.node?_enter
      rw [hnone]
      exact Option.some_ne_none _ ∘ Eq.symm
    exact ⟨Disk.get?_of_node?_eq_none (hfresh _), Disk.get?_of_node?_eq_none (hfresh _)⟩
  | error fault =>
    rw [hcreate] at h
    cases fault with
    | alreadyExists =>
      dsimp only at h
      split at h
      · cases h
      · split at h
        · cases h
        · next hcleared =>
          cases h
          exact of_clearLeftovers_eq_ok hcleared
    | _ => cases h

/-- The name under which a descriptor is drafted. -/
theorem withExtension_onward (directory : Place) :
    (directory.onward schemaName).withExtension "tmp" =
      ⟨directory.path, (directory.onward schemaName).lead, ["schema.tmp"]⟩ := by
  rfl

/-- A descriptor is found unless its text is too long. -/
theorem locate_descriptor (disk : Disk) (directory : Place) :
    disk.locate (directory.onward schemaName) =
      if Disk.textLimit < (schemaFile directory).length then .error .nameTooLong
      else .ok ⟨(schemaFile directory).path, directory.onward schemaName⟩ := by
  have hlength : (directory.onward schemaName).lead + schemaName.utf8ByteSize =
      (schemaFile directory).length := Place.lead_onward_add directory schemaName
  have hfault : Disk.routeFault? (directory.onward schemaName) =
      if Disk.textLimit < (directory.onward schemaName).lead + schemaName.utf8ByteSize then
        some .nameTooLong
      else none := Disk.routeFault?_name (by decide) (by decide) _ _
  rw [hlength] at hfault
  rw [locate_schema]
  by_cases hlong : Disk.textLimit < (schemaFile directory).length
  · rw [if_pos hlong] at hfault ⊢
    exact hfault ▸ rfl
  · rw [if_neg hlong] at hfault ⊢
    rw [hfault]

/-- The draft of a descriptor has a name as long as that of the descriptor. -/
theorem length_draft (directory : Place) :
    ((directory.onward schemaName).withExtension "tmp").length = (schemaFile directory).length := by
  rw [schemaFile, ← Place.length_onward, withExtension_onward]
  rfl

theorem locate_draft (disk : Disk) (directory : Place) :
    disk.locate ((directory.onward schemaName).withExtension "tmp") =
      if Disk.textLimit < (schemaFile directory).length then .error .nameTooLong
      else .ok ⟨(directory.enter "schema.tmp").path,
        (directory.onward schemaName).withExtension "tmp"⟩ := by
  have hlength : (directory.onward schemaName).lead + "schema.tmp".utf8ByteSize =
      (schemaFile directory).length := by
    rw [← length_draft, withExtension_onward]
    simp [Route.length]
  rw [withExtension_onward, Disk.locate_name (by decide) (by decide),
    Disk.routeFault?_name (by decide) (by decide), hlength]
  by_cases hlong : Disk.textLimit < (schemaFile directory).length
  · rw [if_pos hlong, if_pos hlong]
  · rw [if_neg hlong, if_neg hlong]
    rfl

theorem path_of_locate_descriptor {place : Place}
    (h : disk.locate (directory.onward schemaName) = .ok place) :
    place.path = (schemaFile directory).path := by
  rw [locate_descriptor] at h
  split at h
  · cases h
  · cases h
    rfl

/-- A draft is one of the files in the directory. -/
theorem path_of_locate_draft {draft : Place}
    (h : disk.locate ((directory.onward schemaName).withExtension "tmp") = .ok draft) :
    draft.path = (directory.enter "schema.tmp").path := by
  rw [locate_draft] at h
  split at h
  · cases h
  · cases h
    rfl

/-- A descriptor that is where descriptors are can be loaded. -/
theorem load_of_file (hroute : Disk.routeFault? (directory.onward schemaName) = none)
    (hvalid : schema.validate = .ok ())
    (hfile : disk.node? (schemaFile directory).path =
      some (.file (Descriptor.withChecksum (Descriptor.content schema)))) :
    Descriptor.load disk (directory.onward schemaName) schema.name = .ok schema := by
  have hget : disk.get? ⟨(schemaFile directory).path, directory.onward schemaName⟩ =
      some (.file (Descriptor.withChecksum (Descriptor.content schema))) :=
    Disk.get?_eq_some_iff.mpr ⟨Disk.length_le_of_routeFault? hroute, hfile⟩
  rw [Descriptor.load, Disk.readAt, locate_schema, hroute]
  dsimp only
  rw [Disk.read, Disk.find_of_get? hget]
  exact Descriptor.decode_eq_of_validate hvalid

/-- A descriptor that has been saved can be loaded, and apart from it nothing has changed. -/
theorem of_save_eq_ok
    (h : Descriptor.save disk (directory.onward schemaName) schema = (.ok (), cleared)) :
    Descriptor.load cleared (directory.onward schemaName) schema.name = .ok schema ∧
      ∀ file, file ≠ schemaName → file ≠ "schema.tmp" →
        cleared.node? (directory.enter file).path = disk.node? (directory.enter file).path := by
  obtain ⟨habsent, hvalid, _, place, draft, drafted, hplace, hdraft, hdrafted, rfl⟩ :=
    Descriptor.of_save_eq_ok h
  have hcheck := Schema.check_of_validate hvalid
  have hplacePath := path_of_locate_descriptor hplace
  have hdraftPath := path_of_locate_draft hdraft
  constructor
  · have hread := hdrafted.readAt habsent hplace
    rw [Descriptor.load_of_readAt hread hcheck, Schema.checkName_of_check hcheck]
  · intro file hnotSchema hnotDraft
    have hother : place.path ≠ (directory.enter file).path :=
      fun heq ↦ hnotSchema (Place.path_enter_inj.mp (hplacePath.symm.trans heq)).symm
    have hbeside : draft.path ≠ (directory.enter file).path :=
      fun heq ↦ hnotDraft (Place.path_enter_inj.mp (hdraftPath.symm.trans heq)).symm
    have hnotRoot : place.path ≠ [] := hplacePath ▸ schemaFile_ne_nil _
    rw [Disk.node?_set hnotRoot, if_neg hother, Disk.node?_erase hdrafted.path_ne_nil,
      if_neg hbeside, hdrafted.eq, Disk.node?_set hdrafted.path_ne_nil, if_neg hbeside]

/-- A table furnished where there is no log and no copy of one stores nothing. -/
theorem stores_of_furnish (hlog : disk.get? (logFile directory) = none)
    (hcopy : disk.get? (compactFile directory) = none)
    (h : furnish disk directory schema policy = (.ok table, opened)) :
    table.Stores opened [] ∧ table.schema = schema ∧ table.directory = directory ∧
      opened.node? directory.path = some .directory := by
  unfold furnish at h
  split at h
  · cases h
  · next format hformat =>
    split at h
    · cases h
    · next saved hsave =>
      obtain ⟨hload, hothers⟩ := of_save_eq_ok hsave
      have hstillNoLog : saved.get? (logFile directory) = none := by
        rw [← hlog]
        exact Disk.get?_congr (hothers _ (by decide) (by decide))
      have hstillNoCopy : saved.get? (compactFile directory) = none := by
        rw [← hcopy]
        exact Disk.get?_congr (hothers _ (by decide) (by decide))
      split at h
      · cases h
      · next hopen =>
        cases h
        obtain ⟨hparent, rfl, rfl, hfile⟩ :=
          AppendLog.of_openAt_eq_ok hstillNoLog hopen
        refine ⟨⟨rfl, rfl, rfl, hfile, by simp, rfl, ?_, hformat, ?_⟩, rfl, rfl, ?_⟩
        · rw [get?_compactFile_set_logFile, hstillNoCopy]
        · exact load_congr (node?_set_logFile (schemaFile_ne_logFile _) _) hload
        · rw [node?_set_logFile (Place.path_enter_ne_self _ _).symm]
          rwa [logFile, Place.dropLast_path_enter] at hparent

/-- A table is created for a valid schema only. -/
theorem validate_of_create_eq_ok (h : create disk directory schema policy = (.ok table, opened)) :
    schema.validate = .ok () := by
  unfold create at h
  split at h
  · cases h
  · assumption

/-- **A table just created stores nothing.** -/
theorem stores_of_create (htree : disk.IsTree)
    (h : create disk directory schema policy = (.ok table, opened)) :
    table.Stores opened [] ∧ table.schema = schema ∧ table.directory = directory ∧
      opened.node? directory.path = some .directory := by
  unfold create at h
  split at h
  · cases h
  · split at h
    · cases h
    · next hprepared =>
      obtain ⟨hlog, hcopy⟩ := of_prepareDirectory_eq_ok htree hprepared
      split at h
      · next hfurnish =>
        cases h
        exact stores_of_furnish hlog hcopy hfurnish
      · cases h

end Table

end TableStore
