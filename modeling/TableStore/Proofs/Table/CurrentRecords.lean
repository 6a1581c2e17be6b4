import TableStore.Proofs.Table.Damage

/-!
# Filtering a damaged log

A record is current if the index leads from its key to where it stands. A filter reads the current
records in the order of the log and no others. So it fails with the first of them that cannot be
read, and what is in a record that has been superseded does not matter, as long as it has a key.
-/

namespace TableStore

/-! ## Records that have been superseded -/

/-- Whether two logs have the same records, apart from those which a later record with the same key
follows. Of these only the keys are the same. -/
inductive RecordFormat.AgreesOnCurrent (format : RecordFormat) :
    List Bytes → List Bytes → Prop where
  | nil : AgreesOnCurrent format [] []
  | same {records others : List Bytes} (record : Bytes)
      (rest : AgreesOnCurrent format records others) :
      AgreesOnCurrent format (record :: records) (record :: others)
  | superseded {records others : List Bytes} {record other later key : Bytes}
      (first : format.decodeKey record = .ok key) (second : format.decodeKey other = .ok key)
      (mem : later ∈ records) (again : format.decodeKey later = .ok key)
      (rest : AgreesOnCurrent format records others) :
      AgreesOnCurrent format (record :: records) (other :: others)

/-- **Logs that differ only in superseded records have the same rows that count.** -/
theorem RecordFormat.AgreesOnCurrent.exists_rows {format : RecordFormat}
    {records others : List Bytes} {rows : List Row} (h : format.AgreesOnCurrent records others)
    (hframes : ∀ other ∈ others, Frame.IsFrame other) (hrecords : rows.map (·.2) = records)
    (hrows : ∀ row ∈ rows, format.IsRow row) :
    ∃ changed : List Row, changed.map (·.2) = others ∧ (∀ row ∈ changed, format.IsRow row) ∧
      changed.map (·.1) = rows.map (·.1) ∧ latest changed = latest rows := by
  induction h generalizing rows with
  | nil =>
    obtain rfl := List.map_eq_nil_iff.mp hrecords
    exact ⟨[], rfl, nofun, rfl, rfl⟩
  | same record rest ih =>
    obtain ⟨row, tail, rfl, rfl, rfl⟩ := List.map_eq_cons_iff.mp hrecords
    obtain ⟨changed, rfl, hchanged, hkeys, hlatest⟩ :=
      ih (fun other hother ↦ hframes other (List.mem_cons_of_mem _ hother)) rfl
        fun other hother ↦ hrows other (List.mem_cons_of_mem _ hother)
    refine ⟨row :: changed, rfl, ?_, ?_, ?_⟩
    · exact List.forall_mem_cons.mpr ⟨hrows row List.mem_cons_self, hchanged⟩
    · rw [List.map_cons, List.map_cons, hkeys]
    · rw [latest_cons, latest_cons, hkeys, hlatest]
  | @superseded records others record other later key hfirst hsecond hmem hagain rest ih =>
    obtain ⟨row, tail, rfl, rfl, rfl⟩ := List.map_eq_cons_iff.mp hrecords
    obtain ⟨changed, rfl, hchanged, hkeys, hlatest⟩ :=
      ih (fun other hother ↦ hframes other (List.mem_cons_of_mem _ hother)) rfl
        fun other hother ↦ hrows other (List.mem_cons_of_mem _ hother)
    have hkey : row.1 = key := by
      rw [(hrows row List.mem_cons_self).decodeKey] at hfirst
      exact Except.ok.inj hfirst
    have hlater : key ∈ tail.map (·.1) := by
      obtain ⟨found, hfound, rfl⟩ := List.mem_map.mp hmem
      rw [(hrows found (List.mem_cons_of_mem _ hfound)).decodeKey] at hagain
      exact List.mem_map.mpr ⟨found, hfound, Except.ok.inj hagain⟩
    refine ⟨(key, other) :: changed, rfl, ?_, ?_, ?_⟩
    · exact List.forall_mem_cons.mpr
        ⟨⟨hframes other List.mem_cons_self, of_decodeKey_eq_ok hsecond⟩, hchanged⟩
    · rw [List.map_cons, List.map_cons, hkeys, hkey]
    · rw [latest_cons, latest_cons, hkeys, if_pos hlater, if_pos (hkey ▸ hlater), hlatest]

namespace Table

variable {table : Table} {disk opened : Disk} {directory : Place} {name : String}
  {policy : SyncPolicy} {format : RecordFormat} {predicate : Predicate} {content : Bytes}
  {records : List Bytes} {rows : List Row}

/-- A table that opens on one log opens on every other whose complete records have keys. -/
theorem exists_stores_of_set_logFile
    (hfile : disk.get? (logFile directory) = some (.file content))
    (hopen : openAt disk directory name policy = (.ok table, opened)) {changed : Bytes}
    {others : List Row} (hothers : others.map (·.2) = Frame.frames changed)
    (hrows : ∀ row ∈ others, table.format.IsRow row) :
    ∃ again left, openAt (disk.set (logFile directory).path (.file changed)) directory name policy =
        (.ok again, left) ∧
      again.Stores left others ∧ again.schema = table.schema ∧ again.format = table.format := by
  obtain ⟨schema, format, cleared, hload, hformat, hstale, hthere, hkeys⟩ :=
    of_openAt_eq_ok hfile hopen
  obtain ⟨before, hrecords, hbefore⟩ := RecordFormat.exists_rows Frame.isFrame_of_mem_frames hkeys
  rw [openAt_of_rows hload hformat hstale hthere hrecords.symm hbefore policy] at hopen
  cases hopen
  have hloads : Descriptor.load (disk.set (logFile directory).path (.file changed))
      (directory.onward schemaName) name = .ok schema :=
    load_congr (node?_set_logFile (schemaFile_ne_logFile _) changed) hload
  have hcopy := exists_removeStale_iff.mp ⟨cleared, hstale⟩
  rw [← get?_compactFile_set_logFile disk directory changed] at hcopy
  obtain ⟨left, hleft⟩ := exists_removeStale_iff.mpr hcopy
  have hchanged := (get?_logFile_of_removeStale hleft).trans (get?_set_logFile hfile changed)
  exact ⟨_, _, openAt_of_rows hloads hformat hleft hchanged hothers.symm hrows policy,
    stores_of_rows hloads hformat hleft hchanged hrows policy, rfl, rfl⟩

/-- **What is in a superseded record changes no filter.** -/
theorem exists_filter_eq_of_agreesOnCurrent
    (hfile : disk.get? (logFile directory) = some (.file content))
    (hopen : openAt disk directory name policy = (.ok table, opened)) {changed : Bytes}
    (hagrees : table.format.AgreesOnCurrent (Frame.frames content) (Frame.frames changed)) :
    ∃ again left, openAt (disk.set (logFile directory).path (.file changed)) directory name policy =
        (.ok again, left) ∧
      ∀ predicate, again.filter left predicate = table.filter opened predicate := by
  obtain ⟨rows, hrecords, hstores, _⟩ := stores_of_openAt hfile hopen
  obtain ⟨others, hothers, hisRow, _, hlatest⟩ :=
    hagrees.exists_rows Frame.isFrame_of_mem_frames hrecords hstores.isRow
  obtain ⟨again, left, hagain, hleft, hschema, hformat⟩ :=
    exists_stores_of_set_logFile hfile hopen hothers hisRow
  refine ⟨again, left, hagain, fun predicate ↦ ?_⟩
  rw [hleft.filter, hstores.filter, hlatest, hschema, hformat]

/-! ## Current records -/

/-- Whether a record stands at an offset of a log with these records, and the index leads there from
its key. -/
structure IsCurrent (table : Table) (records : List Bytes) (offset : Nat) (record : Bytes) :
    Prop where
  stands : ∃ before after, records = before ++ record :: after ∧ offset = before.flatten.length
  indexed : ∃ key, table.format.decodeKey record = .ok key ∧
    table.index.offset? key = some offset

/-- The records of the rows that count, with their offsets. -/
def currentRecords (rows : List Row) : List (Nat × Bytes) :=
  (latestAt 0 rows).map fun entry ↦ (entry.1, entry.2.2)

theorem map_snd_currentRecords (rows : List Row) :
    (currentRecords rows).map (·.2) = (latest rows).map (·.2) := by
  rw [currentRecords, List.map_map, ← map_snd_latestAt 0, List.map_map]
  rfl

theorem pairwise_currentRecords (h : ∀ row ∈ rows, 0 < row.2.length) :
    (currentRecords rows).Pairwise fun earlier later ↦ earlier.1 < later.1 := by
  rw [currentRecords, List.pairwise_map]
  exact (pairwise_located h).sublist (latestBy_sublist _ _)

/-- The current records are those of the rows that count. -/
theorem Stores.mem_currentRecords_iff (h : table.Stores disk rows) {offset : Nat} {record : Bytes} :
    (offset, record) ∈ currentRecords rows ↔ table.IsCurrent (rows.map (·.2)) offset record := by
  rw [currentRecords, List.mem_map]
  constructor
  · rintro ⟨⟨position, row⟩, hlatest, heq⟩
    cases heq
    have hmem := (latestBy_sublist _ _).subset hlatest
    obtain ⟨before, after, rfl, hposition⟩ := mem_located hmem
    refine ⟨⟨before.map (·.2), after.map (·.2), by simp, ?_⟩, row.1,
      (h.isRow row (mem_of_mem_located hmem)).decodeKey, ?_⟩
    · rw [hposition, Nat.zero_add, ← length_concatenated]
      rfl
    · rw [h.index]
      exact (offset?_indexFrom 0 _ _ _).mpr ⟨row, hlatest, rfl⟩
  · rintro ⟨⟨before, after, hsplit, rfl⟩, key, hkey, hindexed⟩
    rw [h.index] at hindexed
    obtain ⟨row, hlatest, rfl⟩ := (offset?_indexFrom 0 _ _ _).mp hindexed
    -- There is one record at the offset only.
    have hrecord := h.read ((latestBy_sublist _ _).subset hlatest)
    rw [h.read_of_split hsplit] at hrecord
    exact ⟨_, hlatest, by rw [Except.ok.inj hrecord]⟩

/-- The index leads from a key to the current record with it. -/
theorem Stores.offset?_eq_some_iff (h : table.Stores disk rows) {key : Bytes} {offset : Nat} :
    table.index.offset? key = some offset ↔
      ∃ record, (offset, record) ∈ currentRecords rows ∧
        table.format.decodeKey record = .ok key := by
  constructor
  · intro hindexed
    rw [h.index] at hindexed
    obtain ⟨row, hlatest, rfl⟩ := (offset?_indexFrom 0 _ _ _).mp hindexed
    have hrow := mem_of_mem_located ((latestBy_sublist _ _).subset hlatest)
    exact ⟨row.2, List.mem_map.mpr ⟨(offset, row), hlatest, rfl⟩, (h.isRow row hrow).decodeKey⟩
  · rintro ⟨record, hcurrent, hkey⟩
    obtain ⟨_, found, hfound, hindexed⟩ := h.mem_currentRecords_iff.mp hcurrent
    rwa [Except.ok.inj (hkey.symm.trans hfound)]

/-- What is looked up through the index is read as the current record. -/
theorem Stores.get_of_mem_currentRecords (h : table.Stores disk rows) {value : Value} {key : Bytes}
    {offset : Nat} {record : Bytes} (hvalue : table.format.encodeKey value = .ok key)
    (hcurrent : (offset, record) ∈ currentRecords rows)
    (hkey : table.format.decodeKey record = .ok key) :
    table.get disk value = table.format.decode record := by
  obtain ⟨⟨before, after, hsplit, rfl⟩, _⟩ := h.mem_currentRecords_iff.mp hcurrent
  rw [Table.get, hvalue]
  dsimp only
  rw [h.offset?_eq_some_iff.mpr ⟨record, hcurrent, hkey⟩]
  dsimp only
  rw [h.read_of_split hsplit]

/-! ## Filters -/

/-- Picking fails with the first record that cannot be read. -/
theorem pick_eq_error_iff {e : Failure} :
    pick format predicate records = .error e ↔ IsFirstFailure format.decode records e := by
  induction records with
  | nil => simp [pick, not_isFirstFailure_nil]
  | cons record rest ih =>
    rw [pick]
    cases hitem : format.decode record with
    | error first =>
      rw [isFirstFailure_cons_of_error hitem]
      exact Except.error.injEq .. |>.to_iff
    | ok item =>
      rw [isFirstFailure_cons_of_ok hitem, ← ih]
      cases pick format predicate rest <;> simp

/-- What filters find in a log with these records of which these are current. -/
structure FiltersCurrent (table : Table) (disk : Disk) (records : List Bytes)
    (current : List (Nat × Bytes)) : Prop where
  mem_iff : ∀ offset record,
    (offset, record) ∈ current ↔ table.IsCurrent records offset record
  ascending : current.Pairwise fun earlier later ↦ earlier.1 < later.1
  succeeds_iff : ∀ predicate, predicate.check table.schema = .ok () →
    ((∃ items, table.filter disk predicate = .ok items) ↔
      ∀ entry ∈ current, ∃ item, table.format.decode entry.2 = .ok item)
  /-- The items that match, in the order of their records. -/
  items : ∀ predicate, predicate.check table.schema = .ok () → ∀ items,
    table.filter disk predicate = .ok items →
    ∃ all : List Item, current.map (fun entry ↦ table.format.decode entry.2) = all.map .ok ∧
      items = all.filter fun item ↦ predicate.holds item
  fails_iff : ∀ predicate, predicate.check table.schema = .ok () → ∀ e,
    table.filter disk predicate = .error e ↔
      IsFirstFailure (fun entry ↦ table.format.decode entry.2) current e
  corrupt : ∀ predicate, predicate.check table.schema = .ok () → ∀ e,
    table.filter disk predicate = .error e → ∃ fault, e = .corruptRecord fault
  /-- If all items can be listed, each is found by its key. -/
  get : ∀ all, table.filter disk (.all []) = .ok all → ∀ value key offset,
    table.format.encodeKey value = .ok key → table.index.offset? key = some offset →
      ∃ item ∈ all, table.get disk value = .ok item

namespace Stores

/-- A filter picks among the records of the rows that count. -/
theorem filter_of_check (h : table.Stores disk rows)
    (hcheck : predicate.check table.schema = .ok ()) :
    table.filter disk predicate =
      pick table.format predicate ((currentRecords rows).map (·.2)) := by
  rw [h.filter, hcheck, map_snd_currentRecords]

theorem filter_eq_error_iff (h : table.Stores disk rows)
    (hcheck : predicate.check table.schema = .ok ()) {e : Failure} :
    table.filter disk predicate = .error e ↔
      IsFirstFailure (fun entry : Nat × Bytes ↦ table.format.decode entry.2)
        (currentRecords rows) e := by
  rw [h.filter_of_check hcheck, pick_eq_error_iff, isFirstFailure_map]

/-- A filter that succeeds has read all current records. -/
theorem of_filter_eq_ok (h : table.Stores disk rows)
    (hcheck : predicate.check table.schema = .ok ()) {items : List Item}
    (hfilter : table.filter disk predicate = .ok items) :
    ∃ all : List Item,
      (currentRecords rows).map (fun entry ↦ table.format.decode entry.2) = all.map .ok ∧
        items = all.filter fun item ↦ predicate.holds item := by
  obtain ⟨all, hall⟩ := exists_map_eq_of_forall_ok
    ((exists_ok_iff_of_error_iff fun _ ↦ h.filter_eq_error_iff hcheck).mp ⟨items, hfilter⟩)
  refine ⟨all, hall, ?_⟩
  have hread : ((currentRecords rows).map (·.2)).map table.format.decode = all.map .ok := by
    rw [List.map_map]
    exact hall
  rw [h.filter_of_check hcheck, pick_of_decode hread] at hfilter
  exact (Except.ok.inj hfilter).symm

/-- Where all items can be listed, a key that is in the index leads to one of them. -/
theorem exists_get_of_filter (h : table.Stores disk rows) {all : List Item}
    (hall : table.filter disk (.all []) = .ok all) {value : Value} {key : Bytes} {offset : Nat}
    (hkey : table.format.encodeKey value = .ok key)
    (hindexed : table.index.offset? key = some offset) :
    ∃ item ∈ all, table.get disk value = .ok item := by
  have hcheck : Predicate.check table.schema (.all []) = .ok () := rfl
  obtain ⟨items, hitems, hsame⟩ := h.of_filter_eq_ok hcheck hall
  have hevery : all = items := by
    rw [hsame]
    exact List.filter_eq_self.mpr fun _ _ ↦ rfl
  obtain ⟨record, hcurrent, hfound⟩ := h.offset?_eq_some_iff.mp hindexed
  have hdecode : table.format.decode record ∈ items.map .ok :=
    hitems ▸ List.mem_map.mpr ⟨_, hcurrent, rfl⟩
  obtain ⟨item, hitem, hread⟩ := List.mem_map.mp hdecode
  refine ⟨item, hevery ▸ hitem, ?_⟩
  rw [h.get_of_mem_currentRecords hkey hcurrent hfound]
  exact hread.symm

/-- **Filters read the current records and no others.** -/
theorem filtersCurrent (h : table.Stores disk rows) :
    table.FiltersCurrent disk (rows.map (·.2)) (currentRecords rows) where
  mem_iff _ _ := h.mem_currentRecords_iff
  ascending := pairwise_currentRecords h.length_pos
  succeeds_iff _ hcheck := exists_ok_iff_of_error_iff fun _ ↦ h.filter_eq_error_iff hcheck
  items _ hcheck _ := h.of_filter_eq_ok hcheck
  fails_iff _ hcheck _ := h.filter_eq_error_iff hcheck
  corrupt := by
    intro predicate hcheck e he
    obtain ⟨_, entry, _, _, _, hentry⟩ := (h.filter_eq_error_iff hcheck).mp he
    exact exists_fault_of_mapError hentry
  get _ hall _ _ _ := h.exists_get_of_filter hall

end Stores

/-- **Filters on a damaged log fail only if a current record is damaged.** On whatever log a table
has been opened, a filter finds the items of the current records that match, in the order of the
log, or fails with the first current record that cannot be read. Damage in superseded records makes
no difference. -/
theorem filtersCurrent_of_openAt (hfile : disk.get? (logFile directory) = some (.file content))
    (hopen : openAt disk directory name policy = (.ok table, opened)) :
    ∃ records current, Frame.IsLongest records content ∧
      table.FiltersCurrent opened records current ∧
      ∀ changed others, Frame.IsLongest others changed →
        table.format.AgreesOnCurrent records others →
          ∃ again left, openAt (disk.set (logFile directory).path (.file changed)) directory name
              policy = (.ok again, left) ∧
            ∀ predicate, again.filter left predicate = table.filter opened predicate := by
  obtain ⟨rows, hrecords, hstores, _⟩ := stores_of_openAt hfile hopen
  refine ⟨Frame.frames content, currentRecords rows, Frame.isLongest_iff.mpr rfl, ?_, ?_⟩
  · rw [← hrecords]
    exact hstores.filtersCurrent
  · intro changed others hothers hagrees
    rw [Frame.isLongest_iff.mp hothers] at hagrees
    exact exists_filter_eq_of_agreesOnCurrent hfile hopen hagrees

/-- An order with a truth value that is none, the same order as it was written later, and the
beginning of a third record. -/
def supersededLog : Bytes :=
  [10, 0, 0, 0, 10, 1, 0, 0, 0, 0, 0, 0, 0, 7] ++ [9, 0, 0, 0, 2, 1, 0, 0, 0, 0, 0, 0, 0] ++
    [9, 0, 0]

def supersededDisk : Disk :=
  strayDisk.set (logFile ordersPlace).path (.file supersededLog)

/-- All orders can be listed, although one of the records cannot be read. -/
theorem filtersCurrent_of_openAt_superseded :
    ∃ table opened, supersededDisk.get? (logFile ordersPlace) = some (.file supersededLog) ∧
      openAt supersededDisk ordersPlace "orders" .never = (.ok table, opened) ∧
      (∃ records current, Frame.IsLongest records supersededLog ∧
        table.FiltersCurrent opened records current ∧
        ∀ changed others, Frame.IsLongest others changed →
          table.format.AgreesOnCurrent records others →
            ∃ again left, openAt (supersededDisk.set (logFile ordersPlace).path (.file changed))
                ordersPlace "orders" .never = (.ok again, left) ∧
              ∀ predicate, again.filter left predicate = table.filter opened predicate) ∧
      (table.filter opened (.all [])).isOk = true := by
  have hfile : supersededDisk.get? (logFile ordersPlace) = some (.file supersededLog) := by
    decide +kernel
  have hfilters : (openAt supersededDisk ordersPlace "orders" .never).1.toOption.any (fun table ↦
      (table.filter (openAt supersededDisk ordersPlace "orders" .never).2 (.all [])).isOk) =
        true := by
    decide +kernel
  cases hopen : openAt supersededDisk ordersPlace "orders" .never with
  | mk outcome opened =>
    cases outcome with
    | error e => rw [hopen] at hfilters; cases hfilters
    | ok table =>
      rw [hopen] at hfilters
      exact ⟨table, opened, hfile, rfl, filtersCurrent_of_openAt hfile hopen, hfilters⟩

end Table

end TableStore
