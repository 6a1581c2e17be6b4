import TableStore.Proofs.Table.CurrentRecords

/-!
# Keys that are no value's

The index takes the bytes of keys as they stand in the records. They are taken off by their width
only, so that a truth value that is neither zero nor one, and a text that is not well-formed, become
keys like all others: a log opens on them, and counts them. No lookup leads to such a key, as it is
not the key of a value, and no filter gets past its record. All other keys are those of values, and
looking up the value finds the item or reports the damage.
-/

namespace TableStore

/-! ## Fields -/

namespace Field

/-- Whether a payload has the width of its type and spells no value. -/
inductive IsDamaged : ColumnType → Bytes → Prop where
  | boolean {b : UInt8} (notFalse : b ≠ 0) (notTrue : b ≠ 1) : IsDamaged .boolean [b]
  | text {bytes : Bytes} {fault : Utf8.Fault} (illFormed : Utf8.decode bytes = .error fault) :
      IsDamaged .text bytes

variable {type : ColumnType} {column : String} {bytes found rest : Bytes}

/-- Numbers are never damaged. -/
theorem not_isDamaged_of_isNumeric (h : type.isNumeric = true) : ¬ IsDamaged type found := by
  rintro (_ | _) <;> cases h

/-- A payload that has been taken off is read as a value unless it is damaged. -/
theorem isDamaged_iff (h : take type column bytes = .ok (found, rest)) :
    IsDamaged type found ↔ ∃ fault, ofPayload type column found = .error fault := by
  constructor
  · intro hdamaged
    cases hdamaged with
    | @boolean b hfalse htrue =>
      refine ⟨.badBoolean b column, ?_⟩
      rw [ofPayload, List.headD_cons, if_neg hfalse, if_neg htrue]
    | @text _ fault hfault =>
      refine ⟨.notText column fault, ?_⟩
      rw [ofPayload, hfault]
  · rintro ⟨fault, hfault⟩
    cases type with
    | integer => cases hfault
    | float => cases hfault
    | boolean =>
      obtain ⟨b, rfl⟩ := List.length_eq_one_iff.mp (of_takeBytes_eq_ok h).2
      refine .boolean ?_ ?_
      · rintro rfl
        cases hfault
      · rintro rfl
        cases hfault
    | text =>
      cases hdecode : Utf8.decode found with
      | error fault => exact .text hdecode
      | ok text => rw [ofPayload, hdecode] at hfault; cases hfault

/-- **A payload that has been taken off is that of a value unless it is damaged.** -/
theorem exists_payload_eq_iff (h : take type column bytes = .ok (found, rest)) :
    (∃ value : Value, value.type = type ∧ payload value = found) ↔ ¬ IsDamaged type found := by
  rw [isDamaged_iff h]
  constructor
  · rintro ⟨value, rfl, rfl⟩ ⟨fault, hfault⟩
    rw [ofPayload_payload] at hfault
    cases hfault
  · intro hsound
    cases hvalue : ofPayload type column found with
    | error fault => exact absurd ⟨fault, hvalue⟩ hsound
    | ok value =>
      have hread : read type column bytes = .ok (value, rest) := by
        rw [read, h]
        dsimp only
        rw [hvalue]
      -- A field that is read is the one its value is written as, so its payload is the value's.
      obtain ⟨rfl, field, hfield, rfl⟩ := encode_of_read hread
      rw [take_encode hfield] at h
      cases h
      exact ⟨value, rfl, rfl⟩

end Field

/-! ## Records -/

namespace RecordFormat

variable {format : RecordFormat} {record key : Bytes}

/-- Whether the key of a record can be taken off, and is damaged. -/
def HasDamagedKey (format : RecordFormat) (record : Bytes) : Prop :=
  ∃ key, format.decodeKey record = .ok key ∧ Field.IsDamaged format.key.type key

/-- The key is found in the field of the column that stands so many columns on. -/
theorem FindsKey.exists_take {skipped : Nat} {marked : List (Column × Bool)}
    {bytes payload behind : Bytes} (h : FindsKey skipped marked bytes payload behind) :
    ∃ column field, marked[skipped]? = some (column, true) ∧
      Field.take column.type column.name field = .ok (payload, behind) := by
  induction h with
  | absent _ ih => simpa using ih
  | skipping _ _ ih => simpa using ih
  | found htake => exact ⟨_, _, rfl, htake⟩

/-- A key that is read is the payload of a field of the key's type. -/
theorem exists_take_of_decodeKey (h : format.decodeKey record = .ok key) :
    ∃ field behind, Field.take format.key.type format.key.name field = .ok (key, behind) := by
  obtain ⟨bitmap, fields, behind, _, hfinds⟩ := of_readKey_eq_ok (of_decodeKey_eq_ok h)
  obtain ⟨column, field, hcolumn, htake⟩ := hfinds.exists_take
  obtain ⟨hkey, _⟩ := List.getElem?_zip_eq_some.mp hcolumn
  rw [List.getElem?_eq_getElem format.keyPosition_lt, Option.some.injEq] at hkey
  subst hkey
  exact ⟨field, behind, htake⟩

/-- **A key that is read is that of a value unless it is damaged.** -/
theorem exists_encodeKey_eq_iff (h : format.decodeKey record = .ok key) :
    (∃ value, format.encodeKey value = .ok key) ↔ ¬ Field.IsDamaged format.key.type key := by
  obtain ⟨field, behind, htake⟩ := exists_take_of_decodeKey h
  rw [← Field.exists_payload_eq_iff htake]
  exact exists_congr fun _ ↦ encodeKey_eq_ok_iff

/-- A record with a damaged key cannot be read. -/
theorem HasDamagedKey.exists_fault (h : format.HasDamagedKey record)
    (hdistinct : (format.columns.map (·.name)).Nodup) :
    ∃ fault, format.decode record = .error (.corruptRecord fault) := by
  obtain ⟨key, hkey, hdamaged⟩ := h
  cases hdecode : format.decode record with
  | error e =>
    obtain ⟨fault, rfl⟩ := exists_fault_of_mapError hdecode
    exact ⟨fault, rfl⟩
  | ok item =>
    obtain ⟨value, other, _, hvalue, hother⟩ := exists_key_of_decode hdistinct hdecode
    obtain rfl : key = other := Except.ok.inj (hkey.symm.trans hother)
    exact absurd hdamaged ((exists_encodeKey_eq_iff hkey).mp ⟨value, hvalue⟩)

end RecordFormat

/-! ## Tables -/

namespace Table

variable {table : Table} {disk opened : Disk} {directory : Place} {name : String}
  {policy : SyncPolicy} {content : Bytes} {rows : List Row}

/-- What the keys in the index of a table have to do with values, if its log has these records of
which these are current. -/
structure KeysStandForValues (table : Table) (disk : Disk) (records : List Bytes)
    (current : List (Nat × Bytes)) : Prop where
  mem_iff : ∀ offset record,
    (offset, record) ∈ current ↔ table.IsCurrent records offset record
  liveKeys : table.stats.liveKeys = current.length
  /-- The keys of the index are those of the current records. -/
  indexed_iff : ∀ key offset, table.index.offset? key = some offset ↔
    ∃ record, (offset, record) ∈ current ∧ table.format.decodeKey record = .ok key
  /-- They are keys of values unless they are damaged. -/
  exists_value_iff : ∀ key offset, table.index.offset? key = some offset →
    ((∃ value, table.format.encodeKey value = .ok key) ↔
      ¬ Field.IsDamaged table.format.key.type key)
  /-- If no record of the log has a damaged key, each is the key of a value, -/
  exists_value : (∀ record ∈ records, ¬ table.format.HasDamagedKey record) →
    ∀ key offset, table.index.offset? key = some offset →
      ∃ value, table.format.encodeKey value = .ok key
  /-- which is always so with numbers. -/
  numeric : table.format.key.type.isNumeric = true →
    ∀ record, ¬ table.format.HasDamagedKey record
  /-- Looking up the value of a key finds the item of the record or reports what is wrong. -/
  get : ∀ value key offset record, table.format.encodeKey value = .ok key →
    (offset, record) ∈ current → table.format.decodeKey record = .ok key →
      table.get disk value = table.format.decode record
  /-- A record with a damaged key cannot be read, -/
  decode : ∀ offset record, (offset, record) ∈ current → table.format.HasDamagedKey record →
    ∃ fault, table.format.decode record = .error (.corruptRecord fault)
  /-- and no filter gets past it. -/
  filter : ∀ offset record, (offset, record) ∈ current → table.format.HasDamagedKey record →
    ∀ predicate, predicate.check table.schema = .ok () →
      ∃ fault, table.filter disk predicate = .error (.corruptRecord fault)

namespace Stores

theorem column_names_distinct (h : table.Stores disk rows) :
    (table.format.columns.map (·.name)).Nodup := by
  rw [(RecordFormat.of_ofSchema_eq_ok h.format).1]
  exact (Schema.isValid_of_check (Descriptor.of_load_eq_ok h.descriptor).2).column_names_distinct

theorem length_currentRecords (h : table.Stores disk rows) :
    table.stats.liveKeys = (currentRecords rows).length := by
  have hlengths := congrArg List.length (map_snd_currentRecords rows)
  rw [List.length_map, List.length_map] at hlengths
  rw [h.stats, hlengths]

/-- A filter fails on a current record that cannot be read, or on an earlier one. -/
theorem exists_filter_eq_error (h : table.Stores disk rows) {predicate : Predicate}
    (hcheck : predicate.check table.schema = .ok ()) {entry : Nat × Bytes}
    (hcurrent : entry ∈ currentRecords rows) {e : Failure}
    (hdecode : table.format.decode entry.2 = .error e) :
    ∃ fault, table.filter disk predicate = .error (.corruptRecord fault) := by
  have hfilters := h.filtersCurrent
  cases hfilter : table.filter disk predicate with
  | error e =>
    obtain ⟨fault, rfl⟩ := hfilters.corrupt predicate hcheck e hfilter
    exact ⟨fault, rfl⟩
  | ok items =>
    obtain ⟨item, hitem⟩ :=
      (hfilters.succeeds_iff predicate hcheck).mp ⟨items, hfilter⟩ entry hcurrent
    rw [hdecode] at hitem
    cases hitem

/-- **The keys of a table that stores rows are those of values unless they are damaged.** -/
theorem keysStandForValues (h : table.Stores disk rows) :
    table.KeysStandForValues disk (rows.map (·.2)) (currentRecords rows) where
  mem_iff _ _ := h.mem_currentRecords_iff
  liveKeys := h.length_currentRecords
  indexed_iff _ _ := h.offset?_eq_some_iff
  exists_value_iff := by
    intro key offset hindexed
    obtain ⟨record, _, hkey⟩ := h.offset?_eq_some_iff.mp hindexed
    exact RecordFormat.exists_encodeKey_eq_iff hkey
  exists_value := by
    intro hsound key offset hindexed
    obtain ⟨record, hcurrent, hkey⟩ := h.offset?_eq_some_iff.mp hindexed
    obtain ⟨⟨before, after, hsplit, _⟩, _⟩ := h.mem_currentRecords_iff.mp hcurrent
    refine (RecordFormat.exists_encodeKey_eq_iff hkey).mpr fun hdamaged ↦ ?_
    exact hsound record (by simp [hsplit]) ⟨key, hkey, hdamaged⟩
  numeric := by
    rintro hnumeric record ⟨key, _, hdamaged⟩
    exact Field.not_isDamaged_of_isNumeric hnumeric hdamaged
  get _ _ _ _ hvalue hcurrent hkey := h.get_of_mem_currentRecords hvalue hcurrent hkey
  decode _ _ _ hdamaged := hdamaged.exists_fault h.column_names_distinct
  filter := by
    intro offset record hcurrent hdamaged predicate hcheck
    obtain ⟨fault, hfault⟩ := hdamaged.exists_fault h.column_names_distinct
    exact h.exists_filter_eq_error hcheck hcurrent hfault

end Stores

/-- **The keys of a table that has been opened are those of values unless they are damaged**,
whatever bytes its log has. Whether they are damaged makes no difference to opening it: it opens on
every log in whose complete records there are bytes of a key. -/
theorem keysStandForValues_of_openAt
    (hfile : disk.get? (logFile directory) = some (.file content))
    (hopen : openAt disk directory name policy = (.ok table, opened)) :
    ∃ records current, Frame.IsLongest records content ∧
      table.KeysStandForValues opened records current ∧
      ∀ changed others, Frame.IsLongest others changed →
        (∀ record ∈ others, ∃ key, table.format.decodeKey record = .ok key) →
          ∃ again left, openAt (disk.set (logFile directory).path (.file changed)) directory name
              policy = (.ok again, left) := by
  obtain ⟨rows, hrecords, hstores, _⟩ := stores_of_openAt hfile hopen
  refine ⟨Frame.frames content, currentRecords rows, Frame.isLongest_iff.mpr rfl, ?_, ?_⟩
  · rw [← hrecords]
    exact hstores.keysStandForValues
  · intro changed others hothers hkeys
    rw [Frame.isLongest_iff.mp hothers] at hkeys
    obtain ⟨rows, hrows, hisRow⟩ := RecordFormat.exists_rows Frame.isFrame_of_mem_frames
      fun record hrecord ↦ (hkeys record hrecord).imp fun _ ↦ RecordFormat.of_decodeKey_eq_ok
    obtain ⟨again, left, hagain, _⟩ := exists_stores_of_set_logFile hfile hopen hrows hisRow
    exact ⟨again, left, hagain⟩

/-! ## A log with a damaged key -/

/-- A table of tags, each of them its own key. -/
def tagsSchema : Schema :=
  ⟨"tags", [⟨"tag", .text⟩], "tag"⟩

def tagsPlace : Place := ⟨["tags"], ⟨[], 0, ["tags"]⟩⟩

/-- A tag of two letters, and one of a byte that no text begins with. -/
def tagsLog : Bytes :=
  [7, 0, 0, 0, 1, 2, 0, 0, 0, 0x6F, 0x6B] ++ [6, 0, 0, 0, 1, 1, 0, 0, 0, 0xFF]

def tagsDisk : Disk :=
  ((Disk.empty.set tagsPlace.path .directory).set (schemaFile tagsPlace).path
    (.file (Descriptor.withChecksum (Descriptor.content tagsSchema)))).set
      (logFile tagsPlace).path (.file tagsLog)

theorem get?_logFile_tagsDisk : tagsDisk.get? (logFile tagsPlace) = some (.file tagsLog) := by
  decide +kernel

/-- The table of tags opens with two keys, of which the second is at the damaged record. -/
theorem exists_openAt_tagsDisk :
    ∃ table opened, openAt tagsDisk tagsPlace "tags" .never = (.ok table, opened) ∧
      table.schema = tagsSchema ∧ table.format.key.type = .text ∧ table.stats.liveKeys = 2 ∧
      table.index.offset? [0xFF] = some 11 := by
  have hopens : (openAt tagsDisk tagsPlace "tags" .never).1.toOption.any (fun table ↦
      table.schema = tagsSchema ∧ table.format.key.type = .text ∧ table.stats.liveKeys = 2 ∧
        table.index.offset? [0xFF] = some 11) = true := by
    decide +kernel
  cases hopen : openAt tagsDisk tagsPlace "tags" .never with
  | mk outcome opened =>
    cases outcome with
    | error e => rw [hopen] at hopens; cases hopens
    | ok table =>
      rw [hopen] at hopens
      exact ⟨table, opened, rfl, of_decide_eq_true hopens⟩

theorem keysStandForValues_of_openAt_tags :
    ∃ table opened, tagsDisk.get? (logFile tagsPlace) = some (.file tagsLog) ∧
      openAt tagsDisk tagsPlace "tags" .never = (.ok table, opened) ∧
      ∃ records current, Frame.IsLongest records tagsLog ∧
        table.KeysStandForValues opened records current ∧
        ∀ changed others, Frame.IsLongest others changed →
          (∀ record ∈ others, ∃ key, table.format.decodeKey record = .ok key) →
            ∃ again left, openAt (tagsDisk.set (logFile tagsPlace).path (.file changed)) tagsPlace
                "tags" .never = (.ok again, left) := by
  obtain ⟨table, opened, hopen, _⟩ := exists_openAt_tagsDisk
  exact ⟨table, opened, get?_logFile_tagsDisk, hopen,
    keysStandForValues_of_openAt get?_logFile_tagsDisk hopen⟩

/-- **A key that is no value's can be in the index.** The table of tags opens, and counts a key
that no lookup can ask for. -/
theorem openAt_indexes_damaged_key :
    tagsSchema.validate = .ok () ∧ tagsDisk.get? (logFile tagsPlace) = some (.file tagsLog) ∧
      ∃ table opened, openAt tagsDisk tagsPlace "tags" .never = (.ok table, opened) ∧
        table.schema = tagsSchema ∧ table.stats.liveKeys = 2 ∧
        table.index.offset? [0xFF] = some 11 ∧
        ∀ value, table.format.encodeKey value ≠ .ok [0xFF] := by
  obtain ⟨table, opened, hopen, hschema, htype, hcount, hindexed⟩ := exists_openAt_tagsDisk
  obtain ⟨rows, _, hstores, _⟩ := stores_of_openAt get?_logFile_tagsDisk hopen
  have hdecode : Utf8.decode [0xFF] = .error ⟨0, some 1⟩ := by decide +kernel
  have hdamaged : Field.IsDamaged table.format.key.type [0xFF] := htype ▸ .text hdecode
  refine ⟨by rfl, get?_logFile_tagsDisk, table, opened, hopen, hschema, hcount, hindexed, ?_⟩
  intro value hvalue
  exact (hstores.keysStandForValues.exists_value_iff _ _ hindexed).mp ⟨value, hvalue⟩ hdamaged

end Table

end TableStore
