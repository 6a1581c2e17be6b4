import TableStore.Proofs.Record.Field
import TableStore.Proofs.Record.Frame
import TableStore.Proofs.Record.Presence
import TableStore.Proofs.Schema.Valid

/-!
# Records read back as the items they were made of

Writing a record goes through the columns once and leaves out those the item does not have, and
reading goes through the same columns with the bits of the bitmap. The two stay aligned: the bit
of a column says whether writing has put a field there, and every field ends where the next one
begins. So the item comes back whole, and the key can be taken out of the record by skipping the
fields before it.
-/

namespace TableStore.RecordFormat

/-! ## What writing accepts -/

theorem unknown?_eq_none_iff {format : RecordFormat} {item : Item} :
    format.unknown? item = none ↔
      ∀ name, item.contains name = true → ∃ column ∈ format.columns, column.name = name := by
  rw [unknown?, List.find?_eq_none]
  simp only [Std.ExtTreeMap.mem_keys, Bool.not_eq_true', Bool.not_eq_false, List.any_eq_true,
    beq_iff_eq, Std.ExtTreeMap.mem_iff_contains]

/-- A record is the frame of a bitmap and the fields behind it, when the item has no other columns,
has the key, and fits. -/
theorem encode_eq_ok_iff {format : RecordFormat} {item : Item} {record : Bytes} :
    format.encode item = .ok record ↔
      format.unknown? item = none ∧ item.contains format.key.name = true ∧
        ∃ written, fields item format.columns = .ok written ∧
          (format.presence item ++ written).length ≤ Frame.bodyLimit ∧
          record = Frame.ofBody (format.presence item ++ written) := by
  unfold encode
  cases format.unknown? item with
  | some name => simp
  | none =>
    by_cases hkey : item.contains format.key.name = true
    · simp only [hkey, Bool.not_true, Bool.false_eq_true, if_false, true_and]
      cases fields item format.columns with
      | error failure => simp
      | ok written =>
        by_cases hlimit : Frame.bodyLimit < (format.presence item ++ written).length
        · simp only [hlimit, if_true, Except.ok.injEq, exists_eq_left', reduceCtorEq, false_iff,
            not_and]
          intro hfit
          exact absurd hfit (Nat.not_le.mpr hlimit)
        · simp only [hlimit, if_false, Except.ok.injEq, exists_eq_left', Nat.not_lt.mp hlimit,
            true_and]
          exact eq_comm
    · simp [hkey]

theorem isFrame_of_encode {format : RecordFormat} {item : Item} {record : Bytes}
    (h : format.encode item = .ok record) : Frame.IsFrame record := by
  obtain ⟨_, _, written, _, hlimit, rfl⟩ := encode_eq_ok_iff.mp h
  exact ⟨_, hlimit, rfl⟩

/-! ## The frame and the bitmap -/

theorem body_ofBody {bytes : Bytes} (h : bytes.length ≤ Frame.bodyLimit) :
    body (Frame.ofBody bytes) = .ok bytes := by
  have hsplit : Bytes.split? Frame.width (Frame.ofBody bytes) =
      some (LittleEndian.encode Frame.width bytes.length, bytes) := by
    rw [Bytes.split?_eq_some_iff]
    exact ⟨rfl, LittleEndian.length_encode _ _⟩
  have hlength : LittleEndian.decode (LittleEndian.encode Frame.width bytes.length) =
      bytes.length :=
    LittleEndian.decode_encode (Frame.length_lt_of_le_bodyLimit h)
  simp only [body, hsplit, hlength, Nat.lt_irrefl, if_false]

@[simp]
theorem length_presence (format : RecordFormat) (item : Item) :
    (format.presence item).length = format.bitmapLength := by
  rw [presence, Presence.length_ofBits, List.length_map, bitmapLength]

theorem stray?_presence (format : RecordFormat) (item : Item) :
    Presence.stray? (format.presence item) format.columns.length = none := by
  have hstray := Presence.stray?_ofBits
    (format.columns.map fun column ↦ item.contains column.name)
  rwa [List.length_map] at hstray

theorem isSet_keyPosition (format : RecordFormat) (item : Item) :
    Presence.isSet (format.presence item) format.keyPosition = item.contains format.key.name := by
  have hposition : format.keyPosition <
      (format.columns.map fun column ↦ item.contains column.name).length := by
    rw [List.length_map]
    exact format.keyPosition_lt
  rw [presence, Presence.isSet_ofBits hposition, List.getElem_map]
  rfl

theorem zip_map_append {α β : Type} (f : α → β) (xs : List α) (ys : List β) :
    xs.zip (xs.map f ++ ys) = xs.map fun x ↦ (x, f x) := by
  induction xs with
  | nil => simp
  | cons x rest ih => simp [ih]

/-- The bitmap marks each column that the item has. -/
theorem marked_presence (format : RecordFormat) (item : Item) :
    format.marked (format.presence item) =
      format.columns.map fun column ↦ (column, item.contains column.name) := by
  rw [marked, presence, Presence.bits_ofBits, zip_map_append]

/-- The checks of framing and bitmap pass on what was written. -/
theorem split_ofBody {format : RecordFormat} {item : Item} {written : Bytes}
    (hkey : item.contains format.key.name = true)
    (hlimit : (format.presence item ++ written).length ≤ Frame.bodyLimit) :
    format.split (Frame.ofBody (format.presence item ++ written)) =
      .ok (format.presence item, written) := by
  have hsplit : Bytes.split? format.bitmapLength (format.presence item ++ written) =
      some (format.presence item, written) := by
    rw [Bytes.split?_eq_some_iff]
    exact ⟨rfl, length_presence format item⟩
  simp only [split, body_ofBody hlimit, hsplit, stray?_presence, isSet_keyPosition, hkey, if_true]

/-! ## The fields -/

/-- The values that an item has in the given columns, put into another item. -/
def collect (item start : Item) : List Column → Item
  | [] => start
  | column :: rest =>
    match item[column.name]? with
    | none => collect item start rest
    | some value => collect item (start.insert column.name value) rest

theorem getElem?_collect (item start : Item) (columns : List Column) (name : String) :
    (collect item start columns)[name]? =
      if ∃ column ∈ columns, column.name = name then item[name]?.or start[name]?
      else start[name]? := by
  induction columns generalizing start with
  | nil => simp [collect]
  | cons column rest ih =>
    rw [collect]
    by_cases hname : column.name = name
    · subst hname
      cases hvalue : item[column.name]? with
      | none => simp [ih, hvalue]
      | some value => simp [ih, hvalue]
    · cases hvalue : item[column.name]? with
      | none => simp [ih, hname]
      | some value =>
        simp [ih, hname, Std.ExtTreeMap.getElem?_insert, Std.LawfulEqCmp.compare_eq_iff_eq]

/-- An item is collected whole if all its entries are in the given columns. -/
theorem collect_empty {item : Item} {columns : List Column}
    (h : ∀ name, item.contains name = true → ∃ column ∈ columns, column.name = name) :
    collect item ∅ columns = item := by
  apply Std.ExtTreeMap.ext_getElem?
  intro name
  rw [getElem?_collect]
  by_cases hcolumn : ∃ column ∈ columns, column.name = name
  · rw [if_pos hcolumn, Std.ExtTreeMap.getElem?_empty, Option.or_none]
  · have habsent : item[name]? = none := by
      cases hvalue : item[name]? with
      | none => rfl
      | some value =>
        refine absurd (h name ?_) hcolumn
        rw [Std.ExtTreeMap.contains_eq_isSome_getElem?, hvalue]
        rfl
    rw [if_neg hcolumn, Std.ExtTreeMap.getElem?_empty, habsent]

/-- What writing the fields does at one column. -/
theorem fields_cons_eq_ok {item : Item} {column : Column} {rest : List Column} {written : Bytes}
    (h : fields item (column :: rest) = .ok written) :
    (item[column.name]? = none ∧ fields item rest = .ok written) ∨
      ∃ value field others, item[column.name]? = some value ∧ value.type = column.type ∧
        Field.encode value = .ok field ∧ fields item rest = .ok others ∧
        written = field ++ others := by
  unfold fields at h
  cases hvalue : item[column.name]? with
  | none =>
    rw [hvalue] at h
    exact .inl ⟨rfl, h⟩
  | some value =>
    rw [hvalue] at h
    dsimp only at h
    split at h
    · cases h
    · next htype =>
      cases hfield : Field.encode value with
      | error failure => rw [hfield] at h; cases h
      | ok field =>
        rw [hfield] at h
        dsimp only at h
        cases hothers : fields item rest with
        | error failure => rw [hothers] at h; cases h
        | ok others =>
          rw [hothers] at h
          cases h
          exact .inr ⟨value, field, others, rfl, Decidable.not_not.mp htype, hfield, rfl, rfl⟩

/-- Reading takes off exactly the fields that were written, and leaves what follows them. -/
theorem readFields_fields {item : Item} {columns : List Column} {written : Bytes}
    (h : fields item columns = .ok written) (start : Item) (behind : Bytes) :
    readFields start (columns.map fun column ↦ (column, item.contains column.name))
        (written ++ behind) =
      .ok (collect item start columns, behind) := by
  induction columns generalizing written start with
  | nil =>
    cases h
    rfl
  | cons column rest ih =>
    rw [List.map_cons, collect]
    rcases fields_cons_eq_ok h with ⟨habsent, hrest⟩ | ⟨value, field, others, hvalue, htype, hfield,
      hrest, rfl⟩
    · have hbit : item.contains column.name = false := by
        rw [Std.ExtTreeMap.contains_eq_isSome_getElem?, habsent]
        rfl
      rw [hbit, habsent, readFields]
      exact ih hrest start
    · have hbit : item.contains column.name = true := by
        rw [Std.ExtTreeMap.contains_eq_isSome_getElem?, hvalue]
        rfl
      rw [hbit, hvalue, readFields, ← htype, List.append_assoc, Field.read_encode hfield]
      exact ih hrest (start.insert column.name value)

/-- The key is found by skipping the fields before it. -/
theorem readKeyField_fields {item : Item} {columns : List Column} {written : Bytes}
    (h : fields item columns = .ok written) {position : Nat} (hposition : position < columns.length)
    {value : Value} (hvalue : item[(columns[position]).name]? = some value) (behind : Bytes) :
    readKeyField position (columns.map fun column ↦ (column, item.contains column.name))
        (written ++ behind) =
      .ok (Field.payload value) := by
  induction columns generalizing written position with
  | nil => simp at hposition
  | cons column rest ih =>
    rw [List.map_cons]
    rcases fields_cons_eq_ok h with ⟨habsent, hrest⟩ | ⟨here, field, others, hhere, htype, hfield,
      hrest, rfl⟩
    · have hbit : item.contains column.name = false := by
        rw [Std.ExtTreeMap.contains_eq_isSome_getElem?, habsent]
        rfl
      cases position with
      | zero =>
        rw [List.getElem_cons_zero, habsent] at hvalue
        cases hvalue
      | succ position =>
        rw [hbit, readKeyField]
        exact ih hrest (Nat.lt_of_succ_lt_succ hposition) hvalue
    · have hbit : item.contains column.name = true := by
        rw [Std.ExtTreeMap.contains_eq_isSome_getElem?, hhere]
        rfl
      rw [hbit, readKeyField, ← htype, List.append_assoc, Field.take_encode hfield]
      cases position with
      | zero =>
        rw [List.getElem_cons_zero, hhere] at hvalue
        cases hvalue
        rfl
      | succ position => exact ih hrest (Nat.lt_of_succ_lt_succ hposition) hvalue

/-! ## Whole records -/

/-- **A written record reads back as its item.** -/
theorem read_of_encode {format : RecordFormat} {item : Item} {record : Bytes}
    (h : format.encode item = .ok record) : format.read record = .ok item := by
  obtain ⟨hknown, hkey, written, hwritten, hlimit, rfl⟩ := encode_eq_ok_iff.mp h
  have hfields := readFields_fields hwritten ∅ []
  rw [List.append_nil, collect_empty (unknown?_eq_none_iff.mp hknown)] at hfields
  rw [read, split_ofBody hkey hlimit]
  dsimp only
  rw [marked_presence, hfields]
  rfl

theorem decode_of_encode {format : RecordFormat} {item : Item} {record : Bytes}
    (h : format.encode item = .ok record) : format.decode record = .ok item := by
  rw [decode, read_of_encode h]
  rfl

/-- The values of the key's column, by the item that a format accepts. -/
theorem exists_key_of_encode {format : RecordFormat} {item : Item} {record : Bytes}
    (h : format.encode item = .ok record) : ∃ value, item[format.key.name]? = some value := by
  obtain ⟨_, hkey, _⟩ := encode_eq_ok_iff.mp h
  rw [Std.ExtTreeMap.contains_eq_isSome_getElem?] at hkey
  exact Option.isSome_iff_exists.mp hkey

/-- The key read out of a record is that of the item it was made of. -/
theorem readKey_of_encode {format : RecordFormat} {item : Item} {record : Bytes} {value : Value}
    (h : format.encode item = .ok record) (hvalue : item[format.key.name]? = some value) :
    format.readKey record = .ok (Field.payload value) := by
  obtain ⟨_, hkey, written, hwritten, hlimit, rfl⟩ := encode_eq_ok_iff.mp h
  have hfield := readKeyField_fields hwritten format.keyPosition_lt hvalue []
  rw [List.append_nil] at hfield
  rw [readKey, split_ofBody hkey hlimit]
  dsimp only
  rw [marked_presence, hfield]

/-- Writing checks the type of every value that the item has in a column. -/
theorem type_of_fields {item : Item} {columns : List Column} {written : Bytes}
    (h : fields item columns = .ok written) {column : Column} (hcolumn : column ∈ columns)
    {value : Value} (hvalue : item[column.name]? = some value) : value.type = column.type := by
  induction columns generalizing written with
  | nil => cases hcolumn
  | cons head rest ih =>
    rcases List.mem_cons.mp hcolumn with rfl | hrest
    · rcases fields_cons_eq_ok h with ⟨habsent, _⟩ | ⟨here, _, _, hhere, htype, _⟩
      · rw [habsent] at hvalue
        cases hvalue
      · rw [hhere] at hvalue
        cases hvalue
        exact htype
    · rcases fields_cons_eq_ok h with ⟨_, hothers⟩ | ⟨_, _, _, _, _, _, hothers, _⟩
      · exact ih hothers hrest
      · exact ih hothers hrest

theorem encodeKey_of_encode {format : RecordFormat} {item : Item} {record : Bytes} {value : Value}
    (h : format.encode item = .ok record) (hvalue : item[format.key.name]? = some value) :
    format.encodeKey value = .ok (Field.payload value) := by
  obtain ⟨_, _, written, hwritten, _, _⟩ := encode_eq_ok_iff.mp h
  have htype : value.type = format.key.type :=
    type_of_fields hwritten (List.get_mem _ _) hvalue
  simp [encodeKey, htype]

/-- **Every item that the format of a valid schema accepts reads back from its record**, whatever
columns it has and whatever their values are. -/
theorem decode_eq_of_encode_eq {schema : Schema} (hvalid : schema.validate = .ok ()) :
    ∃ format, RecordFormat.ofSchema schema = .ok format ∧
      ∀ item record, format.encode item = .ok record → format.decode record = .ok item := by
  obtain ⟨format, hformat⟩ := (Schema.isValid_of_validate hvalid).exists_format
  exact ⟨format, hformat, fun item record hencode ↦ decode_of_encode hencode⟩

/-- A schema whose key stands behind a text. -/
def ordersSchema : Schema :=
  ⟨"orders", [⟨"note", .text⟩, ⟨"id", .integer⟩, ⟨"weight", .float⟩, ⟨"paid", .boolean⟩], "id"⟩

/-- An item with a text outside ASCII, a NaN with a payload, and one column absent. -/
def orderItem : Item :=
  ((((∅ : Item).insert "id" (.integer (-7))).insert "weight" (.float ⟨0x7FF8000000000001⟩)).insert
    "note" (.text "größe"))

/-- The round trip on a record with a skipped text, a NaN and an absent column. -/
theorem decode_eq_of_encode_eq_orders :
    ordersSchema.validate = .ok () ∧
      ∃ format record, ofSchema ordersSchema = .ok format ∧
        format.encode orderItem = .ok record ∧ format.decode record = .ok orderItem := by
  have hvalid : ordersSchema.validate = .ok () := by rfl
  obtain ⟨format, hformat, hread⟩ := decode_eq_of_encode_eq hvalid
  have haccepted : (match ofSchema ordersSchema with
      | .ok format => (format.encode orderItem).isOk
      | .error _ => false) = true := by
    decide +kernel
  rw [hformat] at haccepted
  dsimp only at haccepted
  cases hencode : format.encode orderItem with
  | error failure => rw [hencode] at haccepted; cases haccepted
  | ok record => exact ⟨hvalid, format, record, hformat, hencode, hread orderItem record hencode⟩

end TableStore.RecordFormat
