import TableStore.Proofs.Record.RoundTrip

/-!
# Records have one written form

Whatever is accepted when a record is read is what writing would have put there. A field that is
read is the field of its value: numbers have a fixed width, a truth value is one of two bytes, and
a text is well-formed and as long as it says. A bitmap without stray bits is the one of its marks.
With the framing, which leaves no byte unaccounted for, a record is determined by its item, and the
records that can be read are exactly those that can be written.
-/

-- Powers are those of the core library, whatever is imported beside it.
attribute [local instance (1100)] instPowNat

namespace TableStore

/-! ## Fields -/

namespace Field

theorem of_takeBytes_eq_ok {length : Nat} {column : String} {bytes first rest : Bytes}
    (h : takeBytes length column bytes = .ok (first, rest)) :
    bytes = first ++ rest ∧ first.length = length := by
  unfold takeBytes at h
  split at h
  · cases h
  · next hsplit =>
    cases h
    exact Bytes.split?_eq_some_iff.mp hsplit

/-- A text is taken off with the length in front of it. -/
theorem of_take_text_eq_ok {column : String} {bytes payload rest : Bytes}
    (h : take .text column bytes = .ok (payload, rest)) :
    bytes = LittleEndian.encode 4 payload.length ++ payload ++ rest ∧
      payload.length ≤ lengthLimit := by
  rw [take] at h
  split at h
  · cases h
  · next lead behind hlead =>
    obtain ⟨rfl, hwidth⟩ := of_takeBytes_eq_ok hlead
    split at h
    · cases h
    · next hsplit =>
      cases h
      obtain ⟨rfl, hlength⟩ := Bytes.split?_eq_some_iff.mp hsplit
      have hagain : LittleEndian.encode 4 payload.length = lead := by
        rw [hlength, ← hwidth, LittleEndian.encode_decode]
      have hfits : LittleEndian.decode lead < 256 ^ 4 := hwidth ▸ LittleEndian.decode_lt lead
      have hlimit : 256 ^ 4 = lengthLimit + 1 := by decide
      refine ⟨?_, by omega⟩
      rw [hagain, List.append_assoc]

theorem encode_decode_word {payload : Bytes} (h : payload.length = 8) :
    LittleEndian.encode 8 (UInt64.ofNat (LittleEndian.decode payload)).toNat = payload := by
  have hfits : LittleEndian.decode payload < 2 ^ 64 := by
    have hlt := LittleEndian.decode_lt payload
    rwa [h] at hlt
  calc
    LittleEndian.encode 8 (UInt64.ofNat (LittleEndian.decode payload)).toNat =
        LittleEndian.encode payload.length (LittleEndian.decode payload) := by
      rw [UInt64.toNat_ofNat_of_lt' hfits, h]
    _ = payload := LittleEndian.encode_decode payload

/-- A byte that spells a truth value is the one it is written as. -/
theorem of_ofPayload_boolean_eq_ok {column : String} {b : UInt8} {value : Value}
    (h : ofPayload .boolean column [b] = .ok value) :
    ∃ truth : Bool, value = .boolean truth ∧ b = if truth then 1 else 0 := by
  unfold ofPayload at h
  dsimp only [List.headD_cons] at h
  split at h
  · next hzero =>
    cases h
    exact ⟨false, rfl, hzero⟩
  · split at h
    · next hone =>
      cases h
      exact ⟨true, rfl, hone⟩
    · cases h

/-- Bytes that spell a text are the ones it is written as. -/
theorem of_ofPayload_text_eq_ok {column : String} {bytes : Bytes} {value : Value}
    (h : ofPayload .text column bytes = .ok value) :
    ∃ text, value = .text text ∧ Utf8.encode text = bytes := by
  unfold ofPayload at h
  dsimp only at h
  split at h
  · next text hdecode =>
    cases h
    exact ⟨text, rfl, Utf8.encode_of_decode hdecode⟩
  · cases h

theorem of_read_eq_ok {type : ColumnType} {column : String} {bytes rest : Bytes} {value : Value}
    (h : read type column bytes = .ok (value, rest)) :
    ∃ payload, take type column bytes = .ok (payload, rest) ∧
      ofPayload type column payload = .ok value := by
  unfold read at h
  split at h
  · cases h
  · next payload _ htake =>
    split at h
    · cases h
    · next hvalue =>
      cases h
      exact ⟨payload, htake, hvalue⟩

/-- **A field that is read is the one its value is written as.** -/
theorem encode_of_read {type : ColumnType} {column : String} {bytes rest : Bytes} {value : Value}
    (h : read type column bytes = .ok (value, rest)) :
    value.type = type ∧ ∃ field, encode value = .ok field ∧ bytes = field ++ rest := by
  obtain ⟨payload, htake, hvalue⟩ := of_read_eq_ok h
  cases type with
  | integer =>
    obtain ⟨rfl, hwidth⟩ := of_takeBytes_eq_ok htake
    cases hvalue
    refine ⟨rfl, payload, ?_, rfl⟩
    rw [encode, Field.payload, UInt64.toUInt64_toInt64, encode_decode_word hwidth]
    simp
  | float =>
    obtain ⟨rfl, hwidth⟩ := of_takeBytes_eq_ok htake
    cases hvalue
    refine ⟨rfl, payload, ?_, rfl⟩
    rw [encode, Field.payload, encode_decode_word hwidth]
    simp
  | boolean =>
    obtain ⟨rfl, hwidth⟩ := of_takeBytes_eq_ok htake
    obtain ⟨b, rfl⟩ := List.length_eq_one_iff.mp hwidth
    obtain ⟨truth, rfl, rfl⟩ := of_ofPayload_boolean_eq_ok hvalue
    exact ⟨rfl, _, rfl, rfl⟩
  | text =>
    obtain ⟨rfl, hlimit⟩ := of_take_text_eq_ok htake
    obtain ⟨text, rfl, rfl⟩ := of_ofPayload_text_eq_ok hvalue
    rw [Utf8.length_encode] at hlimit ⊢
    exact ⟨rfl, _, encode_text_eq_ok_iff.mpr ⟨hlimit, rfl⟩, rfl⟩

end Field

/-! ## Bitmaps -/

namespace Presence

theorem toNat_ofNat {count n : Nat} (h : n < 2 ^ count) : toNat (ofNat count n) = n := by
  induction count generalizing n with
  | zero =>
    rw [Nat.pow_zero, Nat.lt_one_iff] at h
    rw [h]
    rfl
  | succ count ih =>
    have hhigh : n / 2 < 2 ^ count := by
      rw [Nat.pow_succ] at h
      omega
    have hlow : (decide (n % 2 = 1)).toNat = n % 2 := by
      rcases Nat.mod_two_eq_zero_or_one n with heven | hodd
      · rw [heven]
        rfl
      · rw [hodd]
        rfl
    rw [ofNat, toNat, ih hhigh, hlow]
    omega

theorem bits_cons (b : UInt8) (rest : Bytes) : bits (b :: rest) = ofNat 8 b.toNat ++ bits rest := by
  rw [bits, List.flatMap_cons]
  rfl

@[simp]
theorem length_bits (bitmap : Bytes) : (bits bitmap).length = 8 * bitmap.length := by
  induction bitmap with
  | nil => rfl
  | cons b rest ih => rw [bits_cons, List.length_append, length_ofNat, ih, List.length_cons]; omega

/-- A bitmap is made of all its bits. -/
theorem ofBits_bits (bitmap : Bytes) : ofBits (bits bitmap) = bitmap := by
  induction bitmap with
  | nil => exact ofBits_nil
  | cons b rest ih =>
    have hlength : (ofNat 8 b.toNat).length = 8 := length_ofNat _ _
    have hne : ofNat 8 b.toNat ++ bits rest ≠ [] := by
      intro hnil
      rw [(List.append_eq_nil_iff.mp hnil).1] at hlength
      cases hlength
    rw [bits_cons, ofBits_of_ne_nil hne, List.take_left' hlength, List.drop_left' hlength, ih,
      toNat_ofNat b.toNat_lt, UInt8.ofNat_toNat]

/-- **A bitmap without stray bits is the one of its marks.** -/
theorem ofBits_take_bits {bitmap : Bytes} {count : Nat} (hlength : bitmap.length = byteCount count)
    (h : stray? bitmap count = none) : ofBits ((bits bitmap).take count) = bitmap := by
  have hcount : ((bits bitmap).take count).length = count := by
    rw [List.length_take_of_le]
    rw [length_bits, hlength, byteCount]
    omega
  have hclear : (bits bitmap).drop count =
      List.replicate (8 * byteCount count - count) false := by
    rw [List.eq_replicate_iff, List.length_drop, length_bits, hlength]
    refine ⟨rfl, fun bit hbit ↦ ?_⟩
    rw [stray?, Option.map_eq_none_iff, List.findIdx?_eq_none_iff] at h
    exact h bit hbit
  have hbits : bits (ofBits ((bits bitmap).take count)) = bits bitmap := by
    rw [bits_ofBits, hcount, ← hclear, List.take_append_drop]
  rw [← ofBits_bits (ofBits ((bits bitmap).take count)), hbits, ofBits_bits]

end Presence

/-! ## Records -/

namespace RecordFormat

/-- The format of a schema has its columns and its key. -/
theorem of_ofSchema_eq_ok {schema : Schema} {format : RecordFormat}
    (h : ofSchema schema = .ok format) :
    format.columns = schema.columns ∧ format.key.name = schema.primaryKey := by
  unfold ofSchema at h
  split at h
  · cases h
  · next position hposition =>
    cases h
    obtain ⟨_, hfound, _⟩ := List.findIdx?_eq_some_iff_getElem.mp hposition
    exact ⟨rfl, beq_iff_eq.mp hfound⟩

/-- The key of the format of a schema is its key column. -/
theorem keyColumn?_of_ofSchema {schema : Schema} {format : RecordFormat}
    (h : ofSchema schema = .ok format) : schema.keyColumn? = some format.key := by
  unfold ofSchema at h
  split at h
  · cases h
  · next position hposition =>
    cases h
    obtain ⟨hlength, hfound, hbefore⟩ := List.findIdx?_eq_some_iff_getElem.mp hposition
    refine List.find?_eq_some_iff_getElem.mpr ⟨hfound, position, hlength, rfl, ?_⟩
    intro earlier hearlier
    simpa using hbefore earlier hearlier

theorem of_body_eq_ok {record bytes : Bytes} (h : body record = .ok bytes) :
    bytes.length ≤ Frame.bodyLimit ∧ record = Frame.ofBody bytes := by
  unfold body at h
  split at h
  · cases h
  · next lead behind hsplit =>
    obtain ⟨rfl, hwidth⟩ := Bytes.split?_eq_some_iff.mp hsplit
    dsimp only at h
    split at h
    · cases h
    · split at h
      · cases h
      · cases h
        have hlength : bytes.length = LittleEndian.decode lead := by omega
        have hfits : LittleEndian.decode lead < 256 ^ Frame.width :=
          hwidth ▸ LittleEndian.decode_lt lead
        have hlimit : 256 ^ Frame.width = Frame.bodyLimit + 1 := by decide
        refine ⟨by omega, ?_⟩
        rw [Frame.ofBody, hlength, ← hwidth, LittleEndian.encode_decode]

/-- A record that passes the checks of framing and bitmap is a frame of the bitmap and the fields,
and the bitmap has the bit of the key and no stray ones. -/
theorem of_split_eq_ok {format : RecordFormat} {record bitmap written : Bytes}
    (h : format.split record = .ok (bitmap, written)) :
    (bitmap ++ written).length ≤ Frame.bodyLimit ∧ record = Frame.ofBody (bitmap ++ written) ∧
      bitmap.length = format.bitmapLength ∧
      Presence.stray? bitmap format.columns.length = none ∧
      Presence.isSet bitmap format.keyPosition = true := by
  unfold split at h
  split at h
  · cases h
  · next hbody =>
    obtain ⟨hlimit, rfl⟩ := of_body_eq_ok hbody
    split at h
    · cases h
    · next hsplit =>
      obtain ⟨rfl, hlength⟩ := Bytes.split?_eq_some_iff.mp hsplit
      split at h
      · cases h
      · next hstray =>
        split at h
        · next hkey =>
          cases h
          exact ⟨hlimit, rfl, hlength, hstray, hkey⟩
        · cases h

/-- Reading fields does not touch what stands under other names. -/
theorem getElem?_of_readFields {marked : List (Column × Bool)} {start item : Item}
    {bytes rest : Bytes} (h : readFields start marked bytes = .ok (item, rest)) {name : String}
    (hname : ∀ entry ∈ marked, entry.1.name ≠ name) : item[name]? = start[name]? := by
  induction marked generalizing start bytes with
  | nil =>
    cases h
    rfl
  | cons entry others ih =>
    have hothers : ∀ other ∈ others, other.1.name ≠ name :=
      fun other hother ↦ hname other (by simp [hother])
    obtain ⟨column, mark⟩ := entry
    cases mark with
    | false => exact ih h hothers
    | true =>
      have hcolumn : column.name ≠ name := hname (column, true) (by simp)
      rw [readFields] at h
      split at h
      · cases h
      · rw [ih h hothers, Std.ExtTreeMap.getElem?_insert,
          if_neg fun heq ↦ hcolumn (Std.LawfulEqCmp.compare_eq_iff_eq.mp heq)]

theorem forall_mem_zip {columns : List Column} {marks : List Bool} {P : Column → Prop}
    (h : ∀ column ∈ columns, P column) : ∀ entry ∈ columns.zip marks, P entry.1 :=
  fun entry hentry ↦ h entry.1 (List.of_mem_zip (a := entry.1) (b := entry.2) hentry).1

/-- Fields that are read are those that the item is written as, and the item has a column exactly
if the column is marked. -/
theorem fields_of_readFields {columns : List Column} {marks : List Bool}
    (hlength : columns.length ≤ marks.length) (hdistinct : (columns.map (·.name)).Nodup)
    {start item : Item} (hstart : ∀ column ∈ columns, start[column.name]? = none)
    {bytes rest : Bytes} (h : readFields start (columns.zip marks) bytes = .ok (item, rest)) :
    (∃ written, fields item columns = .ok written ∧ bytes = written ++ rest) ∧
      columns.map (fun column ↦ item.contains column.name) = marks.take columns.length := by
  induction columns generalizing marks start bytes with
  | nil =>
    cases h
    exact ⟨⟨[], rfl, rfl⟩, rfl⟩
  | cons column others ih =>
    cases marks with
    | nil => cases hlength
    | cons mark marks =>
      have hshort : others.length ≤ marks.length := Nat.le_of_succ_le_succ hlength
      obtain ⟨hfresh, hrest⟩ := List.nodup_cons.mp hdistinct
      have hdifferent : ∀ other ∈ others, other.name ≠ column.name :=
        fun other hother heq ↦ hfresh (List.mem_map.mpr ⟨other, hother, heq⟩)
      rw [List.zip_cons_cons] at h
      cases mark with
      | false =>
        rw [readFields] at h
        have habsent : item[column.name]? = none := by
          rw [getElem?_of_readFields h (forall_mem_zip hdifferent), hstart column (by simp)]
        obtain ⟨⟨written, hwritten, rfl⟩, hmarks⟩ :=
          ih hshort hrest (fun other hother ↦ hstart other (by simp [hother])) h
        refine ⟨⟨written, ?_, rfl⟩, ?_⟩
        · rw [fields, habsent]
          exact hwritten
        · rw [List.map_cons, List.length_cons, List.take_succ_cons, hmarks,
            Std.ExtTreeMap.contains_eq_isSome_getElem?, habsent]
          rfl
      | true =>
        rw [readFields] at h
        split at h
        · cases h
        · next value behind hread =>
          obtain ⟨htype, field, hfield, rfl⟩ := Field.encode_of_read hread
          have hvalue : item[column.name]? = some value := by
            rw [getElem?_of_readFields h (forall_mem_zip hdifferent),
              Std.ExtTreeMap.getElem?_insert_self]
          have hothers : ∀ other ∈ others,
              (start.insert column.name value)[other.name]? = none := by
            intro other hother
            rw [Std.ExtTreeMap.getElem?_insert, if_neg fun heq ↦ hdifferent other hother
              (Std.LawfulEqCmp.compare_eq_iff_eq.mp heq).symm]
            exact hstart other (by simp [hother])
          obtain ⟨⟨written, hwritten, rfl⟩, hmarks⟩ := ih hshort hrest hothers h
          refine ⟨⟨field ++ written, ?_, by rw [List.append_assoc]⟩, ?_⟩
          · rw [fields, hvalue]
            dsimp only
            rw [if_neg (not_not_intro htype), hfield]
            dsimp only
            rw [hwritten]
          · rw [List.map_cons, List.length_cons, List.take_succ_cons, hmarks,
              Std.ExtTreeMap.contains_eq_isSome_getElem?, hvalue]
            rfl

/-- An item that is read has no other columns than those of its format. -/
theorem exists_column_of_read {format : RecordFormat} {marks : List Bool} {item : Item}
    {bytes rest : Bytes} (h : readFields ∅ (format.columns.zip marks) bytes = .ok (item, rest))
    {name : String} (hname : item.contains name = true) :
    ∃ column ∈ format.columns, column.name = name := by
  apply Classical.byContradiction
  intro hother
  have hnone : item[name]? = none := by
    rw [getElem?_of_readFields h (forall_mem_zip fun column hcolumn heq ↦
      hother ⟨column, hcolumn, heq⟩), Std.ExtTreeMap.getElem?_empty]
  rw [Std.ExtTreeMap.contains_eq_isSome_getElem?, hnone] at hname
  cases hname

theorem of_read_eq_ok {format : RecordFormat} {record : Bytes} {item : Item}
    (h : format.read record = .ok item) :
    ∃ bitmap written, format.split record = .ok (bitmap, written) ∧
      readFields ∅ (format.marked bitmap) written = .ok (item, []) := by
  unfold read at h
  split at h
  · cases h
  · next bitmap written hsplit =>
    split at h
    · cases h
    · next rest hfields =>
      split at h
      · cases h
      · next hrest =>
        cases h
        have hnil : rest = [] := List.length_eq_zero_iff.mp (Decidable.not_not.mp hrest)
        exact ⟨bitmap, written, hsplit, hnil ▸ hfields⟩

/-- **A record that is read is the one its item is written as**, if the columns have different
names. -/
theorem encode_of_read {format : RecordFormat} {record : Bytes} {item : Item}
    (hdistinct : (format.columns.map (·.name)).Nodup) (h : format.read record = .ok item) :
    format.encode item = .ok record := by
  obtain ⟨bitmap, written, hsplit, hfields⟩ := of_read_eq_ok h
  obtain ⟨hlimit, rfl, hlength, hstray, hkey⟩ := of_split_eq_ok hsplit
  have hmarks : format.columns.length ≤ (Presence.bits bitmap).length := by
    rw [Presence.length_bits, hlength, bitmapLength, Presence.byteCount]
    omega
  obtain ⟨⟨fieldBytes, hwritten, hbytes⟩, hpresent⟩ :=
    fields_of_readFields hmarks hdistinct (fun _ _ ↦ Std.ExtTreeMap.getElem?_empty) hfields
  rw [List.append_nil] at hbytes
  subst hbytes
  have hpresence : format.presence item = bitmap := by
    rw [presence, hpresent, Presence.ofBits_take_bits hlength hstray]
  refine encode_eq_ok_iff.mpr ⟨?_, ?_, written, hwritten, ?_, ?_⟩
  · exact unknown?_eq_none_iff.mpr fun name hname ↦ exists_column_of_read hfields hname
  · rw [← isSet_keyPosition, hpresence, hkey]
  · rw [hpresence]
    exact hlimit
  · rw [hpresence]

theorem read_of_decode {format : RecordFormat} {record : Bytes} {item : Item}
    (h : format.decode record = .ok item) : format.read record = .ok item := by
  unfold decode at h
  cases hread : format.read record with
  | error fault => rw [hread] at h; cases h
  | ok found => rw [hread] at h; cases h; rfl

/-- **The record format is canonical.** A record that a valid schema's format can read is that of
an item with columns of the schema only, the key among them, and values of their types, and it is
what writing this item yields. So exactly the records that can be written can be read, and no two
of them read as the same item. -/
theorem encode_eq_of_decode_eq {schema : Schema} (hvalid : schema.validate = .ok ()) :
    ∃ format, RecordFormat.ofSchema schema = .ok format ∧
      (∀ record item, format.decode record = .ok item →
        (∀ name, item.contains name = true → ∃ column ∈ schema.columns, column.name = name) ∧
        item.contains schema.primaryKey = true ∧
        (∀ column ∈ schema.columns, ∀ value, item[column.name]? = some value →
          value.type = column.type) ∧
        format.encode item = .ok record) ∧
      (∀ record, (∃ item, format.decode record = .ok item) ↔
        ∃ item, format.encode item = .ok record) ∧
      ∀ record other item, format.decode record = .ok item → format.decode other = .ok item →
        record = other := by
  have hschema := Schema.isValid_of_validate hvalid
  obtain ⟨format, hformat⟩ := hschema.exists_format
  obtain ⟨hcolumns, hkey⟩ := of_ofSchema_eq_ok hformat
  have hencode : ∀ record item, format.decode record = .ok item →
      format.encode item = .ok record := by
    intro record item hdecode
    apply encode_of_read _ (read_of_decode hdecode)
    rw [hcolumns]
    exact hschema.column_names_distinct
  refine ⟨format, hformat, ?_, ?_, ?_⟩
  · intro record item hdecode
    have hrecord := hencode record item hdecode
    obtain ⟨hknown, hcontains, _, hwritten, _⟩ := encode_eq_ok_iff.mp hrecord
    rw [hcolumns] at hwritten
    refine ⟨?_, hkey ▸ hcontains, fun column hcolumn value ↦ type_of_fields hwritten hcolumn,
      hrecord⟩
    rw [← hcolumns]
    exact unknown?_eq_none_iff.mp hknown
  · intro record
    exact ⟨fun ⟨item, hdecode⟩ ↦ ⟨item, hencode record item hdecode⟩,
      fun ⟨item, hwrite⟩ ↦ ⟨item, decode_of_encode hwrite⟩⟩
  · intro record other item hdecode hother
    exact Except.ok.inj ((hencode record item hdecode).symm.trans (hencode other item hother))

/-- A record of an order with a text of two bytes, a NaN, and one column absent. -/
def orderRecord : Bytes :=
  [23, 0, 0, 0, 7, 2, 0, 0, 0, 0xC3, 0xB6, 0xF9, 0xFF, 0xFF, 0xFF, 0xFF, 0xFF, 0xFF, 0xFF,
    1, 0, 0, 0, 0, 0, 0xF8, 0x7F]

/-- Reading that record and writing its item again. -/
theorem encode_eq_of_decode_eq_orders :
    ordersSchema.validate = .ok () ∧
      ∃ format item, ofSchema ordersSchema = .ok format ∧
        format.decode orderRecord = .ok item ∧ item.contains "id" = true ∧
        format.encode item = .ok orderRecord := by
  have hvalid : ordersSchema.validate = .ok () := by rfl
  obtain ⟨format, hformat, hcanonical, _⟩ := encode_eq_of_decode_eq hvalid
  have hreadable : (match ofSchema ordersSchema with
      | .ok format => (format.decode orderRecord).isOk
      | .error _ => false) = true := by
    decide +kernel
  rw [hformat] at hreadable
  dsimp only at hreadable
  cases hdecode : format.decode orderRecord with
  | error failure => rw [hdecode] at hreadable; cases hreadable
  | ok item =>
    obtain ⟨_, hkey, _, hencode⟩ := hcanonical orderRecord item hdecode
    exact ⟨hvalid, format, item, hformat, hdecode, hkey, hencode⟩

end RecordFormat

end TableStore
