import TableStore.Proofs.Record.Canonical

/-!
# Keys are read without the rest of the record

The key of a record is found by skipping the fields before it, each by its width and none of them
understood. On every record that reads as an item this is the key of the item, and different values
have different key bytes. Nothing behind the field of the key is looked at: a record that is as long
and the same up to there has the same key, however damaged it is behind.
-/

namespace TableStore

/-! ## Fields -/

namespace Field

/-- A value is determined by its type and its payload, floating point numbers bit for bit. -/
theorem eq_of_payload_eq {value other : Value} (htype : value.type = other.type)
    (h : payload value = payload other) : value = other := by
  have hread := ofPayload_payload value ""
  rw [htype, h, ofPayload_payload other ""] at hread
  exact (Except.ok.inj hread).symm

theorem takeBytes_prefix {length : Nat} {column : String} {bytes first rest : Bytes}
    (h : takeBytes length column bytes = .ok (first, rest)) :
    bytes = first ++ rest ∧
      ∀ others, takeBytes length column (first ++ others) = .ok (first, others) := by
  obtain ⟨hbytes, rfl⟩ := of_takeBytes_eq_ok h
  exact ⟨hbytes, takeBytes_append column first⟩

/-- A field is taken off in the same way whatever follows it. -/
theorem take_prefix {type : ColumnType} {column : String} {bytes payload rest : Bytes}
    (h : take type column bytes = .ok (payload, rest)) :
    ∃ front, bytes = front ++ rest ∧
      ∀ others, take type column (front ++ others) = .ok (payload, others) := by
  cases type with
  | integer => exact ⟨payload, takeBytes_prefix h⟩
  | float => exact ⟨payload, takeBytes_prefix h⟩
  | boolean => exact ⟨payload, takeBytes_prefix h⟩
  | text =>
    rw [take] at h
    cases hlead : takeBytes 4 column bytes with
    | error fault => rw [hlead] at h; cases h
    | ok split =>
      obtain ⟨lead, behind⟩ := split
      obtain ⟨rfl, hagain⟩ := takeBytes_prefix hlead
      rw [hlead] at h
      dsimp only at h
      split at h
      · cases h
      · next hsplit =>
        cases h
        obtain ⟨rfl, hlength⟩ := Bytes.split?_eq_some_iff.mp hsplit
        refine ⟨lead ++ payload, (List.append_assoc ..).symm, fun others ↦ ?_⟩
        have hpayload : Bytes.split? (LittleEndian.decode lead) (payload ++ others) =
            some (payload, others) := Bytes.split?_eq_some_iff.mpr ⟨rfl, hlength⟩
        rw [take, List.append_assoc, hagain]
        dsimp only
        rw [hpayload]

end Field

namespace RecordFormat

/-! ## The field of the key -/

/-- Whether the key, some columns being in front of its own, has this payload in these bytes, and
what follows its field. Every present column has a field, and the others have none. -/
inductive FindsKey : (skipped : Nat) → List (Column × Bool) → Bytes → (payload behind : Bytes) →
    Prop where
  | absent {skipped : Nat} {column : Column} {rest : List (Column × Bool)}
      {bytes payload behind : Bytes} (h : FindsKey skipped rest bytes payload behind) :
      FindsKey (skipped + 1) ((column, false) :: rest) bytes payload behind
  | skipping {skipped : Nat} {column : Column} {rest : List (Column × Bool)}
      {bytes field after payload behind : Bytes}
      (htake : Field.take column.type column.name bytes = .ok (field, after))
      (h : FindsKey skipped rest after payload behind) :
      FindsKey (skipped + 1) ((column, true) :: rest) bytes payload behind
  | found {column : Column} {rest : List (Column × Bool)} {bytes payload behind : Bytes}
      (htake : Field.take column.type column.name bytes = .ok (payload, behind)) :
      FindsKey 0 ((column, true) :: rest) bytes payload behind

/-- The reader of keys finds the field of the key. -/
theorem exists_findsKey {skipped : Nat} {marked : List (Column × Bool)} {bytes payload : Bytes}
    (h : readKeyField skipped marked bytes = .ok payload) :
    ∃ behind, FindsKey skipped marked bytes payload behind := by
  fun_induction readKeyField skipped marked bytes with
  | case1 | case2 | case4 => cases h
  | case3 column rest bytes skipped ih =>
    obtain ⟨behind, hfinds⟩ := ih h
    exact ⟨behind, .absent hfinds⟩
  | case5 column rest bytes found behind htake =>
    cases h
    exact ⟨behind, .found htake⟩
  | case6 column rest bytes field after htake skipped ih =>
    obtain ⟨behind, hfinds⟩ := ih h
    exact ⟨behind, .skipping htake hfinds⟩

theorem FindsKey.readKeyField_eq {skipped : Nat} {marked : List (Column × Bool)}
    {bytes payload behind : Bytes} (h : FindsKey skipped marked bytes payload behind) :
    readKeyField skipped marked bytes = .ok payload := by
  induction h with
  | absent _ ih => rw [readKeyField, ih]
  | skipping htake _ ih => rw [readKeyField, htake]; exact ih
  | found htake => rw [readKeyField, htake]

/-- The field of the key is found in the same way whatever follows it. -/
theorem FindsKey.prefix {skipped : Nat} {marked : List (Column × Bool)}
    {bytes payload behind : Bytes} (h : FindsKey skipped marked bytes payload behind) :
    ∃ front, bytes = front ++ behind ∧
      ∀ others, FindsKey skipped marked (front ++ others) payload others := by
  induction h with
  | absent _ ih =>
    obtain ⟨front, hbytes, hagain⟩ := ih
    exact ⟨front, hbytes, fun others ↦ .absent (hagain others)⟩
  | skipping htake _ ih =>
    obtain ⟨front, rfl, hagain⟩ := ih
    obtain ⟨field, rfl, htaken⟩ := Field.take_prefix htake
    refine ⟨field ++ front, (List.append_assoc ..).symm, fun others ↦ ?_⟩
    rw [List.append_assoc]
    exact .skipping (htaken _) (hagain others)
  | found htake =>
    obtain ⟨front, hbytes, htaken⟩ := Field.take_prefix htake
    exact ⟨front, hbytes, fun others ↦ .found (htaken others)⟩

variable {format : RecordFormat} {record other bitmap fields key : Bytes} {stop : Nat}

/-- Whether the field of a record's key ends after so many bytes. -/
def KeyEndsAt (format : RecordFormat) (record : Bytes) (stop : Nat) : Prop :=
  ∃ bitmap fields payload behind, format.split record = .ok (bitmap, fields) ∧
    FindsKey format.keyPosition (format.marked bitmap) fields payload behind ∧
    stop + behind.length = record.length

theorem of_decodeKey_eq_ok (h : format.decodeKey record = .ok key) :
    format.readKey record = .ok key := by
  unfold decodeKey at h
  cases hread : format.readKey record with
  | error fault => rw [hread] at h; cases h
  | ok found => rw [hread] at h; cases h; rfl

theorem of_readKey_eq_ok (h : format.readKey record = .ok key) :
    ∃ bitmap fields behind, format.split record = .ok (bitmap, fields) ∧
      FindsKey format.keyPosition (format.marked bitmap) fields key behind := by
  unfold readKey at h
  split at h
  · cases h
  · next bitmap fields hsplit =>
    obtain ⟨behind, hfinds⟩ := exists_findsKey h
    exact ⟨bitmap, fields, behind, hsplit, hfinds⟩

/-- A key that is read has a field, which ends within the record. -/
theorem exists_keyEndsAt (h : format.readKey record = .ok key) :
    ∃ stop, stop ≤ record.length ∧ format.KeyEndsAt record stop := by
  obtain ⟨bitmap, fields, behind, hsplit, hfinds⟩ := of_readKey_eq_ok h
  obtain ⟨_, rfl, _⟩ := of_split_eq_ok hsplit
  obtain ⟨front, rfl, _⟩ := hfinds.prefix
  refine ⟨(Frame.ofBody (bitmap ++ (front ++ behind))).length - behind.length, Nat.sub_le _ _,
    bitmap, front ++ behind, key, behind, hsplit, hfinds, Nat.sub_add_cancel ?_⟩
  simp only [Frame.ofBody, List.length_append]
  omega

/-! ## What follows the key -/

/-- The checks of framing and bitmap take as little notice of the fields as of what is behind. -/
theorem split_of_length_eq (h : format.split record = .ok (bitmap, fields)) {others : Bytes}
    (hlength : others.length = fields.length) :
    format.split (LittleEndian.encode Frame.width (bitmap ++ fields).length ++ bitmap ++ others) =
      .ok (bitmap, others) := by
  obtain ⟨hlimit, _, hbitmap, hstray, hkey⟩ := of_split_eq_ok h
  have hsame : (bitmap ++ fields).length = (bitmap ++ others).length := by
    rw [List.length_append, List.length_append, hlength]
  have hbody : body (Frame.ofBody (bitmap ++ others)) = .ok (bitmap ++ others) :=
    body_ofBody (hsame ▸ hlimit)
  have hsplit : Bytes.split? format.bitmapLength (bitmap ++ others) = some (bitmap, others) :=
    Bytes.split?_eq_some_iff.mpr ⟨rfl, hbitmap⟩
  rw [hsame, List.append_assoc, ← Frame.ofBody, split, hbody]
  dsimp only
  rw [hsplit]
  dsimp only
  rw [hstray]
  dsimp only
  rw [if_pos hkey]

/-- **Nothing behind the field of the key has a part in it.** A record that is as long, and the same
up to there, has the same key. -/
theorem readKey_of_take_eq (h : format.readKey record = .ok key)
    (hstop : format.KeyEndsAt record stop) (hlength : other.length = record.length)
    (hsame : other.take stop = record.take stop) : format.readKey other = .ok key := by
  obtain ⟨bitmap, fields, payload, behind, hsplit, hfinds, hend⟩ := hstop
  obtain ⟨front, rfl, hagain⟩ := hfinds.prefix
  have hrecord := (of_split_eq_ok hsplit).2.1
  have hkey : payload = key := by
    rw [readKey, hsplit] at h
    exact Except.ok.inj (hfinds.readKeyField_eq.symm.trans h)
  -- Up to the end of the key's field the record is its length, the bitmap and the fields before.
  let known :=
    LittleEndian.encode Frame.width (bitmap ++ (front ++ behind)).length ++ bitmap ++ front
  have hknown : record = known ++ behind := by
    rw [hrecord, Frame.ofBody]
    simp only [known, List.append_assoc]
  have hstop : stop = known.length := by
    have := congrArg List.length hknown
    rw [List.length_append] at this
    omega
  have hother : other = known ++ other.drop stop := by
    have hfront : other.take stop = known := by
      rw [hsame, hknown, hstop, List.take_left]
    exact ((List.take_append_drop stop other).symm.trans (by rw [hfront]))
  have hbehind : (front ++ other.drop stop).length = (front ++ behind).length := by
    rw [List.length_append, List.length_append, List.length_drop]
    omega
  rw [hother, List.append_assoc, readKey, split_of_length_eq hsplit hbehind]
  exact hkey ▸ (hagain _).readKeyField_eq

/-! ## Keys and items -/

/-- The key that is read without the rest is that of the item. -/
theorem exists_key_of_decode (hdistinct : (format.columns.map (·.name)).Nodup) {item : Item}
    (h : format.decode record = .ok item) :
    ∃ value key, item[format.key.name]? = some value ∧ format.encodeKey value = .ok key ∧
      format.decodeKey record = .ok key := by
  have hencode := encode_of_read hdistinct (read_of_decode h)
  obtain ⟨value, hvalue⟩ := exists_key_of_encode hencode
  refine ⟨value, Field.payload value, hvalue, encodeKey_of_encode hencode hvalue, ?_⟩
  rw [decodeKey, readKey_of_encode hencode hvalue]
  rfl

theorem encodeKey_eq_ok_iff {value : Value} :
    format.encodeKey value = .ok key ↔
      value.type = format.key.type ∧ Field.payload value = key := by
  unfold encodeKey
  split
  · next htype => simp [htype]
  · next htype => simp [Decidable.not_not.mp htype]

/-- How reading the key alone, reading the whole record and writing belong together. -/
structure ReadsKeys (schema : Schema) (format : RecordFormat) : Prop where
  /-- On a record that can be read the key is that of the item. -/
  decode : ∀ record item, format.decode record = .ok item →
    ∃ value key, item[schema.primaryKey]? = some value ∧ format.encodeKey value = .ok key ∧
      format.decodeKey record = .ok key
  /-- Every value of the key's type has key bytes, and different ones have different bytes. -/
  encodes : ∀ value, value.type = format.key.type → ∃ key, format.encodeKey value = .ok key
  injective : ∀ value other key, format.encodeKey value = .ok key →
    format.encodeKey other = .ok key → value = other
  /-- A key that can be read has a field that ends somewhere in the record, and what is behind has
  no part in it. -/
  ends : ∀ record key, format.decodeKey record = .ok key →
    ∃ stop, stop ≤ record.length ∧ format.KeyEndsAt record stop
  behind : ∀ record key stop other, format.decodeKey record = .ok key →
    format.KeyEndsAt record stop → other.length = record.length →
    other.take stop = record.take stop → format.decodeKey other = .ok key
  /-- The key in the record of an item is the item's, -/
  encode : ∀ item record, format.encode item = .ok record →
    ∃ value key, item[schema.primaryKey]? = some value ∧ format.encodeKey value = .ok key ∧
      format.decodeKey record = .ok key
  /-- so that items are told apart by the bytes of their keys. -/
  distinguishes : ∀ item other record another, format.encode item = .ok record →
    format.encode other = .ok another →
    (format.decodeKey record = format.decodeKey another ↔
      item[schema.primaryKey]? = other[schema.primaryKey]?)

/-- **Reading the key alone agrees with reading the whole record**, for every valid schema and
whatever the bytes are. -/
theorem readsKeys_of_validate {schema : Schema} (hvalid : schema.validate = .ok ()) :
    ∃ format, ofSchema schema = .ok format ∧ ReadsKeys schema format := by
  have hschema := Schema.isValid_of_validate hvalid
  obtain ⟨format, hformat⟩ := hschema.exists_format
  obtain ⟨hcolumns, hkey⟩ := of_ofSchema_eq_ok hformat
  have hdistinct : (format.columns.map (·.name)).Nodup := by
    rw [hcolumns]
    exact hschema.column_names_distinct
  have hdecode (record : Bytes) (item : Item) (h : format.decode record = .ok item) :
      ∃ value key, item[schema.primaryKey]? = some value ∧ format.encodeKey value = .ok key ∧
        format.decodeKey record = .ok key :=
    hkey ▸ exists_key_of_decode hdistinct h
  have hencode (item : Item) (record : Bytes) (h : format.encode item = .ok record) :=
    hdecode record item (decode_of_encode h)
  have hinjective (value other : Value) (key : Bytes) (hvalue : format.encodeKey value = .ok key)
      (hother : format.encodeKey other = .ok key) : value = other := by
    obtain ⟨htype, hpayload⟩ := encodeKey_eq_ok_iff.mp hvalue
    obtain ⟨hsame, hagain⟩ := encodeKey_eq_ok_iff.mp hother
    exact Field.eq_of_payload_eq (htype.trans hsame.symm) (hpayload.trans hagain.symm)
  refine ⟨format, hformat, ?_⟩
  exact {
    decode := hdecode
    encodes := fun value htype ↦ ⟨_, encodeKey_eq_ok_iff.mpr ⟨htype, rfl⟩⟩
    injective := hinjective
    ends := fun record key h ↦ exists_keyEndsAt (of_decodeKey_eq_ok h)
    behind := fun record key stop other h hstop hlength hsame ↦ by
      rw [decodeKey, readKey_of_take_eq (of_decodeKey_eq_ok h) hstop hlength hsame]
      rfl
    encode := hencode
    distinguishes := fun item other record another hitem hother ↦ by
      obtain ⟨value, key, hvalue, hwritten, hread⟩ := hencode item record hitem
      obtain ⟨second, bytes, hsecond, hagain, hanother⟩ := hencode other another hother
      rw [hread, hanother, hvalue, hsecond, Except.ok.injEq, Option.some.injEq]
      constructor
      · rintro rfl
        exact hinjective value second key hwritten hagain
      · rintro rfl
        exact Except.ok.inj (hwritten.symm.trans hagain) }

/-- The record of an order whose last two bytes, those of the weight, have been overwritten. -/
def damagedRecord : Bytes :=
  orderRecord.take 25 ++ [0xFF, 0xFF]

/-- The format of orders: the key is the second column. -/
theorem ofSchema_orders : ofSchema ordersSchema = .ok ⟨ordersSchema.columns, 1, by decide⟩ := by
  rfl

/-- The key stands behind a text of two bytes and ends after nineteen. -/
theorem readsKeys_of_validate_orders :
    ordersSchema.validate = .ok () ∧ ∃ format key, ofSchema ordersSchema = .ok format ∧
      format.decodeKey orderRecord = .ok key ∧ format.KeyEndsAt orderRecord 19 ∧
      format.decodeKey damagedRecord = .ok key := by
  have hvalid : ordersSchema.validate = .ok () := by rfl
  obtain ⟨format, hformat, hkeys⟩ := readsKeys_of_validate hvalid
  obtain rfl := Except.ok.inj (hformat.symm.trans ofSchema_orders)
  have hkey : decodeKey ⟨ordersSchema.columns, 1, by decide⟩ orderRecord =
      .ok [0xF9, 0xFF, 0xFF, 0xFF, 0xFF, 0xFF, 0xFF, 0xFF] := by
    rfl
  have htext : Field.take .text "note" (orderRecord.drop 5) =
      .ok ([0xC3, 0xB6], orderRecord.drop 11) := by
    rfl
  have hends : KeyEndsAt ⟨ordersSchema.columns, 1, by decide⟩ orderRecord 19 :=
    ⟨[7], orderRecord.drop 5, _, orderRecord.drop 19, by rfl, .skipping htext (.found (by rfl)),
      by rfl⟩
  exact ⟨hvalid, _, _, hformat, hkey, hends,
    hkeys.behind _ _ _ _ hkey hends (by rfl) (by rfl)⟩

end RecordFormat

end TableStore
