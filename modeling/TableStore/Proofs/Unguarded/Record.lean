import TableStore.Proofs.Unguarded.Basic
import TableStore.Proofs.Record.Canonical

/-!
# Records are read within range

A reader of records looks for lengths at some places and reaches without looking at others: for the
number behind the framing, for the bits of the columns and the ones that fill up the bitmap, for the
digits of a field of fixed width. Here it is written down with every access unguarded, column by
column and bit by bit, and it comes to what the record spells, for any bytes.
-/

namespace TableStore

namespace Unguarded

/-- A fault in a record. -/
def recordFault {α : Type} (fault : RecordFault) : Unguarded α :=
  .failed (.corruptRecord fault)

/-! ## Framing and bitmap -/

/-- Whether the bit at a position is set, which is looked for in its byte. -/
def isPresent (bitmap : Bytes) (position : Nat) : Unguarded Bool := do
  let byte ← member bitmap (position / 8)
  return byte &&& (1 <<< UInt8.ofNat (position % 8)) != 0

/-- Makes sure that none of the given bits is set. -/
def checkPadding (bitmap : Bytes) (columns : Nat) : List Nat → Unguarded Unit
  | [] => return ()
  | position :: rest => do
    if ← isPresent bitmap position then recordFault (.strayPresence position columns)
    else checkPadding bitmap columns rest

/-- Checks the framing of a record, and returns its body. -/
def takeBody (record : Bytes) : Unguarded Bytes :=
  if record.length < 4 then recordFault (.noLength record.length)
  else do
    let lead ← front 4 record
    let (length, _) ← number 4 lead
    let body ← behind 4 record
    if body.length < length then recordFault (.tooLong length body.length)
    else if length < body.length then do
      let surplus ← minus body.length length
      recordFault (.tooShort length surplus)
    else return body

/-- Checks the framing and the bitmap of a record, and returns the bitmap and the fields. -/
def splitRecord (format : RecordFormat) (record : Bytes) : Unguarded (Bytes × Bytes) := do
  let body ← takeBody record
  if body.length < format.bitmapLength then recordFault .noPresence
  else do
    let (bitmap, fields) ← split format.bitmapLength body
    checkPadding bitmap format.columns.length
      (List.range' format.columns.length (format.bitmapLength * 8 - format.columns.length))
    if ← isPresent bitmap format.keyPosition then return (bitmap, fields)
    else do
      let key ← member format.columns format.keyPosition
      recordFault (.keyAbsent key.name)

/-! ## Fields -/

/-- Takes the payload of a field off the front. -/
def takeField (type : ColumnType) (column : String) (bytes : Bytes) :
    Unguarded (Bytes × Bytes) := do
  let (width, bytes) ←
    match type with
    | .integer | .float => pure (8, bytes)
    | .boolean => pure (1, bytes)
    | .text =>
      if bytes.length < 4 then recordFault (.fieldCut column)
      else do
        let (length, rest) ← number 4 bytes
        if rest.length < length then recordFault (.textTooLong length column)
        else pure (length, rest)
  if bytes.length < width then recordFault (.fieldCut column) else split width bytes

/-- Reads the value of a field at the front. -/
def readValue (type : ColumnType) (column : String) (bytes : Bytes) :
    Unguarded (Value × Bytes) := do
  let (raw, rest) ← takeField type column bytes
  match type with
  | .integer => do
    let (digits, _) ← number 8 raw
    return (.integer (UInt64.ofNat digits).toInt64, rest)
  | .float => do
    let (digits, _) ← number 8 raw
    return (.float ⟨UInt64.ofNat digits⟩, rest)
  | .boolean => do
    let byte ← member raw 0
    if byte = 0 then return (.boolean false, rest)
    else if byte = 1 then return (.boolean true, rest)
    else recordFault (.badBoolean byte column)
  | .text =>
    match Utf8.decode raw with
    | .ok text => return (.text text, rest)
    | .error fault => recordFault (.notText column fault)

/-! ## Records -/

/-- Reads the fields of the columns from a position on. -/
def readColumns (bitmap : Bytes) (item : Item) (position : Nat) :
    List Column → Bytes → Unguarded (Item × Bytes)
  | [], bytes => return (item, bytes)
  | column :: rest, bytes => do
    if ← isPresent bitmap position then do
      let (value, bytes) ← readValue column.type column.name bytes
      readColumns bitmap (item.insert column.name value) (position + 1) rest bytes
    else readColumns bitmap item (position + 1) rest bytes

/-- The item that a record spells. -/
def decode (format : RecordFormat) (record : Bytes) : Unguarded Item := do
  let (bitmap, fields) ← splitRecord format record
  let (item, rest) ← readColumns bitmap ∅ 0 format.columns fields
  if rest.length ≠ 0 then recordFault (.trailing rest.length) else return item

/-- The payload of the key, the columns from a position on being gone through until it is met. -/
def readKey (bitmap : Bytes) (keyPosition position : Nat) :
    List Column → Bytes → Unguarded Bytes
  | [], _ => recordFault .keyMissing
  | column :: rest, bytes => do
    if ← isPresent bitmap position then do
      let (raw, bytes) ← takeField column.type column.name bytes
      if position = keyPosition then return raw
      else readKey bitmap keyPosition (position + 1) rest bytes
    else readKey bitmap keyPosition (position + 1) rest bytes

/-- The bytes of a record's primary key. -/
def decodeKey (format : RecordFormat) (record : Bytes) : Unguarded Bytes := do
  let (bitmap, fields) ← splitRecord format record
  readKey bitmap format.keyPosition 0 format.columns fields

/-- What comes of a reading of a record that keeps within range. -/
def ofRecord {α : Type} (outcome : Except RecordFault α) : Unguarded α :=
  ofExcept (outcome.mapError .corruptRecord)

/-! ## Bits within range -/

/-- A bit of a number is found by its place. -/
theorem getElem?_ofNat {count n position : Nat} (h : position < count) :
    (Presence.ofNat count n)[position]? = some (n.testBit position) := by
  induction count generalizing n position with
  | zero => exact absurd h (Nat.not_lt_zero _)
  | succ count ih =>
    cases position with
    | zero => rw [Presence.ofNat, List.getElem?_cons_zero, Nat.testBit_zero]
    | succ position =>
      rw [Presence.ofNat, List.getElem?_cons_succ, ih (Nat.lt_of_succ_lt_succ h),
        Nat.testBit_succ]

/-- A bit of a byte is set if the byte has something in common with the bit alone. -/
theorem and_shiftLeft_ne_zero (byte : UInt8) {position : Nat} (h : position < 8) :
    (byte &&& (1 <<< UInt8.ofNat position) != 0) = byte.toNat.testBit position := by
  have hmask : ((1 : UInt8) <<< UInt8.ofNat position).toNat = 2 ^ position := by
    have hfits : 2 ^ position < 2 ^ 8 := Nat.pow_lt_pow_right (by decide) h
    rw [UInt8.toNat_shiftLeft, UInt8.toNat_ofNat', Nat.mod_eq_of_lt (by omega : position < 2 ^ 8),
      Nat.mod_eq_of_lt h]
    change 1 <<< position % 2 ^ 8 = 2 ^ position
    rw [Nat.one_shiftLeft, Nat.mod_eq_of_lt hfits]
  have hbits : ∀ place, (byte &&& (1 <<< UInt8.ofNat position)).toNat.testBit place =
      (byte.toNat.testBit place && decide (position = place)) := by
    intro place
    rw [UInt8.toNat_and, hmask, Nat.testBit_and, Nat.testBit_two_pow]
  cases hbit : byte.toNat.testBit position with
  | true =>
    rw [bne_iff_ne]
    intro hzero
    have hplace := hbits position
    rw [hzero, hbit, decide_eq_true rfl, UInt8.toNat_zero, Nat.zero_testBit] at hplace
    cases hplace
  | false =>
    rw [bne_eq_false_iff_eq, ← UInt8.toNat_inj]
    apply Nat.eq_of_testBit_eq
    intro place
    rw [hbits, UInt8.toNat_zero, Nat.zero_testBit]
    by_cases hplace : position = place
    · rw [← hplace, hbit, Bool.false_and]
    · rw [decide_eq_false hplace, Bool.and_false]

/-- A bit of a bitmap is found in the byte it falls into. -/
theorem getElem?_bits {bitmap : Bytes} {position : Nat} (h : position < 8 * bitmap.length) :
    ∃ byte, bitmap[position / 8]? = some byte ∧
      (Presence.bits bitmap)[position]? = some (byte.toNat.testBit (position % 8)) := by
  induction bitmap generalizing position with
  | nil => exact absurd h (Nat.not_lt_zero _)
  | cons byte rest ih =>
    rw [Presence.bits_cons]
    have hlength : (Presence.ofNat 8 byte.toNat).length = 8 := Presence.length_ofNat _ _
    by_cases hfirst : position < 8
    · refine ⟨byte, ?_, ?_⟩
      · rw [Nat.div_eq_of_lt hfirst, List.getElem?_cons_zero]
      · rw [List.getElem?_append_left (by omega), getElem?_ofNat hfirst,
          Nat.mod_eq_of_lt hfirst]
    · rw [List.length_cons] at h
      have hrest : position - 8 < 8 * rest.length := by omega
      obtain ⟨found, hfound, hbit⟩ := ih hrest
      have hbyte : position / 8 = (position - 8) / 8 + 1 := by omega
      have hplace : position % 8 = (position - 8) % 8 := by omega
      refine ⟨found, ?_, ?_⟩
      · rw [hbyte, List.getElem?_cons_succ, hfound]
      · rw [List.getElem?_append_right (by omega), hlength, hbit, hplace]

/-- **A bit within a bitmap is found in range.** -/
theorem isPresent_eq {bitmap : Bytes} {position : Nat} (h : position < 8 * bitmap.length) :
    isPresent bitmap position = .done (Presence.isSet bitmap position) := by
  obtain ⟨byte, hbyte, hbit⟩ := getElem?_bits h
  have hplace : position % 8 < 8 := Nat.mod_lt _ (by decide)
  rw [isPresent, member, hbyte, Presence.isSet, List.getD_eq_getElem?_getD, hbit,
    Option.getD_some, ← and_shiftLeft_ne_zero byte hplace]
  rfl

/-- The bits from a position on begin with the one there. -/
theorem drop_bits {bitmap : Bytes} {position : Nat} (h : position < 8 * bitmap.length) :
    (Presence.bits bitmap).drop position =
      Presence.isSet bitmap position :: (Presence.bits bitmap).drop (position + 1) := by
  have hlength : position < (Presence.bits bitmap).length := by rwa [Presence.length_bits]
  rw [List.drop_eq_getElem_cons hlength, Presence.isSet, List.getD_eq_getElem?_getD,
    List.getElem?_eq_getElem hlength, Option.getD_some]

/-- The bits up to the end of a bitmap are found in range, and the first one that is set. -/
theorem checkPadding_range' {bitmap : Bytes} {start count : Nat}
    (h : start + count = 8 * bitmap.length) (columns : Nat) :
    checkPadding bitmap columns (List.range' start count) =
      match ((Presence.bits bitmap).drop start).findIdx? id with
      | none => .done ()
      | some offset => recordFault (.strayPresence (start + offset) columns) := by
  induction count generalizing start with
  | zero =>
    have hend : (Presence.bits bitmap).drop start = [] := by
      apply List.drop_eq_nil_of_le
      rw [Presence.length_bits]
      omega
    rw [hend]
    rfl
  | succ count ih =>
    have hstart : start < 8 * bitmap.length := by omega
    rw [List.range'_succ, checkPadding, isPresent_eq hstart, done_bind, drop_bits hstart,
      List.findIdx?_cons]
    cases Presence.isSet bitmap start with
    | true => rfl
    | false =>
      simp only [id_eq, Bool.false_eq_true, if_false]
      rw [ih (by omega)]
      cases ((Presence.bits bitmap).drop (start + 1)).findIdx? id with
      | none => rfl
      | some offset =>
        have hposition : start + 1 + offset = start + (offset + 1) := by omega
        simp only [Option.map_some, hposition]

theorem checkPadding_eq {bitmap : Bytes} {columns : Nat} (h : columns ≤ 8 * bitmap.length) :
    checkPadding bitmap columns (List.range' columns (bitmap.length * 8 - columns)) =
      match Presence.stray? bitmap columns with
      | none => .done ()
      | some bit => recordFault (.strayPresence bit columns) := by
  rw [checkPadding_range' (by omega), Presence.stray?]
  cases ((Presence.bits bitmap).drop columns).findIdx? id <;> rfl

/-! ## Records within range -/

variable {format : RecordFormat} {record bytes bitmap fields : Bytes}

theorem columns_le (format : RecordFormat) : format.columns.length ≤ 8 * format.bitmapLength := by
  rw [RecordFormat.bitmapLength, Presence.byteCount]
  omega

theorem takeBody_eq (record : Bytes) : takeBody record = ofRecord (RecordFormat.body record) := by
  have hframe : Frame.width = 4 := rfl
  rw [takeBody, RecordFormat.body, hframe]
  cases hlead : Bytes.split? 4 record with
  | none =>
    rw [if_pos (Bytes.split?_eq_none_iff.mp hlead)]
    rfl
  | some pair =>
    obtain ⟨lead, body⟩ := pair
    have hwidth : lead.length = 4 := (Bytes.split?_eq_some_iff.mp hlead).2
    rw [if_neg (not_lt_of_split? hlead), front_of_split? hlead, behind_of_split? hlead]
    simp only [done_bind, number_of_length hwidth]
    by_cases hshort : body.length < LittleEndian.decode lead
    · rw [if_pos hshort, if_pos hshort]
      rfl
    · rw [if_neg hshort, if_neg hshort]
      by_cases hsurplus : LittleEndian.decode lead < body.length
      · rw [if_pos hsurplus, if_pos hsurplus, minus_of_le (Nat.le_of_lt hsurplus)]
        rfl
      · rw [if_neg hsurplus, if_neg hsurplus]
        rfl

/-- **The framing and the bitmap are checked within range.** -/
theorem splitRecord_eq (format : RecordFormat) (record : Bytes) :
    splitRecord format record = ofRecord (format.split record) := by
  rw [splitRecord, RecordFormat.split, takeBody_eq]
  cases RecordFormat.body record with
  | error fault => rfl
  | ok body =>
    dsimp only [ofRecord, Except.mapError, ofExcept]
    rw [done_bind]
    cases hsplit : Bytes.split? format.bitmapLength body with
    | none =>
      rw [if_pos (Bytes.split?_eq_none_iff.mp hsplit)]
      rfl
    | some pair =>
      obtain ⟨bitmap, fields⟩ := pair
      have hlength : bitmap.length = format.bitmapLength := (Bytes.split?_eq_some_iff.mp hsplit).2
      have hcolumns : format.columns.length ≤ 8 * bitmap.length := hlength ▸ columns_le format
      have hkey : format.keyPosition < 8 * bitmap.length :=
        Nat.lt_of_lt_of_le format.keyPosition_lt hcolumns
      rw [if_neg (not_lt_of_split? hsplit), split_of_split? hsplit, ← hlength]
      simp only [done_bind, checkPadding_eq hcolumns, isPresent_eq hkey]
      cases Presence.stray? bitmap format.columns.length with
      | some bit => rfl
      | none =>
        rw [done_bind]
        cases Presence.isSet bitmap format.keyPosition with
        | true => rfl
        | false =>
          rw [if_neg Bool.false_ne_true, if_neg Bool.false_ne_true,
            member_of_lt format.keyPosition_lt]
          rfl

/-! ## Fields within range -/

theorem takeBytes_eq (width : Nat) (column : String) (bytes : Bytes) :
    (if bytes.length < width then recordFault (.fieldCut column) else split width bytes) =
      ofRecord (Field.takeBytes width column bytes) := by
  rw [Field.takeBytes]
  cases hsplit : Bytes.split? width bytes with
  | none =>
    rw [if_pos (Bytes.split?_eq_none_iff.mp hsplit)]
    rfl
  | some pair =>
    rw [if_neg (not_lt_of_split? hsplit), split_of_split? hsplit]
    rfl

/-- **The payload of a field is taken within range.** -/
theorem takeField_eq (type : ColumnType) (column : String) (bytes : Bytes) :
    takeField type column bytes = ofRecord (Field.take type column bytes) := by
  cases type with
  | integer => exact takeBytes_eq 8 column bytes
  | float => exact takeBytes_eq 8 column bytes
  | boolean => exact takeBytes_eq 1 column bytes
  | text =>
    rw [takeField, Field.take, Field.takeBytes]
    dsimp only
    cases hlead : Bytes.split? 4 bytes with
    | none =>
      rw [if_pos (Bytes.split?_eq_none_iff.mp hlead)]
      rfl
    | some pair =>
      obtain ⟨lead, rest⟩ := pair
      rw [if_neg (not_lt_of_split? hlead), number_of_split? hlead]
      dsimp only
      rw [done_bind]
      cases hsplit : Bytes.split? (LittleEndian.decode lead) rest with
      | none =>
        rw [if_pos (Bytes.split?_eq_none_iff.mp hsplit)]
        rfl
      | some pair =>
        have hfits := not_lt_of_split? hsplit
        rw [if_neg hfits, pure_eq, done_bind]
        dsimp only
        rw [if_neg hfits, split_of_split? hsplit]
        rfl

/-- **The value of a field is read within range.** -/
theorem readValue_eq (type : ColumnType) (column : String) (bytes : Bytes) :
    readValue type column bytes = ofRecord (Field.read type column bytes) := by
  rw [readValue, takeField_eq, Field.read]
  cases htake : Field.take type column bytes with
  | error fault => rfl
  | ok pair =>
    obtain ⟨raw, rest⟩ := pair
    dsimp only [ofRecord, Except.mapError, ofExcept]
    rw [done_bind]
    cases type with
    | integer =>
      have hwidth : raw.length = 8 := (Field.of_takeBytes_eq_ok htake).2
      dsimp only
      rw [number_of_length hwidth]
      rfl
    | float =>
      have hwidth : raw.length = 8 := (Field.of_takeBytes_eq_ok htake).2
      dsimp only
      rw [number_of_length hwidth]
      rfl
    | boolean =>
      have hwidth : raw.length = 1 := (Field.of_takeBytes_eq_ok htake).2
      obtain ⟨byte, rfl⟩ := List.length_eq_one_iff.mp hwidth
      have hpayload : Field.ofPayload .boolean column [byte] =
          if byte = 0 then .ok (.boolean false)
          else if byte = 1 then .ok (.boolean true)
          else .error (.badBoolean byte column) := rfl
      dsimp only
      rw [member_of_lt Nat.zero_lt_one, done_bind, List.getElem_cons_zero, hpayload]
      by_cases hfalse : byte = 0
      · rw [if_pos hfalse, if_pos hfalse]
        rfl
      · rw [if_neg hfalse, if_neg hfalse]
        by_cases htrue : byte = 1
        · rw [if_pos htrue, if_pos htrue]
          rfl
        · rw [if_neg htrue, if_neg htrue]
          rfl
    | text =>
      dsimp only [Field.ofPayload]
      cases Utf8.decode raw with
      | ok text => rfl
      | error fault => rfl

/-- **The fields of the columns are read within range**, if there is a bit for each. -/
theorem readColumns_eq {columns : List Column} {position : Nat}
    (h : position + columns.length ≤ 8 * bitmap.length) (item : Item) (bytes : Bytes) :
    readColumns bitmap item position columns bytes =
      ofRecord (RecordFormat.readFields item
        (columns.zip ((Presence.bits bitmap).drop position)) bytes) := by
  induction columns generalizing position item bytes with
  | nil => rfl
  | cons column rest ih =>
    rw [List.length_cons] at h
    have hposition : position < 8 * bitmap.length := by omega
    have hbehind : position + 1 + rest.length ≤ 8 * bitmap.length := by omega
    have hrest := ih hbehind
    rw [readColumns, isPresent_eq hposition, done_bind, drop_bits hposition, List.zip_cons_cons]
    cases Presence.isSet bitmap position with
    | false => exact hrest item bytes
    | true =>
      rw [if_pos rfl, readValue_eq, RecordFormat.readFields]
      cases Field.read column.type column.name bytes with
      | error fault => rfl
      | ok pair =>
        obtain ⟨value, others⟩ := pair
        exact hrest (item.insert column.name value) others

/-- A record that passes the checks of framing and bitmap has a bit for each column, and the one of
the key is set. -/
theorem of_split_eq_ok (h : format.split record = .ok (bitmap, fields)) :
    Presence.isSet bitmap format.keyPosition = true ∧
      0 + format.columns.length ≤ 8 * bitmap.length := by
  obtain ⟨_, _, hlength, _, hkey⟩ := RecordFormat.of_split_eq_ok h
  refine ⟨hkey, ?_⟩
  rw [hlength, Nat.zero_add]
  exact columns_le format

/-- **A record is decoded within range.** -/
theorem decode_eq (format : RecordFormat) (record : Bytes) :
    decode format record = ofExcept (format.decode record) := by
  rw [decode, splitRecord_eq, RecordFormat.decode, RecordFormat.read]
  cases hsplit : format.split record with
  | error fault => rfl
  | ok pair =>
    obtain ⟨bitmap, fields⟩ := pair
    obtain ⟨_, hcolumns⟩ := of_split_eq_ok hsplit
    dsimp only [ofRecord, Except.mapError, ofExcept]
    rw [done_bind]
    dsimp only
    rw [readColumns_eq hcolumns, List.drop_zero, RecordFormat.marked]
    cases RecordFormat.readFields ∅ (format.columns.zip (Presence.bits bitmap)) fields with
    | error fault => rfl
    | ok pair =>
      obtain ⟨item, rest⟩ := pair
      dsimp only [ofRecord, Except.mapError, ofExcept]
      rw [done_bind]
      dsimp only
      split <;> rfl

/-! ## The key is not missing -/

theorem takeBytes_ne_keyMissing (width : Nat) (column : String) (bytes : Bytes) :
    Field.takeBytes width column bytes ≠ .error .keyMissing := by
  intro hmissing
  unfold Field.takeBytes at hmissing
  split at hmissing
  · cases hmissing
  · cases hmissing

/-- A fault in a field is not that the key is missing. -/
theorem take_ne_keyMissing (type : ColumnType) (column : String) (bytes : Bytes) :
    Field.take type column bytes ≠ .error .keyMissing := by
  cases type with
  | integer => exact takeBytes_ne_keyMissing 8 column bytes
  | float => exact takeBytes_ne_keyMissing 8 column bytes
  | boolean => exact takeBytes_ne_keyMissing 1 column bytes
  | text =>
    intro hmissing
    unfold Field.take at hmissing
    dsimp only at hmissing
    split at hmissing
    · next hlead =>
      rw [Except.error.inj hmissing] at hlead
      exact takeBytes_ne_keyMissing 4 column bytes hlead
    · split at hmissing
      · cases hmissing
      · cases hmissing

theorem body_ne_keyMissing (record : Bytes) :
    RecordFormat.body record ≠ .error .keyMissing := by
  intro hmissing
  unfold RecordFormat.body at hmissing
  split at hmissing
  · cases hmissing
  · dsimp only at hmissing
    split at hmissing
    · cases hmissing
    · split at hmissing
      · cases hmissing
      · cases hmissing

/-- A fault in the framing or the bitmap is not that the key is missing. -/
theorem split_ne_keyMissing (format : RecordFormat) (record : Bytes) :
    format.split record ≠ .error .keyMissing := by
  intro hmissing
  unfold RecordFormat.split at hmissing
  split at hmissing
  · next hbody =>
    rw [Except.error.inj hmissing] at hbody
    exact body_ne_keyMissing record hbody
  · split at hmissing
    · cases hmissing
    · split at hmissing
      · cases hmissing
      · split at hmissing
        · cases hmissing
        · cases hmissing

section Key

variable {columns : List Column} {keyPosition skipped position : Nat}
  (hkey : Presence.isSet bitmap keyPosition = true)

include hkey

/-- **The key is read within range**, if there is a bit for each column and the one of the key is
set. -/
theorem readKey_eq (hposition : position + skipped = keyPosition)
    (h : position + columns.length ≤ 8 * bitmap.length) (bytes : Bytes) :
    readKey bitmap keyPosition position columns bytes =
      ofRecord (RecordFormat.readKeyField skipped
        (columns.zip ((Presence.bits bitmap).drop position)) bytes) := by
  induction columns generalizing position skipped bytes with
  | nil =>
    rw [readKey, List.zip_nil_left, RecordFormat.readKeyField]
    rfl
  | cons column rest ih =>
    rw [List.length_cons] at h
    have hfits : position < 8 * bitmap.length := by omega
    rw [readKey, isPresent_eq hfits, done_bind, drop_bits hfits, List.zip_cons_cons]
    cases hset : Presence.isSet bitmap position with
    | false =>
      cases skipped with
      | zero =>
        rw [← hposition, Nat.add_zero, hset] at hkey
        cases hkey
      | succ skipped => exact ih (by omega) (by omega) bytes
    | true =>
      rw [if_pos rfl, takeField_eq, RecordFormat.readKeyField]
      cases Field.take column.type column.name bytes with
      | error fault => rfl
      | ok pair =>
        obtain ⟨raw, others⟩ := pair
        dsimp only [ofRecord, Except.mapError, ofExcept]
        rw [done_bind]
        dsimp only
        cases skipped with
        | zero =>
          rw [if_pos (by omega)]
          rfl
        | succ skipped =>
          rw [if_neg (by omega)]
          exact ih (by omega) (by omega) others

/-- **The key is met before the columns end**, if its bit is set. -/
theorem readKeyField_ne_keyMissing (hposition : position + skipped = keyPosition)
    (hskipped : skipped < columns.length)
    (h : position + columns.length ≤ 8 * bitmap.length) (bytes : Bytes) :
    RecordFormat.readKeyField skipped (columns.zip ((Presence.bits bitmap).drop position)) bytes ≠
      .error .keyMissing := by
  induction columns generalizing position skipped bytes with
  | nil => exact absurd hskipped (Nat.not_lt_zero _)
  | cons column rest ih =>
    rw [List.length_cons] at h hskipped
    have hfits : position < 8 * bitmap.length := by omega
    rw [drop_bits hfits, List.zip_cons_cons]
    cases hset : Presence.isSet bitmap position with
    | false =>
      cases skipped with
      | zero =>
        rw [← hposition, Nat.add_zero, hset] at hkey
        cases hkey
      | succ skipped => exact ih (by omega) (by omega) (by omega) bytes
    | true =>
      rw [RecordFormat.readKeyField]
      cases htake : Field.take column.type column.name bytes with
      | error fault =>
        intro hmissing
        rw [Except.error.inj hmissing] at htake
        exact take_ne_keyMissing _ _ _ htake
      | ok pair =>
        cases skipped with
        | zero =>
          intro hmissing
          cases hmissing
        | succ skipped => exact ih (by omega) (by omega) (by omega) pair.2

end Key

/-- **The key of a record is decoded within range.** -/
theorem decodeKey_eq (format : RecordFormat) (record : Bytes) :
    decodeKey format record = ofExcept (format.decodeKey record) := by
  rw [decodeKey, splitRecord_eq, RecordFormat.decodeKey, RecordFormat.readKey]
  cases hsplit : format.split record with
  | error fault => rfl
  | ok pair =>
    obtain ⟨bitmap, fields⟩ := pair
    obtain ⟨hkey, hcolumns⟩ := of_split_eq_ok hsplit
    exact readKey_eq hkey (Nat.zero_add _) hcolumns fields

/-- The key of a record that passes the checks of framing and bitmap is not missing. -/
theorem readKey_ne_keyMissing (format : RecordFormat) (record : Bytes) :
    format.readKey record ≠ .error .keyMissing := by
  rw [RecordFormat.readKey]
  cases hsplit : format.split record with
  | error fault =>
    intro hmissing
    rw [Except.error.inj hmissing] at hsplit
    exact split_ne_keyMissing format record hsplit
  | ok pair =>
    obtain ⟨bitmap, fields⟩ := pair
    obtain ⟨hkey, hcolumns⟩ := of_split_eq_ok hsplit
    exact readKeyField_ne_keyMissing hkey (Nat.zero_add _) format.keyPosition_lt hcolumns fields

end Unguarded

end TableStore
