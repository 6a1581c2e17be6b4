import TableStore.Record.Field
import TableStore.Record.Frame
import TableStore.Record.Presence
import TableStore.Schema.Basic

/-!
# Record formats

A record is an item as a frame, whose body is the presence bitmap and then the fields of the
columns the item has, in the order of the schema. The format of a table's
records is drawn from its schema once. Reading checks the framing and the bitmap before it looks
at any field, and the key can be read without the fields behind it.
-/

namespace TableStore

/-- How the records of a table are laid out. -/
structure RecordFormat where
  columns : List Column
  /-- The position of the primary key among the columns. -/
  keyPosition : Nat
  keyPosition_lt : keyPosition < columns.length

namespace RecordFormat

/-- The format of a schema whose primary key is one of its columns. -/
def ofSchema (schema : Schema) : Except Failure RecordFormat :=
  match h : schema.position? schema.primaryKey with
  | none => .error (.invalidSchema (.keyNotAColumn schema.primaryKey))
  | some position => .ok ⟨schema.columns, position, Schema.position?_lt h⟩

/-- The column of the primary key. -/
def key (format : RecordFormat) : Column :=
  format.columns.get ⟨format.keyPosition, format.keyPosition_lt⟩

/-- The length of the presence bitmap. -/
def bitmapLength (format : RecordFormat) : Nat :=
  Presence.byteCount format.columns.length

/-! ## Writing -/

/-- The name of the first entry of an item, in the order of names, that is not a column. -/
def unknown? (format : RecordFormat) (item : Item) : Option String :=
  item.keys.find? fun name => !format.columns.any (·.name == name)

/-- The fields of an item, column by column. -/
def fields (item : Item) : List Column → Except Failure Bytes
  | [] => .ok []
  | column :: rest =>
    match item[column.name]? with
    | none => fields item rest
    | some value =>
      if value.type ≠ column.type then
        .error (.typeMismatch column.name column.type value.type)
      else
        match Field.encode value with
        | .error e => .error e
        | .ok field =>
          match fields item rest with
          | .error e => .error e
          | .ok others => .ok (field ++ others)

/-- The bitmap of an item. -/
def presence (format : RecordFormat) (item : Item) : Bytes :=
  Presence.ofBits (format.columns.map fun column => item.contains column.name)

/-- The record of an item. -/
def encode (format : RecordFormat) (item : Item) : Except Failure Bytes :=
  match format.unknown? item with
  | some name => .error (.unknownColumn name)
  | none =>
    if !item.contains format.key.name then .error (.missingKey format.key.name)
    else
      match fields item format.columns with
      | .error e => .error e
      | .ok fields =>
        let body := format.presence item ++ fields
        if Frame.bodyLimit < body.length then .error (.recordTooLarge body.length)
        else .ok (Frame.ofBody body)

/-- The bytes by which a primary key is looked up: those of the key's field, without the length
of a text. -/
def encodeKey (format : RecordFormat) (key : Value) : Except Failure Bytes :=
  if key.type ≠ format.key.type then
    .error (.typeMismatch format.key.name format.key.type key.type)
  else .ok (Field.payload key)

/-! ## Reading -/

/-- Checks the framing of a record, and returns its body. -/
def body (record : Bytes) : Except RecordFault Bytes :=
  match Bytes.split? Frame.width record with
  | none => .error (.noLength record.length)
  | some (lead, body) =>
    let length := LittleEndian.decode lead
    if body.length < length then .error (.tooLong length body.length)
    else if length < body.length then .error (.tooShort length (body.length - length))
    else .ok body

/-- Checks the framing and the bitmap of a record, and returns the bitmap and the fields. -/
def split (format : RecordFormat) (record : Bytes) : Except RecordFault (Bytes × Bytes) :=
  match body record with
  | .error fault => .error fault
  | .ok body =>
    match Bytes.split? format.bitmapLength body with
    | none => .error .noPresence
    | some (bitmap, fields) =>
      match Presence.stray? bitmap format.columns.length with
      | some bit => .error (.strayPresence bit format.columns.length)
      | none =>
        if Presence.isSet bitmap format.keyPosition then .ok (bitmap, fields)
        else .error (.keyAbsent format.key.name)

/-- The columns with their presence bits. -/
def marked (format : RecordFormat) (bitmap : Bytes) : List (Column × Bool) :=
  format.columns.zip (Presence.bits bitmap)

/-- Reads the fields of the present columns into an item, and returns the bytes left over. -/
def readFields (item : Item) :
    List (Column × Bool) → Bytes → Except RecordFault (Item × Bytes)
  | [], bytes => .ok (item, bytes)
  | (_, false) :: rest, bytes => readFields item rest bytes
  | (column, true) :: rest, bytes =>
    match Field.read column.type column.name bytes with
    | .error fault => .error fault
    | .ok (value, bytes) => readFields (item.insert column.name value) rest bytes

/-- The item that a record spells, or the first fault in the record. -/
def read (format : RecordFormat) (record : Bytes) : Except RecordFault Item :=
  match format.split record with
  | .error fault => .error fault
  | .ok (bitmap, fields) =>
    match readFields ∅ (format.marked bitmap) fields with
    | .error fault => .error fault
    | .ok (item, rest) =>
      if rest.length ≠ 0 then .error (.trailing rest.length) else .ok item

/-- The payload of the present column that stands `skipped` places on, the fields before it being
skipped unread. -/
def readKeyField (skipped : Nat) : List (Column × Bool) → Bytes → Except RecordFault Bytes
  | [], _ => .error .keyMissing
  | (_, false) :: rest, bytes =>
    match skipped with
    | 0 => .error .keyMissing
    | skipped + 1 => readKeyField skipped rest bytes
  | (column, true) :: rest, bytes =>
    match Field.take column.type column.name bytes with
    | .error fault => .error fault
    | .ok (payload, bytes) =>
      match skipped with
      | 0 => .ok payload
      | skipped + 1 => readKeyField skipped rest bytes

/-- The bytes of a record's primary key. -/
def readKey (format : RecordFormat) (record : Bytes) : Except RecordFault Bytes :=
  match format.split record with
  | .error fault => .error fault
  | .ok (bitmap, fields) => readKeyField format.keyPosition (format.marked bitmap) fields

/-- Reads a record as part of an operation of the store. -/
def decode (format : RecordFormat) (record : Bytes) : Except Failure Item :=
  (format.read record).mapError .corruptRecord

/-- Reads the key of a record as part of an operation of the store. -/
def decodeKey (format : RecordFormat) (record : Bytes) : Except Failure Bytes :=
  (format.readKey record).mapError .corruptRecord

end RecordFormat

end TableStore
