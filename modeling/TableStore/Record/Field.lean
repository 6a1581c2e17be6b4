import TableStore.Failure

/-!
# Fields of a record

A value is written as its bytes: integers and floating point numbers as eight, truth values as one
that is zero or one, and texts as the number of their bytes in four and then these bytes.
Reading takes the payload of a field off the front of the bytes first and then turns it into a
value, so that a field can be skipped without looking into it.
-/

-- Powers are those of the core library, whatever is imported beside it.
attribute [local instance (1100)] instPowNat

namespace TableStore.Field

/-- The largest number that a length of four bytes can hold. -/
def lengthLimit : Nat := 2 ^ (32 : Nat) - 1

/-! ## Writing -/

/-- The bytes of a value without the length of a text. -/
def payload : Value → Bytes
  | .integer n => LittleEndian.encode 8 n.toUInt64.toNat
  | .float x => LittleEndian.encode 8 x.bits.toNat
  | .boolean b => [if b then 1 else 0]
  | .text t => Utf8.encode t

/-- The bytes of a value. -/
def encode (value : Value) : Except Failure Bytes :=
  match value with
  | .text t =>
    if lengthLimit < t.utf8ByteSize then .error (.recordTooLarge t.utf8ByteSize)
    else .ok (LittleEndian.encode 4 t.utf8ByteSize ++ payload value)
  | value => .ok (payload value)

/-! ## Reading -/

/-- Takes a payload of known length off the front. -/
def takeBytes (length : Nat) (column : String) (bytes : Bytes) :
    Except RecordFault (Bytes × Bytes) :=
  match Bytes.split? length bytes with
  | none => .error (.fieldCut column)
  | some split => .ok split

/-- Takes the payload of a field off the front, and returns it with what follows the field. -/
def take (type : ColumnType) (column : String) (bytes : Bytes) :
    Except RecordFault (Bytes × Bytes) :=
  match type with
  | .integer | .float => takeBytes 8 column bytes
  | .boolean => takeBytes 1 column bytes
  | .text =>
    match takeBytes 4 column bytes with
    | .error fault => .error fault
    | .ok (lead, rest) =>
      match Bytes.split? (LittleEndian.decode lead) rest with
      | none => .error (.textTooLong (LittleEndian.decode lead) column)
      | some split => .ok split

/-- The value that a payload spells. -/
def ofPayload (type : ColumnType) (column : String) (payload : Bytes) :
    Except RecordFault Value :=
  match type with
  | .integer => .ok (.integer (UInt64.ofNat (LittleEndian.decode payload)).toInt64)
  | .float => .ok (.float ⟨UInt64.ofNat (LittleEndian.decode payload)⟩)
  | .boolean =>
    let b := payload.headD 0
    if b = 0 then .ok (.boolean false)
    else if b = 1 then .ok (.boolean true)
    else .error (.badBoolean b column)
  | .text =>
    match Utf8.decode payload with
    | .ok t => .ok (.text t)
    | .error fault => .error (.notText column fault)

/-- Reads the value of a field at the front, and returns it with what follows the field. -/
def read (type : ColumnType) (column : String) (bytes : Bytes) :
    Except RecordFault (Value × Bytes) :=
  match take type column bytes with
  | .error fault => .error fault
  | .ok (payload, rest) =>
    match ofPayload type column payload with
    | .error fault => .error fault
    | .ok value => .ok (value, rest)

end TableStore.Field
