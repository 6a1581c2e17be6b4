import TableStore.Checksum
import TableStore.Schema.Valid

/-!
# Schema descriptors

The descriptor of a table is its schema as bytes, without the table's name, which is that of the
directory the descriptor lies in. It consists of

* four bytes of magic and the version, a number of two bytes,
* the number of columns in two bytes, and for each column its name and one byte for its type,
* the name of the primary key,
* the checksum of all that in four bytes,

every name being preceded by its length in two bytes. Reading checks the checksum first, then each
part in turn, then that nothing is left over, and last that the schema is valid.
-/

namespace TableStore.Descriptor

/-- The bytes every descriptor starts with. -/
def magic : Bytes := [82, 76, 83, 67]

/-- The version of the format. -/
def version : Nat := 1

/-- The length of the checksum. -/
def checksumLength : Nat := 4

/-- The byte that stands for a column type. -/
def typeTag : ColumnType → UInt8
  | .integer => 1
  | .float => 2
  | .text => 3
  | .boolean => 4

/-- The column type that a byte stands for. -/
def typeOfTag? (tag : UInt8) : Option ColumnType :=
  if tag = 1 then some .integer
  else if tag = 2 then some .float
  else if tag = 3 then some .text
  else if tag = 4 then some .boolean
  else none

/-! ## Writing -/

/-- A name, preceded by its length. -/
def nameBytes (name : String) : Bytes :=
  LittleEndian.encode 2 name.utf8ByteSize ++ Utf8.encode name

/-- A column. -/
def columnBytes (column : Column) : Bytes :=
  nameBytes column.name ++ [typeTag column.type]

/-- All of a descriptor but the checksum. -/
def content (schema : Schema) : Bytes :=
  magic ++ LittleEndian.encode 2 version ++ LittleEndian.encode 2 schema.columns.length ++
    schema.columns.flatMap columnBytes ++ nameBytes schema.primaryKey

/-- Puts the checksum behind a byte string. -/
def withChecksum (bytes : Bytes) : Bytes :=
  bytes ++ LittleEndian.encode checksumLength (Checksum.crc32 bytes).toNat

/-- The descriptor of a valid schema. -/
def encode (schema : Schema) : Except Failure Bytes :=
  match schema.validate with
  | .error e => .error e
  | .ok () => .ok (withChecksum (content schema))

/-! ## Reading -/

/-- Reads a number of two bytes. -/
def takeNumber (bytes : Bytes) : Except DescriptorFault (Nat × Bytes) :=
  match Bytes.split? 2 bytes with
  | none => .error .lengthCut
  | some (digits, rest) => .ok (LittleEndian.decode digits, rest)

/-- Reads a name. -/
def takeName (bytes : Bytes) : Except DescriptorFault (String × Bytes) :=
  match takeNumber bytes with
  | .error fault => .error fault
  | .ok (length, rest) =>
    match Bytes.split? length rest with
    | none => .error .nameCut
    | some (name, rest) =>
      match Utf8.decode name with
      | .error fault => .error (.nameNotText fault)
      | .ok name => .ok (name, rest)

/-- Reads a column. -/
def takeColumn (bytes : Bytes) : Except DescriptorFault (Column × Bytes) :=
  match takeName bytes with
  | .error fault => .error fault
  | .ok (_, []) => .error .typeCut
  | .ok (name, tag :: rest) =>
    match typeOfTag? tag with
    | none => .error (.unknownType tag)
    | some type => .ok (⟨name, type⟩, rest)

/-- Reads so many columns, and puts them in reverse in front of those already read. -/
def takeColumns (read : List Column) :
    Nat → Bytes → Except DescriptorFault (List Column × Bytes)
  | 0, bytes => .ok (read.reverse, bytes)
  | count + 1, bytes =>
    match takeColumn bytes with
    | .error fault => .error fault
    | .ok (column, rest) => takeColumns (column :: read) count rest

/-- Reads the columns and the primary key, which must be all there is. -/
def readBody (name : String) (bytes : Bytes) : Except DescriptorFault Schema :=
  match takeNumber bytes with
  | .error fault => .error fault
  | .ok (count, bytes) =>
    match takeColumns [] count bytes with
    | .error fault => .error fault
    | .ok (columns, bytes) =>
      match takeName bytes with
      | .error fault => .error fault
      | .ok (key, []) => .ok ⟨name, columns, key⟩
      | .ok (_, rest) => .error (.trailing rest.length)

/-- Reads the magic, the version and the rest. -/
def readContent (name : String) (bytes : Bytes) : Except DescriptorFault Schema :=
  let found := bytes.take 4
  let number := LittleEndian.decode ((bytes.drop 4).take 2)
  if found ≠ magic then .error (.magic found)
  else if number ≠ version then .error (.version number)
  else readBody name (bytes.drop 6)

/-- The schema in a descriptor for the table called `name`, or the first fault. -/
def read (name : String) (bytes : Bytes) : Except DescriptorFault Schema :=
  if bytes.length < magic.length + 2 + checksumLength then .error (.tooShort bytes.length)
  else
    let content := bytes.take (bytes.length - checksumLength)
    let stored := bytes.drop (bytes.length - checksumLength)
    let computed := Checksum.crc32 content
    if LittleEndian.decode stored ≠ computed.toNat then
      .error (.checksum (UInt32.ofNat (LittleEndian.decode stored)) computed)
    else
      match readContent name content with
      | .error fault => .error fault
      | .ok schema =>
        match schema.check with
        | .error fault => .error (.schema fault)
        | .ok () => .ok schema

/-- Reads a descriptor as part of an operation of the store. -/
def decode (name : String) (bytes : Bytes) : Except Failure Schema :=
  (read name bytes).mapError .corruptSchema

end TableStore.Descriptor
