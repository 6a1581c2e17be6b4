import TableStore.Filter.Predicate

/-!
# What can go wrong

Every failure of the store is a cause with the data it speaks about; the wording is in the
`message` functions. Failures of the file system carry their cause but no text of their own.
-/

namespace TableStore

/-- A failure of the file system. -/
inductive FileFault where
  | notFound
  | alreadyExists
  | notADirectory
  | isADirectory
  | nameTooLong
  | invalidArgument
  | fileTooLarge
  | unexpectedEnd
  | deviceFull
  | notSupported
  deriving DecidableEq, Repr

/-- What is wrong with a schema. -/
inductive SchemaFault where
  | noName
  | nameCharacters (name : String)
  | nameTooLong
  | noColumns
  | tooManyColumns (count : Nat)
  | noColumnName
  | columnNameTooLong (length : Nat)
  | duplicateColumn (name : String)
  | keyNotAColumn (name : String)
  deriving DecidableEq, Repr

/-- What is wrong with the bytes of a schema descriptor. -/
inductive DescriptorFault where
  | tooShort (length : Nat)
  | checksum (stored computed : UInt32)
  | magic (found : Bytes)
  | version (found : Nat)
  | lengthCut
  | nameCut
  | nameNotText (fault : Utf8.Fault)
  | typeCut
  | unknownType (tag : UInt8)
  | trailing (count : Nat)
  | schema (fault : SchemaFault)
  deriving DecidableEq, Repr

/-- What is wrong with the bytes of a record. -/
inductive RecordFault where
  | noLength (available : Nat)
  | tooLong (length available : Nat)
  | tooShort (length surplus : Nat)
  | noPresence
  | strayPresence (bit columns : Nat)
  | keyAbsent (column : String)
  | keyMissing
  | fieldCut (column : String)
  | textTooLong (length : Nat) (column : String)
  | badBoolean (byte : UInt8) (column : String)
  | notText (column : String) (fault : Utf8.Fault)
  | trailing (count : Nat)
  | pastEnd (offset logLength : Nat)
  | runsPastEnd (offset length logLength : Nat)
  deriving DecidableEq, Repr

/-- A failure of an operation of the store. -/
inductive Failure where
  | file (fault : FileFault)
  | logDisabled (path : String)
  | tableExists (name : String)
  | noTable (name : String)
  | invalidSchema (fault : SchemaFault)
  | corruptSchema (fault : DescriptorFault)
  | missingKey (column : String)
  | typeMismatch (column : String) (expected found : ColumnType)
  | unknownColumn (column : String)
  | noKey
  | unsupportedOperator (column : String) (op : Operator) (type : ColumnType)
  | corruptRecord (fault : RecordFault)
  | recordTooLarge (length : Nat)
  | noDataDirectory (path : String)
  deriving DecidableEq, Repr

/-! ## Wording -/

/-- The fault in words. -/
def SchemaFault.message : SchemaFault → String
  | .noName => "table name is empty"
  | .nameCharacters name =>
    s!"table name '{name}' may only contain ASCII letters, digits, '_' and '-'"
  | .nameTooLong => "table name too long"
  | .noColumns => "schema has no columns"
  | .tooManyColumns count => s!"{count} columns exceeds the limit of 65535"
  | .noColumnName => "column name is empty"
  | .columnNameTooLong length => s!"column name of {length} bytes too long"
  | .duplicateColumn name => s!"duplicate column '{name}'"
  | .keyNotAColumn name => s!"primary key '{name}' is not a column"

/-- A 32-bit word as eight hexadecimal digits. -/
def wordText (word : UInt32) : String :=
  let digits := Nat.toDigits 16 word.toNat
  String.ofList (List.replicate (8 - digits.length) '0' ++ digits)

/-- A list of bytes as decimal numbers in brackets. -/
def bytesText (bytes : Bytes) : String :=
  "[" ++ String.intercalate ", " (bytes.map fun b => toString b.toNat) ++ "]"

/-- The fault in words. -/
def DescriptorFault.message : DescriptorFault → String
  | .tooShort length => s!"descriptor too short ({length} bytes)"
  | .checksum stored computed =>
    s!"checksum mismatch: stored {wordText stored}, computed {wordText computed}"
  | .magic found => s!"invalid magic {bytesText found}"
  | .version found => s!"unsupported version {found}"
  | .lengthCut => "truncated length field"
  | .nameCut => "truncated name"
  | .nameNotText fault => s!"name is not UTF-8: {fault.message}"
  | .typeCut => "truncated column type"
  | .unknownType tag => s!"unknown type tag {tag.toNat}"
  | .trailing count => s!"{count} trailing bytes"
  | .schema fault => s!"Invalid schema: {fault.message}"

/-- The fault in words. -/
def RecordFault.message : RecordFault → String
  | .noLength available => s!"record shorter than length prefix ({available} bytes)"
  | .tooLong length available => s!"record length {length} exceeds available {available} bytes"
  | .tooShort length surplus => s!"record length {length} leaves {surplus} unaccounted bytes"
  | .noPresence => "record shorter than presence bitmap"
  | .strayPresence bit columns => s!"presence bit {bit} set beyond {columns} columns"
  | .keyAbsent column => s!"primary key '{column}' not present"
  | .keyMissing => "primary key field missing"
  | .fieldCut column => s!"field '{column}' truncated"
  | .textTooLong length column => s!"text length {length} of column '{column}' overruns record"
  | .badBoolean byte column => s!"invalid boolean byte {byte.toNat} in column '{column}'"
  | .notText column fault => s!"invalid UTF-8 in column '{column}': {fault.message}"
  | .trailing count => s!"{count} trailing bytes after last field"
  | .pastEnd offset logLength => s!"offset {offset} is past end of log ({logLength} bytes)"
  | .runsPastEnd offset length logLength =>
    s!"record at {offset} with length {length} reads past end of log ({logLength} bytes)"

namespace Failure

/-- The failure in words. -/
def message : Failure → String
  | .file _ => "IO error"
  | .logDisabled path => s!"IO error: log {path} is unusable after a failed rollback"
  | .tableExists name => s!"Table '{name}' already exists"
  | .noTable name => s!"Table '{name}' not found"
  | .invalidSchema fault => s!"Invalid schema: {fault.message}"
  | .corruptSchema fault => s!"Schema descriptor corrupted: {fault.message}"
  | .missingKey column => s!"Item must contain primary key '{column}'"
  | .typeMismatch column expected found =>
    s!"Type mismatch on column '{column}': expected {expected.name}, got {found.name}"
  | .unknownColumn column => s!"Unknown column '{column}'"
  | .noKey => "Key not found"
  | .unsupportedOperator column op type =>
    s!"Operator {op.symbol} is not supported on {type.name} column '{column}'"
  | .corruptRecord fault => s!"Corrupt record: {fault.message}"
  | .recordTooLarge length => s!"Record too large: {length} bytes"
  | .noDataDirectory path => s!"Configuration error: data directory '{path}' does not exist"

end Failure

end TableStore
