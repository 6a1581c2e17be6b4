import Std.Data.TreeSet
import TableStore.Failure
import TableStore.Schema.Basic

/-!
# Valid schemas

A table can be created from a schema whose name can serve as a directory name and whose columns
have distinct names that fit the descriptor, the primary key being one of them. The check reports
the first fault in the order name, number of columns, each column in turn, primary key.
-/

namespace TableStore.Schema

/-- The largest number of columns, and of bytes in a name, that a descriptor can hold. -/
def limit : Nat := 65535

/-- The characters allowed in table names: ASCII letters, digits, `_` and `-`. -/
def isNameChar (c : Char) : Bool :=
  c.isAlphanum || c == '_' || c == '-'

/-- Checks the name of a table. -/
def checkName (name : String) : Except SchemaFault Unit :=
  if name.isEmpty then .error .noName
  else if !name.toList.all isNameChar then .error (.nameCharacters name)
  else if limit < name.utf8ByteSize then .error .nameTooLong
  else .ok ()

/-- Checks the number of columns. -/
def checkCount (count : Nat) : Except SchemaFault Unit :=
  if count = 0 then .error .noColumns
  else if limit < count then .error (.tooManyColumns count)
  else .ok ()

/-- Checks the columns one after the other against the names seen before them, and returns all
the names. -/
def checkColumns (seen : Std.TreeSet String) :
    List Column → Except SchemaFault (Std.TreeSet String)
  | [] => .ok seen
  | column :: rest =>
    if column.name.isEmpty then .error .noColumnName
    else if limit < column.name.utf8ByteSize then
      .error (.columnNameTooLong column.name.utf8ByteSize)
    else if seen.contains column.name then .error (.duplicateColumn column.name)
    else checkColumns (seen.insert column.name) rest

/-- Checks that the primary key is one of the names. -/
def checkKey (names : Std.TreeSet String) (key : String) : Except SchemaFault Unit :=
  if names.contains key then .ok () else .error (.keyNotAColumn key)

/-- Checks a schema, and reports its first fault. -/
def check (schema : Schema) : Except SchemaFault Unit := do
  checkName schema.name
  checkCount schema.columns.length
  let names ← checkColumns ∅ schema.columns
  checkKey names schema.primaryKey

/-- Checks a schema as part of an operation of the store. -/
def validate (schema : Schema) : Except Failure Unit :=
  schema.check.mapError .invalidSchema

end TableStore.Schema
