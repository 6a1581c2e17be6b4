import TableStore.Command.Line
import TableStore.Engine
import TableStore.Json.Predicate
import TableStore.Json.Schema
import TableStore.Json.Text

/-!
# Running commands

A command opens an engine over the data directory, does its work and ends with lines of output, or
with an error. Items, keys, predicates and schemas are given as JSON; integers given for columns
of floating point numbers are converted, and `null` stands for no value.
-/

namespace TableStore

/-- Why a command fails. -/
inductive CommandFault where
  /-- The store reports a failure. -/
  | store (failure : Failure)
  /-- A JSON text does not spell what is asked for. -/
  | json
  /-- What is given for a column is not a value. -/
  | badValue (column : String)
  deriving DecidableEq, Repr

/-- The fault in words. -/
def CommandFault.message : CommandFault → String
  | .store failure => failure.message
  | .json => "Invalid JSON"
  | .badValue column =>
    s!"Invalid input: column '{column}': data did not match any variant of untagged enum Value"

/-- How a run of the program ends. -/
structure Exit where
  code : Nat
  output : String
  errors : String
  deriving DecidableEq, Repr

namespace Command

/-! ## Reading operands -/

/-- The value given for a column, as the column's type if possible. -/
def coerceTo (column : Option Column) (value : Value) : Value :=
  match column with
  | some column => value.coerce column.type
  | none => value

/-- The members of an object by name, the last one of a repeated name counting. -/
def membersByName (members : List (JsonText × Json)) : Std.ExtTreeMap String Json Utf8.order :=
  members.foldl (fun map (name, tree) => map.insert (name.getD "") tree) ∅

/-- The item with the given values, column by column. -/
def itemOfMembers (schema : Schema) (item : Item) :
    List (String × Json) → Except CommandFault Item
  | [] => .ok item
  | (_, .null) :: rest => itemOfMembers schema item rest
  | (name, tree) :: rest =>
    match Value.ofJson? tree with
    | none => .error (.badValue name)
    | some value =>
      itemOfMembers schema (item.insert name (coerceTo (schema.column? name) value)) rest

/-- The item that a text spells. -/
def readItem (schema : Schema) (text : String) : Except CommandFault Item :=
  match Json.parse? text with
  | some (.object members) =>
    if (Json.object members).isReadable then
      itemOfMembers schema ∅ (membersByName members).toList
    else .error .json
  | _ => .error .json

/-- The key that a text spells. For a key column of texts that is a JSON string, or else the text
itself; for other columns it is any value, or else the text itself. -/
def readKey (schema : Schema) (text : String) : Value :=
  let value := ((Json.parse? text).bind Value.ofJson?).getD (.text text)
  match schema.keyColumn? with
  | none => value
  | some column =>
    if column.type = .text then if value.type = .text then value else .text text
    else value.coerce column.type

/-- The schema that a text spells. -/
def readSchema (text : String) : Except CommandFault Schema :=
  match (Json.parse? text).bind Schema.ofJson? with
  | some schema => .ok schema
  | none => .error .json

/-- The predicate that a text spells. -/
def readPredicate (text : String) : Except CommandFault Predicate :=
  match (Json.parse? text).bind Predicate.ofJson? with
  | some predicate => .ok predicate
  | none => .error .json

/-! ## Doing the work -/

/-- Puts lines of output behind one another. -/
def lines (texts : List String) : String :=
  String.join (texts.map (· ++ "\n"))

/-- An item as a line of output. -/
def itemLine (item : Item) : String :=
  (Item.toJson item).render

/-- Creates a table. -/
def runCreate (engine : Engine) (disk : Disk) (text : String) :
    Except CommandFault String × Engine × Disk :=
  match readSchema text with
  | .error e => (.error e, engine, disk)
  | .ok schema =>
    match engine.createTable disk schema with
    | (.error e, engine, disk) => (.error (.store e), engine, disk)
    | (.ok (), engine, disk) => (.ok (lines [s!"Table '{schema.name}' created"]), engine, disk)

/-- Writes an item. -/
def runPut (engine : Engine) (disk : Disk) (name text : String) :
    Except CommandFault String × Engine × Disk :=
  match engine.table name with
  | .error e => (.error (.store e), engine, disk)
  | .ok table =>
    match readItem table.schema text with
    | .error e => (.error e, engine, disk)
    | .ok item =>
      match engine.put disk name item with
      | (.error e, engine, disk) => (.error (.store e), engine, disk)
      | (.ok (), engine, disk) => (.ok (lines ["OK"]), engine, disk)

/-- Looks up an item. -/
def runGet (engine : Engine) (disk : Disk) (name text : String) : Except CommandFault String :=
  match engine.table name with
  | .error e => .error (.store e)
  | .ok table =>
    match engine.get disk name (readKey table.schema text) with
    | .error e => .error (.store e)
    | .ok item => .ok (lines [itemLine item])

/-- Lists the items that satisfy a predicate. -/
def runFilter (engine : Engine) (disk : Disk) (name text : String) : Except CommandFault String :=
  match readPredicate text with
  | .error e => .error e
  | .ok predicate =>
    match engine.filter disk name predicate with
    | .error e => .error (.store e)
    | .ok items => .ok (lines (items.map itemLine))

/-- Shows the size of a table. -/
def runStats (engine : Engine) (name : String) : Except CommandFault String :=
  match engine.table name with
  | .error e => .error (.store e)
  | .ok table =>
    .ok (lines [s!"live_keys: {table.stats.liveKeys}", s!"log_bytes: {table.stats.logBytes}"])

/-- Compacts a table. -/
def runCompact (engine : Engine) (disk : Disk) (name : String) :
    Except CommandFault String × Engine × Disk :=
  match engine.compact disk name with
  | (.error e, engine, disk) => (.error (.store e), engine, disk)
  | (.ok done, engine, disk) =>
    let sizes := s!"{done.bytesBefore} -> {done.bytesAfter} bytes"
    (.ok (lines [s!"kept {done.recordsKept} records, {sizes}"]), engine, disk)

/-- Does what a command asks for, and returns its output. -/
def perform (engine : Engine) (disk : Disk) :
    Command → Except CommandFault String × Engine × Disk
  | .createTable schema => runCreate engine disk schema
  | .put table item => runPut engine disk table item
  | .get table key => (runGet engine disk table key, engine, disk)
  | .filter table predicate => (runFilter engine disk table predicate, engine, disk)
  | .tables => (.ok (lines engine.names), engine, disk)
  | .stats table => (runStats engine table, engine, disk)
  | .compact table => runCompact engine disk table

/-- The configuration that options ask for. -/
def config (options : Options) : Config :=
  { Config.default with
    dataDirectory := options.dataDirectory.getD Config.default.dataDirectory
    syncPolicy := if options.syncEveryWrite then .everyRecord else Config.default.syncPolicy }

/-- Opens the engine, does what a command asks for and flushes all tables. -/
def run (disk : Disk) (current : Path) (options : Options) (command : Command) :
    Except CommandFault String × Disk :=
  match Engine.openAt disk current (config options) with
  | (.error e, disk) => (.error (.store e), disk)
  | (.ok engine, disk) =>
    match perform engine disk command with
    | (.error e, _, disk) => (.error e, disk)
    | (.ok output, engine, disk) =>
      match engine.sync disk with
      | (.error e, _) => (.error (.store e), disk)
      | (.ok (), _) => (.ok output, disk)

end Command

/-- The name and version of the program. -/
def versionLine : String := "rowlog 0.1.0\n"

/-- Runs the program with the given arguments in the current directory. -/
def Request.execute (disk : Disk) (current : Path) (arguments : List String) : Exit × Disk :=
  match Request.ofArguments Options.none arguments with
  | .misuse => (⟨2, "", ""⟩, disk)
  | .version => (⟨0, versionLine, ""⟩, disk)
  | .run options command =>
    match Command.run disk current options command with
    | (.ok output, disk) => (⟨0, output, ""⟩, disk)
    | (.error fault, disk) => (⟨1, "", s!"Error: {fault.message}\n"⟩, disk)

end TableStore
