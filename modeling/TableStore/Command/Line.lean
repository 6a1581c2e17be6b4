/-!
# Command lines

A command line consists of options, a command, and exactly the operands of that command. Options
stand before the command. What starts with a dash is taken for an option unless it stands behind
two dashes; a single dash is an operand.
-/

namespace TableStore

/-- What the program can be asked to do. -/
inductive Command where
  | createTable (schema : String)
  | put (table item : String)
  | get (table key : String)
  | filter (table predicate : String)
  | tables
  | stats (table : String)
  | compact (table : String)
  deriving DecidableEq, Repr

/-- The options in front of the command. -/
structure Options where
  /-- The data directory, if one is given. -/
  dataDirectory : Option String
  syncEveryWrite : Bool
  deriving DecidableEq, Repr

/-- What a command line asks for. -/
inductive Request where
  | run (options : Options) (command : Command)
  | version
  | misuse
  deriving DecidableEq, Repr

namespace Command

/-- Whether an argument is taken for an option. -/
def isOption (argument : String) : Bool :=
  decide (argument.toList.head? = some '-') && argument != "-"

/-- The operands among the arguments behind a command, if there is no option among them. -/
def operands? : List String → Option (List String)
  | [] => some []
  | argument :: rest =>
    if argument = "--" then some rest
    else if isOption argument then none
    else (operands? rest).map (argument :: ·)

/-- The command with a given name and operands. -/
def ofOperands? : String → List String → Option Command
  | "create-table", [schema] => some (.createTable schema)
  | "put", [table, item] => some (.put table item)
  | "get", [table, key] => some (.get table key)
  | "filter", [table, predicate] => some (.filter table predicate)
  | "tables", [] => some .tables
  | "stats", [table] => some (.stats table)
  | "compact", [table] => some (.compact table)
  | _, _ => none

/-- The command with a given name and the arguments behind it. -/
def ofArguments? (name : String) (arguments : List String) : Option Command :=
  (operands? arguments).bind (ofOperands? name)

end Command

namespace Options

/-- No options. -/
def none : Options := ⟨.none, false⟩

/-- Gives a data directory, which must have a name and can be given only once. -/
def withDataDirectory? (options : Options) (path : String) : Option Options :=
  if options.dataDirectory.isSome || path.isEmpty then .none
  else some { options with dataDirectory := some path }

/-- Asks for a flush after every write, which can be done only once. -/
def withSync? (options : Options) : Option Options :=
  if options.syncEveryWrite then .none else some { options with syncEveryWrite := true }

end Options

/-- What an argument in front of the command is. -/
inductive OptionWord where
  /-- The data directory follows as an argument of its own. -/
  | directoryNext
  /-- The data directory is part of the argument. -/
  | directory (path : String)
  | sync
  | version
  | unknown
  /-- Not an option. -/
  | word
  deriving DecidableEq, Repr

/-- The text behind a given beginning, if the argument begins so. -/
def behind? (argument beginning : String) : Option String :=
  if beginning.toList.isPrefixOf argument.toList then
    some (String.ofList (argument.toList.drop beginning.toList.length))
  else none

/-- Tells what an argument in front of the command is. A data directory right behind the letter
`d` may be set off by an equals sign, which does not belong to it. -/
def OptionWord.ofArgument (argument : String) : OptionWord :=
  if argument = "--version" then .version
  else if argument = "--sync-every-write" then .sync
  else if argument = "--data-dir" ∨ argument = "-d" then .directoryNext
  else
    match behind? argument "--data-dir=", behind? argument "-d", behind? argument "-V" with
    | some path, _, _ => .directory path
    | none, some path, _ => .directory ((behind? path "=").getD path)
    | none, none, some _ => .version
    | none, none, none => if Command.isOption argument then .unknown else .word

/-- Reads a command line, some options having been read. -/
def Request.ofArguments (options : Options) : List String → Request
  | [] => .misuse
  | argument :: rest =>
    match OptionWord.ofArgument argument with
    | .version => .version
    | .unknown => .misuse
    | .sync =>
      match options.withSync? with
      | some options => ofArguments options rest
      | none => .misuse
    | .directory path =>
      match options.withDataDirectory? path with
      | some options => ofArguments options rest
      | none => .misuse
    | .directoryNext =>
      match rest with
      | [] => .misuse
      | path :: rest =>
        if Command.isOption path then .misuse
        else
          match options.withDataDirectory? path with
          | some options => ofArguments options rest
          | none => .misuse
    | .word =>
      match Command.ofArguments? argument rest with
      | some command => .run options command
      | none => .misuse

end TableStore
