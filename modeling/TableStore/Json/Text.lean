import TableStore.Json.Token

/-!
# Reading and writing JSON texts

The tokens of a text are read by a machine whose state is the stack of arrays and objects that
are still open and what may come next. It accepts exactly the sequences that spell one tree.
-/

namespace TableStore.Json

/-- An array or object that is still open, its parts so far being in reverse. -/
inductive Frame where
  /-- An array after these items. -/
  | array (before : List Json)
  /-- An object after these members. -/
  | object (before : List (JsonText × Json))
  /-- An object in the middle of the member with this name. -/
  | member (before : List (JsonText × Json)) (name : JsonText)

/-- What may come next. -/
inductive Expected where
  /-- A value. -/
  | value
  /-- A value or the end of the array just opened. -/
  | item
  /-- The name of a member. -/
  | name
  /-- The name of a member or the end of the object just opened. -/
  | member
  /-- The colon after a name. -/
  | colon (name : JsonText)
  /-- What follows a finished value. -/
  | after (value : Json)

/-- The state of reading. -/
structure Reading where
  stack : List Frame
  expected : Expected

namespace Reading

/-- Starts a value. -/
def startValue (stack : List Frame) : Token → Option Reading
  | .null => some ⟨stack, .after .null⟩
  | .bool b => some ⟨stack, .after (.bool b)⟩
  | .number literal => some ⟨stack, .after (.number literal)⟩
  | .string text => some ⟨stack, .after (.string text)⟩
  | .openArray => some ⟨.array [] :: stack, .item⟩
  | .openObject => some ⟨.object [] :: stack, .member⟩
  | _ => none

/-- Starts a member. -/
def startMember (stack : List Frame) : Token → Option Reading
  | .string name => some ⟨stack, .colon name⟩
  | _ => none

/-- Goes on after a finished value. -/
def continueAfter (value : Json) : List Frame → Token → Option Reading
  | .array before :: stack, .comma => some ⟨.array (value :: before) :: stack, .value⟩
  | .array before :: stack, .closeArray =>
    some ⟨stack, .after (.array (value :: before).reverse)⟩
  | .member before name :: stack, .comma =>
    some ⟨.object ((name, value) :: before) :: stack, .name⟩
  | .member before name :: stack, .closeObject =>
    some ⟨stack, .after (.object ((name, value) :: before).reverse)⟩
  | _, _ => none

/-- Reads one token. -/
def step (reading : Reading) (token : Token) : Option Reading :=
  match reading.expected, reading.stack, token with
  | .item, .array _ :: stack, .closeArray => some ⟨stack, .after (.array [])⟩
  | .member, .object _ :: stack, .closeObject => some ⟨stack, .after (.object [])⟩
  | .colon name, .object before :: stack, .colon => some ⟨.member before name :: stack, .value⟩
  | .value, stack, token | .item, stack, token => startValue stack token
  | .name, stack, token | .member, stack, token => startMember stack token
  | .after value, stack, token => continueAfter value stack token
  | .colon _, _, _ => none

/-- The value read, if it is complete. -/
def result? : Reading → Option Json
  | ⟨[], .after value⟩ => some value
  | _ => none

end Reading

/-- The tree that tokens spell. -/
def ofTokens? (tokens : List Token) : Option Json :=
  match tokens.foldlM Reading.step ⟨[], .value⟩ with
  | none => none
  | some reading => reading.result?

/-- The tree that a text spells. -/
def parse? (text : String) : Option Json :=
  match Token.ofChars text.toList with
  | none => none
  | some tokens => ofTokens? tokens

/-- A tree as text, without blanks. -/
def render (tree : Json) : String :=
  String.ofList (tree.tokens.flatMap Token.chars)

end TableStore.Json
