import TableStore.Number.Literal

/-!
# JSON trees and tokens

A JSON text is a sequence of tokens, and a well-formed sequence spells a tree. Trees keep what
the text says: numbers stay literals, members stay in order with their repetitions, and a string
with an unpaired surrogate escape, which spells no text, is kept as none. Whether such strings,
numbers out of range or deep nesting matter is for the reader of the tree to decide.
-/

namespace TableStore

/-- What a JSON string spells; none if it holds an unpaired surrogate. -/
abbrev JsonText := Option String

/-- A JSON tree. -/
inductive Json where
  | null
  | bool (b : Bool)
  | number (literal : Literal)
  | string (text : JsonText)
  | array (items : List Json)
  | object (members : List (JsonText × Json))
  deriving Repr, Inhabited

namespace Json

/-- A token of a JSON text. -/
inductive Token where
  | null
  | bool (b : Bool)
  | number (literal : Literal)
  | string (text : JsonText)
  | openArray
  | closeArray
  | openObject
  | closeObject
  | comma
  | colon
  deriving DecidableEq, Repr

/-! ## Properties of trees -/

mutual

/-- How many arrays and objects lie around the deepest part of a tree. -/
def depth : Json → Nat
  | .array items => depthItems items + 1
  | .object members => depthMembers members + 1
  | _ => 0

/-- The greatest depth among items. -/
def depthItems : List Json → Nat
  | [] => 0
  | item :: rest => max (depth item) (depthItems rest)

/-- The greatest depth among members. -/
def depthMembers : List (JsonText × Json) → Nat
  | [] => 0
  | (_, item) :: rest => max (depth item) (depthMembers rest)

end

mutual

/-- Whether every string in a tree spells a text and every number is in range. -/
def isExact : Json → Bool
  | .number literal => literal.toBinary64?.isSome
  | .string text => text.isSome
  | .array items => areExact items
  | .object members => haveExact members
  | _ => true

/-- Whether all items are exact. -/
def areExact : List Json → Bool
  | [] => true
  | item :: rest => isExact item && areExact rest

/-- Whether all members are exact, names included. -/
def haveExact : List (JsonText × Json) → Bool
  | [] => true
  | (name, item) :: rest => name.isSome && isExact item && haveExact rest

end

/-- The deepest nesting that is read. -/
def depthLimit : Nat := 127

/-- Whether a tree can be read as a whole: exact and not nested too deep. -/
def isReadable (tree : Json) : Bool :=
  tree.isExact && decide (tree.depth ≤ depthLimit)

/-! ## Trees as tokens -/

mutual

/-- The tokens of a tree. -/
def tokens : Json → List Token
  | .null => [.null]
  | .bool b => [.bool b]
  | .number literal => [.number literal]
  | .string text => [.string text]
  | .array items => .openArray :: itemTokens items ++ [.closeArray]
  | .object members => .openObject :: memberTokens members ++ [.closeObject]

/-- The tokens of items, with commas between them. -/
def itemTokens : List Json → List Token
  | [] => []
  | [item] => tokens item
  | item :: rest => tokens item ++ .comma :: itemTokens rest

/-- The tokens of members, with commas between them. -/
def memberTokens : List (JsonText × Json) → List Token
  | [] => []
  | [(name, item)] => .string name :: .colon :: tokens item
  | (name, item) :: rest => .string name :: .colon :: tokens item ++ .comma :: memberTokens rest

end

end Json

end TableStore
