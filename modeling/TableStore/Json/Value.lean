import TableStore.Json.Fields
import TableStore.Value

/-!
# Values and items in JSON

A number without fraction and exponent that fits 64 bits is an integer, any other number a
floating point number, and so is minus zero. Floating point numbers are therefore always written
with a fraction or an exponent. An item is an object; of a repeated name the last member counts.
-/

-- Powers are those of the core library, whatever is imported beside it.
attribute [local instance (1100)] instPowNat

namespace TableStore

namespace Value

/-- Floating point numbers in JSON: with an exponent below `10 ^ (-5)` and from `10 ^ 16` on. -/
def jsonStyle : FloatStyle :=
  ⟨fun e => decide (-5 ≤ e ∧ e < 16), true, .toEven⟩

/-- One tenth, and ten to the sixteenth. -/
example : jsonStyle.literal ⟨0x3FB999999999999A⟩ = ⟨false, [0], [1], none⟩ ∧
    jsonStyle.literal ⟨0x4341C37937E08000⟩ = ⟨false, [1], [], some (false, [1, 6])⟩ := by
  decide +kernel

/-- A value in JSON; numbers that are not finite have none and become `null`. -/
def toJson : Value → Json
  | .integer n => .number (Literal.ofInt n.toInt)
  | .float x => if x.isFinite then .number (jsonStyle.literal x) else .null
  | .boolean b => .bool b
  | .text t => Json.ofText t

/-- Whether an integer fits 64 bits. -/
def fitsInteger (n : Int) : Bool :=
  decide (-(2 ^ (63 : Nat)) ≤ n ∧ n < 2 ^ (63 : Nat))

/-- The value of a number, if it is in range. -/
def ofLiteral? (literal : Literal) : Option Value :=
  let minusZero := literal.negative && literal.toInt == 0
  if literal.isWhole && !minusZero && fitsInteger literal.toInt then
    some (.integer (Int64.ofInt literal.toInt))
  else literal.toBinary64?.map .float

/-- The value that a tree spells. -/
def ofJson? : Json → Option Value
  | .bool b => some (.boolean b)
  | .number literal => ofLiteral? literal
  | .string spelled => spelled.map .text
  | _ => none

end Value

namespace Item

/-- An item in JSON. -/
def toJson (item : Item) : Json :=
  Json.ofFields (item.toList.map fun (name, value) => (name, value.toJson))

/-- Adds members to an item, a later one replacing an earlier one of the same name. -/
def addMembers? (item : Item) : List (JsonText × Json) → Option Item
  | [] => some item
  | (name, tree) :: rest =>
    match name, Value.ofJson? tree with
    | some name, some value => addMembers? (item.insert name value) rest
    | _, _ => none

/-- The item that a tree spells. -/
def ofJson? : Json → Option Item
  | .object members => addMembers? ∅ members
  | _ => none

end Item

end TableStore
