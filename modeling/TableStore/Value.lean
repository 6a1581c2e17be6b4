import Std.Data.ExtTreeMap
import TableStore.Number.FloatStyle
import TableStore.Text.Utf8

/-!
# Typed values and items

A column holds values of one of four types. An item is a row: a finite map from column names to
values, in the order of the names' bytes, so that two items are equal when they agree on every
name.
-/

namespace TableStore

/-- The type of a column. -/
inductive ColumnType where
  /-- A signed integer of 64 bits. -/
  | integer
  /-- A floating point number of 64 bits. -/
  | float
  /-- A text. -/
  | text
  /-- A truth value. -/
  | boolean
  deriving DecidableEq, Repr

namespace ColumnType

/-- The name of a type in messages and schemas. -/
def name : ColumnType → String
  | .integer => "Integer"
  | .float => "Float"
  | .text => "Text"
  | .boolean => "Boolean"

/-- The type with a given name. -/
def ofName? : String → Option ColumnType
  | "Integer" => some .integer
  | "Float" => some .float
  | "Text" => some .text
  | "Boolean" => some .boolean
  | _ => none

/-- Integers and floating point numbers can be compared with each other. -/
def isNumeric : ColumnType → Bool
  | .integer | .float => true
  | .text | .boolean => false

end ColumnType

/-- A value of one of the column types. -/
inductive Value where
  | integer (n : Int64)
  | float (x : Binary64)
  | boolean (b : Bool)
  | text (t : String)
  deriving DecidableEq, Repr

namespace Value

/-- The type a value belongs to. -/
def type : Value → ColumnType
  | .integer _ => .integer
  | .float _ => .float
  | .boolean _ => .boolean
  | .text _ => .text

/-- The value as one of the given type: itself if it has that type, and an integer as the nearest
floating point number. -/
def promote? (value : Value) (target : ColumnType) : Option Value :=
  match value, target with
  | .integer n, .float => some (.float (Binary64.ofInt n.toInt))
  | value, target => if value.type = target then some value else none

/-- The value promoted to a type where that is possible, and else unchanged. -/
def coerce (value : Value) (target : ColumnType) : Value :=
  (value.promote? target).getD value

/-- Floating point numbers in running text: never an exponent, no fraction on whole numbers. -/
def displayStyle : FloatStyle :=
  ⟨fun _ => true, false, .up⟩

/-- The smallest power of ten from which JSON has an exponent, and minus zero. -/
example : displayStyle.literal ⟨0x4341C37937E08000⟩ = ⟨false, 1 :: List.replicate 16 0, [], none⟩ ∧
    displayStyle.literal ⟨0x8000000000000000⟩ = ⟨true, [0], [], none⟩ := by
  decide +kernel

/-- A floating point number in running text. -/
def displayFloat (x : Binary64) : String :=
  if x.isNaN then "NaN"
  else if x.isFinite then String.ofList (displayStyle.literal x).chars
  else if x.isNegative then "-inf"
  else "inf"

/-- A value in running text. -/
def display : Value → String
  | .integer n => String.ofList (Literal.ofInt n.toInt).chars
  | .float x => displayFloat x
  | .boolean true => "true"
  | .boolean false => "false"
  | .text t => t

end Value

/-- A row: the values of the columns it has. -/
abbrev Item := Std.ExtTreeMap String Value Utf8.order

end TableStore
